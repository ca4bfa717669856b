/-
  TenantSync.Proofs.Push.KeysBeside
  ─────────────────────────────────
  **INSTALLATION KEYS FROM TWO COUNTERS.**

  Two tenants hold the same installation keys, and their counters of identifiers are at
  different numbers.  A pass over keys decides the same in both, but a key that is made
  is held under one identifier here and another one there.  Still the passes go the
  same way: what is dropped was held before, under one identifier in both, and what is
  made has the same body and author.  So they come to one outcome and one log, and to
  keys that are the same but for their stamps, each as often in the one as in the other
  (`Pass.run_keysBeside`).

  All this takes counters that have room: as long as they do not begin anew, no key that
  is made takes the place of another one.
-/
import TenantSync.Proofs.Push.KeyDecisions

namespace TenantSync.Push

open Config Tenant

/-! ## §1. Room for identifiers. -/

/-- A state can give out `k` more identifiers, and none of them is among `ids`. -/
def Room (ids : List String) (k : Nat) (s : State) : Prop :=
  ∃ n, Numbered n s ∧ n + k < twoTo 64 ∧ ∀ id ∈ ids, ¬LateId n id

namespace Room

variable {ids : List String} {k : Nat} {s : State}

theorem mono {k' : Nat} (h : Room ids k s) (hle : k' ≤ k) : Room ids k' s := by
  obtain ⟨n, hn, hfew, hearly⟩ := h
  exact ⟨n, hn, by omega, hearly⟩

theorem erase (h : Room ids k s) (id : String) :
    Room ids k { s with installationKeys := s.installationKeys.erase id } := by
  obtain ⟨n, hn, hfew, hearly⟩ := h
  exact ⟨n, hn.erase id, hfew, hearly⟩

theorem make (h : Room ids (k + 1) s) (now : Timestamp) (key : InstallationKey) :
    Room ids k (withKey now key s).2 := by
  obtain ⟨n, hn, hfew, hearly⟩ := h
  refine ⟨n + 1, hn.make (by omega) now key, by omega, fun id hid hlate => ?_⟩
  exact hearly id hid (hlate.mono (Nat.le_succ n))

/-- The next identifier is not held. -/
theorem fresh (h : Room ids (k + 1) s) :
    s.installationKeys.get? (State.keyId (s.idCounter + 1)) = none := by
  obtain ⟨n, hn, hfew, -⟩ := h
  exact hn.fresh (by omega)

/-- The next identifier is not among those that were there before. -/
theorem next_not_mem (h : Room ids (k + 1) s) : State.keyId (s.idCounter + 1) ∉ ids := by
  obtain ⟨n, hn, hfew, hearly⟩ := h
  exact fun hid => hearly _ hid (hn.late_next (by omega))

end Room

/-! ## §2. Keys beside each other. -/

/-- What of an element does not depend on when it was stored: its body and its author. -/
def authored {α : Type} (r : Remote α) : α × Option String := (r.body, r.info.createdBy)

/-- The bodies of the installation keys, and who made them. -/
def authoredKeys (s : State) : List (InstallationKey × Option String) :=
  s.installationKeys.values.map authored

/-- A key that is made is put among the others. -/
theorem authoredKeys_make {ids : List String} {k : Nat} {s : State} (h : Room ids (k + 1) s)
    (now : Timestamp) (key : InstallationKey) :
    (authoredKeys (withKey now key s).2).Perm ((key, some State.author) :: authoredKeys s) :=
  (NameMap.values_insert h.fresh).map authored

/-- A key that is dropped is taken out of the others. -/
theorem authoredKeys_erase {s : State} {id : String} {key : Remote InstallationKey}
    (h : s.installationKeys.get? id = some key) :
    (authoredKeys s).Perm (authored key
      :: authoredKeys { s with installationKeys := s.installationKeys.erase id }) :=
  (NameMap.values_erase h).map authored

/-- Two tenants hold the same keys under some identifiers, and keys that are the same but
for their stamps under all; they have room for `k` more.  Of their logs, what came after
two beginnings. -/
structure KeysBeside (ids : List String) (k : Nat) (before before' : List Mutation)
    (t u : Tenant) : Prop where
  early : ∀ id ∈ ids, u.state.installationKeys.get? id = t.state.installationKeys.get? id
  keys : (authoredKeys t.state).Perm (authoredKeys u.state)
  room : Room ids k t.state
  room' : Room ids k u.state
  quiet : t.faults.Quiet
  quiet' : u.faults.Quiet
  log : ∃ logged, t.log = before ++ logged ∧ u.log = before' ++ logged

/-- A change that the state allows is made, if no fault is met. -/
theorem changing_quiet {α : Type} {t : Tenant} (h : t.faults.Quiet) (site : CallSite) (a : α)
    (s : State) (m : Mutation) :
    t.changing site (.ok (a, s, m))
      = (.ok a, { t.counted site with state := s, log := t.log ++ [m] }) := by
  unfold changing
  rw [h site]

section Calls

variable {ids : List String} {k : Nat} {before before' : List Mutation} {t u : Tenant}
  {id : String}

theorem KeysBeside.mono {k' : Nat} (h : KeysBeside ids k before before' t u) (hle : k' ≤ k) :
    KeysBeside ids k' before before' t u :=
  { h with room := h.room.mono hle, room' := h.room'.mono hle }

theorem KeysBeside.counted (h : KeysBeside ids k before before' t u) (site : CallSite) :
    KeysBeside ids k before before' (t.counted site) (u.counted site) where
  early := h.early
  keys := h.keys
  room := h.room
  room' := h.room'
  quiet := h.quiet.weaker (Faults.check_weaker t.faults site)
  quiet' := h.quiet'.weaker (Faults.check_weaker u.faults site)
  log := h.log

/-- A mutation is put into both logs. -/
theorem log_beside (m : Mutation)
    (h : ∃ logged, t.log = before ++ logged ∧ u.log = before' ++ logged) :
    ∃ logged, t.log ++ [m] = before ++ logged ∧ u.log ++ [m] = before' ++ logged := by
  obtain ⟨logged, ht, hu⟩ := h
  exact ⟨logged ++ [m], by rw [ht, List.append_assoc], by rw [hu, List.append_assoc]⟩

/-- Making a key goes through in both, under an identifier that is new to each. -/
theorem create_beside (body : InstallationKey) (h : KeysBeside ids (k + 1) before before' t u) :
    (exec (Store.installationKeys.create id body) t).1
        = (exec (Store.installationKeys.create id body) u).1
      ∧ KeysBeside ids k before before' (exec (Store.installationKeys.create id body) t).2
          (exec (Store.installationKeys.create id body) u).2 := by
  let key : InstallationKey := { body with desc := id }
  let site : CallSite := ⟨.create, .installationKey⟩
  have hexec : ∀ {t : Tenant}, t.faults.Quiet → exec (Store.installationKeys.create id body) t
      = (.ok (), { t.counted site with
          state := (withKey t.now key t.state).2
          log := t.log ++ [⟨.created, .installationKey, id⟩] }) := by
    intro t hquiet
    show exec (createInstallationKey key >>= fun _ => pure ()) t = _
    rw [exec_bind, exec_createInstallationKey, changing_quiet hquiet]
    rfl
  rw [hexec h.quiet, hexec h.quiet']
  have hcounted := h.counted site
  refine ⟨rfl, fun i hi => ?_, ?_, h.room.make _ key, h.room'.make _ key, hcounted.quiet,
    hcounted.quiet', log_beside _ h.log⟩
  · -- what was held before is not touched in either
    show (withKey u.now key u.state).2.installationKeys.get? i
      = (withKey t.now key t.state).2.installationKeys.get? i
    rw [get?_withKey, get?_withKey, if_neg, if_neg, h.early i hi]
    · rintro rfl
      exact h.room.next_not_mem hi
    · rintro rfl
      exact h.room'.next_not_mem hi
  · have ht := authoredKeys_make h.room t.now key
    have hu := authoredKeys_make h.room' u.now key
    exact ht.trans ((h.keys.cons (key, some State.author)).trans hu.symm)

/-- A key that was held before is dropped in both, or is there in neither. -/
theorem delete_beside (id : String) {held : Remote InstallationKey}
    (hheld : ∀ id, held.info.id = some id → id ∈ ids)
    (h : KeysBeside ids k before before' t u) :
    (exec (Store.installationKeys.delete id held) t).1
        = (exec (Store.installationKeys.delete id held) u).1
      ∧ KeysBeside ids k before before' (exec (Store.installationKeys.delete id held) t).2
          (exec (Store.installationKeys.delete id held) u).2 := by
  simp only [Store.installationKeys]
  cases hid : held.info.id with
  | none => exact ⟨rfl, h⟩
  | some keyId =>
      have hearly := h.early keyId (hheld keyId hid)
      have hcounted := h.counted ⟨.delete, .installationKey⟩
      simp only
      rw [exec_deleteInstallationKey, exec_deleteInstallationKey]
      unfold withoutKey
      rw [hearly]
      cases hkey : t.state.installationKeys.get? keyId with
      | none =>
          unfold changing
          rw [h.quiet, h.quiet']
          exact ⟨rfl, hcounted⟩
      | some key =>
          simp only
          rw [changing_quiet h.quiet, changing_quiet h.quiet']
          refine ⟨rfl, fun i hi => ?_, ?_, h.room.erase keyId, h.room'.erase keyId,
            hcounted.quiet, hcounted.quiet', log_beside _ h.log⟩
          · show (u.state.installationKeys.erase keyId).get? i
              = (t.state.installationKeys.erase keyId).get? i
            rw [NameMap.get?_erase, NameMap.get?_erase, h.early i hi]
          · -- one key is taken out of both
            have ht := authoredKeys_erase hkey
            have hu := authoredKeys_erase (hearly.trans hkey)
            exact (ht.symm.trans (h.keys.trans hu)).cons_inv

/-! ## §3. Decisions beside each other. -/

/-- A key is replaced by dropping it and making another one. -/
theorem exec_call_replace (id : String) (body : InstallationKey) (held : Remote InstallationKey)
    (t : Tenant) :
    exec ((Decision.replace id body held).call Store.installationKeys) t
      = match exec (Store.installationKeys.delete id held) t with
        | (.ok _, t') => exec (Store.installationKeys.create id body) t'
        | (.error e, t') => (.error e, t') := by
  show exec (Store.installationKeys.delete id held >>= fun _ =>
    Store.installationKeys.create id body) t = _
  rw [exec_bind]
  rcases exec (Store.installationKeys.delete id held) t with ⟨_ | _, _⟩ <;> rfl

/-- A decision that drops nothing but what was held before comes to the same in both. -/
theorem call_beside {d : Decision InstallationKey} (hdrops : ∀ id, .drop id ∈ d.keySteps → id ∈ ids)
    (h : KeysBeside ids (d.keySteps.countP KeyStep.isMake + k) before before' t u) :
    (exec (d.call Store.installationKeys) t).1 = (exec (d.call Store.installationKeys) u).1
      ∧ KeysBeside ids k before before' (exec (d.call Store.installationKeys) t).2
          (exec (d.call Store.installationKeys) u).2 := by
  cases d with
  | add id body => exact create_beside body (h.mono (Nat.le_of_eq (Nat.add_comm _ _)))
  | keep id => exact ⟨rfl, h.mono (Nat.le_add_left _ _)⟩
  | remove id held =>
      refine delete_beside id (fun keyId hid => hdrops keyId ?_) (h.mono (Nat.le_add_left _ _))
      simp [Decision.keySteps, hid]
  | replace id body held =>
      have hmakes : 0 < (Decision.replace id body held).keySteps.countP KeyStep.isMake :=
        List.countP_pos_iff.2 ⟨_, List.mem_append_right _ List.mem_cons_self, rfl⟩
      have hdrop : ∀ keyId, held.info.id = some keyId → keyId ∈ ids := by
        intro keyId hid
        exact hdrops keyId (by simp [Decision.keySteps, hid])
      obtain ⟨hresult, hbeside⟩ := delete_beside id hdrop (h.mono (by omega : k + 1 ≤ _))
      rw [exec_call_replace, exec_call_replace]
      rcases ht : exec (Store.installationKeys.delete id held) t with ⟨r, t₁⟩
      rcases hu : exec (Store.installationKeys.delete id held) u with ⟨r', u₁⟩
      rw [ht, hu] at hresult hbeside
      obtain rfl : r = r' := hresult
      cases r with
      | error e => exact ⟨rfl, hbeside.mono (Nat.le_succ k)⟩
      | ok a => exact create_beside body hbeside

theorem enact_beside {d : Decision InstallationKey} {mode : Mode} (hdry : mode.dryRun = false)
    (hdrops : ∀ id, .drop id ∈ d.keySteps → id ∈ ids)
    (h : KeysBeside ids (d.keySteps.countP KeyStep.isMake + k) before before' t u) :
    (execState (d.enact Store.installationKeys mode) t).1
        = (execState (d.enact Store.installationKeys mode) u).1
      ∧ KeysBeside ids k before before' (execState (d.enact Store.installationKeys mode) t).2
          (execState (d.enact Store.installationKeys mode) u).2 := by
  obtain ⟨hresult, hbeside⟩ := call_beside hdrops h
  rw [execState_enact, execState_enact, hdry]
  simp only [Bool.false_eq_true, if_false]
  rcases ht : exec (d.call Store.installationKeys) t with ⟨r, t'⟩
  rcases hu : exec (d.call Store.installationKeys) u with ⟨r', u'⟩
  rw [ht, hu] at hresult hbeside
  obtain rfl : r = r' := hresult
  cases r with
  | ok a => exact ⟨rfl, hbeside⟩
  | error e => exact ⟨rfl, hbeside⟩

theorem enactAll_beside {mode : Mode} (hdry : mode.dryRun = false)
    (ds : List (Decision InstallationKey)) :
    ∀ {t u : Tenant}, (∀ id, .drop id ∈ ds.flatMap Decision.keySteps → id ∈ ids) →
      KeysBeside ids ((ds.flatMap Decision.keySteps).countP KeyStep.isMake) before before' t u →
        (execState (enactAll Store.installationKeys mode ds) t).1
            = (execState (enactAll Store.installationKeys mode ds) u).1
          ∧ KeysBeside ids 0 before before'
              (execState (enactAll Store.installationKeys mode ds) t).2
              (execState (enactAll Store.installationKeys mode ds) u).2 := by
  -- by the decisions: each takes room for what it makes
  induction ds with
  | nil =>
      intro t u _ h
      exact ⟨rfl, h⟩
  | cons d ds ih =>
      intro t u hdrops h
      rw [List.flatMap_cons, List.countP_append] at h
      rw [List.flatMap_cons] at hdrops
      obtain ⟨hfirst, hbeside⟩ := enact_beside hdry
        (fun id hid => hdrops id (List.mem_append_left _ hid)) h
      obtain ⟨hrest, hend⟩ := ih (fun id hid => hdrops id (List.mem_append_right _ hid)) hbeside
      rw [execState_enactAll_cons, execState_enactAll_cons]
      simp only
      rw [hfirst, hrest]
      exact ⟨rfl, hend⟩

end Calls

/-! ## §4. The pass. -/

/-- **Passes over the same keys go the same way**, whatever the counters are at, if both
counters have room for what is made. -/
theorem Pass.run_keysBeside {n m : Nat} (table : List String) {mode : Mode} {c : Config}
    {t u : Tenant} (hdry : mode.dryRun = false)
    (hnodup : (identities Store.installationKeys c.installationKeys.entries).Nodup)
    (hsame : u.state.installationKeys = t.state.installationKeys)
    (hids : t.state.KeysKnowIds) (hquiet : t.faults.Quiet) (hquiet' : u.faults.Quiet)
    (hn : Numbered n t.state) (hm : Numbered m u.state)
    (hfew : n + (keySteps mode c t.state).countP KeyStep.isMake < twoTo 64)
    (hfew' : m + (keySteps mode c t.state).countP KeyStep.isMake < twoTo 64) :
    (exec (Pass.run table mode c .installationKeys) t).1
        = (exec (Pass.run table mode c .installationKeys) u).1
      ∧ KeysBeside t.state.installationKeys.keys 0 t.log u.log
          (exec (Pass.run table mode c .installationKeys) t).2
          (exec (Pass.run table mode c .installationKeys) u).2 := by
  let site : CallSite := ⟨.list, .installationKey⟩
  have hlist : ∀ {t : Tenant}, t.faults.Quiet →
      exec (Pass.run table mode c .installationKeys) t
        = (.ok (execState (enactAll Store.installationKeys mode (keyDecisions mode c t.state))
            (t.counted site)).1,
          (execState (enactAll Store.installationKeys mode (keyDecisions mode c t.state))
            (t.counted site)).2) := by
    intro t hquiet
    rw [Pass.run_eq, exec_reconcile, Pass.exec_fetch table (p := .installationKeys) (by simp)]
    unfold reading
    rw [hquiet]
    rfl
  have hdecisions : keyDecisions mode c u.state = keyDecisions mode c t.state := by
    unfold keyDecisions listedKeys
    rw [hsame]
  have hbegin : KeysBeside t.state.installationKeys.keys
      ((keySteps mode c t.state).countP KeyStep.isMake) t.log u.log t u := by
    refine ⟨fun id _ => by rw [hsame], ?_, ⟨n, hn, hfew, fun id hid => hn.not_late hid⟩,
      ⟨m, hm, hfew', fun id hid => hm.not_late (by rwa [hsame])⟩, hquiet, hquiet', [],
      (List.append_nil _).symm, (List.append_nil _).symm⟩
    unfold authoredKeys
    rw [hsame]
  -- what is dropped was held
  have hdrops : ∀ id, .drop id ∈ (keyDecisions mode c t.state).flatMap Decision.keySteps →
      id ∈ t.state.installationKeys.keys := by
    intro id hdrop
    obtain ⟨d, hd, hdrop⟩ := List.mem_flatMap.1 hdrop
    obtain ⟨held, hheld, hid, -⟩ := listed_of_drop hnodup hd hdrop
    exact NameMap.mem_keys.2 ⟨held, held_of_listed hids hheld hid⟩
  -- listing is one call, and both decide on what is listed
  obtain ⟨houtcome, hend⟩ := enactAll_beside hdry _ hdrops (hbegin.counted site)
  rw [hlist hquiet, hlist hquiet', hdecisions]
  exact ⟨congrArg Except.ok houtcome, hend⟩

end TenantSync.Push
