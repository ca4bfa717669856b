/-
  TenantSync.Proofs.Push.KeySteps
  ───────────────────────────────
  **WHAT A PASS OVER INSTALLATION KEYS COMES TO.**

  A decision about an installation key comes to at most two steps: the key that is
  held is dropped, and one with the desired description is made.  A pass without a
  failure has carried out the steps of all its decisions (`keysDone_of_wentThrough`).

  As long as the counter of identifiers does not begin anew, every key that is made
  is put beside the others, so the keys afterwards are the ones that were not dropped
  and one for each that was made (`KeyRun.carried`), and their number is what the
  steps say (`KeyRun.size`).
-/
import TenantSync.Proofs.Push.Reachable

namespace TenantSync.Push

open Config Tenant

/-! ## §1. Steps. -/

/-- One change of the installation keys. -/
inductive KeyStep where
  /-- The key of an identifier is dropped. -/
  | drop (id : String)
  /-- A key is made. -/
  | make (key : InstallationKey)

namespace KeyStep

def isDrop : KeyStep → Bool
  | .drop _ => true
  | .make _ => false

def isMake : KeyStep → Bool
  | .drop _ => false
  | .make _ => true

/-- The description of the key that is made. -/
def desc? : KeyStep → Option String
  | .drop _ => none
  | .make key => some key.desc

end KeyStep

/-- The steps that a decision comes to. -/
def Decision.keySteps : Decision InstallationKey → List KeyStep
  | .add id body => [.make { body with desc := id }]
  | .keep _ => []
  | .replace id body held => held.info.id.toList.map .drop ++ [.make { body with desc := id }]
  | .remove _ held => held.info.id.toList.map .drop

/-- Steps lead from one state to another; only a key that is there can be dropped. -/
inductive KeyRun (now : Timestamp) : List KeyStep → State → State → Prop
  | nil {s : State} : KeyRun now [] s s
  | drop {steps : List KeyStep} {s s' : State} {id : String} {key : Remote InstallationKey}
      (hheld : s.installationKeys.get? id = some key)
      (hrest : KeyRun now steps { s with installationKeys := s.installationKeys.erase id } s') :
      KeyRun now (.drop id :: steps) s s'
  | make {steps : List KeyStep} {s s' : State} (key : InstallationKey)
      (hrest : KeyRun now steps (withKey now key s).2 s') : KeyRun now (.make key :: steps) s s'

theorem KeyRun.append {now : Timestamp} {steps steps' : List KeyStep} {s s' s'' : State}
    (h : KeyRun now steps s s') (h' : KeyRun now steps' s' s'') :
    KeyRun now (steps ++ steps') s s'' := by
  induction h with
  | nil => exact h'
  | drop hheld _ ih => exact .drop hheld (ih h')
  | make key _ ih => exact .make key (ih h')

/-- From `t` to `t'` steps were carried out, and an identifier given out for each key made. -/
structure KeysDone (steps : List KeyStep) (t t' : Tenant) : Prop where
  run : KeyRun t.now steps t.state t'.state
  now : t'.now = t.now
  log : ∃ logged, t'.log = t.log ++ logged
    ∧ logged.countP Mutation.stamps = steps.countP KeyStep.isMake

namespace KeysDone

theorem refl (t : Tenant) : KeysDone [] t t :=
  ⟨.nil, rfl, [], (List.append_nil _).symm, rfl⟩

theorem trans {steps steps' : List KeyStep} {t t' t'' : Tenant} (h : KeysDone steps t t')
    (h' : KeysDone steps' t' t'') : KeysDone (steps ++ steps') t t'' where
  run := h.run.append (h.now ▸ h'.run)
  now := h'.now.trans h.now
  log := by
    obtain ⟨logged, hlog, hcount⟩ := h.log
    obtain ⟨logged', hlog', hcount'⟩ := h'.log
    refine ⟨logged ++ logged', by rw [hlog', hlog, List.append_assoc], ?_⟩
    rw [List.countP_append, List.countP_append, hcount, hcount']

theorem issued {steps : List KeyStep} {t t' : Tenant} (h : KeysDone steps t t') :
    issued t t' = steps.countP KeyStep.isMake := by
  obtain ⟨logged, hlog, hcount⟩ := h.log
  rw [issued_of_log hlog, hcount]

end KeysDone

/-! ## §2. What decisions come to. -/

section Decisions

variable {t t' : Tenant} {id : String}

theorem keysDone_of_create {body : InstallationKey}
    (h : exec (Store.installationKeys.create id body) t = (.ok (), t')) :
    KeysDone [.make { body with desc := id }] t t' := by
  have hcall : ∃ keyId, exec (createInstallationKey { body with desc := id }) t
      = (.ok keyId, t') := by
    change exec (createInstallationKey { body with desc := id } >>= fun _ => pure ()) t = _ at h
    rw [exec_bind] at h
    rcases hcall : exec (createInstallationKey { body with desc := id }) t with ⟨e | keyId, t₁⟩
    · rw [hcall] at h
      cases h
    · rw [hcall] at h
      cases h
      exact ⟨keyId, rfl⟩
  obtain ⟨keyId, hcall⟩ := hcall
  rw [exec_createInstallationKey] at hcall
  rcases changing_cases hcall with ⟨e, hr, -⟩ | ⟨a, s, m, hok, -, rfl⟩
  · cases hr
  · cases hok
    exact ⟨.make _ .nil, rfl, _, rfl, rfl⟩

theorem keysDone_of_delete {held : Remote InstallationKey}
    (h : exec (Store.installationKeys.delete id held) t = (.ok (), t')) :
    KeysDone (held.info.id.toList.map .drop) t t' := by
  unfold Store.installationKeys at h
  dsimp only at h
  split at h
  next keyId hid =>
    rw [exec_deleteInstallationKey] at h
    rw [hid]
    rcases changing_cases h with ⟨e, hr, -⟩ | ⟨a, s, m, hok, -, rfl⟩
    · cases hr
    · unfold withoutKey at hok
      split at hok
      · cases hok
      next key hkey =>
        cases hok
        exact ⟨.drop hkey .nil, rfl, _, rfl, rfl⟩
  next => cases h

/-- A decision that has gone through has come to its steps. -/
theorem keysDone_of_call {d : Decision InstallationKey}
    (h : exec (d.call Store.installationKeys) t = (.ok (), t')) : KeysDone d.keySteps t t' := by
  cases d with
  | add id body => exact keysDone_of_create h
  | keep id =>
      cases h
      exact .refl t
  | remove id held => exact keysDone_of_delete h
  | replace id body held =>
      change exec (Store.installationKeys.delete id held >>= fun _ =>
        Store.installationKeys.create id body) t = _ at h
      rw [exec_bind] at h
      rcases hdelete : exec (Store.installationKeys.delete id held) t with ⟨e | _, t₁⟩
      · rw [hdelete] at h
        cases h
      · rw [hdelete] at h
        exact (keysDone_of_delete hdelete).trans (keysDone_of_create h)

/-- **Decisions that have gone through** have come to the steps of all of them. -/
theorem keysDone_of_wentThrough {ds : List (Decision InstallationKey)}
    (h : WentThrough Store.installationKeys ds t t') :
    KeysDone (ds.flatMap Decision.keySteps) t t' := by
  induction h with
  | nil => exact .refl _
  | cons hcall _ ih => exact (keysDone_of_call hcall).trans ih

end Decisions

/-! ## §3. Which keys there are afterwards. -/

/-- An identifier of a number that comes after `n`. -/
def LateId (n : Nat) (id : String) : Prop :=
  ∃ k, n < k ∧ k < twoTo 64 ∧ id = State.keyId (.ofNat k)

theorem LateId.mono {n n' : Nat} {id : String} (hle : n ≤ n') (h : LateId n' id) :
    LateId n id := by
  obtain ⟨k, hk, hfew, rfl⟩ := h
  exact ⟨k, by omega, hfew, rfl⟩

/-- Keys that are there have other identifiers. -/
theorem Numbered.not_late {n : Nat} {s : State} (h : Numbered n s) {id : String}
    (hid : id ∈ s.installationKeys.keys) : ¬LateId n id := by
  rintro ⟨k, hk, hfew, rfl⟩
  obtain ⟨j, hj, heq⟩ := h.keys _ hid
  have hnumber := UInt64.toNat_inj.2 (State.keyId_injective heq)
  rw [UInt64.toNat_ofNat_of_lt' hfew,
    UInt64.toNat_ofNat_of_lt' (show j < _ from Nat.lt_of_le_of_lt (by omega) hfew)] at hnumber
  omega

theorem Numbered.erase {n : Nat} {s : State} (h : Numbered n s) (id : String) :
    Numbered n { s with installationKeys := s.installationKeys.erase id } where
  counter := h.counter
  keys := by
    intro id' hid
    obtain ⟨key, hkey⟩ := NameMap.mem_keys.1 hid
    rw [NameMap.get?_erase] at hkey
    split at hkey
    · cases hkey
    · exact h.keys id' (NameMap.mem_keys.2 ⟨key, hkey⟩)

/-- The identifier that the next key is given. -/
theorem Numbered.next {n : Nat} {s : State} (h : Numbered n s) :
    State.keyId (s.idCounter + 1) = State.keyId (.ofNat (n + 1)) := by
  rw [h.idCounter, UInt64.ofNat_add]
  rfl

theorem Numbered.late_next {n : Nat} {s : State} (h : Numbered n s) (hfew : n + 1 < twoTo 64) :
    LateId n (State.keyId (s.idCounter + 1)) := ⟨n + 1, Nat.lt_succ_self n, hfew, h.next⟩

theorem Numbered.make {n : Nat} {s : State} (h : Numbered n s) (hfew : n + 1 < twoTo 64)
    (now : Timestamp) (key : InstallationKey) : Numbered (n + 1) (withKey now key s).2 where
  counter := by
    show (s.idCounter + 1).toNat = n + 1
    rw [h.idCounter, show UInt64.ofNat n + 1 = .ofNat (n + 1) from (UInt64.ofNat_add n 1).symm,
      UInt64.toNat_ofNat_of_lt' hfew]
  keys := by
    intro id hid
    obtain ⟨held, hheld⟩ := NameMap.mem_keys.1 hid
    rw [get?_withKey] at hheld
    split at hheld
    next hid => exact ⟨n + 1, by omega, hid.trans h.next⟩
    next =>
      obtain ⟨k, hk, rfl⟩ := h.keys id (NameMap.mem_keys.2 ⟨held, hheld⟩)
      exact ⟨k, by omega, rfl⟩

/-- What steps have made of the keys of a state whose identifiers go up to `n`. -/
structure Carried (n : Nat) (steps : List KeyStep) (s s' : State) : Prop where
  /-- What is not dropped is kept. -/
  kept : ∀ {id key}, s.installationKeys.get? id = some key → .drop id ∉ steps →
    s'.installationKeys.get? id = some key
  /-- What is there was kept or made. -/
  source : ∀ {id key}, s'.installationKeys.get? id = some key →
    (s.installationKeys.get? id = some key ∧ .drop id ∉ steps)
      ∨ (LateId n id ∧ .make key.body ∈ steps)
  /-- What is made is there. -/
  made : ∀ {key}, .make key ∈ steps →
    ∃ id held, LateId n id ∧ s'.installationKeys.get? id = some held ∧ held.body = key
  /-- Nothing is made twice. -/
  once : ∀ {id id' key key'}, LateId n id → LateId n id' →
    s'.installationKeys.get? id = some key → s'.installationKeys.get? id' = some key' →
    key.body.desc = key'.body.desc → id = id'

/-- A key that is dropped before other steps is gone. -/
theorem Carried.drop {n : Nat} {steps : List KeyStep} {s s' : State} {id : String}
    (h : Carried n steps { s with installationKeys := s.installationKeys.erase id } s') :
    Carried n (.drop id :: steps) s s' where
  kept := by
    intro id' key hkey hnot
    rw [List.mem_cons, not_or] at hnot
    have hne : id' ≠ id := fun heq => hnot.1 (congrArg KeyStep.drop heq)
    refine h.kept ?_ hnot.2
    rw [NameMap.get?_erase, if_neg hne]
    exact hkey
  source := by
    intro id' key hkey
    rcases h.source hkey with ⟨hbefore, hnot⟩ | ⟨hlate, hmake⟩
    · rw [NameMap.get?_erase] at hbefore
      split at hbefore
      · cases hbefore
      next hne =>
        refine .inl ⟨hbefore, fun hmem => ?_⟩
        rcases List.mem_cons.1 hmem with heq | hmem
        · cases heq
          exact hne rfl
        · exact hnot hmem
    · exact .inr ⟨hlate, List.mem_cons_of_mem _ hmake⟩
  made := by
    intro key hmake
    rcases List.mem_cons.1 hmake with heq | hmake
    · cases heq
    · exact h.made hmake
  once := h.once

section Make

variable {n : Nat} {steps : List KeyStep} {s s' : State} {now : Timestamp} {key : InstallationKey}
  (hn : Numbered n s) (h : Carried (n + 1) steps (withKey now key s).2 s')

include hn h

/-- After a key was made and other steps, a key with a late identifier is the one made first,
or was made later. -/
theorem Carried.late_source {id : String} {held : Remote InstallationKey} (hid : LateId n id)
    (hheld : s'.installationKeys.get? id = some held) :
    (id = State.keyId (s.idCounter + 1) ∧ held.body = key)
      ∨ (LateId (n + 1) id ∧ some held.body.desc ∈ steps.map KeyStep.desc?) := by
  rcases h.source hheld with ⟨hbefore, -⟩ | ⟨hlater, hmake⟩
  · rw [get?_withKey] at hbefore
    split at hbefore
    next heq =>
      cases hbefore
      exact .inl ⟨heq, rfl⟩
    next => exact absurd hid (hn.not_late (NameMap.mem_keys.2 ⟨held, hbefore⟩))
  · exact .inr ⟨hlater, List.mem_map.2 ⟨_, hmake, rfl⟩⟩

/-- A key that is made before other steps is there, beside the others. -/
theorem Carried.make (hfew : n + 1 < twoTo 64) (hdesc : some key.desc ∉ steps.map KeyStep.desc?)
    (hearly : ∀ id, .drop id ∈ steps → ¬LateId n id) : Carried n (.make key :: steps) s s' where
  kept := by
    intro id held hheld hnot
    refine h.kept ?_ fun hmem => hnot (List.mem_cons_of_mem _ hmem)
    rw [get?_withKey, if_neg]
    · exact hheld
    · rintro rfl
      exact hn.not_late (NameMap.mem_keys.2 ⟨held, hheld⟩) (hn.late_next hfew)
  source := by
    intro id held hheld
    rcases h.source hheld with ⟨hbefore, hnot⟩ | ⟨hlater, hmake⟩
    · rw [get?_withKey] at hbefore
      split at hbefore
      next heq =>
        cases hbefore
        exact .inr ⟨heq ▸ hn.late_next hfew, List.mem_cons_self⟩
      next =>
        refine .inl ⟨hbefore, fun hmem => ?_⟩
        rcases List.mem_cons.1 hmem with heq | hmem
        · cases heq
        · exact hnot hmem
    · exact .inr ⟨hlater.mono (Nat.le_succ n), List.mem_cons_of_mem _ hmake⟩
  made := by
    intro key' hmake
    rcases List.mem_cons.1 hmake with heq | hmake
    · cases heq
      -- no later step drops it, for what is dropped has an early identifier
      refine ⟨_, (s.stamp now "key" key).1, hn.late_next hfew, h.kept ?_ fun hmem => ?_, rfl⟩
      · rw [get?_withKey, if_pos rfl]
      · exact hearly _ hmem (hn.late_next hfew)
    · obtain ⟨id, held, hid, hheld⟩ := h.made hmake
      exact ⟨id, held, hid.mono (Nat.le_succ n), hheld⟩
  once := by
    intro id id' held held' hid hid' hheld hheld' hsame
    rcases h.late_source hn hid hheld with ⟨rfl, hfirst⟩ | ⟨hlater, hlate⟩
    · rcases h.late_source hn hid' hheld' with ⟨rfl, -⟩ | ⟨-, hlate'⟩
      · rfl
      · rw [← hsame, hfirst] at hlate'
        exact absurd hlate' hdesc
    · rcases h.late_source hn hid' hheld' with ⟨rfl, hfirst⟩ | ⟨hlater', -⟩
      · rw [hsame, hfirst] at hlate
        exact absurd hlate hdesc
      · exact h.once hlater hlater' hheld hheld' hsame

end Make

/-- **The keys after some steps** are those that were not dropped and those that were made. -/
theorem KeyRun.carried {now : Timestamp} {steps : List KeyStep} {s s' : State}
    (h : KeyRun now steps s s') :
    ∀ {n : Nat}, Numbered n s → n + steps.countP KeyStep.isMake < twoTo 64 →
      (steps.filterMap KeyStep.desc?).Nodup → (∀ id, .drop id ∈ steps → ¬LateId n id) →
      Carried n steps s s' := by
  -- by the steps: the first one is put in front of what the others carry on with
  induction h with
  | nil =>
      intro n hn _ _ _
      refine ⟨fun h _ => h, fun h => .inl ⟨h, List.not_mem_nil⟩, fun h => (nomatch h), ?_⟩
      intro id id' key key' hlate _ hkey _ _
      exact absurd hlate (hn.not_late (NameMap.mem_keys.2 ⟨key, hkey⟩))
  | @drop steps s s' id key hheld hrest ih =>
      intro n hn hfew hdescs hearly
      refine (ih (hn.erase id) ?_ hdescs fun id' hid' =>
        hearly id' (List.mem_cons_of_mem _ hid')).drop
      simpa [KeyStep.isMake] using hfew
  | @make steps s s' key hrest ih =>
      intro n hn hfew hdescs hearly
      rw [List.countP_cons_of_pos (show KeyStep.isMake (.make key) = true from rfl)] at hfew
      obtain ⟨hnew, hdescs⟩ := List.nodup_cons.1 hdescs
      have hearly : ∀ id, .drop id ∈ steps → ¬LateId n id := fun id hid =>
        hearly id (List.mem_cons_of_mem _ hid)
      have hlater := ih (hn.make (by omega) now key) (by omega) hdescs fun id hid hlate =>
        hearly id hid (hlate.mono (Nat.le_succ n))
      refine hlater.make hn (by omega) ?_ hearly
      simpa [List.mem_filterMap] using hnew

/-! ## §4. How many keys there are afterwards. -/

/-- **The number of keys** moves by those that were made and those that were dropped. -/
theorem KeyRun.size {now : Timestamp} {steps : List KeyStep} {s s' : State}
    (h : KeyRun now steps s s') :
    ∀ {n : Nat}, Numbered n s → n + steps.countP KeyStep.isMake < twoTo 64 →
      s'.installationKeys.size + steps.countP KeyStep.isDrop
        = s.installationKeys.size + steps.countP KeyStep.isMake := by
  induction h with
  | nil => exact fun _ _ => rfl
  | @drop steps s s' id key hheld hrest ih =>
      intro n hn hfew
      have hrest := ih (hn.erase id) (by simpa [KeyStep.isMake] using hfew)
      have herase : (s.installationKeys.erase id).size + 1 = s.installationKeys.size :=
        NameMap.size_erase hheld
      simp only [List.countP_cons, KeyStep.isDrop, KeyStep.isMake, if_true, Bool.false_eq_true,
        if_false] at hrest ⊢
      omega
  | @make steps s s' key hrest ih =>
      intro n hn hfew
      rw [List.countP_cons_of_pos (show KeyStep.isMake (.make key) = true from rfl)] at hfew
      have hrest := ih (hn.make (by omega) now key) (by omega)
      have hinsert : (withKey now key s).2.installationKeys.size = s.installationKeys.size + 1 :=
        NameMap.size_insert (hn.fresh (by omega))
      simp only [List.countP_cons, KeyStep.isDrop, KeyStep.isMake, if_true, Bool.false_eq_true,
        if_false] at hrest ⊢
      omega

end TenantSync.Push
