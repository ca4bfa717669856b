/-
  TenantSync.Proofs.Push.Keys
  ───────────────────────────
  **WHEN A PUSH OF INSTALLATION KEYS HAS NOTHING LEFT TO DO.**

  A key is made under the identity it is desired by, and is found again by the name
  it is listed under.  The two are the same text only if

      the identity is not empty    a key without description goes by its identifier
      no key hides another one     or the hidden one is neither counted nor removed
      a configured identity that   or the key is kept under `identity#identifier`,
      is listed is the key's own   a name it loses when the other one is removed

  The last two hold where no text `identity#identifier` of a key is configured or is the
  identity of a key (`unambiguous_of_free`).  If all three do, a push that succeeded finds
  every key it looks for, in every mode, and under force there are as many keys as are
  configured (`push_keys`).  Without the first, every push makes the key once more
  (`KeysPushed.nameless`).
-/
import TenantSync.Proofs.Push.Idempotence
import TenantSync.Proofs.Push.KeyDecisions
import TenantSync.Proofs.Push.Names

namespace TenantSync.Push

open Config Tenant

/-! ## §1. What is there afterwards. -/

section After

variable {n : Nat} {mode : Mode} {c : Config} {s s' : State} {now : Timestamp}
  {i id id' : String} {body : InstallationKey} {key key' : Remote InstallationKey}
  (hnodup : (identities Store.installationKeys c.installationKeys.entries).Nodup)
  (hids : s.KeysKnowIds)

include hnodup hids

/-- The keys after the steps of a pass. -/
theorem carried_of_keyRun (hn : Numbered n s)
    (hfew : n + (keySteps mode c s).countP KeyStep.isMake < twoTo 64)
    (h : KeyRun now (keySteps mode c s) s s') : Carried n (keySteps mode c s) s s' := by
  refine h.carried hn hfew ?_ fun id hdrop => ?_
  · exact (descs_sublist_ids _).nodup (plan_ids_nodup _ _ _ _ hnodup)
  · -- what is dropped was there, and what is there does not have a late identifier
    obtain ⟨d, hd, hdrop⟩ := List.mem_flatMap.1 hdrop
    obtain ⟨held, hheld, hid, -⟩ := listed_of_drop hnodup hd hdrop
    exact hn.not_late (NameMap.mem_keys.2 ⟨held, held_of_listed hids hheld hid⟩)

/-- What is listed and kept is not dropped. -/
theorem not_dropped_of_keep (hkey : (listedKeys s).get? i = some key)
    (hid : key.info.id = some id) (hkeep : .keep i ∈ keyDecisions mode c s) :
    .drop id ∉ keySteps mode c s := by
  intro hdrop
  obtain ⟨d, hd, hdrop⟩ := List.mem_flatMap.1 hdrop
  obtain ⟨held, hheld, hid', hne⟩ := listed_of_drop hnodup hd hdrop
  -- the key that is dropped is the one that is kept, and it is listed only once
  have hsame : held = key := Option.some.inj
    ((held_of_listed hids hheld hid').symm.trans (held_of_listed hids hkey hid))
  subst hsame
  have hi : d.id = i := listed_injective hids hheld hkey
  exact hne ((keyDecision_unique hnodup hd hkeep hi).trans (congrArg Decision.keep hi.symm))

omit hids in
/-- A key that was made has an identity that is desired, and that no other key was kept
for. -/
theorem desired_of_made (hmake : .make key.body ∈ keySteps mode c s) :
    ∃ i body, KeyDesired c i body ∧ key.body = { body with desc := i }
      ∧ .keep i ∉ keyDecisions mode c s := by
  obtain ⟨d, hd, hmake⟩ := List.mem_flatMap.1 hmake
  obtain ⟨body, hbody, hkey, hne⟩ := desired_of_make hnodup hd hmake
  refine ⟨d.id, body, hbody, hkey, fun hkeep => hne ?_⟩
  exact keyDecision_unique hnodup hd hkeep rfl

variable (hnamed : ¬Nameless c) (hafter : Carried n (keySteps mode c s) s s')

include hnamed hafter

omit hids in
/-- What is desired is kept under its name, or made. -/
theorem kept_or_made (hbody : KeyDesired c i body) :
    (∃ held, (listedKeys s).get? i = some held ∧ .keep i ∈ keyDecisions mode c s)
      ∨ ∃ id key, s'.installationKeys.get? id = some key ∧ Store.ownIdentity key = some i := by
  have hmade : ∀ {d : Decision InstallationKey} {body : InstallationKey},
      d ∈ keyDecisions mode c s → .make { body with desc := i } ∈ d.keySteps →
      ∃ id key, s'.installationKeys.get? id = some key ∧ Store.ownIdentity key = some i := by
    intro d body' hd hmake
    obtain ⟨id, key, -, hget, hkey⟩ := hafter.made (List.mem_flatMap.2 ⟨d, hd, hmake⟩)
    refine ⟨id, key, hget, Store.ownIdentity_of_desc (by rw [hkey]) ?_⟩
    rintro rfl
    exact hnamed ⟨body, hbody⟩
  obtain ⟨d, hd, rfl⟩ := exists_keyDecision mode c s (.inl ⟨body, hbody⟩)
  cases keyDecided_of_mem hnodup hd with
  | added _ hnone => exact .inr (hmade hd (List.mem_singleton.2 rfl))
  | kept _ hheld hsame => exact .inl ⟨_, hheld, hd⟩
  | replaced _ _ _ _ =>
      exact .inr (hmade hd (List.mem_append_right _ (List.mem_singleton.2 rfl)))
  | removed hforce hheld hnot => exact absurd hbody (hnot body)
  | left hforce hheld hnot => exact absurd hbody (hnot body)

omit hids in
/-- **Without force a pass is settled** where it ended. -/
theorem settled_after_additive (hforce : mode.force = false) (hknow : s'.KeysKnowIds) :
    ∀ d ∈ keyDecisions mode c s', d = .keep d.id := by
  have hnever : mode.replacesDrift ≠ true := by simp [Mode.replacesDrift, hforce]
  -- nothing is dropped, so there are more keys, and more names in the listing
  have hkept : ∀ id key, s.installationKeys.get? id = some key →
      s'.installationKeys.get? id = some key := by
    intro id key hget
    refine hafter.kept hget fun hdrop => ?_
    obtain ⟨d, hd, hdrop⟩ := List.mem_flatMap.1 hdrop
    cases keyDecided_of_mem hnodup hd with
    | added hbody hnone => simp [Decision.keySteps] at hdrop
    | kept hbody hheld hsame => cases hdrop
    | replaced _ _ hmode _ => exact hnever hmode
    | removed hforced _ _ => cases hforce.symm.trans hforced
    | left _ _ _ => cases hdrop
  have hmore : ∀ i ∈ (listedKeys s).keys, i ∈ (listedKeys s').keys :=
    Store.keyElements_mono (values_have_ids hknow) ((NameMap.entries_sublist hkept).map Prod.snd)
  intro d hd
  cases keyDecided_of_mem hnodup hd with
  | kept hbody hheld hsame => rfl
  | left hforce hheld hnot => rfl
  | replaced _ _ hmode _ => exact absurd hmode hnever
  | removed hforced _ _ => cases hforce.symm.trans hforced
  | @added i body hbody hnone =>
      refine absurd ?_ (NameMap.get?_eq_none_iff.1 hnone)
      rcases kept_or_made hnodup hnamed hafter hbody with ⟨held, hheld, -⟩ | ⟨id, key, hget, hown⟩
      · exact hmore i (NameMap.mem_keys.2 ⟨held, hheld⟩)
      · exact Store.own_mem_keyElements (values_have_ids hknow)
          (NameMap.mem_values.2 ⟨id, hget⟩) hown

variable (hplain : Unambiguous c s)

include hplain

/-- Under force every key has an identity that is desired, with its content where the mode
replaces others; it was kept under this identity, or made. -/
theorem key_after_force (hforce : mode.force = true)
    (hkey : s'.installationKeys.get? id = some key) :
    ∃ i body, KeyDesired c i body ∧ Store.ownIdentity key = some i
      ∧ (mode.replacesDrift = true → body.sameContent key.body = true)
      ∧ ((listedKeys s).get? i = some key ∧ .keep i ∈ keyDecisions mode c s
        ∨ LateId n id ∧ key.body.desc = i ∧ .keep i ∉ keyDecisions mode c s) := by
  rcases hafter.source hkey with ⟨hbefore, hnot⟩ | ⟨hlate, hmake⟩
  · -- it was there before and is listed, so something was decided about it
    obtain ⟨i, hlisted⟩ := listed_of_held hids hplain.shown hbefore
    obtain ⟨d, hd, rfl⟩ := exists_keyDecision mode c s (.inr ⟨key, hlisted⟩)
    have hdrop : ∀ {held}, (listedKeys s).get? d.id = some held →
        held.info.id.toList.map KeyStep.drop ⊆ d.keySteps → False := by
      intro held hheld hsteps
      cases hlisted.symm.trans hheld
      refine hnot (List.mem_flatMap.2 ⟨d, hd, hsteps ?_⟩)
      rw [hids id key hbefore]
      exact List.mem_singleton.2 rfl
    cases keyDecided_of_mem hnodup hd with
    | added hbody hnone => cases hlisted.symm.trans hnone
    | kept hbody hheld hsame =>
        cases hlisted.symm.trans hheld
        exact ⟨_, _, hbody, hplain.own hbody hlisted, hsame, .inl ⟨hlisted, hd⟩⟩
    | replaced _ hheld _ _ => exact (hdrop hheld (List.subset_append_left _ _)).elim
    | removed _ hheld _ => exact (hdrop hheld (List.Subset.refl _)).elim
    | left hnone _ _ => cases hforce.symm.trans hnone
  · obtain ⟨i, body, hbody, heq, hkeep⟩ := desired_of_made hnodup hmake
    refine ⟨i, body, hbody, ?_, fun _ => ?_, .inr ⟨hlate, by rw [heq], hkeep⟩⟩
    · refine Store.ownIdentity_of_desc (by rw [heq]) ?_
      rintro rfl
      exact hnamed ⟨body, hbody⟩
    · rw [heq]
      exact InstallationKey.compares.refl body

/-- Under force no two keys have one identity. -/
theorem own_injective_after (hforce : mode.force = true)
    (hkey : s'.installationKeys.get? id = some key)
    (hkey' : s'.installationKeys.get? id' = some key')
    (hown : Store.ownIdentity key = Store.ownIdentity key') (hknow : s'.KeysKnowIds) :
    id = id' := by
  obtain ⟨i, -, -, hi, -, horigin⟩ :=
    key_after_force hnodup hids hnamed hafter hplain hforce hkey
  obtain ⟨i', -, -, hi', -, horigin'⟩ :=
    key_after_force hnodup hids hnamed hafter hplain hforce hkey'
  cases Option.some.inj (hi.symm.trans (hown.trans hi'))
  -- an identity is kept or made, not both; it is listed once, and it is made once
  rcases horigin with ⟨hlisted, hkeep⟩ | ⟨hlate, hdesc, hnot⟩
  · rcases horigin' with ⟨hlisted', -⟩ | ⟨-, -, hnot⟩
    · cases hlisted.symm.trans hlisted'
      exact Option.some.inj ((hknow id key hkey).symm.trans (hknow id' key hkey'))
    · exact absurd hkeep hnot
  · rcases horigin' with ⟨-, hkeep⟩ | ⟨hlate', hdesc', -⟩
    · exact absurd hkeep hnot
    · exact hafter.once hlate hlate' hkey hkey' (hdesc.trans hdesc'.symm)

/-- Under force the keys are listed under their identities. -/
theorem listed_after_force (hforce : mode.force = true) (hknow : s'.KeysKnowIds) :
    (listedKeys s').get? i = some key
      ↔ (∃ id, s'.installationKeys.get? id = some key) ∧ Store.ownIdentity key = some i := by
  rw [← NameMap.mem_values]
  refine Store.get?_keyElements (values_have_ids hknow) ?_
  refine NameMap.values_pairwise fun hkey hkey' hne hown => hne ?_
  exact own_injective_after hnodup hids hnamed hafter hplain hforce hkey hkey' hown hknow

/-- **Under force a pass is settled** where it ended. -/
theorem settled_after_force (hforce : mode.force = true) (hknow : s'.KeysKnowIds) :
    ∀ d ∈ keyDecisions mode c s', d = .keep d.id := by
  have hlisted : ∀ i key, (listedKeys s').get? i = some key
      ↔ (∃ id, s'.installationKeys.get? id = some key) ∧ Store.ownIdentity key = some i :=
    fun _ _ => listed_after_force hnodup hids hnamed hafter hplain hforce hknow
  intro d hd
  cases keyDecided_of_mem hnodup hd with
  | kept hbody hheld hsame => rfl
  | left hforce hheld hnot => rfl
  | @added i body hbody hnone =>
      -- whatever is desired is there under its identity
      have hthere : ∃ id key, s'.installationKeys.get? id = some key
          ∧ Store.ownIdentity key = some i := by
        rcases kept_or_made hnodup hnamed hafter hbody with ⟨held, hheld, hkeep⟩ | hmade
        · obtain ⟨id, hget⟩ := NameMap.mem_values.1
            (Store.mem_of_get?_keyElements (values_have_ids hids) hheld)
          have hstay := not_dropped_of_keep hnodup hids hheld (hids id held hget) hkeep
          exact ⟨id, held, hafter.kept hget hstay, hplain.own hbody hheld⟩
        · exact hmade
      obtain ⟨id, key, hget, hown⟩ := hthere
      cases hnone.symm.trans ((hlisted i key).2 ⟨⟨id, hget⟩, hown⟩)
  | @removed i held _ hheld hnot =>
      obtain ⟨⟨id, hget⟩, hown⟩ := (hlisted i held).1 hheld
      obtain ⟨i', body, hbody, hown', -⟩ :=
        key_after_force hnodup hids hnamed hafter hplain hforce hget
      cases Option.some.inj (hown.symm.trans hown')
      exact absurd hbody (hnot body)
  | @replaced i body held hbody hheld hmode hdrift =>
      obtain ⟨⟨id, hget⟩, hown⟩ := (hlisted i held).1 hheld
      obtain ⟨i', body', hbody', hown', hsame, -⟩ :=
        key_after_force hnodup hids hnamed hafter hplain hforce hget
      cases Option.some.inj (hown.symm.trans hown')
      cases keyDesired_unique hnodup hbody hbody'
      cases hdrift.symm.trans (hsame hmode)

end After

/-! ## §2. How many there are afterwards. -/

/-- What dismissals under force come to. -/
theorem count_dismissals {mode : Mode} (hforce : mode.force = true)
    (entries : List (String × Remote InstallationKey)) (hids : ∀ e ∈ entries, e.2.info.id ≠ none) :
    let steps := (entries.map fun e => dismissal mode e.1 e.2).flatMap Decision.keySteps
    steps.countP KeyStep.isMake = 0 ∧ steps.countP KeyStep.isDrop = entries.length := by
  induction entries with
  | nil => exact ⟨rfl, rfl⟩
  | cons e entries ih =>
      obtain ⟨hid, hids⟩ := List.forall_mem_cons.1 hids
      obtain ⟨id, hid⟩ := Option.ne_none_iff_exists'.1 hid
      obtain ⟨hmakes, hdrops⟩ := ih hids
      have hsteps : (dismissal mode e.1 e.2).keySteps = [.drop id] := by
        simp [dismissal, hforce, Decision.keySteps, hid]
      simp only [List.map_cons, List.flatMap_cons, hsteps, List.countP_append, hmakes, hdrops,
        List.length_cons]
      exact ⟨rfl, Nat.add_comm _ _⟩

/-- Under force the steps make up for the difference between what is listed and what is
desired. -/
theorem count_plan {mode : Mode} (hforce : mode.force = true)
    (desired : List (String × InstallationKey)) :
    ∀ held : NameMap (Remote InstallationKey),
      (∀ i key, held.get? i = some key → key.info.id ≠ none) →
      let steps := (plan Store.installationKeys mode desired held).flatMap Decision.keySteps
      held.size + steps.countP KeyStep.isMake = desired.length + steps.countP KeyStep.isDrop := by
  -- by the desired keys: each takes what is listed under its identity out of the rest
  induction desired with
  | nil =>
      intro held hids
      obtain ⟨hmakes, hdrops⟩ := count_dismissals hforce held.entries fun e he =>
        hids e.1 e.2 (NameMap.get?_eq_some_iff.2 he)
      simp only [plan, hmakes, hdrops, NameMap.size]
      rw [List.length_nil, Nat.add_zero, Nat.zero_add]
  | cons e rest ih =>
      intro held hids
      obtain ⟨name, body⟩ := e
      have hrest := ih (held.erase (Store.installationKeys.identity name body)) fun i key hget => by
        rw [NameMap.get?_erase] at hget
        split at hget
        · cases hget
        · exact hids i key hget
      simp only [plan, List.flatMap_cons, List.countP_append, List.length_cons]
      cases hheld : held.get? (Store.installationKeys.identity name body) with
      | none =>
          rw [NameMap.erase_eq_self hheld] at hrest ⊢
          simp only [decision, Decision.keySteps, List.countP_cons, List.countP_nil,
            KeyStep.isMake, KeyStep.isDrop, if_true, Bool.false_eq_true, if_false]
          omega
      | some key =>
          obtain ⟨id, hid⟩ := Option.ne_none_iff_exists'.1 (hids _ key hheld)
          have hsize := NameMap.size_erase hheld
          rcases decision_cases Store.installationKeys mode
            (Store.installationKeys.identity name body) body key with ⟨hkeep, -⟩ | ⟨hreplace, -⟩
          · simp only [hkeep, Decision.keySteps, List.countP_nil]
            omega
          · simp only [hreplace, Decision.keySteps, hid, Option.toList_some, List.map_cons,
              List.map_nil, List.cons_append, List.nil_append, List.countP_cons, List.countP_nil,
              KeyStep.isMake, KeyStep.isDrop, if_true, Bool.false_eq_true, if_false]
            omega

/-- **Under force the keys are as many as the configured ones**, and those that were hidden. -/
theorem size_after_force {n : Nat} {mode : Mode} {c : Config} {s s' : State} {now : Timestamp}
    (hforce : mode.force = true) (hids : s.KeysKnowIds) (hn : Numbered n s)
    (hfew : n + (keySteps mode c s).countP KeyStep.isMake < twoTo 64)
    (h : KeyRun now (keySteps mode c s) s s') :
    s'.installationKeys.size + (listedKeys s).size
      = c.installationKeys.size + s.installationKeys.size := by
  have hsteps := h.size hn hfew
  have hplan := count_plan hforce c.installationKeys.entries (listedKeys s) fun i key hget =>
    values_have_ids hids key (Store.mem_of_get?_keyElements (values_have_ids hids) hget)
  have hdesired : c.installationKeys.entries.length = c.installationKeys.size := rfl
  unfold keySteps keyDecisions at hsteps
  simp only at hplan
  omega

/-! ## §3. The push. -/

/-- A push of installation keys and nothing else. -/
def keysOnly (mode : Mode) : Options := ⟨mode, (· == .installationKeys)⟩

section Push

variable {table : List String} {mode : Mode} {c : Config} {t t' : Tenant}
  {operations : List Operation}

/-- A push of installation keys that succeeds is one pass without a failure. -/
theorem run_of_push (h : exec (pushWith table (keysOnly mode) c) t = (.ok operations, t')) :
    ¬Unpushable table (keysOnly mode) c ∧ ∃ o,
      exec (Pass.run table mode c .installationKeys) t = (.ok o, t') ∧ o.failures = []
        ∧ operations = o.operations := by
  rcases push_cases h with ⟨-, hr, -⟩ | ⟨-, -, ⟨why, hr⟩, -⟩ | ⟨-, hpushable, hfinish⟩
  · cases hr
  · cases hr
  · refine ⟨hpushable, ?_⟩
    cases hfinish with
    | completed visits hsts hran hclean =>
        have hone : [Stage.pass .installationKeys] = visits.map Visit.stage := hsts
        obtain ⟨v, rfl, hv⟩ := List.map_eq_singleton_iff.1 hone.symm
        cases hran with
        | cons hrun hlog hrest =>
            cases hrest
            rw [hv] at hrun
            exact ⟨v.outcome, hrun, hclean v List.mem_cons_self, operationsOf_singleton v⟩

/-- A pass over installation keys without a failure has come to the steps of its decisions. -/
theorem keysDone_of_run {o : Outcome} (hdry : mode.dryRun = false)
    (h : exec (Pass.run table mode c .installationKeys) t = (.ok o, t')) (hok : o.failures = []) :
    KeysDone (keySteps mode c t.state) t t'
      ∧ o.operations = (keyDecisions mode c t.state).map (Decision.operation .installationKey) := by
  obtain ⟨held, t₁, hfetch, henact⟩ := Pass.run_ok h
  rw [Pass.exec_fetch table (p := .installationKeys) (by simp)] at hfetch
  obtain ⟨rfl, rfl⟩ := reading_ok hfetch
  have hgone := wentThrough_of_enactAll hdry _ henact hok
  obtain ⟨hrun, hnow, hlog⟩ := keysDone_of_wentThrough hgone
  refine ⟨⟨hrun, hnow, hlog⟩, ?_⟩
  have hops := enactAll_operations Store.installationKeys mode (keyDecisions mode c t.state)
    (t.counted ⟨.list, .installationKey⟩)
  rw [show execState (enactAll Store.installationKeys mode (keyDecisions mode c t.state))
    (t.counted ⟨.list, .installationKey⟩) = (o, t') from henact] at hops
  exact hops

/-- What is known of a push of installation keys that succeeded, from one state to another,
if the counter of identifiers did not begin anew on the way. -/
structure KeysPushed (mode : Mode) (c : Config) (s s' : State) (operations : List Operation) :
    Prop where
  nodup : (identities Store.installationKeys c.installationKeys.entries).Nodup
  knows : s.KeysKnowIds
  knows' : s'.KeysKnowIds
  operations : operations = (keyDecisions mode c s).map (Decision.operation .installationKey)
  run : ∃ now n, Numbered n s ∧ n + (keySteps mode c s).countP KeyStep.isMake < twoTo 64
    ∧ KeyRun now (keySteps mode c s) s s'

namespace KeysPushed

/-- A key without description and name is never found, and so it is added. -/
theorem nameless (h : KeysPushed mode c t.state t'.state operations) (hnameless : Nameless c) :
    .add .installationKey "" ∈ operations := by
  obtain ⟨now, n, hn, -, -⟩ := h.run
  have hnone : (listedKeys t.state).get? "" = none := by
    refine Store.get?_keyElements_empty fun key hkey => ?_
    obtain ⟨id, hget⟩ := NameMap.mem_values.1 hkey
    refine ⟨id, h.knows id key hget, ?_⟩
    obtain ⟨k, -, rfl⟩ := hn.keys id (NameMap.mem_keys.2 ⟨key, hget⟩)
    simp [State.keyId]
  obtain ⟨d, hd, hname⟩ := exists_keyDecision mode c t.state (.inl hnameless)
  rw [← hname] at hnone
  rw [h.operations, List.mem_map]
  refine ⟨d, hd, ?_⟩
  cases keyDecided_of_mem h.nodup hd with
  | added _ _ => exact congrArg (Operation.add .installationKey) hname
  | kept _ hheld _ | replaced _ hheld _ _ | removed _ hheld _ | left _ hheld _ =>
      cases hheld.symm.trans hnone

/-- The pass is settled where it ended, in every mode. -/
theorem settled (h : KeysPushed mode c t.state t'.state operations) (hnamed : ¬Nameless c)
    (hplain : mode.force = true → Unambiguous c t.state) :
    Pass.Settled table mode c .installationKeys t'.state := by
  obtain ⟨now, n, hn, hfew, hrun⟩ := h.run
  have hafter := carried_of_keyRun h.nodup h.knows hn hfew hrun
  show ∀ d ∈ keyDecisions mode c t'.state, d = .keep d.id
  cases hforce : mode.force with
  | false => exact settled_after_additive h.nodup hnamed hafter hforce h.knows'
  | true => exact settled_after_force h.nodup h.knows hnamed hafter (hplain hforce) hforce h.knows'

end KeysPushed

/-- A push of installation keys leads to such a state, on a tenant that began as a new one. -/
theorem keysPushed_of_push {n : Nat} (hreached : Reached n t) (hdry : mode.dryRun = false)
    (h : exec (pushWith table (keysOnly mode) c) t = (.ok operations, t'))
    (hfew : n + issued t t' < twoTo 64) : KeysPushed mode c t.state t'.state operations := by
  obtain ⟨hpushable, o, hrun, hok, rfl⟩ := run_of_push h
  obtain ⟨hdone, hops⟩ := keysDone_of_run hdry hrun hok
  have hreached' := hreached.pushed table (keysOnly mode) c
  rw [h] at hreached'
  refine ⟨Pass.identities_nodup_of_pushable (p := .installationKeys) hpushable rfl,
    hreached.keysKnowIds, hreached'.keysKnowIds, hops, t.now, n, hreached.numbered (by omega), ?_,
    hdone.run⟩
  rwa [← hdone.issued]

/-- **When installation keys do not churn.**  Of a push that succeeded, on a tenant that began
as a new one and was given fewer than `2^64` identifiers:

  - a key without description and name is reported as added, as often as it is pushed;
  - otherwise the push is idempotent without force, and under force if nothing that is listed
    is ambiguous;
  - under force there are as many keys afterwards as are configured, exactly if no key was
    hidden before. -/
theorem push_keys {n : Nat} (hreached : Reached n t) (hdry : mode.dryRun = false)
    (h : exec (pushWith table (keysOnly mode) c) t = (.ok operations, t'))
    (hfew : n + issued t t' < twoTo 64) :
    (Nameless c → .add .installationKey "" ∈ operations)
    ∧ (¬Nameless c → (mode.force = true → Unambiguous c t.state) → ∀ later : Timestamp,
      ∃ kept t'', exec (pushWith table (keysOnly mode) c) { t' with faults := {}, now := later }
          = (.ok kept, t'')
        ∧ (∀ op ∈ kept, op.isNoop = true) ∧ t''.state = t'.state ∧ t''.log = t'.log)
    ∧ (mode.force = true →
      (t'.state.installationKeys.size = c.installationKeys.size ↔ KeysShown t.state)) := by
  have hpushed := keysPushed_of_push hreached hdry h hfew
  refine ⟨hpushed.nameless, fun hnamed hplain later => ?_, fun hforce => ?_⟩
  · -- what was not refused the first time is not refused now
    have hselected : ¬(keysOnly mode).categories.isEmpty = true := Bool.false_ne_true
    rw [exec_pushWith, if_neg hselected, invalid?_eq_none.2 (run_of_push h).1]
    refine runStages_settled (t := { t' with faults := {}, now := later }) _ []
      Faults.quiet_empty fun stage hstage => ?_
    rw [List.mem_singleton.1 (show stage ∈ [Stage.pass .installationKeys] from hstage)]
    exact hpushed.settled hnamed hplain
  · obtain ⟨now, n, hn, hfew, hrun⟩ := hpushed.run
    have hsize := size_after_force hforce hpushed.knows hn hfew hrun
    unfold KeysShown
    omega

/-- One key is added, one kept, and one removed that shared the description of the other. -/
theorem push_keys_forced :
    let mode : Mode := { force := true, drift := .replace }
    let c : Config := { installationKeys := .ofList [("b", {}), ("x", { desc := "a" })] }
    let t₁ : Tenant := (exec (createInstallationKey { desc := "a" }) { now := ⟨0, 0⟩ }).2
    let t : Tenant := (exec (createInstallationKey { desc := "a" }) t₁).2
    let final := exec (pushWith [] (keysOnly mode) c) t
    final.1 = .ok [.add .installationKey "b", .keep .installationKey "a",
        .remove .installationKey "a#key-00000002"]
      ∧ ¬Nameless c ∧ Unambiguous c t.state
      ∧ final.2.state.installationKeys.size = c.installationKeys.size
      ∧ ∃ kept t'', exec (pushWith [] (keysOnly mode) c)
            { final.2 with faults := {}, now := ⟨1, 0⟩ } = (.ok kept, t'')
          ∧ (∀ op ∈ kept, op.isNoop = true) ∧ t''.state = final.2.state
          ∧ t''.log = final.2.log := by
  intro mode c t₁ t final
  have hok : final.1 = .ok [.add .installationKey "b", .keep .installationKey "a",
      .remove .installationKey "a#key-00000002"] := eq_ok_of_toOption (by decide +kernel)
  have hdesired : ∀ {i body}, KeyDesired c i body → i = "a" ∨ i = "b" := by
    rintro i body ⟨name, hname, rfl⟩
    have hall : ∀ e ∈ c.installationKeys.entries,
        Store.keyIdentity e.1 e.2 = "a" ∨ Store.keyIdentity e.1 e.2 = "b" := by decide +kernel
    exact hall (name, body) (NameMap.get?_eq_some_iff.1 hname)
  have hnamed : ¬Nameless c := by
    rintro ⟨body, hbody⟩
    rcases hdesired hbody with h | h <;> simp at h
  have hreached : Reached (0 + issued { now := ⟨0, 0⟩ } t₁ + issued t₁ t) t :=
    .called (.called (.new ⟨0, 0⟩) (.createInstallationKey { desc := "a" }))
      (.createInstallationKey { desc := "a" })
  -- neither key could be listed under a name that is configured or described
  have hfree : ∀ e ∈ t.state.installationKeys.entries, ∀ i ∈ Store.ownIdentity e.2,
      (Store.secondName i e.1 ≠ "a" ∧ Store.secondName i e.1 ≠ "b")
        ∧ ∀ e' ∈ t.state.installationKeys.entries,
          Store.ownIdentity e'.2 ≠ some (Store.secondName i e.1) := by
    decide +kernel
  have hplain : Unambiguous c t.state := by
    refine unambiguous_of_free (hreached.numbered (by decide +kernel)) hreached.keysKnowIds
      fun id key i hget hown => ?_
    obtain ⟨⟨ha, hb⟩, hothers⟩ := hfree (id, key) (NameMap.get?_eq_some_iff.1 hget) i hown
    refine ⟨fun body hbody => (hdesired hbody).elim ha hb, fun id' key' hget' => ?_⟩
    exact hothers (id', key') (NameMap.get?_eq_some_iff.1 hget')
  have hpush : final = (final.1, final.2) := (Prod.eta final).symm
  rw [hok] at hpush
  obtain ⟨-, hagain, hcount⟩ := push_keys hreached rfl hpush (by decide +kernel)
  exact ⟨hok, hnamed, hplain, (hcount rfl).2 hplain.shown,
    hagain hnamed (fun _ => hplain) ⟨1, 0⟩⟩

/-- A key without description and name is made again by the second push, which succeeds like
the first. -/
theorem nameless_key_again :
    let c : Config := { installationKeys := .ofList [("", {})] }
    let first := exec (pushWith [] (keysOnly {}) c) { now := ⟨0, 0⟩ }
    let second := exec (pushWith [] (keysOnly {}) c) first.2
    first.1 = .ok [.add .installationKey ""]
      ∧ second.1 = .ok [.add .installationKey "", .keep .installationKey "key-00000001"]
      ∧ second.2.log.length = 2 ∧ second.2.state.installationKeys.size = 2 := by
  intro c first second
  refine ⟨eq_ok_of_toOption (by decide +kernel), eq_ok_of_toOption (by decide +kernel), ?_⟩
  decide +kernel

/-- A key that is hidden is neither counted nor removed: two keys stay where one is
configured. -/
example :
    let make : String → Tenant → Tenant := fun desc t => (exec (createInstallationKey { desc }) t).2
    let c : Config := { installationKeys := .ofList [("a", {})] }
    let t : Tenant := make "a" (make "a" (make "a#key-00000003" { now := ⟨0, 0⟩ }))
    let final := exec (pushWith [] (keysOnly { force := true }) c) t
    final.1.toOption
        = some [.keep .installationKey "a", .remove .installationKey "a#key-00000003"]
      ∧ final.2.state.installationKeys.size = 2 := by
  decide +kernel

/-- A key that is kept under a second name loses it to the key that is removed. -/
example :
    let make : String → Tenant → Tenant := fun desc t => (exec (createInstallationKey { desc }) t).2
    let c : Config := { installationKeys := .ofList [("a#key-00000002", {})] }
    let first := exec (pushWith [] (keysOnly { force := true }) c)
      (make "a" (make "a" { now := ⟨0, 0⟩ }))
    let second := exec (pushWith [] (keysOnly { force := true }) c) first.2
    first.1.toOption
        = some [.keep .installationKey "a#key-00000002", .remove .installationKey "a"]
      ∧ second.1.toOption
        = some [.add .installationKey "a#key-00000002", .remove .installationKey "a"] := by
  decide +kernel

end Push

end TenantSync.Push
