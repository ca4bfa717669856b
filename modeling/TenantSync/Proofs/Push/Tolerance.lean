/-
  TenantSync.Proofs.Push.Tolerance
  ────────────────────────────────
  **WHAT A PASS CANNOT TELL APART.**

  Two tenants are given passes for two documents.  A `Tolerance` says in what the
  bodies that are desired, the bodies that are held, what the tenants know about
  elements, their times and their faults may differ, and that nothing is looked at
  in which they do:

      the comparison of contents sees no difference
      what is stored of desired bodies counts as one
      faults answer alike, and go on to do so
      identifiers, if they are to be the same, are given out alike

  From tenants whose slices count as one, every call of a store comes to one answer
  and one mutation, and leaves slices that count as one (`store_matches`).  So does
  a pass (`Pass.run_matches`).  Only installation keys are found by their identifiers,
  so a tolerance of other identifiers is none for the pass over them.
-/
import TenantSync.Proofs.Push.SideBySide
import TenantSync.Proofs.Push.Stores

namespace TenantSync.Push

open Config Tenant

namespace Pass

/-! ## §1. Slices with elements alike. -/

/-- Two states hold elements that are alike in what a pass is about. -/
def LikeAt (E : (p : Pass) → Remote p.Body → Remote p.Body → Prop) : Pass → State → State → Prop
  | .resources, s, s' => s'.resources = s.resources
  | .rules ns, s, s' =>
      Option.Rel (NameMap.Related (E (.rules ns))) (s.rules.get? ns) (s'.rules.get? ns)
  | .falsePositives, s, s' =>
      NameMap.Related (E .falsePositives) s.falsePositives s'.falsePositives
  | .outputs, s, s' => NameMap.Related (E .outputs) s.outputs s'.outputs
  | .integrity, s, s' => NameMap.Related (E .integrity) s.integrity s'.integrity
  | .exfilWatches, s, s' => NameMap.Related (E .exfilWatches) s.exfilWatches s'.exfilWatches
  | .exfilEvents, s, s' => NameMap.Related (E .exfilEvents) s.exfilEvents s'.exfilEvents
  | .artifacts, s, s' => NameMap.Related (E .artifacts) s.artifacts s'.artifacts
  | .yaraSources, s, s' => NameMap.Related (E .yaraSources) s.yaraSources s'.yaraSources
  | .yaraRules, s, s' => NameMap.Related (E .yaraRules) s.yaraRules s'.yaraRules
  | .installationKeys, s, s' =>
      NameMap.Related (E .installationKeys) s.installationKeys s'.installationKeys
  | .orgValues, s, s' => s'.orgValues = s.orgValues

namespace LikeAt

variable {E : (p : Pass) → Remote p.Body → Remote p.Body → Prop} {p : Pass}

theorem refl (hrefl : ∀ (p : Pass) (r : Remote p.Body), E p r r) (p : Pass) (s : State) :
    p.LikeAt E s s := by
  cases p with
  | resources => rfl
  | orgValues => rfl
  | rules ns => exact NameMap.optionRel_refl (.refl (hrefl (.rules ns))) _
  | _ => exact NameMap.Related.refl (hrefl _) _

theorem mono {E' : (p : Pass) → Remote p.Body → Remote p.Body → Prop} {s s' : State}
    (hmono : ∀ {r r' : Remote p.Body}, E p r r' → E' p r r') (h : p.LikeAt E s s') :
    p.LikeAt E' s s' := by
  cases p with
  | resources => exact h
  | orgValues => exact h
  | rules ns => exact NameMap.optionRel_mono (fun hrules => hrules.mono hmono) h
  | _ => exact NameMap.Related.mono hmono h

theorem symm {s s' : State} (hsymm : ∀ {r r' : Remote p.Body}, E p r r' → E p r' r)
    (h : p.LikeAt E s s') : p.LikeAt E s' s := by
  cases p with
  | resources => exact Eq.symm h
  | orgValues => exact Eq.symm h
  | rules ns => exact NameMap.optionRel_symm (fun hrules => hrules.symm hsymm) h
  | _ => exact NameMap.Related.symm hsymm h

theorem trans {s s' s'' : State}
    (htrans : ∀ r r' r'' : Remote p.Body, E p r r' → E p r' r'' → E p r r'')
    (h : p.LikeAt E s s') (h' : p.LikeAt E s' s'') : p.LikeAt E s s'' := by
  cases p with
  | resources => exact Eq.trans h' h
  | orgValues => exact Eq.trans h' h
  | rules ns =>
      exact NameMap.optionRel_trans (fun _ _ _ hrules hrules' => hrules.trans htrans hrules') h h'
  | _ => exact NameMap.Related.trans htrans h h'

/-- Whether elements are alike depends on the slices only. -/
theorem congr {s s' u u' : State} (h : p.LikeAt E s u) (hs : p.SameAt s s')
    (hu : p.SameAt u u') : p.LikeAt E s' u' := by
  cases p with
  | resources => exact Eq.trans hu (Eq.trans h hs.symm)
  | orgValues => exact Eq.trans hu (Eq.trans h hs.symm)
  | _ =>
      simp only [SameAt] at hs hu
      simp only [LikeAt] at h ⊢
      rw [hs, hu]
      exact h

/-- A namespace is there in both states, with rules that are alike, or in neither. -/
theorem rules {ns : String} {s s' : State} (h : LikeAt E (.rules ns) s s') :
    (s.rules.get? ns = none ∧ s'.rules.get? ns = none)
      ∨ ∃ rules rules', s.rules.get? ns = some rules ∧ s'.rules.get? ns = some rules'
          ∧ NameMap.Related (E (.rules ns)) rules rules' := NameMap.optionRel_cases h

end LikeAt

end Pass

/-! ## §2. Tolerances. -/

/-- What is known about elements may differ in one way: what is stamped at two such times
differs no more, and identifiers that are to be the same are. -/
structure KnownAlike (info : Meta → Meta → Prop) (now : Timestamp → Timestamp → Prop)
    (ids : Prop) : Prop where
  refl : ∀ i : Meta, info i i
  stamp : ∀ {τ τ' : Timestamp} {n n' : UInt64} (kind : String), now τ τ' → (ids → n' = n) →
    info ((({ idCounter := n } : State).stamp τ kind ()).1.info)
      ((({ idCounter := n' } : State).stamp τ' kind ()).1.info)
  id : ∀ {i i' : Meta}, ids → info i i' → i.id = i'.id

/-- Faults are met alike, and go on to be. -/
structure MetAlike (faults : Faults → Faults → Prop) : Prop where
  answer : ∀ {f f' : Faults}, faults f f' → ∀ site, f.answer site = f'.answer site
  check : ∀ {f f' : Faults}, faults f f' → ∀ site, faults (f.check site).2 (f'.check site).2

/-- Two elements have one identifier and one author. -/
def SameSource (i i' : Meta) : Prop := i.id = i'.id ∧ i.createdBy = i'.createdBy

theorem KnownAlike.sameSource : KnownAlike SameSource (fun _ _ => True) True where
  refl := fun _ => ⟨rfl, rfl⟩
  stamp := by
    intro τ τ' n n' kind _ hcounter
    rw [hcounter trivial]
    exact ⟨rfl, rfl⟩
  id := fun _ h => h.1

theorem MetAlike.eq : MetAlike Eq where
  answer := by
    rintro f _ rfl site
    rfl
  check := by
    rintro f _ rfl site
    rfl

/-- What may differ between two tenants and two documents, and is not looked at by a pass. -/
structure Tolerance where
  /-- Desired bodies that count as one. -/
  wanted : (p : Pass) → p.Body → p.Body → Prop
  /-- Held bodies that count as one. -/
  held : (p : Pass) → p.Body → p.Body → Prop
  /-- What is known about elements that count as one. -/
  info : Meta → Meta → Prop
  /-- Times that elements may be stamped with. -/
  now : Timestamp → Timestamp → Prop
  /-- Faults that are to be met alike. -/
  faults : Faults → Faults → Prop
  /-- Whether identifiers are to be the same. -/
  ids : Prop
  wanted_refl : ∀ (p : Pass) (body : p.Body), wanted p body body
  held_refl : ∀ (p : Pass) (body : p.Body), held p body body
  /-- Contents are compared alike. -/
  same : ∀ (table : List String) (p : Pass) {a a' b b' : p.Body}, wanted p a a' → held p b b' →
    (p.store table).same a b = (p.store table).same a' b'
  plain : ∀ {p : Pass} {sec : Section p.Body} {b b' : p.Body}, p.section? = some sec →
    wanted p b b' → held p b b'
  rule : ∀ (ns name : String) {r r' : Rule}, wanted (.rules ns) r r' →
    held (.rules ns) { r with name, ruleNamespace := ns } { r' with name, ruleNamespace := ns }
  key : ∀ (id : String) {k k' : InstallationKey}, wanted .installationKeys k k' →
    held .installationKeys { k with desc := id } { k' with desc := id }
  /-- Installation keys are found by their descriptions. -/
  desc : ∀ {k k' : InstallationKey}, held .installationKeys k k' → k.desc = k'.desc
  setting : ∀ {v v' : String}, wanted .orgValues v v' → v = v'
  known : KnownAlike info now ids
  met : MetAlike faults

namespace Tolerance

/-- A tolerance of differences in what is not desired: a body counts as one with itself only. -/
def ofBodies {info : Meta → Meta → Prop} {now : Timestamp → Timestamp → Prop}
    {faults : Faults → Faults → Prop} {ids : Prop} (known : KnownAlike info now ids)
    (met : MetAlike faults) : Tolerance where
  wanted := fun _ => Eq
  held := fun _ => Eq
  info := info
  now := now
  faults := faults
  ids := ids
  wanted_refl := fun _ _ => rfl
  held_refl := fun _ _ => rfl
  same := by
    rintro table p a _ b _ rfl rfl
    rfl
  plain := fun _ h => h
  rule := by
    rintro ns name r _ rfl
    rfl
  key := by
    rintro id k _ rfl
    rfl
  desc := congrArg InstallationKey.desc
  setting := fun h => h
  known := known
  met := met

variable (T : Tolerance)

/-- Elements that count as one. -/
def Element (p : Pass) (r r' : Remote p.Body) : Prop :=
  T.held p r.body r'.body ∧ T.info r.info r'.info

/-- Tenants that count as one to a pass; of their logs, what came after two beginnings. -/
structure At (p : Pass) (before before' : List Mutation) (t u : Tenant) : Prop where
  slice : p.LikeAt T.Element t.state u.state
  counter : T.ids → u.state.idCounter = t.state.idCounter
  faults : T.faults t.faults u.faults
  now : T.now t.now u.now
  log : ∃ logged, t.log = before ++ logged ∧ u.log = before' ++ logged

variable {T}

theorem element_refl {p : Pass} (r : Remote p.Body) : T.Element p r r :=
  ⟨T.held_refl p r.body, T.known.refl r.info⟩

/-- What is stamped counts as one if the bodies do. -/
theorem element_stamp {p : Pass} {body body' : p.Body} {s s' : State} {τ τ' : Timestamp}
    (kind : String) (hbody : T.held p body body') (hnow : T.now τ τ')
    (hcounter : T.ids → s'.idCounter = s.idCounter) :
    T.Element p (s.stamp τ kind body).1 (s'.stamp τ' kind body').1 :=
  ⟨hbody, T.known.stamp kind hnow hcounter⟩

/-! ## §3. Readings and changes. -/

section Calls

variable {α β : Type} {Q : α → β → Prop} {p : Pass} {before before' : List Mutation}
  {x : Tenant.Call α} {y : Tenant.Call β} {site : CallSite}

theorem At.counted {t u : Tenant} (h : T.At p before before' t u) (site : CallSite) :
    T.At p before before' (t.counted site) (u.counted site) where
  slice := h.slice
  counter := h.counter
  faults := T.met.check h.faults site
  now := h.now
  log := h.log

/-- Two readings that show what counts as one. -/
theorem matches_reading (shown : State → α) (shown' : State → β)
    (hx : ∀ t, exec x t = t.reading site (shown t.state))
    (hy : ∀ t, exec y t = t.reading site (shown' t.state))
    (hshown : ∀ {s s'}, p.LikeAt T.Element s s' → Q (shown s) (shown' s')) :
    Matches (T.At p before before') Q x y := by
  intro t u h
  rw [hx, hy]
  unfold reading
  rw [← T.met.answer h.faults site]
  cases t.faults.answer site with
  | some e => exact ⟨.error e, h.counted site⟩
  | none => exact ⟨.ok (hshown h.slice), h.counted site⟩

variable (T Q p)

/-- Two changes that are forbidden alike, or come to states that count as one and to one
mutation. -/
inductive Alongside : Except TenantError (α × State × Mutation) →
    Except TenantError (β × State × Mutation) → Prop
  | forbidden (e : TenantError) : Alongside (.error e) (.error e)
  | made {a : α} {b : β} {s s' : State} (m : Mutation) (hanswer : Q a b)
      (hslice : p.LikeAt T.Element s s') (hcounter : T.ids → s'.idCounter = s.idCounter) :
      Alongside (.ok (a, s, m)) (.ok (b, s', m))

variable {T Q p}

/-- Two calls that change what counts as one alike. -/
theorem matches_changing (change : Timestamp → State → Except TenantError (α × State × Mutation))
    (change' : Timestamp → State → Except TenantError (β × State × Mutation))
    (hx : ∀ t, exec x t = t.changing site (change t.now t.state))
    (hy : ∀ t, exec y t = t.changing site (change' t.now t.state))
    (hchange : ∀ {s s' : State} {τ τ' : Timestamp}, T.now τ τ' → p.LikeAt T.Element s s' →
      (T.ids → s'.idCounter = s.idCounter) → T.Alongside Q p (change τ s) (change' τ' s')) :
    Matches (T.At p before before') Q x y := by
  intro t u h
  have halong := hchange h.now h.slice h.counter
  rw [hx, hy]
  unfold changing
  rw [← T.met.answer h.faults site]
  cases t.faults.answer site with
  | some e => exact ⟨.error e, h.counted site⟩
  | none =>
      -- both calls go through, so the states forbid both or neither
      rcases hs : change t.now t.state with e | ⟨a, s, m⟩
      · rcases hu : change' u.now u.state with e' | ⟨b, s', m'⟩
        · rw [hs, hu] at halong
          cases halong
          exact ⟨.error e, h.counted site⟩
        · rw [hs, hu] at halong
          cases halong
      · rcases hu : change' u.now u.state with e' | ⟨b, s', m'⟩
        · rw [hs, hu] at halong
          cases halong
        · rw [hs, hu] at halong
          cases halong with
          | made m hanswer hslice hcounter =>
              obtain ⟨logged, ht, hu⟩ := h.log
              refine ⟨.ok hanswer, hslice, hcounter, T.met.check h.faults site, h.now,
                logged ++ [m], ?_, ?_⟩
              · show t.log ++ [m] = _
                rw [ht, List.append_assoc]
              · show u.log ++ [m] = _
                rw [hu, List.append_assoc]

end Calls

/-! ## §4. The stores. -/

section Stores

variable {before before' : List Mutation}

section Plain

variable {p : Pass} {sec : Section p.Body} (h : p.section? = some sec)
include h

theorem like_section {s s' : State} :
    p.LikeAt T.Element s s' ↔ NameMap.Related (T.Element p) (sec.get s) (sec.get s') := by
  cases p <;> cases h <;> exact Iff.rfl

theorem matches_add (name : String) {body body' : p.Body} (hbody : T.wanted p body body') :
    Matches (T.At p before before') Eq (sec.add name body) (sec.add name body') := by
  refine matches_changing
    (fun τ s => .ok ((), sec.added τ name body s, ⟨.created, sec.element, name⟩))
    (fun τ s => .ok ((), sec.added τ name body' s, ⟨.created, sec.element, name⟩))
    (exec_add sec name body) (exec_add sec name body') ?_
  intro s s' τ τ' hnow hslice hcounter
  refine .made _ rfl ?_ ?_
  · rw [like_section h] at hslice ⊢
    rw [Pass.section_get_added h, Pass.section_get_added h]
    exact hslice.insert (element_stamp _ (T.plain h hbody) hnow hcounter) name
  · intro hids
    rw [Pass.section_idCounter_added h, Pass.section_idCounter_added h, hcounter hids]

theorem matches_delete (name : String) :
    Matches (T.At p before before') Eq (sec.delete name) (sec.delete name) := by
  refine matches_changing (fun _ => sec.deleted name) (fun _ => sec.deleted name)
    (exec_delete sec name) (exec_delete sec name) ?_
  intro s s' τ τ' _ hslice hcounter
  have hrelated := (like_section h).1 hslice
  unfold Section.deleted
  rw [hrelated.contains name]
  split
  · refine .made _ rfl ?_ ?_
    · rw [like_section h, Pass.section_get_put h, Pass.section_get_put h]
      exact hrelated.erase name
    · intro hids
      rw [(Pass.section_put_apart h _ _).1, (Pass.section_put_apart h _ _).1, hcounter hids]
  · exact .forbidden _

theorem plain_matches (table : List String) :
    StoreMatches (T.At p before before') (T.wanted p) (T.Element p) (Store.plain sec) := by
  have hsame : (p.store table).same = (Store.plain sec).same := by
    rw [Pass.store_plain table h]
  refine .ofDefault (fun _ _ _ => rfl) ?_ ?_ ?_ ?_
  · exact matches_reading sec.get sec.get (exec_list sec) (exec_list sec)
      fun hslice => (like_section h).1 hslice
  · exact fun id hbody => matches_add h id hbody
  · exact fun id _ => matches_delete h id
  · intro b b' r r' hb hr
    rw [← hsame]
    exact T.same table p hb hr.1

end Plain

theorem matches_liftExcept {α : Type} (p : Pass) (r : Except TenantError α) :
    Matches (T.At p before before') Eq (Store.resources.liftExcept r)
      (Store.resources.liftExcept r) := by
  cases r with
  | ok a => exact .pure rfl
  | error e => exact .throw e

theorem matches_subscribe (category name : String) :
    Matches (T.At .resources before before') Eq (subscribe category name)
      (subscribe category name) := by
  refine matches_changing
    (fun _ s => .ok ((), withSubscription category name s,
      ⟨.created, .resource, s!"{category}/{name}"⟩))
    (fun _ s => .ok ((), withSubscription category name s,
      ⟨.created, .resource, s!"{category}/{name}"⟩))
    (exec_subscribe category name) (exec_subscribe category name) ?_
  intro s s' τ τ' _ hslice hcounter
  obtain hslice : s'.resources = s.resources := hslice
  refine .made _ rfl ?_ hcounter
  show NameMap.insert s'.resources _ _ = NameMap.insert s.resources _ _
  unfold subscribed
  rw [hslice]

theorem matches_unsubscribe (category name : String) :
    Matches (T.At .resources before before') Eq (unsubscribe category name)
      (unsubscribe category name) := by
  refine matches_changing (fun _ => withoutSubscription category name)
    (fun _ => withoutSubscription category name)
    (exec_unsubscribe category name) (exec_unsubscribe category name) ?_
  intro s s' τ τ' _ hslice hcounter
  obtain hslice : s'.resources = s.resources := hslice
  unfold withoutSubscription
  rw [hslice]
  cases s.resources.get? category with
  | none => exact .forbidden _
  | some names =>
      simp only
      split
      · exact .made _ rfl rfl hcounter
      · exact .forbidden _

/-- Subscriptions have no content, so there is nothing in which they may differ. -/
theorem resources_matches :
    StoreMatches (T.At .resources before before') (T.wanted .resources) (T.Element .resources)
      Store.resources := by
  refine .ofDefault (fun _ _ _ => rfl) ?_ ?_ ?_ fun _ _ => rfl
  · refine matches_reading _ _ (Pass.exec_fetch [] (p := .resources) (by simp))
      (Pass.exec_fetch [] (p := .resources) (by simp)) ?_
    intro s s' hslice
    obtain hslice : s'.resources = s.resources := hslice
    show NameMap.Related _ (Store.resourceElements s.resources)
      (Store.resourceElements s'.resources)
    rw [hslice]
    exact .refl (element_refl (p := .resources)) _
  · intro _ _ id _
    refine (matches_liftExcept _ _).bind ?_
    rintro ⟨category, name⟩ _ rfl
    exact matches_subscribe category name
  · intro _ _ id _
    refine (matches_liftExcept _ _).bind ?_
    rintro ⟨category, name⟩ _ rfl
    exact matches_unsubscribe category name

section Rules

variable (ns : String)

/-- The rules of a namespace count as one, be it there or not. -/
theorem like_rules {s s' : State} (h : Pass.LikeAt T.Element (.rules ns) s s') :
    NameMap.Related (T.Element (.rules ns)) ((s.rules.get? ns).getD .empty)
      ((s'.rules.get? ns).getD .empty) := by
  rcases h.rules with ⟨hs, hs'⟩ | ⟨rules, rules', hs, hs', hrelated⟩
  · rw [hs, hs']
    exact .empty
  · rw [hs, hs']
    exact hrelated

/-- The rules of a namespace are replaced by ones that count as one. -/
theorem like_rules_insert {s s' : State} {rules rules' : NameMap (Remote Rule)}
    (h : NameMap.Related (T.Element (.rules ns)) rules rules') (n n' : UInt64) :
    Pass.LikeAt T.Element (.rules ns) { s with rules := s.rules.insert ns rules, idCounter := n }
      { s' with rules := s'.rules.insert ns rules', idCounter := n' } := by
  show Option.Rel _ ((s.rules.insert ns rules).get? ns) ((s'.rules.insert ns rules').get? ns)
  rw [NameMap.get?_insert, if_pos rfl, NameMap.get?_insert, if_pos rfl]
  exact .some h

theorem matches_addRule (name : String) {r r' : Rule} (hr : T.wanted (.rules ns) r r') :
    Matches (T.At (.rules ns) before before') Eq (addRule ns name r) (addRule ns name r') := by
  refine matches_changing (fun τ => withRule τ ns name r) (fun τ => withRule τ ns name r')
    (exec_addRule ns name r) (exec_addRule ns name r') ?_
  intro s s' τ τ' hnow hslice hcounter
  unfold withRule
  rcases hslice.rules with ⟨hs, hs'⟩ | ⟨rules, rules', hs, hs', hrelated⟩
  · rw [hs, hs']
    exact .forbidden _
  · rw [hs, hs']
    have hremote := element_stamp (p := .rules ns) ElementType.rule.name (T.rule ns name hr) hnow
      hcounter
    refine .made _ rfl (like_rules_insert ns (hrelated.insert hremote name) _ _) ?_
    intro hids
    show s'.idCounter + 1 = s.idCounter + 1
    rw [hcounter hids]

theorem matches_deleteRule (name : String) :
    Matches (T.At (.rules ns) before before') Eq (deleteRule ns name) (deleteRule ns name) := by
  refine matches_changing (fun _ => withoutRule ns name) (fun _ => withoutRule ns name)
    (exec_deleteRule ns name) (exec_deleteRule ns name) ?_
  intro s s' τ τ' _ hslice hcounter
  unfold withoutRule
  rcases hslice.rules with ⟨hs, hs'⟩ | ⟨rules, rules', hs, hs', hrelated⟩
  · rw [hs, hs']
    exact .forbidden _
  · rw [hs, hs']
    simp only [Option.getD_some]
    rw [hrelated.contains name]
    split
    · exact .made _ rfl (like_rules_insert ns (hrelated.erase name) _ _) hcounter
    · exact .forbidden _

theorem rules_matches (table : List String) :
    StoreMatches (T.At (.rules ns) before before') (T.wanted (.rules ns)) (T.Element (.rules ns))
      (Store.rules ns) := by
  refine .ofDefault (fun _ _ _ => rfl) ?_ ?_ ?_ ?_
  · refine matches_reading _ _ (Pass.exec_fetch [] (p := .rules ns) (by simp))
      (Pass.exec_fetch [] (p := .rules ns) (by simp)) ?_
    intro s s' hslice
    have hrules := like_rules ns hslice
    -- the names are put together alike
    unfold Pass.listed
    refine NameMap.Related.ofList ?_
    rw [List.forall₂_map_left_iff, List.forall₂_map_right_iff]
    refine hrules.entries.imp fun e f hef => ?_
    exact ⟨congrArg (Store.ruleName ns) hef.1, hef.2⟩
  · intro r r' id hr
    cases hid : Store.ruleOf ns id with
    | ok name =>
        rw [Pass.rules_create hid, Pass.rules_create hid]
        exact matches_addRule ns name hr
    | error e =>
        rw [Pass.rules_create_refused hid, Pass.rules_create_refused hid]
        exact .throw e
  · intro r r' id _
    cases hid : Store.ruleOf ns id with
    | ok name =>
        rw [Pass.rules_delete hid, Pass.rules_delete hid]
        exact matches_deleteRule ns name
    | error e =>
        rw [Pass.rules_delete_refused hid, Pass.rules_delete_refused hid]
        exact .throw e
  · intro b b' r r' hb hr
    exact T.same table (.rules ns) hb hr.1

end Rules

section Keys

variable (hids : T.ids)
include hids

/-- Keys that count as one are entered under the same names. -/
theorem related_enterKey {keys keys' : NameMap (Remote InstallationKey)}
    {key key' : Remote InstallationKey}
    (hkeys : NameMap.Related (T.Element .installationKeys) keys keys')
    (hkey : T.Element .installationKeys key key') :
    NameMap.Related (T.Element .installationKeys) (Store.enterKey keys key)
      (Store.enterKey keys' key') := by
  have hdesc : key.body.desc = key'.body.desc := T.desc hkey.1
  have hid : key.info.id = key'.info.id := T.known.id hids hkey.2
  unfold Store.enterKey
  rw [hdesc, hid]
  cases hidentity : if key'.body.desc.isEmpty then key'.info.id else some key'.body.desc with
  | none => exact hkeys
  | some identity =>
      simp only
      rw [hkeys.contains identity]
      split
      · cases key'.info.id with
        | none => exact hkeys
        | some id => exact hkeys.insert hkey _
      · exact hkeys.insert hkey _

theorem related_keyElements {l l' : List (Remote InstallationKey)}
    (h : List.Forall₂ (T.Element .installationKeys) l l') :
    NameMap.Related (T.Element .installationKeys) (Store.keyElements l) (Store.keyElements l') := by
  unfold Store.keyElements
  have hfold : ∀ {keys keys' : NameMap (Remote InstallationKey)},
      NameMap.Related (T.Element .installationKeys) keys keys' →
      NameMap.Related (T.Element .installationKeys) (l.foldl Store.enterKey keys)
        (l'.foldl Store.enterKey keys') := by
    induction h with
    | nil =>
        intro keys keys' hkeys
        exact hkeys
    | cons hkey _ ih =>
        intro keys keys' hkeys
        exact ih (related_enterKey hids hkeys hkey)
  exact hfold .empty

theorem matches_createInstallationKey (id : String) {k k' : InstallationKey}
    (hk : T.wanted .installationKeys k k') :
    Matches (T.At .installationKeys before before') Eq
      (createInstallationKey { k with desc := id })
      (createInstallationKey { k' with desc := id }) := by
  refine matches_changing
    (fun τ s => .ok ((withKey τ { k with desc := id } s).1,
      (withKey τ { k with desc := id } s).2, ⟨.created, .installationKey, id⟩))
    (fun τ s => .ok ((withKey τ { k' with desc := id } s).1,
      (withKey τ { k' with desc := id } s).2, ⟨.created, .installationKey, id⟩))
    (exec_createInstallationKey _) (exec_createInstallationKey _) ?_
  intro s s' τ τ' hnow hslice hcounter
  have hremote := element_stamp (p := .installationKeys) "key" (T.key id hk) hnow hcounter
  -- both are entered under the next identifier, which is one
  have hnext : (s'.stamp τ' "key" { k' with desc := id }).1.info.id
      = (s.stamp τ "key" { k with desc := id }).1.info.id := (T.known.id hids hremote.2).symm
  refine .made _ ?_ ?_ ?_
  · show (s.stamp τ "key" { k with desc := id }).1.info.id.getD ""
      = (s'.stamp τ' "key" { k' with desc := id }).1.info.id.getD ""
    rw [hnext]
  · show NameMap.Related _ (s.installationKeys.insert
        ((s.stamp τ "key" { k with desc := id }).1.info.id.getD "") _)
      (s'.installationKeys.insert
        ((s'.stamp τ' "key" { k' with desc := id }).1.info.id.getD "") _)
    rw [hnext]
    exact NameMap.Related.insert hslice hremote _
  · intro _
    show s'.idCounter + 1 = s.idCounter + 1
    rw [hcounter hids]

omit hids in
theorem matches_deleteInstallationKey (id : String) :
    Matches (T.At .installationKeys before before') Eq (deleteInstallationKey id)
      (deleteInstallationKey id) := by
  refine matches_changing (fun _ => withoutKey id) (fun _ => withoutKey id)
    (exec_deleteInstallationKey id) (exec_deleteInstallationKey id) ?_
  intro s s' τ τ' _ hslice hcounter
  have hrelated : NameMap.Related (T.Element .installationKeys) s.installationKeys
    s'.installationKeys := hslice
  unfold withoutKey
  rcases hrelated.get? id with ⟨hs, hs'⟩ | ⟨key, key', hs, hs', hkey⟩
  · rw [hs, hs']
    exact .forbidden _
  · rw [hs, hs']
    simp only
    -- the log names a key by its description
    rw [T.desc hkey.1]
    exact .made _ rfl (hrelated.erase id) hcounter

theorem installationKeys_matches (table : List String) :
    StoreMatches (T.At .installationKeys before before') (T.wanted .installationKeys)
      (T.Element .installationKeys) Store.installationKeys := by
  refine .ofDefault (fun _ _ _ => rfl) ?_ ?_ ?_ ?_
  · refine matches_reading _ _ (Pass.exec_fetch [] (p := .installationKeys) (by simp))
      (Pass.exec_fetch [] (p := .installationKeys) (by simp)) ?_
    intro s s' hslice
    exact related_keyElements hids (NameMap.Related.values hslice)
  · intro k k' id hk
    exact (matches_createInstallationKey hids id hk).bind fun _ _ _ => .pure rfl
  · intro r r' id hr
    have hid : r.info.id = r'.info.id := T.known.id hids hr.2
    simp only [Store.installationKeys]
    rw [hid]
    cases r'.info.id with
    | some keyId => exact matches_deleteInstallationKey keyId
    | none => exact .throw _
  · intro b b' r r' hb hr
    exact T.same table .installationKeys hb hr.1

end Keys

theorem matches_setOrgValue (name value : String) :
    Matches (T.At .orgValues before before') Eq (setOrgValue name value)
      (setOrgValue name value) := by
  refine matches_changing
    (fun _ s => .ok ((), { s with orgValues := s.orgValues.insert name value },
      ⟨if value.isEmpty then .deleted else .created, .orgValue, name⟩))
    (fun _ s => .ok ((), { s with orgValues := s.orgValues.insert name value },
      ⟨if value.isEmpty then .deleted else .created, .orgValue, name⟩))
    (exec_setOrgValue name value) (exec_setOrgValue name value) ?_
  intro s s' τ τ' _ hslice hcounter
  obtain hslice : s'.orgValues = s.orgValues := hslice
  refine .made _ rfl ?_ hcounter
  show s'.orgValues.insert name value = s.orgValues.insert name value
  rw [hslice]

theorem matches_orgValue (key : String) :
    Matches (T.At .orgValues before before') Eq (orgValue key) (orgValue key) := by
  refine matches_reading (fun s => Tenant.setting s key) (fun s => Tenant.setting s key)
    (exec_orgValue key) (exec_orgValue key) ?_
  intro s s' hslice
  obtain hslice : s'.orgValues = s.orgValues := hslice
  unfold Tenant.setting
  rw [hslice]

theorem matches_readSetting (key : String) :
    Matches (T.At .orgValues before before') Eq (Pass.readSetting key) (Pass.readSetting key) := by
  unfold Pass.readSetting
  refine Matches.tryCatch (matches_orgValue key) ?_
  intro e
  cases e with
  | notFound what => exact .pure rfl
  | rejected why => exact .throw _
  | unavailable why => exact .throw _

theorem orgValues_matches (table : List String) :
    StoreMatches (T.At .orgValues before before') (T.wanted .orgValues) (T.Element .orgValues)
      (Store.orgValues table) where
  fetch := by
    -- settings that are equal are read alike, one after the other
    have hread : ∀ (keys : List String) {acc acc' : NameMap (Remote String)},
        NameMap.Related (T.Element .orgValues) acc acc' →
        Matches (T.At .orgValues before before') (NameMap.Related (T.Element .orgValues))
          (Store.readOrgValues keys acc) (Store.readOrgValues keys acc') := by
      intro keys
      induction keys with
      | nil =>
          intro acc acc' hacc
          exact .pure hacc
      | cons key rest ih =>
          intro acc acc' hacc
          rw [Pass.readOrgValues_cons, Pass.readOrgValues_cons]
          refine (matches_readSetting key).bind ?_
          rintro value _ rfl
          refine ih ?_
          split
          · exact hacc
          · exact hacc.insert (element_refl (p := .orgValues) ⟨value, {}⟩) key
    exact hread table .empty
  create := by
    intro v v' id hv
    rw [T.setting hv]
    exact matches_setOrgValue id v'
  delete := fun id _ => matches_setOrgValue id ""
  replace := by
    intro v v' r r' id hv _
    rw [T.setting hv]
    exact matches_setOrgValue id v'
  same := by
    intro v v' r r' hv hr
    exact T.same table .orgValues hv hr.1

/-- **No call of a store tells apart what counts as one.** -/
theorem store_matches (table : List String) (p : Pass) (hids : p = .installationKeys → T.ids) :
    StoreMatches (T.At p before before') (T.wanted p) (T.Element p) (p.store table) := by
  cases hp : p.section? with
  | some sec =>
      rw [Pass.store_plain table hp]
      exact plain_matches hp table
  | none =>
      cases p with
      | resources => exact resources_matches
      | rules ns => exact rules_matches ns table
      | installationKeys => exact installationKeys_matches (hids rfl) table
      | orgValues => exact orgValues_matches table
      | _ => cases hp

end Stores

end Tolerance

end TenantSync.Push
