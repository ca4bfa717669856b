/-
  TenantSync.Proofs.Push.Plan
  ───────────────────────────
  **A PASS DECIDES FIRST AND ACTS AFTERWARDS.**

  A pass goes through the desired elements and what is held besides, and acts on
  the store as it goes.  What it decides about each identity nevertheless depends
  on nothing but the desired elements, what was held when the store was listed,
  and the mode: it is a `plan`, a list of decisions, made before the first call.

      reconcile  =  list the store, then enact the plan for what it holds

  The plan has one decision for each identity that is desired or held
  (`mem_plan`, `plan_ids_nodup`), and it does not know whether the run is dry.
  Enacting a plan makes its operations, whatever the calls are answered, and
  notes a failure only for a decision of the plan.
-/
import TenantSync.Proofs.Exec
import TenantSync.Proofs.NameMap

namespace TenantSync.Push

variable {σ β : Type}

/-! ## §1. Decisions. -/

/-- What a pass decides to do about one identity. -/
inductive Decision (β : Type) where
  | add (id : String) (body : β)
  | keep (id : String)
  | replace (id : String) (body : β) (held : Remote β)
  | remove (id : String) (held : Remote β)

namespace Decision

/-- The identity that is decided about. -/
def id : Decision β → String
  | .add id _ | .keep id | .replace id _ _ | .remove id _ => id

/-- What is reported of the decision. -/
def operation (element : ElementType) : Decision β → Operation
  | .add id _ => .add element id
  | .keep id => .keep element id
  | .replace id _ _ => .replace element id
  | .remove id _ => .remove element id

/-- What is reported to have been tried if the decision fails. -/
def action : Decision β → MutationAction
  | .add .. | .keep _ => .create
  | .replace .. => .replace
  | .remove .. => .delete

/-- The call that the decision comes to; keeping an element takes none. -/
def call (store : Store σ β) : Decision β → ExceptT TenantError (StateM σ) Unit
  | .add id body => store.create id body
  | .keep _ => return ()
  | .replace id body held => store.replace id body held
  | .remove id held => store.delete id held

@[simp] theorem operation_element (element : ElementType) (d : Decision β) :
    (d.operation element).element = element := by cases d <;> rfl

@[simp] theorem operation_name (element : ElementType) (d : Decision β) :
    (d.operation element).name = d.id := by cases d <;> rfl

/-- Act on a decision, unless the run is dry. -/
def enact (store : Store σ β) (mode : Mode) (d : Decision β) : StateM σ Outcome :=
  attempt mode store.element d.id d.action (d.call store) ⟨[d.operation store.element], []⟩

end Decision

/-- The decision about a desired element, given what is held under its identity. -/
def decision (store : Store σ β) (mode : Mode) (id : String) (body : β) :
    Option (Remote β) → Decision β
  | none => .add id body
  | some held =>
      if !store.same body held.body && mode.replacesDrift then .replace id body held else .keep id

/-- The decision about an element that is held and not desired. -/
def dismissal (mode : Mode) (id : String) (held : Remote β) : Decision β :=
  if mode.force then .remove id held else .keep id

/-- An element of the desired content is kept. -/
theorem decision_same {store : Store σ β} {mode : Mode} {id : String} {body : β}
    {held : Remote β} (h : store.same body held.body = true) :
    decision store mode id body (some held) = .keep id := by
  simp [decision, h]

/-- An element of another content is replaced where the mode allows it. -/
theorem decision_drifted {store : Store σ β} {mode : Mode} {id : String} {body : β}
    {held : Remote β} (h : store.same body held.body = false) (hmode : mode.replacesDrift = true) :
    decision store mode id body (some held) = .replace id body held := by
  simp [decision, h, hmode]

/-- An element is kept, whatever its content, where the mode does not replace. -/
theorem decision_tolerated {store : Store σ β} {mode : Mode} {id : String} {body : β}
    {held : Remote β} (hmode : mode.replacesDrift = false) :
    decision store mode id body (some held) = .keep id := by
  simp [decision, hmode]

/-- What is held is kept, or is replaced because it has another content. -/
theorem decision_cases (store : Store σ β) (mode : Mode) (id : String) (body : β)
    (held : Remote β) :
    (decision store mode id body (some held) = .keep id
        ∧ (mode.replacesDrift = true → store.same body held.body = true))
      ∨ decision store mode id body (some held) = .replace id body held
        ∧ mode.replacesDrift = true ∧ store.same body held.body = false := by
  cases hsame : store.same body held.body with
  | true => exact .inl ⟨decision_same hsame, fun _ => rfl⟩
  | false =>
      cases hmode : mode.replacesDrift with
      | true => exact .inr ⟨decision_drifted hsame hmode, rfl, rfl⟩
      | false => exact .inl ⟨decision_tolerated hmode, fun h => nomatch h⟩

theorem decision_id (store : Store σ β) (mode : Mode) (id : String) (body : β)
    (held : Option (Remote β)) : (decision store mode id body held).id = id := by
  cases held with
  | none => rfl
  | some r =>
      unfold decision
      simp only
      split <;> rfl

theorem dismissal_id (mode : Mode) (id : String) (held : Remote β) :
    (dismissal mode id held).id = id := by
  unfold dismissal
  split <;> rfl

/-- The decisions of a pass over desired elements, given what is held. -/
def plan (store : Store σ β) (mode : Mode) :
    List (String × β) → NameMap (Remote β) → List (Decision β)
  | [], held => held.entries.map fun e => dismissal mode e.1 e.2
  | (name, body) :: rest, held =>
      let id := store.identity name body
      decision store mode id body (held.get? id) :: plan store mode rest (held.erase id)

/-- Act on decisions in turn. -/
def enactAll (store : Store σ β) (mode : Mode) : List (Decision β) → StateM σ Outcome
  | [] => return {}
  | d :: ds => do
      let o ← d.enact store mode
      let rest ← enactAll store mode ds
      return o ++ rest

/-! ## §2. A pass is its plan, enacted. -/

section Enact

variable (store : Store σ β) (mode : Mode)

theorem append_operations (a b : Outcome) :
    (a ++ b).operations = a.operations ++ b.operations := rfl

theorem append_failures (a b : Outcome) : (a ++ b).failures = a.failures ++ b.failures := rfl

theorem append_assoc (a b c : Outcome) : a ++ b ++ c = a ++ (b ++ c) := by
  show Outcome.mk _ _ = Outcome.mk _ _
  simp only [append_operations, append_failures, List.append_assoc]

theorem append_empty (o : Outcome) : o ++ {} = o := by
  show Outcome.mk _ _ = _
  simp

/-- The outcome of one decision and the state it leaves. -/
theorem execState_enact (d : Decision β) (s : σ) :
    execState (d.enact store mode) s =
      if mode.dryRun then (⟨[d.operation store.element], []⟩, s)
      else match exec (d.call store) s with
        | (.ok (), s') => (⟨[d.operation store.element], []⟩, s')
        | (.error e, s') =>
            (⟨[d.operation store.element], [⟨store.element, d.id, d.action, e⟩]⟩, s') := by
  unfold Decision.enact attempt
  cases mode.dryRun with
  | true => rfl
  | false =>
      show execState (_ >>= _) s = _
      rw [execState_bind, execState_run]
      rcases exec (d.call store) s with ⟨_ | _, s'⟩ <;> rfl

theorem note_eq_append (o : Outcome) (op : Operation) : o.note op = o ++ ⟨[op], []⟩ := by
  show Outcome.mk _ _ = Outcome.mk _ _
  simp

/-- A mutation that goes on from an outcome adds its own to it. -/
theorem execState_attempt (d : Decision β) (o : Outcome) (s : σ) :
    execState (attempt mode store.element d.id d.action (d.call store)
        (o.note (d.operation store.element))) s
      = (o ++ (execState (d.enact store mode) s).1, (execState (d.enact store mode) s).2) := by
  rw [execState_enact, note_eq_append]
  unfold attempt
  cases mode.dryRun with
  | true => rfl
  | false =>
      show execState (_ >>= _) s = _
      rw [execState_bind, execState_run]
      rcases exec (d.call store) s with ⟨e | _, s'⟩
      · show (Outcome.mk _ _, s') = (Outcome.mk _ _, s')
        simp [append_operations, append_failures]
      · rfl

theorem reconcileDesired_eq (id : String) (body : β) (held : Option (Remote β)) (o : Outcome) :
    reconcileDesired store mode id body held o
      = attempt mode store.element id (decision store mode id body held).action
          ((decision store mode id body held).call store)
          (o.note ((decision store mode id body held).operation store.element)) := by
  cases held with
  | none => rfl
  | some r =>
      unfold reconcileDesired decision
      simp only
      split
      · rfl
      · unfold attempt
        cases mode.dryRun <;> rfl

theorem dismiss_enact (entries : List (String × Remote β)) :
    ∀ (o : Outcome) (s : σ), execState (dismiss store mode entries o) s
      = (o ++ (execState (enactAll store mode
            (entries.map fun e => dismissal mode e.1 e.2)) s).1,
          (execState (enactAll store mode (entries.map fun e => dismissal mode e.1 e.2)) s).2) := by
  induction entries with
  | nil =>
      intro o s
      show (o, s) = (o ++ {}, s)
      rw [append_empty]
  | cons e rest ih =>
      intro o s
      obtain ⟨id, held⟩ := e
      -- keeping an element is an attempt of a call that does nothing, so that both
      -- branches of the code are attempts
      have hstep : execState (dismiss store mode ((id, held) :: rest) o) s
          = execState (do
              let o ← attempt mode store.element id (dismissal mode id held).action
                ((dismissal mode id held).call store)
                (o.note ((dismissal mode id held).operation store.element))
              dismiss store mode rest o) s := by
        show execState (if mode.force then _ >>= fun o => dismiss store mode rest o
          else _ >>= fun o => dismiss store mode rest o) s = _
        unfold dismissal
        cases mode.force with
        | true => rfl
        | false =>
            unfold attempt
            cases mode.dryRun <;> rfl
      have hattempt := execState_attempt store mode (dismissal mode id held) o s
      rw [dismissal_id] at hattempt
      rw [hstep, execState_bind, hattempt, ih]
      show _ = (o ++ ((execState ((dismissal mode id held).enact store mode) s).1 ++ _), _)
      rw [← append_assoc]
      rfl

theorem reconcileAll_enact (desired : List (String × β)) :
    ∀ (held : NameMap (Remote β)) (o : Outcome) (s : σ),
      execState (do
        let (rest, o) ← reconcileAll store mode desired held o
        dismiss store mode rest.entries o) s
      = (o ++ (execState (enactAll store mode (plan store mode desired held)) s).1,
          (execState (enactAll store mode (plan store mode desired held)) s).2) := by
  induction desired with
  | nil =>
      intro held o s
      exact dismiss_enact store mode held.entries o s
  | cons e rest ih =>
      intro held o s
      obtain ⟨name, body⟩ := e
      let id := store.identity name body
      let d := decision store mode id body (held.get? id)
      have hstep : execState (reconcileDesired store mode id body (held.get? id) o) s
          = (o ++ (execState (d.enact store mode) s).1, (execState (d.enact store mode) s).2) := by
        rw [reconcileDesired_eq, ← execState_attempt store mode d o s]
        show _ = execState (attempt _ _ (decision store mode id body _).id _ _ _) s
        rw [decision_id]
      -- what is left to be decided about is held under other identities
      have hrest := ih (held.erase id) (execState (reconcileDesired store mode id body
        (held.get? id) o) s).1 (execState (reconcileDesired store mode id body
        (held.get? id) o) s).2
      rw [hstep] at hrest
      show execState (reconcileDesired store mode id body (held.get? id) o >>= fun o => do
        let (rest, o) ← reconcileAll store mode rest (held.erase id) o
        dismiss store mode rest.entries o) s = _
      rw [execState_bind, hstep, hrest]
      show _ = (o ++ ((execState (d.enact store mode) s).1 ++ _), _)
      rw [← append_assoc]
      rfl

/-- **A pass is its plan, enacted**: after the store was listed, nothing that the
store answers has an influence on what is tried next. -/
theorem exec_reconcile (desired : NameMap β) (s : σ) :
    exec (reconcile store mode desired) s = match exec store.fetch s with
      | (.error cause, s') => (.error (.fetch store.element cause), s')
      | (.ok held, s') =>
          (.ok (execState (enactAll store mode (plan store mode desired.entries held)) s').1,
            (execState (enactAll store mode (plan store mode desired.entries held)) s').2) := by
  unfold reconcile
  rw [exec_bind, exec_lift, execState_run]
  rcases exec store.fetch s with ⟨cause | held, s'⟩
  · rfl
  · have h := reconcileAll_enact store mode desired.entries held {} s'
    show (Except.ok (execState (do
        let (rest, o) ← reconcileAll store mode desired.entries held {}
        dismiss store mode rest.entries o) s').1, (execState (do
        let (rest, o) ← reconcileAll store mode desired.entries held {}
        dismiss store mode rest.entries o) s').2) = _
    rw [h]
    rfl

end Enact

/-! ## §3. What a plan decides. -/

section Decisions

variable (store : Store σ β) (mode : Mode)

/-- The identities of desired elements, in the order of their names. -/
def identities (desired : List (String × β)) : List String :=
  desired.map fun e => store.identity e.1 e.2

/-- A plan decides about the identities that are desired or held. -/
theorem mem_plan_ids (desired : List (String × β)) :
    ∀ (held : NameMap (Remote β)) (i : String),
      i ∈ (plan store mode desired held).map Decision.id
        ↔ i ∈ identities store desired ∨ i ∈ held.keys := by
  -- by the desired elements: each takes its identity out of what is held
  induction desired with
  | nil =>
      intro held i
      simp [plan, identities, List.map_map, Function.comp_def, dismissal_id, NameMap.keys]
  | cons e rest ih =>
      intro held i
      obtain ⟨name, body⟩ := e
      have herase : i ∈ (held.erase (store.identity name body)).keys
          ↔ i ≠ store.identity name body ∧ i ∈ held.keys := by
        simp only [NameMap.mem_keys, NameMap.get?_erase]
        by_cases h : i = store.identity name body <;> simp [h]
      simp only [plan, identities, List.map_cons, List.mem_cons, decision_id]
      rw [ih, herase]
      by_cases h : i = store.identity name body <;> simp [h, identities]

/-- If the desired elements have identities of their own, the plan decides about
each identity once. -/
theorem plan_ids_nodup (desired : List (String × β)) :
    ∀ held : NameMap (Remote β), (identities store desired).Nodup →
      ((plan store mode desired held).map Decision.id).Nodup := by
  induction desired with
  | nil =>
      intro held _
      simp only [plan, List.map_map, Function.comp_def, dismissal_id]
      exact held.keys_nodup
  | cons e rest ih =>
      intro held hnodup
      obtain ⟨name, body⟩ := e
      obtain ⟨hnot, hrest⟩ := List.nodup_cons.1 hnodup
      simp only [plan, List.map_cons, decision_id]
      refine List.nodup_cons.2 ⟨?_, ih _ hrest⟩
      -- the identity is not desired again, and was taken out of what is held
      rw [mem_plan_ids, NameMap.mem_keys, NameMap.get?_erase, if_pos rfl]
      rintro (h | ⟨v, h⟩)
      · exact hnot h
      · cases h

/-- **What a plan decides**: about each desired element by what is held under its
identity, and about each held element that is not desired. -/
theorem mem_plan (desired : List (String × β)) :
    ∀ held : NameMap (Remote β), (identities store desired).Nodup → ∀ d,
      d ∈ plan store mode desired held
        ↔ (∃ name body, (name, body) ∈ desired
              ∧ d = decision store mode (store.identity name body) body
                  (held.get? (store.identity name body)))
          ∨ ∃ i r, held.get? i = some r ∧ i ∉ identities store desired
              ∧ d = dismissal mode i r := by
  induction desired with
  | nil =>
      intro held _ d
      simp only [plan, List.mem_map, identities, List.map_nil, List.not_mem_nil, false_and,
        exists_false, false_or, not_false_eq_true, true_and, NameMap.get?_eq_some_iff]
      constructor
      · rintro ⟨e, he, rfl⟩
        exact ⟨e.1, e.2, he, rfl⟩
      · rintro ⟨i, r, he, rfl⟩
        exact ⟨(i, r), he, rfl⟩
  | cons e rest ih =>
      intro held hnodup d
      obtain ⟨name, body⟩ := e
      obtain ⟨hnot, hrest⟩ := List.nodup_cons.1 hnodup
      -- what is held for the rest is held under another identity than the first one's
      have hother : ∀ n b, (n, b) ∈ rest →
          (held.erase (store.identity name body)).get? (store.identity n b)
            = held.get? (store.identity n b) := by
        intro n b hmem
        rw [NameMap.get?_erase, if_neg]
        intro heq
        exact hnot (List.mem_map.2 ⟨(n, b), hmem, heq⟩)
      rw [plan, List.mem_cons, ih _ hrest]
      constructor
      · rintro (rfl | ⟨n, b, hmem, rfl⟩ | ⟨i, r, hget, hnin, rfl⟩)
        · exact .inl ⟨name, body, List.mem_cons_self, rfl⟩
        · rw [hother n b hmem]
          exact .inl ⟨n, b, List.mem_cons_of_mem _ hmem, rfl⟩
        · rw [NameMap.get?_erase] at hget
          by_cases hi : i = store.identity name body
          · rw [if_pos hi] at hget
            cases hget
          · rw [if_neg hi] at hget
            exact .inr ⟨i, r, hget, by simpa [identities, hi] using hnin, rfl⟩
      · rintro (⟨n, b, hmem, rfl⟩ | ⟨i, r, hget, hnin, rfl⟩)
        · rcases List.mem_cons.1 hmem with heq | hmem
          · cases heq
            exact .inl rfl
          · exact .inr (.inl ⟨n, b, hmem, by rw [hother n b hmem]⟩)
        · have hnin' : i ≠ store.identity name body ∧ i ∉ identities store rest := by
            simpa [identities] using hnin
          refine .inr (.inr ⟨i, r, ?_, hnin'.2, rfl⟩)
          rw [NameMap.get?_erase, if_neg hnin'.1, hget]

/-- Plans do not know whether the run is dry. -/
theorem plan_dryRun (dry : Bool) (desired : List (String × β)) :
    ∀ held : NameMap (Remote β),
      plan store { mode with dryRun := dry } desired held = plan store mode desired held := by
  induction desired with
  | nil => intro held; rfl
  | cons e rest ih =>
      intro held
      rw [plan, plan, ih]
      congr 1

end Decisions

/-! ## §4. Enacting a plan. -/

/-- A plan is enacted one decision after the other. -/
theorem execState_enactAll_cons {store : Store σ β} {mode : Mode} (d : Decision β)
    (ds : List (Decision β)) (s : σ) :
    execState (enactAll store mode (d :: ds)) s
      = ((execState (d.enact store mode) s).1
          ++ (execState (enactAll store mode ds) (execState (d.enact store mode) s).2).1,
        (execState (enactAll store mode ds) (execState (d.enact store mode) s).2).2) := rfl

/-- A decision without a failure has gone through. -/
theorem call_of_enact {store : Store σ β} {mode : Mode} {d : Decision β} {s s' : σ}
    {o : Outcome} (hdry : mode.dryRun = false) (h : execState (d.enact store mode) s = (o, s'))
    (hok : o.failures = []) : exec (d.call store) s = (.ok (), s') := by
  rw [execState_enact, hdry] at h
  simp only [Bool.false_eq_true, if_false] at h
  rcases hcall : exec (d.call store) s with ⟨e | _, s₁⟩
  · rw [hcall] at h
    cases h
    cases hok
  · rw [hcall] at h
    cases h
    rfl

/-- The calls of decisions, one after the other, have gone through. -/
inductive WentThrough (store : Store σ β) : List (Decision β) → σ → σ → Prop
  | nil {s : σ} : WentThrough store [] s s
  | cons {d : Decision β} {ds : List (Decision β)} {s s₁ s' : σ}
      (hcall : exec (d.call store) s = (.ok (), s₁)) (hrest : WentThrough store ds s₁ s') :
      WentThrough store (d :: ds) s s'

/-- Decisions without a failure have all gone through. -/
theorem wentThrough_of_enactAll {store : Store σ β} {mode : Mode} (hdry : mode.dryRun = false)
    (ds : List (Decision β)) :
    ∀ {s s' : σ} {o : Outcome}, execState (enactAll store mode ds) s = (o, s') →
      o.failures = [] → WentThrough store ds s s' := by
  induction ds with
  | nil =>
      intro s s' o h _
      cases h
      exact .nil
  | cons d ds ih =>
      intro s s' o h hok
      rw [execState_enactAll_cons] at h
      rcases hfirst : execState (d.enact store mode) s with ⟨o₁, s₁⟩
      rcases hrest : execState (enactAll store mode ds) s₁ with ⟨o₂, s₂⟩
      simp only [hfirst, hrest] at h
      cases h
      obtain ⟨hok₁, hok₂⟩ := List.append_eq_nil_iff.1 hok
      exact .cons (call_of_enact hdry hfirst hok₁) (ih hrest hok₂)

section Outcomes

variable (store : Store σ β) (mode : Mode)

/-- The operations of a pass are those of its plan. -/
theorem enactAll_operations (ds : List (Decision β)) :
    ∀ s, (execState (enactAll store mode ds) s).1.operations
      = ds.map (Decision.operation store.element) := by
  induction ds with
  | nil => intro s; rfl
  | cons d ds ih =>
      intro s
      rw [execState_enactAll_cons, append_operations, ih, execState_enact, List.map_cons]
      cases mode.dryRun with
      | true => rfl
      | false => rcases exec (d.call store) s with ⟨_ | _, s'⟩ <;> rfl

/-- A failure is noted of the kind of the store, under an identity of the plan. -/
theorem enactAll_failures (ds : List (Decision β)) :
    ∀ s, ∀ f ∈ (execState (enactAll store mode ds) s).1.failures,
      f.element = store.element ∧ f.name ∈ ds.map Decision.id := by
  induction ds with
  | nil =>
      intro s f hf
      cases hf
  | cons d ds ih =>
      intro s f hf
      rw [execState_enactAll_cons, append_failures] at hf
      rcases List.mem_append.1 hf with h | h
      · -- a failure of this decision: its call was made, and was answered with an error
        rw [execState_enact] at h
        cases hdry : mode.dryRun with
        | true => simp [hdry] at h
        | false =>
            rcases hex : exec (d.call store) s with ⟨e | _, s'⟩ <;> simp [hdry, hex] at h
            subst h
            exact ⟨rfl, List.mem_cons_self⟩
      · obtain ⟨helement, hname⟩ := ih _ f h
        exact ⟨helement, List.mem_cons_of_mem _ hname⟩

/-- Nothing is called, and nothing fails, in a dry run. -/
theorem enactAll_dry (hdry : mode.dryRun = true) (ds : List (Decision β)) (s : σ) :
    (execState (enactAll store mode ds) s).2 = s
      ∧ (execState (enactAll store mode ds) s).1.failures = [] := by
  induction ds with
  | nil => exact ⟨rfl, rfl⟩
  | cons d ds ih =>
      have hstep : execState (d.enact store mode) s = (⟨[d.operation store.element], []⟩, s) := by
        rw [execState_enact, if_pos hdry]
      rw [execState_enactAll_cons, append_failures, hstep]
      exact ⟨ih.1, by rw [ih.2]; rfl⟩

/-- A plan that keeps everything makes no call. -/
theorem enactAll_kept (ds : List (Decision β)) (hkept : ∀ d ∈ ds, d = .keep d.id) (s : σ) :
    execState (enactAll store mode ds) s
      = (⟨ds.map (Decision.operation store.element), []⟩, s) := by
  induction ds with
  | nil => rfl
  | cons d ds ih =>
      have hstep : execState (d.enact store mode) s = (⟨[d.operation store.element], []⟩, s) := by
        rw [execState_enact, hkept d List.mem_cons_self]
        cases mode.dryRun <;> rfl
      rw [execState_enactAll_cons, hstep, ih fun d' hd' => hkept d' (List.mem_cons_of_mem _ hd')]
      rfl

end Outcomes

/-! ## §5. What every call of a store keeps, a pass keeps. -/

/-- Every call of a store leads only to states related to the one it found. -/
structure StoreKeeps (R : σ → σ → Prop) (store : Store σ β) : Prop where
  fetch : Keeps R store.fetch
  create : ∀ id body, Keeps R (store.create id body)
  delete : ∀ id held, Keeps R (store.delete id held)
  replace : ∀ id body held, Keeps R (store.replace id body held)

section Preorder

variable {R : σ → σ → Prop} {store : Store σ β}

/-- A store that replaces by deleting and creating keeps what its other calls keep. -/
theorem StoreKeeps.ofDefault (htrans : ∀ {a b c}, R a b → R b c → R a c)
    (hreplace : ∀ id body held,
      store.replace id body held = (do store.delete id held; store.create id body))
    (hfetch : Keeps R store.fetch) (hcreate : ∀ id body, Keeps R (store.create id body))
    (hdelete : ∀ id held, Keeps R (store.delete id held)) : StoreKeeps R store where
  fetch := hfetch
  create := hcreate
  delete := hdelete
  replace := by
    intro id body held
    rw [hreplace]
    exact Keeps.bind (R := R) htrans (hdelete id held) fun _ => hcreate id body

/-- The calls that decisions come to are enough to know what enacting them keeps. -/
theorem enactAll_keeps_calls (hrefl : ∀ s, R s s) (htrans : ∀ {a b c}, R a b → R b c → R a c)
    (mode : Mode) (ds : List (Decision β)) (hcalls : ∀ d ∈ ds, Keeps R (d.call store)) :
    ∀ s, R s (execState (enactAll store mode ds) s).2 := by
  induction ds with
  | nil => exact hrefl
  | cons d ds ih =>
      intro s
      have hstep : R s (execState (d.enact store mode) s).2 := by
        rw [execState_enact]
        cases mode.dryRun with
        | true => exact hrefl s
        | false =>
            have h := hcalls d List.mem_cons_self s
            rcases hex : exec (d.call store) s with ⟨_ | _, s'⟩ <;> rw [hex] at h <;> exact h
      exact htrans hstep (ih (fun d' hd' => hcalls d' (List.mem_cons_of_mem _ hd')) _)

theorem enactAll_keeps (hrefl : ∀ s, R s s) (htrans : ∀ {a b c}, R a b → R b c → R a c)
    (hstore : StoreKeeps R store) (mode : Mode) (ds : List (Decision β)) :
    ∀ s, R s (execState (enactAll store mode ds) s).2 := by
  refine enactAll_keeps_calls hrefl htrans mode ds fun d _ => ?_
  -- whatever is decided is carried out by a call of the store, or by none
  cases d with
  | add id body => exact hstore.create id body
  | keep id => exact Keeps.pure hrefl ()
  | replace id body held => exact hstore.replace id body held
  | remove id held => exact hstore.delete id held

theorem reconcile_keeps (hrefl : ∀ s, R s s) (htrans : ∀ {a b c}, R a b → R b c → R a c)
    (hstore : StoreKeeps R store) (mode : Mode) (desired : NameMap β) :
    Keeps R (reconcile store mode desired) := by
  intro s
  have hfetch := hstore.fetch s
  rw [exec_reconcile]
  rcases hex : exec store.fetch s with ⟨_ | held, s'⟩ <;> rw [hex] at hfetch
  · exact hfetch
  · exact htrans hfetch (enactAll_keeps hrefl htrans hstore mode _ s')

end Preorder

end TenantSync.Push
