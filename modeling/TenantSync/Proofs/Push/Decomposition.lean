/-
  TenantSync.Proofs.Push.Decomposition
  ────────────────────────────────────
  **A PUSH IS ITS CATEGORIES, ONE AFTER THE OTHER.**

  Instead of pushing a selection, its categories can be pushed one at a time, in the
  order of a push and up to the first that fails:

      push {a, b, c}  =  push {a}, then push {b}, then push {c}

  Whichever calls fail, both come to one result, if the results of the single pushes
  are joined, to one log and to one state.  Only the times may differ that elements
  are stamped with, because time goes by between the single pushes.
-/
import TenantSync.Proofs.Push.Course
import TenantSync.Proofs.Push.EveryCall
import TenantSync.Proofs.Push.Simulation

namespace TenantSync.Push

open Config Tenant

/-! ## §1. Pushes of single categories. -/

/-- The selection of one category. -/
def only (mode : Mode) (category : Category) : Options := ⟨mode, (· == category)⟩

/-- What came of pushes of single categories. -/
abbrev Results := List (Category × Except Error (List Operation))

section Single

variable (table : List String) (mode : Mode) (c : Config)

/-- Push single categories one after the other, each at its own time, up to the first
that fails. -/
def pushEach (clock : Category → Timestamp) : List Category → Tenant → Results × Tenant
  | [], t => ([], t)
  | category :: rest, t =>
      match exec (pushWith table (only mode category) c) { t with now := clock category } with
      | (.ok operations, t') =>
          let (results, t'') := pushEach clock rest t'
          ((category, .ok operations) :: results, t'')
      | (.error e, t') => ([(category, .error e)], t')

end Single

/-- The results of single pushes as one: the operations put together, up to the first
failure. -/
def joined : Results → Except Error (List Operation)
  | [] => .ok []
  | (_, .ok operations) :: rest => after operations (joined rest)
  | (_, .error e) :: _ => .error e

section Decomposition

variable {table : List String} {mode : Mode} {c : Config} {category : Category}

theorem only_categories : (only mode category).categories = [category] := by
  cases category <;> rfl

theorem schedule_only (s : State) : schedule (only mode category) c s = stages c s category := by
  unfold schedule
  rw [only_categories, List.flatMap_cons, List.flatMap_nil, List.append_nil]

theorem category_of_mem_only {s : State} {stage : Stage}
    (h : stage ∈ schedule (only mode category) c s) : stage.category = category :=
  beq_iff_eq.1 (selected_of_mem_schedule h)

/-- What can be pushed can be pushed category by category. -/
theorem invalid?_only {o : Options} (hvalid : invalid? table c o = none)
    (hselected : o.selected category = true) :
    invalid? table c (only mode category) = none := by
  rw [invalid?_eq_none] at hvalid ⊢
  -- what is wrong with a category is wrong with a selection it belongs to
  have hpart : ∀ {category' : Category}, (only mode category).selected category' = true →
      o.selected category' = true := by
    intro category' h
    rw [show category' = category from beq_iff_eq.1 h]
    exact hselected
  rintro (⟨horg, hunknown⟩ | ⟨hkeys, hshares⟩)
  · exact hvalid (.inl ⟨hpart horg, hunknown⟩)
  · exact hvalid (.inr ⟨hpart hkeys, hshares⟩)

/-- The push of a category runs its stages. -/
theorem exec_push_only (hvalid : invalid? table c (only mode category) = none) (t : Tenant) :
    exec (pushWith table (only mode category) c) t
      = exec (runStages table mode c (stages c t.state category) []) t := by
  rw [exec_pushWith, only_categories, hvalid, schedule_only]
  rfl

/-- A category that succeeds is followed by the others. -/
theorem pushEach_ok (clock : Category → Timestamp) {rest : List Category} {t t' : Tenant}
    {operations : List Operation}
    (h : exec (pushWith table (only mode category) c) { t with now := clock category }
      = (.ok operations, t')) :
    pushEach table mode c clock (category :: rest) t
      = ((category, .ok operations) :: (pushEach table mode c clock rest t').1,
        (pushEach table mode c clock rest t').2) := by
  rw [pushEach, h]

/-- A category that fails is the last one. -/
theorem pushEach_error (clock : Category → Timestamp) {rest : List Category} {t t' : Tenant}
    {e : Error}
    (h : exec (pushWith table (only mode category) c) { t with now := clock category }
      = (.error e, t')) :
    pushEach table mode c clock (category :: rest) t = ([(category, .error e)], t') := by
  rw [pushEach, h]

/-! ## §2. A push is its categories. -/

/-- Pushing takes no time. -/
theorem push_now (table : List String) (o : Options) (c : Config) :
    Keeps (fun t t' => t'.now = t.now) (pushWith table o c) :=
  push_keeps_calls (R := fun t t' => t'.now = t.now) (fun _ => rfl) (fun h h' => h'.trans h)
    (keeps_of_changes (fun _ _ => rfl) fun _ => rfl) table o c

/-- Categories that are pushed in one go, after some operations, are pushed one by one. -/
theorem pushCategories_eq_pushEach (categories : List Category) :
    ∀ (operations : List Operation) (t : Tenant),
      (∀ category ∈ categories, invalid? table c (only mode category) = none) →
        exec (pushCategories table mode c categories operations) t
          = (after operations (joined (pushEach table mode c (fun _ => t.now) categories t).1),
            (pushEach table mode c (fun _ => t.now) categories t).2) := by
  -- by the categories: the others are pushed after the operations of the first
  induction categories with
  | nil =>
      intro operations t _
      show (Except.ok operations, t) = (after operations (.ok []), t)
      simp [after]
  | cons category rest ih =>
      intro operations t hvalid
      obtain ⟨hfirst, hrest⟩ := List.forall_mem_cons.1 hvalid
      have hpush := exec_push_only hfirst t
      have hnow := push_now table (only mode category) c t
      rw [pushCategories_cons, exec_bind, pushCategory_conclude, exec_runStages_after, ← hpush]
      rcases hrun : exec (pushWith table (only mode category) c) t with ⟨e | done, t'⟩
      · rw [pushEach_error (fun _ => t.now) hrun]
        cases e <;> rfl
      · rw [hrun] at hnow
        change t'.now = t.now at hnow
        rw [pushEach_ok (fun _ => t.now) hrun]
        show exec (pushCategories table mode c rest (operations ++ done)) t' = _
        rw [ih (operations ++ done) t' hrest, hnow]
        show _ = (after operations (after done _), _)
        rw [← after_append]

/-! ## §3. At other times. -/

/-- Two elements differ at most in their times. -/
def SameButTimes (p : Pass) (r r' : Remote p.Body) : Prop :=
  r.body = r'.body ∧ r.info.id = r'.info.id ∧ r.info.createdBy = r'.info.createdBy

/-- Only times may differ. -/
def Tolerance.times : Tolerance := .ofBodies .sameSource .eq

/-- Single pushes side by side come to the same results, and leave tenants that count as one. -/
theorem pushEach_matches (table : List String) (mode : Mode) (c : Config) {T : Tolerance}
    {P : Stage → Prop} {before before' : List Mutation} (hids : T.ids)
    (clock clock' : Category → Timestamp)
    (hnow : ∀ category, T.now (clock category) (clock' category)) (categories : List Category) :
    ∀ {t u : Tenant}, (∀ stage : Stage, stage.category ∈ categories → P stage) →
      T.On P before before' t u →
        (pushEach table mode c clock categories t).1 = (pushEach table mode c clock' categories u).1
          ∧ T.On P before before' (pushEach table mode c clock categories t).2
              (pushEach table mode c clock' categories u).2 := by
  induction categories with
  | nil =>
      intro t u _ h
      exact ⟨rfl, h⟩
  | cons category rest ih =>
      intro t u hP h
      let t₁ : Tenant := { t with now := clock category }
      let u₁ : Tenant := { u with now := clock' category }
      have hbegin : T.On P before before' t₁ u₁ :=
        ⟨h.slices, h.namespaces, h.counter, h.faults, hnow category, h.log⟩
      have hstages : ∀ stage ∈ schedule (only mode category) c t₁.state, P stage := by
        intro stage hstage
        refine hP stage ?_
        rw [category_of_mem_only hstage]
        exact List.mem_cons_self
      obtain ⟨hresult, hend⟩ := push_matches table (.refl c) rfl (fun _ => hids) hstages hbegin
      rcases ht : exec (pushWith table (only mode category) c) t₁ with ⟨r, t'⟩
      rcases hu : exec (pushWith table (only mode category) c) u₁ with ⟨r', u'⟩
      rw [ht, hu] at hresult hend
      obtain rfl : r = r' := hresult
      cases r with
      | error e =>
          rw [pushEach_error clock ht, pushEach_error clock' hu]
          exact ⟨rfl, hend⟩
      | ok operations =>
          obtain ⟨hresults, hrest⟩ := ih
            (fun stage hstage => hP stage (List.mem_cons_of_mem _ hstage)) hend
          rw [pushEach_ok clock ht, pushEach_ok clock' hu, hresults]
          exact ⟨rfl, hrest⟩

/-- **A push is its categories**, one after the other. -/
theorem push_eq_pushEach {o : Options} (hselected : o.categories ≠ [])
    (hvalid : invalid? table c o = none) (clock : Category → Timestamp) (t : Tenant) :
    joined (pushEach table o.mode c clock o.categories t).1 = (exec (pushWith table o c) t).1
      ∧ AlikeUpTo SameButTimes (exec (pushWith table o c) t).2
          (pushEach table o.mode c clock o.categories t).2 := by
  have hsingle : ∀ category ∈ o.categories, invalid? table c (only o.mode category) = none :=
    fun category hcategory => invalid?_only hvalid (mem_categories.1 hcategory)
  have hpush : exec (pushWith table o c) t
      = exec (pushCategories table o.mode c o.categories []) t := by
    rw [exec_pushWith, pushCategories_eq, hvalid,
      if_neg fun hempty => hselected (List.isEmpty_iff.1 hempty)]
    rfl
  have hbegin : Tolerance.times.On (fun _ => True) t.log t.log t t := .later rfl trivial
  obtain ⟨hresults, hend⟩ := pushEach_matches table o.mode c trivial (fun _ => t.now) clock
    (fun _ => trivial) o.categories (fun _ _ => trivial) hbegin
  rw [hpush, pushCategories_eq_pushEach o.categories [] t hsingle, after_nil]
  refine ⟨?_, hend.alikeUpTo trivial Eq.symm⟩
  rw [hresults]

end Decomposition

end TenantSync.Push
