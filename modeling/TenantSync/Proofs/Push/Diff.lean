/-
  TenantSync.Proofs.Push.Diff
  ───────────────────────────
  **A PASS OVER A PLAIN MAP MAKES THE DIFFERENCE, CALL BY CALL.**

  The plainest store is a map: creating enters a body, deleting takes one out, replacing
  is deleting and creating, and some of the calls are refused.  What a pass does to it
  can be said without the pass.  The *difference* of what is desired and what is held
  goes through the desired elements in the order of their names, then through what is held
  besides, and says of each identity what is to become of it:

      desired, not held                          added       create
      desired, held, of the same content         kept        -
      desired, held, of another content          replaced    delete, create
        unless the mode tolerates it             kept        -
      held, not desired                          removed     delete
        unless the mode tolerates it             kept        -

  Nothing else comes of a pass (`reconcile_diff`): its operations are the difference, its
  calls are those of the difference, in order, its failures those of refused calls,
  and it leaves what the calls that were not refused make of the map.  That the pass takes
  elements out of its own copy of what was held while the store changes beneath it,
  is of no consequence.
-/
import TenantSync.Proofs.Push.Plan

namespace TenantSync.Push

variable {β : Type}

/-! ## §1. A store that is a map. -/

/-- A call that changes a store. -/
inductive Request (β : Type) where
  | create (id : String) (body : β)
  | delete (id : String) (held : Remote β)
  deriving DecidableEq

/-- The identity that a call is about. -/
def Request.id : Request β → String
  | .create id _ | .delete id _ => id

/-- What a map holds, and the calls that were made to it. -/
structure MapState (β : Type) where
  held : NameMap (Remote β)
  requests : List (Request β) := []
  deriving DecidableEq

/-- A store that is a map. -/
structure MapStore (β : Type) where
  element : ElementType
  identity : String → β → String := fun name _ => name
  /-- Whether two bodies have the same content. -/
  same : β → β → Bool
  /-- What the store notes of an element that is created. -/
  info : String → β → Meta := fun _ _ => {}
  /-- Why the elements cannot be listed, if they cannot. -/
  unlisted : Option TenantError := none
  /-- Why a call is refused, if it is. -/
  refusal : Request β → Option TenantError

namespace MapStore

variable (m : MapStore β)

/-- What a call makes of a map. -/
def apply (held : NameMap (Remote β)) : Request β → NameMap (Remote β)
  | .create id body => held.insert id ⟨body, m.info id body⟩
  | .delete id _ => held.erase id

/-- Make a call, which is noted whether it is refused or not. -/
def request (r : Request β) : ExceptT TenantError (StateM (MapState β)) Unit := do
  modify fun s => { s with requests := s.requests ++ [r] }
  match m.refusal r with
  | some e => throw e
  | none => modify fun s => { s with held := m.apply s.held r }

/-- The map as a store.  It has no way of its own to replace an element. -/
def store : Store (MapState β) β where
  element := m.element
  identity := m.identity
  fetch :=
    match m.unlisted with
    | some e => throw e
    | none => do
        let s ← get
        return s.held
  create id body := m.request (.create id body)
  delete id held := m.request (.delete id held)
  same := m.same

/-! ## §2. The difference, and what is to come of it. -/

/-- The difference of what is desired and what is held. -/
def diff (mode : Mode) (desired : NameMap β) (held : NameMap (Remote β)) : List (Decision β) :=
  (desired.entries.map fun e =>
      decision m.store mode (m.identity e.1 e.2) e.2 (held.get? (m.identity e.1 e.2)))
    ++ (held.entries.filter fun e => e.1 ∉ identities m.store desired.entries).map fun e =>
      dismissal mode e.1 e.2

/-- The calls that a decision comes to.  What could not be deleted is not created again. -/
def requests : Decision β → List (Request β)
  | .add id body => [.create id body]
  | .keep _ => []
  | .replace id body held =>
      .delete id held :: if (m.refusal (.delete id held)).isSome then [] else [.create id body]
  | .remove id held => [.delete id held]

/-- Why a decision is not carried out, if it is not. -/
def fault? (d : Decision β) : Option TenantError := (m.requests d).findSome? m.refusal

/-- What is told of a decision that is not carried out. -/
def failure? (d : Decision β) : Option Failure :=
  (m.fault? d).map fun e => ⟨m.element, d.id, d.action, e⟩

/-- What calls make of a map, those that are refused aside. -/
def applyAll (held : NameMap (Remote β)) (rs : List (Request β)) : NameMap (Remote β) :=
  (rs.filter fun r => (m.refusal r).isNone).foldl m.apply held

/-- What is held under its identity after a decision, given what was held. -/
def leaves (d : Decision β) (held : Option (Remote β)) : Option (Remote β) :=
  match d with
  | .add id body =>
      if (m.refusal (.create id body)).isSome then held else some ⟨body, m.info id body⟩
  | .keep _ => held
  | .replace id body before =>
      if (m.refusal (.delete id before)).isSome then held
      else if (m.refusal (.create id body)).isSome then none
      else some ⟨body, m.info id body⟩
  | .remove id before => if (m.refusal (.delete id before)).isSome then held else none

/-! ## §3. The plan is the difference. -/

variable {m} {mode : Mode}

/-- The plan of a pass, which is made from a shrinking copy of what is held, is the
difference. -/
theorem plan_eq_diff (desired : List (String × β)) :
    ∀ held : NameMap (Remote β), (identities m.store desired).Nodup →
      plan m.store mode desired held
        = (desired.map fun e =>
            decision m.store mode (m.identity e.1 e.2) e.2 (held.get? (m.identity e.1 e.2)))
          ++ (held.entries.filter fun e => e.1 ∉ identities m.store desired).map fun e =>
            dismissal mode e.1 e.2 := by
  induction desired with
  | nil =>
      intro held _
      have hall : (held.entries.filter fun e => e.1 ∉ identities m.store []) = held.entries := by
        simp [identities]
      rw [hall]
      rfl
  | cons e rest ih =>
      intro held hnodup
      obtain ⟨hnew, hrest⟩ := List.nodup_cons.1 hnodup
      -- taking out the first identity changes nothing for the others
      have hother : ∀ e' ∈ rest, (held.erase (m.identity e.1 e.2)).get? (m.identity e'.1 e'.2)
          = held.get? (m.identity e'.1 e'.2) := by
        intro e' he'
        rw [NameMap.get?_erase, if_neg]
        intro heq
        exact hnew (List.mem_map.2 ⟨e', he', heq⟩)
      have hbesides : ((held.erase (m.identity e.1 e.2)).entries.filter fun e' =>
            e'.1 ∉ identities m.store rest)
          = held.entries.filter fun e' => e'.1 ∉ identities m.store (e :: rest) := by
        show (held.entries.filter _).filter _ = _
        rw [List.filter_filter]
        refine List.filter_congr fun e' _ => ?_
        show _ = decide (e'.1 ∉ m.identity e.1 e.2 :: identities m.store rest)
        by_cases hfirst : e'.1 = m.identity e.1 e.2 <;> simp [hfirst]
      show _ :: plan m.store mode rest (held.erase (m.identity e.1 e.2)) = _ :: (_ ++ _)
      rw [ih _ hrest, hbesides]
      congr 2
      refine List.map_congr_left fun e' he' => ?_
      rw [hother e' he']

/-! ## §4. The calls of decisions. -/

theorem applyAll_append (held : NameMap (Remote β)) (rs rs' : List (Request β)) :
    m.applyAll held (rs ++ rs') = m.applyAll (m.applyAll held rs) rs' := by
  unfold applyAll
  rw [List.filter_append, List.foldl_append]

/-- A call that is refused changes nothing but what was noted. -/
theorem exec_request (r : Request β) (s : MapState β) :
    exec (m.request r) s = (match m.refusal r with | some e => .error e | none => .ok (),
      ⟨m.applyAll s.held [r], s.requests ++ [r]⟩) := by
  show exec (match m.refusal r with
    | some e => throw e
    | none => modify fun s => { s with held := m.apply s.held r })
      { s with requests := s.requests ++ [r] } = _
  unfold applyAll
  cases hrefusal : m.refusal r with
  | some e => simp [hrefusal, exec_throw]
  | none => simp [hrefusal, exec_modify]

/-- **What a decision does**: it makes its calls, and fails with the error of the one that is
refused. -/
theorem exec_call (d : Decision β) (s : MapState β) :
    exec (d.call m.store) s = (match m.fault? d with | some e => .error e | none => .ok (),
      ⟨m.applyAll s.held (m.requests d), s.requests ++ m.requests d⟩) := by
  have hone : ∀ r, [r].findSome? m.refusal = m.refusal r := by
    intro r
    cases h : m.refusal r <;> simp [h]
  cases d with
  | add id body =>
      show exec (m.request _) s = _
      rw [exec_request, fault?, requests, hone]
  | keep id =>
      -- no call is made, and none is noted
      have hnone : s.requests = s.requests ++ [] := (List.append_nil _).symm
      show (Except.ok (), s) = (Except.ok (), MapState.mk s.held (s.requests ++ []))
      exact congrArg (fun requests => (Except.ok (), MapState.mk s.held requests)) hnone
  | remove id held =>
      show exec (m.request _) s = _
      rw [exec_request, fault?, requests, hone]
  | replace id body held =>
      show exec (m.request _ >>= fun _ => m.request _) s = _
      rw [exec_bind, exec_request]
      cases hdelete : m.refusal (.delete id held) with
      | some e => simp [fault?, requests, hdelete]
      | none =>
          -- the second call goes on from what the first has left
          have hboth : m.requests (.replace id body held)
              = [.delete id held] ++ [.create id body] := by
            simp [requests, hdelete]
          dsimp only
          rw [exec_request, fault?, hboth, applyAll_append, List.findSome?_append, hone, hone,
            hdelete, List.append_assoc]
          rfl

/-- What a decision comes to, and what it leaves. -/
theorem execState_enact_eq (d : Decision β) (s : MapState β) :
    execState (d.enact m.store mode) s
      = if mode.dryRun then (⟨[d.operation m.element], []⟩, s)
        else (⟨[d.operation m.element], (m.failure? d).toList⟩,
          ⟨m.applyAll s.held (m.requests d), s.requests ++ m.requests d⟩) := by
  rw [execState_enact, exec_call]
  unfold failure?
  cases mode.dryRun with
  | true => rfl
  | false => cases m.fault? d <;> rfl

/-- **What decisions do, one after the other**: their calls, of which those that are not refused
act on the map. -/
theorem execState_enactAll_eq (ds : List (Decision β)) (s : MapState β) :
    execState (enactAll m.store mode ds) s
      = if mode.dryRun then (⟨ds.map (Decision.operation m.element), []⟩, s)
        else (⟨ds.map (Decision.operation m.element), ds.filterMap m.failure?⟩,
          ⟨m.applyAll s.held (ds.flatMap m.requests), s.requests ++ ds.flatMap m.requests⟩) := by
  induction ds generalizing s with
  | nil =>
      cases mode.dryRun with
      | true => rfl
      | false =>
          show _ = (_, MapState.mk s.held (s.requests ++ []))
          rw [List.append_nil]
          rfl
  | cons d ds ih =>
      rw [execState_enactAll_cons, execState_enact_eq]
      cases hdry : mode.dryRun with
      | true =>
          simp only [hdry, if_true] at ih ⊢
          rw [ih]
          rfl
      | false =>
          simp only [hdry, Bool.false_eq_true, if_false] at ih ⊢
          rw [ih, List.flatMap_cons, applyAll_append, List.append_assoc, List.filterMap_cons]
          cases m.failure? d <;> rfl

/-! ## §5. What is left under each identity. -/

/-- A call has to do with one identity. -/
theorem get?_apply_of_ne (held : NameMap (Remote β)) {r : Request β} {id : String}
    (h : id ≠ r.id) : (m.apply held r).get? id = held.get? id := by
  cases r with
  | create id' body => exact (NameMap.get?_insert ..).trans (if_neg h)
  | delete id' before => exact (NameMap.get?_erase ..).trans (if_neg h)

/-- What is held under an identity that no call is about stays. -/
theorem get?_applyAll_of_ne (rs : List (Request β)) (held : NameMap (Remote β)) {id : String}
    (h : ∀ r ∈ rs, id ≠ r.id) : (m.applyAll held rs).get? id = held.get? id := by
  unfold applyAll
  have hkept : ∀ r ∈ rs.filter fun r => (m.refusal r).isNone, id ≠ r.id :=
    fun r hr => h r (List.mem_filter.1 hr).1
  revert hkept
  generalize (rs.filter fun r => (m.refusal r).isNone) = kept
  induction kept generalizing held with
  | nil => intro _; rfl
  | cons r rest ih =>
      intro hkept
      obtain ⟨hfirst, hrest⟩ := List.forall_mem_cons.1 hkept
      rw [List.foldl_cons, ih _ hrest, get?_apply_of_ne held hfirst]

/-- The calls of a decision are about its identity. -/
theorem id_of_mem_requests {d : Decision β} {r : Request β} (h : r ∈ m.requests d) :
    r.id = d.id := by
  cases d with
  | add id body => rw [List.mem_singleton.1 h]; rfl
  | keep id => cases h
  | remove id held => rw [List.mem_singleton.1 h]; rfl
  | replace id body held =>
      rcases List.mem_cons.1 h with rfl | h
      · rfl
      · split at h
        · cases h
        · rw [List.mem_singleton.1 h]; rfl

/-- What a decision leaves under its identity. -/
theorem get?_applyAll_requests (held : NameMap (Remote β)) (d : Decision β) :
    (m.applyAll held (m.requests d)).get? d.id = m.leaves d (held.get? d.id) := by
  cases d with
  | add id body =>
      unfold applyAll requests leaves
      cases hcreate : m.refusal (.create id body) <;>
        simp [hcreate, apply, Decision.id, NameMap.get?_insert]
  | keep id => rfl
  | remove id before =>
      unfold applyAll requests leaves
      cases hdelete : m.refusal (.delete id before) <;>
        simp [hdelete, apply, Decision.id, NameMap.get?_erase]
  | replace id body before =>
      unfold applyAll requests leaves
      cases hdelete : m.refusal (.delete id before) with
      | some e => simp [hdelete, Decision.id]
      | none =>
          -- deleted for certain; whether there is something again depends on the second call
          cases hcreate : m.refusal (.create id body) <;>
            simp [hdelete, hcreate, apply, Decision.id, NameMap.get?_insert, NameMap.get?_erase]

/-- **What decisions leave under the identity of one of them** is up to that one. -/
theorem get?_applyAll_flatMap (ds : List (Decision β)) (hnodup : (ds.map Decision.id).Nodup) :
    ∀ held : NameMap (Remote β), ∀ d ∈ ds,
      (m.applyAll held (ds.flatMap m.requests)).get? d.id = m.leaves d (held.get? d.id) := by
  induction ds with
  | nil => intro held d hd; cases hd
  | cons first rest ih =>
      intro held d hd
      obtain ⟨hnew, hrest⟩ := List.nodup_cons.1 hnodup
      rw [List.flatMap_cons, applyAll_append]
      rcases List.mem_cons.1 hd with rfl | hd
      · -- the others leave it alone
        rw [get?_applyAll_of_ne, get?_applyAll_requests]
        intro r hr heq
        obtain ⟨d', hd', hr'⟩ := List.mem_flatMap.1 hr
        rw [id_of_mem_requests hr'] at heq
        exact hnew (List.mem_map.2 ⟨d', hd', heq.symm⟩)
      · have hne : d.id ≠ first.id :=
          fun heq => hnew (List.mem_map.2 ⟨d, hd, heq⟩)
        rw [ih hrest _ d hd, get?_applyAll_of_ne]
        intro r hr
        rw [id_of_mem_requests hr]
        exact hne

/-- Decisions leave alone what none of them is about. -/
theorem get?_applyAll_flatMap_of_not_mem {ds : List (Decision β)} (held : NameMap (Remote β))
    {id : String} (h : id ∉ ds.map Decision.id) :
    (m.applyAll held (ds.flatMap m.requests)).get? id = held.get? id := by
  refine get?_applyAll_of_ne _ held fun r hr heq => h ?_
  obtain ⟨d, hd, hr'⟩ := List.mem_flatMap.1 hr
  rw [id_of_mem_requests hr'] at heq
  exact List.mem_map.2 ⟨d, hd, heq.symm⟩

/-! ## §6. A pass. -/

/-- Elements whose identities tell their names have identities of their own. -/
theorem identities_nodup_of_injective {desired : NameMap β}
    (hidentity : ∀ e ∈ desired.entries, ∀ e' ∈ desired.entries,
      m.identity e.1 e.2 = m.identity e'.1 e'.2 → e.1 = e'.1) :
    (identities m.store desired.entries).Nodup := by
  refine List.pairwise_map.2 (desired.ascending.imp_of_mem ?_)
  intro e e' he he' hlt heq
  rw [hidentity e he e' he' heq] at hlt
  exact String.lt_irrefl _ hlt

/-- The difference is about what is desired or held. -/
theorem mem_diff_ids {desired : NameMap β} {held : NameMap (Remote β)}
    (hnodup : (identities m.store desired.entries).Nodup) {id : String} :
    id ∈ (m.diff mode desired held).map Decision.id
      ↔ (∃ e ∈ desired.entries, m.identity e.1 e.2 = id) ∨ ∃ r, held.get? id = some r := by
  have hplan : plan m.store mode desired.entries held = m.diff mode desired held :=
    plan_eq_diff desired.entries held hnodup
  rw [← hplan, mem_plan_ids, NameMap.mem_keys]
  unfold identities
  rw [List.mem_map]
  rfl

/-- **What a pass does**, the difference given. -/
theorem exec_reconcile_eq {desired : NameMap β}
    (hnodup : (identities m.store desired.entries).Nodup) (s : MapState β) :
    exec (reconcile m.store mode desired) s = match m.unlisted with
      | some cause => (.error (.fetch m.element cause), s)
      | none => (.ok (execState (enactAll m.store mode (m.diff mode desired s.held)) s).1,
          (execState (enactAll m.store mode (m.diff mode desired s.held)) s).2) := by
  have hfetch : exec m.store.fetch s
      = (match m.unlisted with | some e => .error e | none => .ok s.held, s) := by
    show exec (match m.unlisted with | some e => throw e | none => _) s = _
    cases m.unlisted <;> rfl
  have hplan : plan m.store mode desired.entries s.held = m.diff mode desired s.held :=
    plan_eq_diff desired.entries s.held hnodup
  rw [exec_reconcile, hfetch]
  cases m.unlisted with
  | some cause => rfl
  | none => rw [← hplan]

end MapStore

/-- **A pass makes the difference.**  If no two desired elements have one identity, and the
store can be listed, a pass goes through every identity that is desired or held,
once.  Its operations are the difference of what is desired and what was held, the
desired elements first, in the order of names, and neither whether the run is dry nor
what is refused has an influence on them.  In a dry run that is all.  Otherwise the
calls that were made are those of the difference, in order, every failure is that of a
decision one of whose calls is refused, in order, and under each identity is left what
its own decision leaves. -/
theorem reconcile_diff (m : MapStore β) (mode : Mode) (desired : NameMap β) (s : MapState β)
    (hidentity : ∀ e ∈ desired.entries, ∀ e' ∈ desired.entries,
      m.identity e.1 e.2 = m.identity e'.1 e'.2 → e.1 = e'.1) :
    let ds := m.diff mode desired s.held
    let operations := ds.map (Decision.operation m.element)
    let calls := ds.flatMap m.requests
    exec (reconcile m.store mode desired) s = (match m.unlisted with
      | some cause => (.error (.fetch m.element cause), s)
      | none =>
          if mode.dryRun then (.ok ⟨operations, []⟩, s)
          else (.ok ⟨operations, ds.filterMap m.failure?⟩,
            ⟨m.applyAll s.held calls, s.requests ++ calls⟩))
    ∧ (∀ dryRun refusal, MapStore.diff { m with refusal } { mode with dryRun } desired s.held = ds)
    ∧ (ds.map Decision.id).Nodup
    ∧ (∀ id, id ∈ ds.map Decision.id
        ↔ (∃ e ∈ desired.entries, m.identity e.1 e.2 = id) ∨ ∃ held, s.held.get? id = some held)
    ∧ (∀ d ∈ ds, (m.applyAll s.held calls).get? d.id = m.leaves d (s.held.get? d.id))
    ∧ ∀ id, id ∉ ds.map Decision.id → (m.applyAll s.held calls).get? id = none := by
  intro ds operations calls
  have hnodup := MapStore.identities_nodup_of_injective hidentity
  have hids : (ds.map Decision.id).Nodup := by
    have hplan : plan m.store mode desired.entries s.held = ds :=
      MapStore.plan_eq_diff desired.entries s.held hnodup
    rw [← hplan]
    exact plan_ids_nodup m.store mode desired.entries s.held hnodup
  refine ⟨?_, fun _ _ => rfl, hids, fun id => MapStore.mem_diff_ids hnodup,
    MapStore.get?_applyAll_flatMap ds hids s.held, fun id hid => ?_⟩
  · rw [MapStore.exec_reconcile_eq hnodup, MapStore.execState_enactAll_eq]
    cases m.unlisted with
    | some cause => rfl
    | none => cases mode.dryRun <;> rfl
  · -- an identity without a decision was not held, and no call is about it
    rw [MapStore.get?_applyAll_flatMap_of_not_mem s.held hid]
    cases hget : s.held.get? id with
    | none => rfl
    | some held => exact absurd ((MapStore.mem_diff_ids hnodup).2 (.inr ⟨held, hget⟩)) hid

/-- An element is lost when it was deleted and is not created again; one that could not be
deleted is left as it was; and the pass goes on. -/
theorem reconcile_diff_half_replaced :
    let refuse : Request String → Option TenantError
      | .create "a" _ => some (.rejected "a")
      | .delete "c" _ => some (.unavailable "c")
      | _ => none
    let m : MapStore String := { element := .output, same := (· == ·), refusal := refuse }
    let desired : NameMap String := .ofList [("a", "new"), ("b", "1"), ("d", "1")]
    let s : MapState String :=
      { held := .ofList [("a", ⟨"old", {}⟩), ("b", ⟨"1", {}⟩), ("c", ⟨"1", {}⟩)] }
    exec (reconcile m.store { force := true, drift := .replace } desired) s
      = (.ok ⟨[.replace .output "a", .keep .output "b", .add .output "d", .remove .output "c"],
          [⟨.output, "a", .replace, .rejected "a"⟩, ⟨.output, "c", .delete, .unavailable "c"⟩]⟩,
        { held := .ofList [("b", ⟨"1", {}⟩), ("c", ⟨"1", {}⟩), ("d", ⟨"1", {}⟩)],
          requests := [.delete "a" ⟨"old", {}⟩, .create "a" "new", .create "d" "1",
            .delete "c" ⟨"1", {}⟩] }) := by
  intro refuse m desired s
  have hdiff := reconcile_diff m { force := true, drift := .replace } desired s
    (fun e _ e' _ heq => heq)
  rw [hdiff.1]
  show (Except.ok _, _) = (Except.ok _, _)
  refine Prod.ext (congrArg Except.ok ?_) ?_ <;> decide +kernel

end TenantSync.Push
