/-
  TenantSync.Push.Reconcile
  ─────────────────────────
  **ONE PASS OVER ELEMENTS OF ONE KIND.**

  A pass compares the desired elements with the ones a store holds, by identity,
  and brings the store closer to them:

      desired, not held           added
      desired, held, same         kept
      desired, held, different    replaced if the mode says so, else kept
      held, not desired           removed under force, else kept

  Desired elements come first, in the order of their names, then what is held
  and not desired, in the order of identities.  In a dry run the store is listed
  and nothing else.  A mutation that fails is noted and the pass goes on; only a
  store that cannot be listed ends it.
-/
import TenantSync.Push.Error
import TenantSync.Push.Options
import TenantSync.Tenant.Remote

namespace TenantSync.Push

/-- Access to the elements of one kind; calls run on a state `σ` and may fail. -/
structure Store (σ β : Type) where
  element : ElementType
  /-- The identity of a desired element, given its name and body. -/
  identity : String → β → String := fun name _ => name
  /-- The elements held, by identity. -/
  fetch : ExceptT TenantError (StateM σ) (NameMap (Remote β))
  /-- Add an element under an identity. -/
  create : String → β → ExceptT TenantError (StateM σ) Unit
  /-- Remove an element that is held under an identity. -/
  delete : String → Remote β → ExceptT TenantError (StateM σ) Unit
  /-- Give an element that is held another body. -/
  replace : String → β → Remote β → ExceptT TenantError (StateM σ) Unit :=
    fun id body held => do
      delete id held
      create id body
  /-- Whether two bodies have the same content. -/
  same : β → β → Bool

/-- What a pass did. -/
structure Outcome where
  operations : List Operation := []
  failures : List Failure := []
  deriving DecidableEq

namespace Outcome

/-- What two passes did, one after the other. -/
def append (a b : Outcome) : Outcome :=
  ⟨a.operations ++ b.operations, a.failures ++ b.failures⟩

instance : Append Outcome := ⟨append⟩

/-- With one more operation. -/
def note (o : Outcome) (op : Operation) : Outcome := { o with operations := o.operations ++ [op] }

end Outcome

section Pass

variable {σ β : Type}

/-- Make a mutation, unless the run is dry, and note its failure. -/
def attempt (mode : Mode) (element : ElementType) (name : String) (action : MutationAction)
    (call : ExceptT TenantError (StateM σ) Unit) (o : Outcome) : StateM σ Outcome := do
  if mode.dryRun then return o
  match ← call.run with
  | .ok () => return o
  | .error error => return { o with failures := o.failures ++ [⟨element, name, action, error⟩] }

/-- Reconcile one desired element with what is held under its identity. -/
def reconcileDesired (store : Store σ β) (mode : Mode) (id : String) (body : β)
    (held : Option (Remote β)) (o : Outcome) : StateM σ Outcome :=
  match held with
  | none =>
      attempt mode store.element id .create (store.create id body)
        (o.note (.add store.element id))
  | some remote =>
      if !store.same body remote.body && mode.replacesDrift then
        attempt mode store.element id .replace (store.replace id body remote)
          (o.note (.replace store.element id))
      else return o.note (.keep store.element id)

/-- Reconcile the desired elements in turn.  An element that is held counts for
the first desired one of its identity; the rest is left over. -/
def reconcileAll (store : Store σ β) (mode : Mode) :
    List (String × β) → NameMap (Remote β) → Outcome → StateM σ (NameMap (Remote β) × Outcome)
  | [], held, o => return (held, o)
  | (name, body) :: rest, held, o => do
      let id := store.identity name body
      let o ← reconcileDesired store mode id body (held.get? id) o
      reconcileAll store mode rest (held.erase id) o

/-- Deal with elements that are held and not desired. -/
def dismiss (store : Store σ β) (mode : Mode) :
    List (String × Remote β) → Outcome → StateM σ Outcome
  | [], o => return o
  | (id, remote) :: rest, o => do
      let o ←
        if mode.force then
          attempt mode store.element id .delete (store.delete id remote)
            (o.note (.remove store.element id))
        else pure (o.note (.keep store.element id))
      dismiss store mode rest o

/-- One pass over the elements of a store. -/
def reconcile (store : Store σ β) (mode : Mode) (desired : NameMap β) :
    ExceptT Error (StateM σ) Outcome := do
  match ← store.fetch.run with
  | .error cause => throw (.fetch store.element cause)
  | .ok held =>
      let (rest, o) ← reconcileAll store mode desired.entries held {}
      dismiss store mode rest.entries o

end Pass

end TenantSync.Push
