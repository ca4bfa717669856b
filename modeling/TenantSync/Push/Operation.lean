/-
  TenantSync.Push.Operation
  ─────────────────────────
  **WHAT A PUSH DOES TO ONE ELEMENT.**

  An operation names an element and says whether it is added and whether it is
  removed.  Neither means that the element is there and left alone, both that
  it is replaced.  Operations are listed by kind of element, then by name, then
  what is kept before what is removed, added and replaced.
-/
import TenantSync.ElementType

namespace TenantSync.Push

/-- What a push does to one element. -/
structure Operation where
  element : ElementType
  name : String
  added : Bool
  removed : Bool
  deriving DecidableEq, Repr

namespace Operation

/-- The element is new. -/
def add (element : ElementType) (name : String) : Operation := ⟨element, name, true, false⟩

/-- The element goes. -/
def remove (element : ElementType) (name : String) : Operation := ⟨element, name, false, true⟩

/-- The element stays as it is. -/
def keep (element : ElementType) (name : String) : Operation := ⟨element, name, false, false⟩

/-- The element goes and comes back with new content. -/
def replace (element : ElementType) (name : String) : Operation := ⟨element, name, true, true⟩

/-- Whether the operation does nothing. -/
def isNoop (op : Operation) : Bool := !op.added && !op.removed

/-- The mark in front of an operation. -/
def mark (op : Operation) : String :=
  match op.added, op.removed with
  | true, true => "~"
  | true, false => "+"
  | false, true => "-"
  | false, false => "="

/-- The operation in words. -/
def text (op : Operation) : String := s!"{op.mark} {op.element.name} {op.name}"

/-- The place of an operation among those on one element. -/
def outcomeRank (op : Operation) : Nat := 2 * op.added.toNat + op.removed.toNat

/-- Whether an operation is listed before or together with another. -/
def le (a b : Operation) : Bool :=
  if a.element ≠ b.element then a.element.rank ≤ b.element.rank
  else if a.name ≠ b.name then decide (a.name < b.name)
  else a.outcomeRank ≤ b.outcomeRank

/-- Operations in the order in which they are listed. -/
def sort (ops : List Operation) : List Operation := ops.mergeSort le

end Operation

/-- How many operations have each outcome. -/
structure Summary where
  added : Nat := 0
  removed : Nat := 0
  replaced : Nat := 0
  unchanged : Nat := 0
  deriving DecidableEq, Repr

namespace Summary

/-- Count one operation. -/
def count (s : Summary) (op : Operation) : Summary :=
  match op.added, op.removed with
  | true, true => { s with replaced := s.replaced + 1 }
  | true, false => { s with added := s.added + 1 }
  | false, true => { s with removed := s.removed + 1 }
  | false, false => { s with unchanged := s.unchanged + 1 }

/-- Count operations. -/
def of (ops : List Operation) : Summary := ops.foldl count {}

/-- Whether the counted operations change nothing. -/
def isConverged (s : Summary) : Bool := s.added == 0 && s.removed == 0 && s.replaced == 0

/-- The counts in words. -/
def text (s : Summary) : String :=
  s!"{s.added} added, {s.removed} removed, {s.replaced} replaced, {s.unchanged} unchanged"

end Summary

end TenantSync.Push
