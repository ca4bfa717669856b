/-
  TenantSync.Yaml.Expansion
  ─────────────────────────
  **FROM NODES TO DATA.**

  Aliases are replaced by what they refer to, in the part of a document that a
  `Shape` selects.  An alias may lead back to a node it lies in, and a few
  aliases can stand for a very large tree, so two limits hold: collections nest
  at most 128 deep, and the number of aliases followed stays within 100 for
  each mark of the stream.  A field that is not looked at is left out, whatever
  it holds.
-/
import TenantSync.Yaml.CoreSchema

namespace TenantSync.Yaml

/-- The depth of collections that is still accepted. -/
def maxDepth : Nat := 128

/-- The number of aliases that may be followed for each mark of a stream. -/
def aliasesPerMark : Nat := 100

/-- Expansion steps: the state is the number of aliases that may still be
followed, and `none` means that a limit was passed. -/
abbrev Expand (α : Type) := StateT Nat Option α

/-- Count one alias. -/
def followAlias : Expand Unit := fun left =>
  match left with
  | 0 => none
  | n + 1 => some ((), n)

mutual

/-- The datum of a node.  `follow` expands the target of an alias: it is the
same function with less fuel. -/
def Node.expandWith (follow : Nat → Shape → Nat → Expand Datum) (shape : Shape) (depth : Nat) :
    Node → Expand Datum
  | .alias id => do
      followAlias
      follow id shape depth
  | .scalar s => pure (.scalar s.reading)
  | .sequence tag items =>
      match depth with
      | 0 => fun _ => none
      | d + 1 => do
          let items ← expandItems follow shape d 0 items
          pure (.list (!tag.any Tag.isLocal) false items)
  | .mapping tag entries =>
      match depth with
      | 0 => fun _ => none
      | d + 1 => do
          let entries ← expandEntries follow shape d entries
          pure (.table (!tag.any Tag.isLocal) entries)

/-- The data of the items of a sequence, from a position on. -/
def expandItems (follow : Nat → Shape → Nat → Expand Datum) (shape : Shape) (depth i : Nat) :
    List Node → Expand (List Datum)
  | [] => pure []
  | n :: rest => do
      let d ← n.expandWith follow (shape.atIndex i) depth
      return d :: (← expandItems follow shape depth (i + 1) rest)

/-- The data of the entries of a mapping that are looked at. -/
def expandEntries (follow : Nat → Shape → Nat → Expand Datum) (shape : Shape) (depth : Nat) :
    List (Node × Node) → Expand (List (Datum × Datum))
  | [] => pure []
  | (k, v) :: rest => do
      let k ← k.expandWith follow .whole depth
      match shape.under? k.text? with
      | some s => do
          let v ← v.expandWith follow s depth
          return (k, v) :: (← expandEntries follow shape depth rest)
      | none => expandEntries follow shape depth rest

end

namespace Document

/-- The datum an alias refers to; `fuel` bounds how many aliases lead to each
other. -/
def follow (doc : Document) : Nat → Nat → Shape → Nat → Expand Datum
  | 0, _, _, _ => fun _ => none
  | fuel + 1, id, shape, depth =>
      match doc.target? id with
      | some n => n.expandWith (doc.follow fuel) shape depth
      | none => fun _ => none

/-- The part of a document that a shape selects, aliases replaced. -/
def datum? (doc : Document) (shape : Shape) : Option Datum :=
  let limit := aliasesPerMark * doc.weight
  match doc.root with
  | none => some (.scalar .blankScalar)
  | some root => (root.expandWith (doc.follow (limit + 1)) shape maxDepth).run' limit

end Document

/-- The part of a YAML text that a shape selects. -/
def datum? (shape : Shape) (text : List Char) : Option Datum := do
  (← Document.ofText? text).datum? shape

end TenantSync.Yaml
