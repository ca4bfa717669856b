/-
  TenantSync.Datum
  ────────────────
  **WHAT A TEXT FORMAT DELIVERS.**

  Formats disagree on what a scalar is: in YAML the plain text `12` is a number
  where a number is wanted and a text where a text is wanted, in JSON a scalar
  is one thing only.  A `Datum` therefore keeps for each scalar all the answers
  it may give (`Reading`), and one set of decoders serves every format.

  `Shape` says which parts of a datum a decoder looks at.  What it does not
  look at may be nested too deeply, or hold scalars without any value, and is
  dropped before limits are checked.
-/
import TenantSync.Value

namespace TenantSync

/-! ## §1. Readings of a scalar. -/

/-- Whether a scalar says that a value is left out. -/
inductive Absence where
  | present
  | absent
  /-- Declared to be null, and yet not a null. -/
  | malformed
  deriving DecidableEq, Repr

/-- The answers a scalar gives; `none` where it does not fit. -/
structure Reading where
  /-- As a text, or as the key of an entry. -/
  text : Option String
  /-- As a flag. -/
  flag : Option Bool
  /-- As an unsigned integer. -/
  count : Option Nat
  /-- As a value that may be left out. -/
  absence : Absence
  /-- Whether it may stand for an empty list or table. -/
  blank : Bool
  /-- As free-form data. -/
  payload : Option Value

namespace Reading

/-- A scalar that gives no answer at all. -/
def unreadable : Reading := ⟨none, none, none, .present, false, none⟩

/-- The scalar that stands for nothing written. -/
def blankScalar : Reading := ⟨some "", none, none, .absent, true, some .null⟩

/-- The scalar that is a text and nothing else. -/
def ofText (s : String) : Reading := ⟨some s, none, none, .present, false, some (.str s)⟩

/-- The scalar that is a flag and nothing else. -/
def ofFlag (b : Bool) : Reading := ⟨none, some b, none, .present, false, some (.bool b)⟩

/-- The scalar that is a number and nothing else. -/
def ofNumber (n : Number) : Reading :=
  let count := match n with
    | .natural n => some n.toNat
    | _ => none
  ⟨none, none, count, .present, false, some (.num n)⟩

/-- The scalar that is null and nothing else. -/
def null : Reading := ⟨none, none, none, .absent, false, some .null⟩

end Reading

/-! ## §2. Data. -/

/-- A tree of scalars, lists and tables as a text format delivers it.  `free`
is unset on collections that free-form data may not hold, `positional` set on
lists that may stand for a record, its fields in declared order. -/
inductive Datum where
  | scalar (r : Reading)
  | list (free positional : Bool) (items : List Datum)
  | table (free : Bool) (entries : List (Datum × Datum))

instance : Inhabited Datum := ⟨.scalar .unreadable⟩

namespace Datum

/-- The text of a scalar. -/
def text? : Datum → Option String
  | .scalar r => r.text
  | _ => none

/-- The key of an entry.  A strict key has to be a text as free-form data; an
ordinary one is any scalar's text. -/
def key? (strict : Bool) : Datum → Option String
  | .scalar r =>
      if strict then
        match r.payload with
        | some (.str s) => some s
        | _ => none
      else r.text
  | _ => none

mutual

/-- A value as data in which every scalar is one thing only. -/
def ofValue : Value → Datum
  | .null => .scalar .null
  | .bool b => .scalar (.ofFlag b)
  | .num n => .scalar (.ofNumber n)
  | .str s => .scalar (.ofText s)
  | .arr items => .list true true (ofItems items)
  | .obj entries => .table true (ofEntries entries)

/-- The items of a list as data. -/
def ofItems : List Value → List Datum
  | [] => []
  | v :: rest => ofValue v :: ofItems rest

/-- The entries of an object as data. -/
def ofEntries : List (String × Value) → List (Datum × Datum)
  | [] => []
  | (k, v) :: rest => (.scalar (.ofText k), ofValue v) :: ofEntries rest

end

mutual

/-- The free-form value of a datum. -/
def value? (strict : Bool) : Datum → Option Value
  | .scalar r => r.payload
  | .list free _ items => if free then (itemValues? strict items).map .arr else none
  | .table free entries => if free then (entryValues? strict entries).map .obj else none

/-- The free-form values of the items of a list. -/
def itemValues? (strict : Bool) : List Datum → Option (List Value)
  | [] => some []
  | d :: rest => do
      let v ← d.value? strict
      return v :: (← itemValues? strict rest)

/-- The free-form values of the entries of a table. -/
def entryValues? (strict : Bool) : List (Datum × Datum) → Option (List (String × Value))
  | [] => some []
  | (k, d) :: rest => do
      let key ← k.key? strict
      let v ← d.value? strict
      return (key, v) :: (← entryValues? strict rest)

end

/-- The free-form data of a datum, later entries replacing earlier ones. -/
def payload? (strict : Bool) (d : Datum) : Option Payload :=
  (d.value? strict).map Payload.ofValue

end Datum

/-! ## §3. Shapes. -/

/-- The part of a datum that a decoder looks at. -/
inductive Shape where
  /-- All of it. -/
  | whole
  /-- All keys, and the values of these fields. -/
  | record (fields : List (String × Shape))
  /-- All keys, and this part of every value. -/
  | each (value : Shape)

namespace Shape

/-- The shape of the value under a key, or nothing if it is not looked at. -/
def under? (key : Option String) : Shape → Option Shape
  | .whole => some .whole
  | .each s => some s
  | .record fields =>
      match key with
      | some k => fields.lookup k
      | none => some .whole

/-- The shape of the item at a position, for a record given as a list. -/
def atIndex (i : Nat) : Shape → Shape
  | .whole => .whole
  | .each s => s
  | .record fields => (fields[i]?.map Prod.snd).getD .whole

end Shape

mutual

/-- The part of a datum that a shape selects, if collections in it nest at most
`depth` deep. -/
def Datum.select? (shape : Shape) (depth : Nat) : Datum → Option Datum
  | .scalar r => some (.scalar r)
  | .list free positional items =>
      match depth with
      | 0 => none
      | d + 1 => (selectItems? shape d 0 items).map (.list free positional)
  | .table free entries =>
      match depth with
      | 0 => none
      | d + 1 => (selectEntries? shape d entries).map (.table free)

/-- What a shape selects of the items of a list, from a position on. -/
def selectItems? (shape : Shape) (depth i : Nat) : List Datum → Option (List Datum)
  | [] => some []
  | d :: rest => do
      let d ← d.select? (shape.atIndex i) depth
      return d :: (← selectItems? shape depth (i + 1) rest)

/-- What a shape selects of the entries of a table. -/
def selectEntries? (shape : Shape) (depth : Nat) :
    List (Datum × Datum) → Option (List (Datum × Datum))
  | [] => some []
  | (k, d) :: rest =>
      match shape.under? k.text? with
      | some s => do
          let d ← d.select? s depth
          return (k, d) :: (← selectEntries? shape depth rest)
      | none => selectEntries? shape depth rest

end

end TenantSync
