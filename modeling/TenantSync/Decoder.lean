/-
  TenantSync.Decoder
  ──────────────────
  **FROM DATA TO TYPES.**

  A decoder is a function from data to an optional value together with the part
  of the data it looks at.  Decoders are put together from a few pieces:

      text, flag, count, payload   — scalars and free-form data
      listOf, mapOf                — collections; a blank scalar is empty
      orElse, optional             — null stands for a default, or for nothing
      record                       — fields by name, or by position in a list

  In a record no known field may occur twice and unknown fields are passed
  over; in a map the last entry of a key counts.
-/
import TenantSync.Datum

namespace TenantSync

/-- A way of reading data as `α`. -/
structure Decoder (α : Type) where
  /-- The part that is looked at. -/
  shape : Shape
  /-- The value, if the data fit. -/
  decode : Datum → Option α

namespace Decoder

variable {α β : Type}

/-! ## §1. Scalars. -/

/-- A text. -/
def text : Decoder String := ⟨.whole, Datum.text?⟩

/-- A flag. -/
def flag : Decoder Bool where
  shape := .whole
  decode
    | .scalar r => r.flag
    | _ => none

/-- An unsigned integer of 32 bits. -/
def count32 : Decoder UInt32 where
  shape := .whole
  decode
    | .scalar r => r.count.bind fun n => if n < twoTo 32 then some (.ofNat n) else none
    | _ => none

/-- An unsigned integer of 64 bits. -/
def count64 : Decoder UInt64 where
  shape := .whole
  decode
    | .scalar r => r.count.bind fun n => if n < twoTo 64 then some (.ofNat n) else none
    | _ => none

/-- Free-form data. -/
def payload : Decoder Payload := ⟨.whole, Datum.payload? false⟩

/-- A null. -/
def unit : Decoder Unit where
  shape := .whole
  decode
    | .scalar r => if r.absence = .absent then some () else none
    | _ => none

/-- What another decoder reads, if `f` accepts it. -/
def filterMap (f : α → Option β) (d : Decoder α) : Decoder β :=
  ⟨d.shape, fun x => (d.decode x).bind f⟩

/-! ## §2. Collections and defaults. -/

/-- A list. -/
def listOf (d : Decoder α) : Decoder (List α) where
  shape := .whole
  decode
    | .list _ _ items => items.mapM d.decode
    | .scalar r => if r.blank then some [] else none
    | .table .. => none

/-- One entry of a map. -/
def entry (d : Decoder α) (e : Datum × Datum) : Option (String × α) := do
  let key ← e.1.text?
  return (key, ← d.decode e.2)

/-- A map from names. -/
def mapOf (d : Decoder α) : Decoder (NameMap α) where
  shape := .each d.shape
  decode
    | .table _ entries => (entries.mapM (entry d)).map NameMap.ofList
    | .scalar r => if r.blank then some .empty else none
    | .list .. => none

/-- A value, or `default` where a null stands. -/
def orElse (default : α) (d : Decoder α) : Decoder α where
  shape := d.shape
  decode
    | .scalar r =>
        match r.absence with
        | .absent => some default
        | .present => d.decode (.scalar r)
        | .malformed => none
    | x => d.decode x

/-- A value, or nothing where a null stands. -/
def optional (d : Decoder α) : Decoder (Option α) :=
  orElse none ⟨d.shape, fun x => (d.decode x).map some⟩

/-! ## §3. Records. -/

/-- How the fields of a record are read. -/
structure Fields (α : Type) where
  /-- The fields and the part of each that is looked at, in declared order. -/
  slots : List (String × Shape)
  /-- The record, given what stands under each name. -/
  read : (String → Option Datum) → Option α

namespace Fields

instance : Applicative Fields where
  pure a := ⟨[], fun _ => some a⟩
  seq f x := ⟨f.slots ++ (x ()).slots, fun look => do
    let g ← f.read look
    return g (← (x ()).read look)⟩

end Fields

/-- A field that takes a default when it is not there. -/
def field (name : String) (d : Decoder α) (default : α) : Fields α where
  slots := [(name, d.shape)]
  read look :=
    match look name with
    | some x => d.decode x
    | none => some default

/-- A field that has to be there. -/
def required (name : String) (d : Decoder α) : Fields α where
  slots := [(name, d.shape)]
  read look := (look name).bind d.decode

/-- The datum under a name. -/
def valueUnder (entries : List (Datum × Datum)) (name : String) : Option Datum :=
  (entries.find? fun e => e.1.text? == some name).map Prod.snd

/-- Whether a name occurs among the keys at most once. -/
def occursOnce (entries : List (Datum × Datum)) (name : String) : Bool :=
  (entries.filter fun e => e.1.text? == some name).length ≤ 1

/-- A record. -/
def record (fields : Fields α) : Decoder α where
  shape := .record fields.slots
  decode
    | .table _ entries =>
        if entries.all (fun e => e.1.text?.isSome)
            && fields.slots.all (fun s => occursOnce entries s.1) then
          fields.read (valueUnder entries)
        else none
    | .list _ positional items =>
        if positional && items.length ≤ fields.slots.length then
          fields.read fun name => ((fields.slots.map Prod.fst).zip items).lookup name
        else none
    | .scalar r => if r.blank then fields.read fun _ => none else none

end Decoder

end TenantSync
