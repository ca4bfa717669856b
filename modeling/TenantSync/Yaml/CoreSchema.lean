/-
  TenantSync.Yaml.CoreSchema
  ──────────────────────────
  **WHAT A SCALAR MEANS.**

  A plain scalar is null, a flag, an integer, a floating number or a text,
  decided by its spelling alone:

      null      empty, `null`, `Null`, `NULL`, `~`
      flag      `true`, `false` and their two other capitalisations
      integer   decimal, `0x`, `0o`, `0b`, each with a sign
      floating  a decimal numeral, `.inf`, `.nan`

  Digits with a leading zero are a text, an integer of more than a machine word
  fits nothing, and infinities and NaN are null.  A scalar that is not plain is
  a text; a core tag settles the reading of either kind, and a tag of the
  document's own keeps a scalar out of free-form data.  Where a text is wanted
  the spelling itself is taken, whatever it could also mean.
-/
import TenantSync.Number.Numeral
import TenantSync.Datum
import TenantSync.Yaml.Node

namespace TenantSync.Yaml

/-! ## §1. Spellings. -/

/-- The spellings of null other than writing nothing. -/
def isNullWord (s : String) : Bool := ["null", "Null", "NULL", "~"].contains s

/-- The flag a word spells. -/
def flagWord? (s : String) : Option Bool :=
  if ["true", "True", "TRUE"].contains s then some true
  else if ["false", "False", "FALSE"].contains s then some false
  else none

/-- Whether the text is digits after a leading zero, with or without a sign. -/
def hasLeadingZero (cs : List Char) : Bool :=
  let cs := match cs with
    | '-' :: rest => rest
    | '+' :: rest => rest
    | _ => cs
  match cs with
  | '0' :: rest => Numeral.isDigits rest
  | _ => false

/-- Whether a text begins with a sign. -/
def isSigned : List Char → Bool
  | c :: _ => c == '+' || c == '-'
  | [] => false

/-- The base that a mark behind `0` announces. -/
def baseOf? : Char → Option Nat
  | 'x' => some 16
  | 'o' => some 8
  | 'b' => some 2
  | _ => none

/-- The digits behind a base mark. -/
def markedDigits? : List Char → Option (Nat × List Char)
  | '0' :: mark :: rest => (baseOf? mark).map fun base => (base, rest)
  | _ => none

/-- An integer without a minus sign. -/
def unsigned? (cs : List Char) : Option Nat :=
  let bare := match cs with
    | '+' :: rest => rest
    | _ => cs
  match markedDigits? bare with
  | some (base, digits) => Numeral.natural? base digits
  | none => if isSigned bare || hasLeadingZero cs then none else Numeral.natural? 10 bare

/-- The magnitude of an integer with a minus sign. -/
def negated? (cs : List Char) : Option Nat :=
  match cs with
  | '-' :: rest =>
      match markedDigits? rest with
      | some (base, digits) => Numeral.natural? base digits
      | none => if hasLeadingZero cs then none else Numeral.natural? 10 rest
  | _ => none

/-- How an integer spelling is taken. -/
inductive Whole where
  /-- It fits a machine word. -/
  | word (n : Number)
  /-- It fits two machine words and is refused. -/
  | wide
  /-- It is not taken as an integer. -/
  | other

/-- The integer a text spells. -/
def whole (cs : List Char) : Whole :=
  match unsigned? cs, negated? cs with
  | some n, _ =>
      match Number.ofInt? n with
      | some n => .word n
      | none => if n < twoTo 128 then .wide else .other
  | none, some m =>
      match Number.ofInt? (-m) with
      | some n => .word n
      | none => if m ≤ twoTo 127 then .wide else .other
  | none, none => .other

/-- A floating number, null for the infinities and NaN. -/
def floating? (cs : List Char) : Option Value :=
  let bare := match cs with
    | '+' :: rest => if isSigned rest then none else some rest
    | _ => some cs
  bare.bind fun bare =>
    if [".inf", ".Inf", ".INF"].contains (String.ofList bare)
        || ["-.inf", "-.Inf", "-.INF", ".nan", ".NaN", ".NAN"].contains (String.ofList cs) then
      some .null
    else
      (Numeral.scientific? bare).bind fun s => s.toBinary64?.map fun x => .num (.float x)

/-- The value of a plain scalar without a tag; `none` for an integer that does
not fit a machine word. -/
def plainValue? (s : String) : Option Value :=
  let cs := s.toList
  if s.isEmpty || isNullWord s then some .null
  else
    match flagWord? s with
    | some b => some (.bool b)
    | none =>
        match whole cs with
        | .word n => some (.num n)
        | .wide => none
        | .other =>
            if hasLeadingZero cs then some (.str s)
            else some ((floating? cs).getD (.str s))

/-- Whether a text, written plain, reads as a text again and not as something
else; digits with a leading zero count as something else. -/
def readsAsText (s : String) : Bool :=
  plainValue? s == some (.str s) && !hasLeadingZero s.toList

/-! ## §2. Scalars. -/

namespace Scalar

/-- Whether flags and integers may be read off the scalar: it is plain, or a
literal that says so by its tag. -/
def bare (s : Scalar) (tag : Tag) : Bool :=
  s.style = .plain || (s.style = .literal && s.tag = some tag)

/-- Whether the scalar leaves a value out. -/
def absence (s : Scalar) : Absence :=
  if s.style != .plain then .present
  else
    match s.tag with
    | some t =>
        if t = Tag.core "null" then if isNullWord s.text then .absent else .malformed
        else .present
    | none => if s.text.isEmpty || isNullWord s.text then .absent else .present

/-- The scalar as free-form data. -/
def payload (s : Scalar) : Option Value :=
  match s.tag with
  | none => if s.style = .plain then plainValue? s.text else some (.str s.text)
  | some t =>
      if t.isLocal then none
      else if t = Tag.core "bool" then (flagWord? s.text).map .bool
      else if t = Tag.core "int" then
        match whole s.text.toList with
        | .word n => some (.num n)
        | _ => none
      else if t = Tag.core "float" then floating? s.text.toList
      else if t = Tag.core "null" then if isNullWord s.text then some .null else none
      else if t.isPrivate && s.style = .plain then plainValue? s.text
      else some (.str s.text)

/-- All the answers a scalar gives. -/
def reading (s : Scalar) : Reading where
  text := some s.text
  flag := if s.bare (Tag.core "bool") then flagWord? s.text else none
  count :=
    if s.bare (Tag.core "int") then
      (unsigned? s.text.toList).filter fun n => n < twoTo 64
    else none
  absence := s.absence
  blank := s.style = .plain && s.text.isEmpty
  payload := s.payload

end Scalar

end TenantSync.Yaml
