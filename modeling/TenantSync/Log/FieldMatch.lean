/-
  TenantSync.Log.FieldMatch
  ─────────────────────────
  **FIELDS OF SPANS AND THEIR VALUES.**

  A directive may ask for a field, and for a value of it.  The text of the value
  is read as what it spells first of

      a flag, a natural number, a negative integer, a float, a pattern

  and is written back as the value and not as it was spelled: `007` as `7`, and
  `1e3` as `1000`.  Values of one kind are ordered among themselves, and the
  kinds among each other.
-/
import TenantSync.Log.Pattern
import TenantSync.Number.Shortest

namespace TenantSync.Log

/-! ## §1. Values. -/

/-- The value that a field has to have. -/
inductive FieldValue where
  | flag (value : Bool)
  | float (value : Binary64)
  | infinite (negative : Bool)
  | notANumber
  /-- A number below `2^64`. -/
  | natural (value : Nat)
  /-- A number written with a minus, from `-2^63` on. -/
  | integer (value : Int)
  /-- A regular expression, as it was spelled. -/
  | pattern (text : String)
  deriving DecidableEq

namespace FieldValue

/-- A flag. -/
def flag? (cs : List Char) : Option FieldValue :=
  if cs = "true".toList then some (.flag true)
  else if cs = "false".toList then some (.flag false)
  else none

/-- A natural number that a word holds. -/
def natural? (cs : List Char) : Option FieldValue :=
  ((Numeral.unsigned? cs).filter fun n => n < twoTo 64).map .natural

/-- A number with a minus that a word holds. -/
def integer? (cs : List Char) : Option FieldValue :=
  match cs with
  | '-' :: rest =>
      ((Numeral.natural? 10 rest).filter fun n => n ≤ twoTo 63).map fun n => .integer (-(n : Int))
  | _ => none

/-- A float: a decimal numeral, or a word for what no numeral stands for.  A
numeral beyond the largest double is infinite. -/
def float? (cs : List Char) : Option FieldValue :=
  let (negative, word) := match cs with
    | '-' :: rest => (true, rest)
    | '+' :: rest => (false, rest)
    | _ => (false, cs)
  let word := String.ofList (word.map Char.toLower)
  if word = "nan" then some .notANumber
  else if word = "inf" || word = "infinity" then some (.infinite negative)
  else
    (Numeral.scientific? cs).map fun s =>
      match s.toBinary64? with
      | some x => .float x
      | none => .infinite s.negative

/-- A pattern that a matcher can be built for. -/
def pattern? (cs : List Char) : Option FieldValue :=
  if Pattern.isMatchable cs then some (.pattern (String.ofList cs)) else none

/-- Read a value. -/
def ofText? (cs : List Char) : Option FieldValue :=
  [flag?, natural?, integer?, float?, pattern?].findSome? fun kind => kind cs

/-- Floats are written without an exponent, and integral ones without a point. -/
def floatLayout : Binary64.Layout := ⟨400, -400, "", "", .awayFromZero⟩

/-- The value as text. -/
def text : FieldValue → String
  | .flag value => if value then "true" else "false"
  | .float value => value.format floatLayout
  | .infinite negative => if negative then "-inf" else "inf"
  | .notANumber => "NaN"
  | .natural value => toString value
  | .integer value => toString value
  | .pattern text => text

/-- The place of a kind of values in the order of values. -/
def rank : FieldValue → Nat
  | .flag _ => 0
  | .infinite true => 1
  | .float _ => 2
  | .infinite false => 3
  | .notANumber => 4
  | .natural _ => 5
  | .integer _ => 6
  | .pattern _ => 7

/-- Order of values; zeros of either sign are the same. -/
def order (a b : FieldValue) : Ordering :=
  match a, b with
  | .flag a, .flag b => compare a b
  | .float a, .float b => compare a.units b.units
  | .natural a, .natural b => compare a b
  | .integer a, .integer b => compare a b
  | .pattern a, .pattern b => compare a b
  | _, _ => compare a.rank b.rank

end FieldValue

/-! ## §2. Matches. -/

/-- A field that a span has to have, and the value it has to have. -/
structure FieldMatch where
  name : String
  value : Option FieldValue
  deriving DecidableEq

namespace FieldMatch

/-- The match of a text: the name up to an equals sign, the value up to the
next.  A value that is not one makes the text no match. -/
def ofText? (cs : List Char) : Option FieldMatch :=
  let name := String.ofList (cs.takeWhile (· != '='))
  match cs.dropWhile (· != '=') with
  | _ :: rest => (FieldValue.ofText? (rest.takeWhile (· != '='))).map fun v => ⟨name, some v⟩
  | [] => some ⟨name, none⟩

/-- The match as text. -/
def text (f : FieldMatch) : String :=
  match f.value with
  | some v => f.name ++ "=" ++ v.text
  | none => f.name

end FieldMatch

end TenantSync.Log
