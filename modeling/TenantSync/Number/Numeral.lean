/-
  TenantSync.Number.Numeral
  ─────────────────────────
  **NUMERALS.**

  Digits of a base, and decimal numerals with a point and an exponent.  The
  readers here take a whole text or refuse it; each format adds its own rules
  about signs, leading zeros and range.
-/
import TenantSync.Value

namespace TenantSync.Numeral

/-- The value of a digit below `base`. -/
def digit? (base : Nat) (c : Char) : Option Nat :=
  let d :=
    if c.isDigit then c.toNat - '0'.toNat
    else if 'a' ≤ c && c ≤ 'z' then c.toNat - 'a'.toNat + 10
    else if 'A' ≤ c && c ≤ 'Z' then c.toNat - 'A'.toNat + 10
    else base
  if d < base then some d else none

/-- A nonempty text of digits as a number. -/
def natural? (base : Nat) (cs : List Char) : Option Nat :=
  if cs.isEmpty then none
  else cs.foldlM (fun n c => (digit? base c).map (base * n + ·)) 0

/-- A natural number in base ten, a plus before it allowed. -/
def unsigned? (cs : List Char) : Option Nat :=
  match cs with
  | '+' :: rest => natural? 10 rest
  | _ => natural? 10 cs

/-- The number that digits, already checked, stand for in base ten. -/
def ofDigits (cs : List Char) : Nat :=
  cs.foldl (fun n c => 10 * n + (c.toNat - '0'.toNat)) 0

/-- A decimal numeral taken apart: its digits as one integer, and the power of
ten that integer is multiplied by. -/
structure Scientific where
  negative : Bool
  digits : Nat
  exponent : Int

/-- Whether a text is digits and nothing else. -/
def isDigits (cs : List Char) : Bool := !cs.isEmpty && cs.all Char.isDigit

/-- A sign, digits with at most one point among or around them, and an exponent
of at least one digit; sign, point and exponent may be missing. -/
def scientific? (cs : List Char) : Option Scientific := do
  let (negative, cs) := match cs with
    | '-' :: rest => (true, rest)
    | '+' :: rest => (false, rest)
    | _ => (false, cs)
  let whole := cs.takeWhile Char.isDigit
  let cs := cs.dropWhile Char.isDigit
  let (fraction, cs) := match cs with
    | '.' :: rest => (rest.takeWhile Char.isDigit, rest.dropWhile Char.isDigit)
    | _ => ([], cs)
  if whole.isEmpty && fraction.isEmpty then none
  let exponent ← match cs with
    | [] => some (0 : Int)
    | e :: rest =>
        if e != 'e' && e != 'E' then none
        else match rest with
          | '-' :: ds => if isDigits ds then some (-(ofDigits ds : Int)) else none
          | '+' :: ds => if isDigits ds then some (ofDigits ds : Int) else none
          | ds => if isDigits ds then some (ofDigits ds : Int) else none
  return ⟨negative, ofDigits (whole ++ fraction), exponent - fraction.length⟩

/-- The nearest double of a numeral, unless that is beyond the largest. -/
def Scientific.toBinary64? (s : Scientific) : Option Binary64 :=
  Binary64.ofDecimal s.negative s.digits s.exponent

end TenantSync.Numeral
