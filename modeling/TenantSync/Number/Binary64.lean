/-
  TenantSync.Number.Binary64
  ──────────────────────────
  **FINITE BINARY64 NUMBERS AS EXACT VALUES.**

  A finite double is a sign and a magnitude `significand · 2^scale` counted in
  units of `2^-1074`, the smallest positive double.  No operation goes through
  machine floating point: a quotient of natural numbers is rounded to the
  nearest double, ties to the even significand, in exact arithmetic, and every
  other operation is its exact result rounded once:

      ofRatio  — nearest double of `num / den`, `none` from 2^1024 − 2^970 on
      mul, div — the exact product or quotient, rounded
      ofDecimal — nearest double of a decimal `digits · 10^exponent`

  Infinities and NaN have no place in the type: every format here either
  refuses them or writes them as null.
-/
import TenantSync.Number.Power

namespace TenantSync

/-- A finite binary64 number. -/
structure Binary64 where
  /-- Set for numbers below zero and for negative zero. -/
  negative : Bool
  /-- The biased exponent; 2047 would be an infinity or NaN. -/
  exponent : Fin 2047
  /-- The stored fraction bits. -/
  fraction : BitVec 52
  deriving DecidableEq

namespace Binary64

/-! ## §1. The value. -/

/-- The integer significand, hidden bit included. -/
def significand (x : Binary64) : Nat :=
  if x.exponent.val = 0 then x.fraction.toNat else twoTo 52 + x.fraction.toNat

/-- The power of two the significand is multiplied by, in units of `2^-1074`. -/
def scale (x : Binary64) : Nat := x.exponent.val - 1

/-- The magnitude in units of `2^-1074`. -/
def magnitude (x : Binary64) : Nat := x.significand * twoTo x.scale

/-- The value in units of `2^-1074`; zero has no sign there. -/
def units (x : Binary64) : Int := if x.negative then -(x.magnitude : Int) else x.magnitude

/-- Zero of a given sign. -/
def zero (negative : Bool) : Binary64 := ⟨negative, 0, 0⟩

/-- Whether the number is zero, of either sign. -/
def isZero (x : Binary64) : Bool := x.magnitude == 0

/-- The number with the sign of zero forgotten. -/
def clearZeroSign (x : Binary64) : Binary64 := if x.isZero then zero false else x

/-- The number of opposite sign. -/
def neg (x : Binary64) : Binary64 := { x with negative := !x.negative }

/-! ## §2. Rounding. -/

/-- `num / den` to the nearest integer, a tie to the even one. -/
def roundHalfEven (num den : Nat) : Nat :=
  let q := num / den
  let r := num % den
  if 2 * r < den then q
  else if den < 2 * r then q + 1
  else if q % 2 = 0 then q else q + 1

/-- The double `m · 2^p` units, if it is one. -/
def assemble (negative : Bool) (m p : Nat) : Option Binary64 :=
  if m < twoTo 52 then some ⟨negative, 0, .ofNat 52 m⟩
  else if h : p + 1 < 2047 ∧ m < twoTo 53 then
    some ⟨negative, ⟨p + 1, h.1⟩, .ofNat 52 (m - twoTo 52)⟩
  else none

/-- The double nearest `num / den`; `none` when that is beyond the largest. -/
def ofRatio (negative : Bool) (num den : Nat) : Option Binary64 :=
  let units := num * twoTo 1074
  let q := units / den
  let p := if q < twoTo 53 then 0 else Nat.log2 q - 52
  let m := roundHalfEven units (den * twoTo p)
  if m = twoTo 53 then assemble negative (twoTo 52) (p + 1) else assemble negative m p

/-- The double nearest a natural number. -/
def ofNat (n : Nat) : Option Binary64 := ofRatio false n 1

/-- The product, rounded once. -/
def mul (x y : Binary64) : Option Binary64 :=
  ofRatio (x.negative != y.negative) (x.magnitude * y.magnitude) (twoTo 2148)

/-- The quotient by a nonzero number, rounded once. -/
def div (x y : Binary64) : Option Binary64 :=
  ofRatio (x.negative != y.negative) x.magnitude y.magnitude

/-! ## §3. Decimals. -/

/-- The double nearest `digits · 10^exponent`; `none` when that is beyond the
largest.  Exponents far outside the range decide the result by themselves. -/
def ofDecimal (negative : Bool) (digits : Nat) (exponent : Int) : Option Binary64 :=
  let places : Int := (Nat.toDigits 10 digits).length
  if digits = 0 then some (zero negative)
  else if 400 < exponent + places then none
  else if exponent + places < -400 then some (zero negative)
  else if 0 ≤ exponent then ofRatio negative (digits * tenTo exponent.toNat) 1
  else ofRatio negative digits (tenTo (-exponent).toNat)

end Binary64

end TenantSync
