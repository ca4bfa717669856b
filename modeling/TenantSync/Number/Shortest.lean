/-
  TenantSync.Number.Shortest
  ──────────────────────────
  **THE SHORTEST DECIMAL THAT READS BACK.**

  The reals that round to a double form an interval around it, its ends
  included exactly when the significand is even.  For one digit, two, … up to
  seventeen the value has two neighbours among the decimals of that many
  digits; the first count with a neighbour inside the interval wins, and of two
  neighbours inside it the nearer.  When the value is halfway between them, a
  tie rule chooses.

  How the digits are laid out is a matter of the format: `Layout` says from
  which exponents on a number is written with an exponent, whether a positive
  exponent carries its sign, what marks an integral value as a float, and the tie
  rule.
-/
import TenantSync.Number.Binary64

namespace TenantSync

namespace Binary64

/-! ## §1. Choosing the digits. -/

/-- The digits of a positive number and the exponent of the first digit:
`0.d₁d₂… · 10^(point)` with the point after `point` digits. -/
structure Decimal where
  /-- The significant digits, without trailing zeros. -/
  digits : List Char
  /-- How many of the digits stand before the point. -/
  point : Int
  deriving DecidableEq, Repr

/-- In units of `2^-1076`: the magnitude, and the two ends of the interval of
reals that round to it. -/
def interval (x : Binary64) : Nat × Nat × Nat :=
  let v := 4 * x.magnitude
  let half := 2 * twoTo x.scale
  let below := if x.fraction.toNat = 0 ∧ 1 < x.exponent.val then half / 2 else half
  (v, v - below, v + half)

/-- The exponent of the leading decimal digit of `v` units of `2^-1076`. -/
def leadingExponent (v : Nat) : Int :=
  ((Nat.toDigits 10 (v * tenTo 400 / twoTo 1076)).length : Int) - 401

/-- Whether `d · 10^k` lies in the interval of reals that round to `x`. -/
def readsBack (x : Binary64) (d : Nat) (k : Int) : Bool :=
  let (_, lo, hi) := x.interval
  let (num, den) := if 0 ≤ k then (d * tenTo k.toNat, 1) else (d, tenTo (-k).toNat)
  let v := num * twoTo 1076
  if x.significand % 2 = 0 then lo * den ≤ v && v ≤ hi * den
  else lo * den < v && v < hi * den

/-- Which of two equally near decimals is chosen. -/
inductive Tie where
  /-- The one whose last digit is even. -/
  | toEven
  /-- The one farther from zero. -/
  | awayFromZero
  deriving DecidableEq, Repr

/-- Whether the lower neighbour, `low` units of the last place, is chosen when
the value is halfway to the next. -/
def Tie.choosesLow (tie : Tie) (low : Nat) : Bool :=
  match tie with
  | .toEven => low % 2 == 0
  | .awayFromZero => false

/-- The candidate of at most `n` digits, if one reads back: the nearer of the
two neighbours of the value among the multiples of the last digit's place. -/
def candidate (tie : Tie) (x : Binary64) (n : Nat) : Option (Nat × Int) :=
  let (v, _, _) := x.interval
  let k := leadingExponent v - (n - 1 : Nat)
  let (num, den) :=
    if 0 ≤ k then (v, twoTo 1076 * tenTo k.toNat) else (v * tenTo (-k).toNat, twoTo 1076)
  let low := num / den
  let nearerIsLow := 2 * (num % den) < den || (2 * (num % den) == den && tie.choosesLow low)
  let (first, second) := if nearerIsLow then (low, low + 1) else (low + 1, low)
  if x.readsBack first k then some (first, k)
  else if x.readsBack second k then some (second, k)
  else none

/-- Digits of `d` without the zeros at its end, and the place of the point. -/
def Decimal.ofScaled (d : Nat) (k : Int) : Decimal :=
  let all := Nat.toDigits 10 d
  ⟨(all.reverse.dropWhile (· == '0')).reverse, k + all.length⟩

/-- The shortest decimal that reads back as `x`, the nearest of those. -/
def shortest (tie : Tie) (x : Binary64) : Decimal :=
  if x.isZero then ⟨['0'], 1⟩
  else
    match ((List.range 17).map (· + 1)).findSome? (x.candidate tie) with
    | some (d, k) => Decimal.ofScaled d k
    | none => ⟨['0'], 1⟩

/-! ## §2. Laying them out. -/

/-- How a format writes floating numbers. -/
structure Layout where
  /-- The largest exponent of the leading digit written without `e`. -/
  largest : Int
  /-- The smallest exponent of the leading digit written without `e`. -/
  smallest : Int
  /-- What stands before a positive exponent. -/
  positiveMark : String
  /-- What stands behind the digits of an integral value. -/
  integralMark : String
  /-- Which of two equally near decimals is written. -/
  tie : Tie

/-- The text of a number under a layout: digits around a point, or digits and an
exponent. -/
def format (layout : Layout) (x : Binary64) : String :=
  let sign := if x.negative then "-" else ""
  let ⟨digits, point⟩ := x.shortest layout.tie
  let lead := point - 1
  let body :=
    if lead < layout.smallest || layout.largest < lead then
      let fraction := if digits.length = 1 then [] else '.' :: digits.drop 1
      let mark := if lead < 0 then "-" else layout.positiveMark
      String.ofList (digits.take 1 ++ fraction) ++ "e" ++ mark ++ toString lead.natAbs
    else if point ≤ 0 then
      String.ofList ('0' :: '.' :: List.replicate point.natAbs '0' ++ digits)
    else if digits.length ≤ point.toNat then
      String.ofList (digits ++ List.replicate (point.toNat - digits.length) '0')
        ++ layout.integralMark
    else
      String.ofList (digits.take point.toNat ++ '.' :: digits.drop point.toNat)
  sign ++ body

end Binary64

end TenantSync
