/-
  TenantSync.Json.Reader
  ──────────────────────
  **FROM JSON TEXT TO DATA.**

  Syntax is checked everywhere, values only where they are looked at: a number
  beyond the largest double and a text with half of a surrogate pair are
  scalars without a reading, and collections may nest more than 127 deep in a
  part that no decoder looks at.

  A number without point and exponent that fits a machine word is an integer.
  Any other has its first digits, as many as fit 64 bits, taken as a double and
  is multiplied or divided by a power of ten in double arithmetic, so its last
  bit may differ from the nearest double's.
-/
import TenantSync.Number.Numeral
import TenantSync.Datum

namespace TenantSync.Json

/-! ## §1. Numbers. -/

/-- The power of ten nearest to `10^n`, up to the largest double. -/
def power (n : Nat) : Option Binary64 := Binary64.ofDecimal false 1 n

/-- `x · 10^exponent`, rounded after each step; a step divides by at most
`10^308`. -/
def scaleBy : Nat → Binary64 → Int → Option Binary64
  | 0, x, _ => some (.zero x.negative)
  | fuel + 1, x, exponent =>
      if x.isZero then some x
      else if 308 < exponent then none
      else if 0 ≤ exponent then (power exponent.toNat).bind x.mul
      else if -308 ≤ exponent then (power (-exponent).toNat).bind x.div
      else do
        let y ← x.div (← power 308)
        scaleBy fuel y (exponent + 308)

/-- The double of digits and a power of ten. -/
def double (negative : Bool) (digits : Nat) (exponent : Int) : Option Binary64 := do
  let x ← Binary64.ofNat digits
  let y ← scaleBy 4 x exponent
  return { y with negative }

/-- Digits added to a number as long as it stays below `2^64`; the result has
the number of digits used and the digits left over. -/
def takeDigits : Nat → Nat → List Char → Nat × Nat × List Char
  | n, used, [] => (n, used, [])
  | n, used, c :: rest =>
      let next := 10 * n + (c.toNat - '0'.toNat)
      if next < twoTo 64 then takeDigits next (used + 1) rest else (n, used, c :: rest)

/-- The value of a number whose parts are known. -/
def numberOf (negative : Bool) (whole : List Char) (fraction : Option (List Char))
    (exponent : Option Int) : Option Number :=
  let (n, _, beyond) := takeDigits 0 0 whole
  if fraction.isNone && exponent.isNone && beyond.isEmpty then
    if !negative then some (.natural (.ofNat n))
    else if 0 < n && n ≤ twoTo 63 then Number.ofInt? (-n)
    else (Binary64.ofNat n).map fun x => .float x.neg
  else
    let (n, used, _) := takeDigits n 0 (fraction.getD [])
    let e : Int := beyond.length - used + exponent.getD 0
    (double negative n e).map .float

/-- A minus at the head of a text: whether it is there. -/
def readSign (cs : List Char) : Bool × List Char :=
  match cs with
  | '-' :: rest => (true, rest)
  | _ => (false, cs)

/-- The digits behind a point at the head of a text, one at least. -/
def readFraction (cs : List Char) : Option (Option (List Char) × List Char) :=
  match cs with
  | '.' :: rest =>
      let ds := rest.takeWhile Char.isDigit
      if ds.isEmpty then none else some (some ds, rest.dropWhile Char.isDigit)
  | _ => some (none, cs)

/-- The sign of an exponent: whether it is a minus. -/
def readExponentSign (cs : List Char) : Bool × List Char :=
  match cs with
  | '-' :: rest => (true, rest)
  | '+' :: rest => (false, rest)
  | _ => (false, cs)

/-- An exponent at the head of a text, one digit at least. -/
def readExponent (cs : List Char) : Option (Option Int × List Char) :=
  match cs with
  | e :: rest =>
      if e == 'e' || e == 'E' then
        let (minus, rest) := readExponentSign rest
        let ds := rest.takeWhile Char.isDigit
        let n : Int := Numeral.ofDigits ds
        if ds.isEmpty then none
        else some (some (if minus then -n else n), rest.dropWhile Char.isDigit)
      else some (none, cs)
  | [] => some (none, cs)

/-- A number at the head of a text: the value, or that it has none. -/
def readNumber (cs : List Char) : Option (Reading × List Char) := do
  let (negative, cs) := readSign cs
  let whole := cs.takeWhile Char.isDigit
  if whole.isEmpty || (whole.head? == some '0' && 1 < whole.length) then none
  let (fraction, cs) ← readFraction (cs.dropWhile Char.isDigit)
  let (exponent, cs) ← readExponent cs
  let reading := match numberOf negative whole fraction exponent with
    | some n => .ofNumber n
    | none => .unreadable
  return (reading, cs)

/-! ## §2. Texts. -/

/-- The units of a text: characters, or the numbers of `\u` escapes. -/
inductive Piece where
  | char (c : Char)
  | unit (n : Nat)

/-- Four hexadecimal digits. -/
def hex4? : List Char → Option (Nat × List Char)
  | a :: b :: c :: d :: rest => (Numeral.natural? 16 [a, b, c, d]).map fun n => (n, rest)
  | _ => none

/-- The pieces of a text behind its opening quote. -/
def readPieces : Nat → List Char → List Piece → Option (List Piece × List Char)
  | 0, _, _ => none
  | _, [], _ => none
  | fuel + 1, c :: rest, acc =>
      if c == '"' then some (acc.reverse, rest)
      else if c == '\\' then
        match rest with
        | 'u' :: rest => do
            let (n, rest) ← hex4? rest
            readPieces fuel rest (.unit n :: acc)
        | e :: rest => do
            let c ← [('"', '"'), ('\\', '\\'), ('/', '/'), ('b', '\x08'), ('f', '\x0c'),
              ('n', '\n'), ('r', '\r'), ('t', '\t')].lookup e
            readPieces fuel rest (.char c :: acc)
        | [] => none
      else if c.toNat < 0x20 then none
      else readPieces fuel rest (.char c :: acc)

/-- The characters of pieces, surrogates joined in pairs. -/
def joinPieces : List Piece → Option (List Char)
  | [] => some []
  | .char c :: rest => (joinPieces rest).map (c :: ·)
  | .unit n :: rest =>
      if n < 0xD800 || 0xDFFF < n then (joinPieces rest).map (Char.ofNat n :: ·)
      else
        match rest with
        | .unit m :: rest =>
            if n < 0xDC00 && 0xDC00 ≤ m && m ≤ 0xDFFF then
              let code := 0x10000 + (n - 0xD800) * 0x400 + (m - 0xDC00)
              (joinPieces rest).map (Char.ofNat code :: ·)
            else none
        | _ => none

/-- A text behind its opening quote. -/
def readText (cs : List Char) : Option (Reading × List Char) := do
  let (pieces, rest) ← readPieces (cs.length + 1) cs []
  let reading := match joinPieces pieces with
    | some s => .ofText (String.ofList s)
    | none => .unreadable
  return (reading, rest)

/-! ## §3. Values. -/

/-- Past white space. -/
def skipSpace (cs : List Char) : List Char :=
  cs.dropWhile fun c => c == ' ' || c == '\n' || c == '\t' || c == '\r'

/-- The words that stand for a value. -/
def words : List (List Char × Reading) :=
  [("null".toList, .null), ("true".toList, .ofFlag true), ("false".toList, .ofFlag false)]

/-- The text behind a word, if it begins with the word. -/
def afterWord? (word cs : List Char) : Option (List Char) :=
  if cs.take word.length == word then some (cs.drop word.length) else none

mutual

/-- A value, white space before it allowed. -/
def readValue : Nat → List Char → Option (Datum × List Char)
  | 0, _ => none
  | fuel + 1, cs =>
      let cs := skipSpace cs
      match cs with
      | [] => none
      | '"' :: rest => (readText rest).map fun (r, rest) => (.scalar r, rest)
      | '[' :: rest =>
          match skipSpace rest with
          | ']' :: rest => some (.list true true [], rest)
          | rest => (readItems fuel rest).map fun (items, rest) => (.list true true items, rest)
      | '\x7b' :: rest =>
          match skipSpace rest with
          | '\x7d' :: rest => some (.table true [], rest)
          | rest => (readEntries fuel rest).map fun (entries, rest) => (.table true entries, rest)
      | c :: _ =>
          if c == '-' || c.isDigit then (readNumber cs).map fun (r, rest) => (.scalar r, rest)
          else words.findSome? fun (w, r) => (afterWord? w cs).map fun rest => (.scalar r, rest)

/-- The items of a list up to its end, one at least. -/
def readItems : Nat → List Char → Option (List Datum × List Char)
  | 0, _ => none
  | fuel + 1, cs => do
      let (d, cs) ← readValue fuel cs
      match skipSpace cs with
      | ',' :: rest =>
          let (ds, rest) ← readItems fuel rest
          return (d :: ds, rest)
      | ']' :: rest => return ([d], rest)
      | _ => none

/-- The entries of an object up to its end, one at least. -/
def readEntries : Nat → List Char → Option (List (Datum × Datum) × List Char)
  | 0, _ => none
  | fuel + 1, cs => do
      let (key, cs) ← match skipSpace cs with
        | '"' :: rest => readText rest
        | _ => none
      let cs ← match skipSpace cs with
        | ':' :: rest => some rest
        | _ => none
      let (d, cs) ← readValue fuel cs
      match skipSpace cs with
      | ',' :: rest =>
          let (ds, rest) ← readEntries fuel rest
          return ((.scalar key, d) :: ds, rest)
      | '\x7d' :: rest => return ([(.scalar key, d)], rest)
      | _ => none

end

/-- The data of a whole text. -/
def read? (cs : List Char) : Option Datum := do
  let (d, rest) ← readValue (2 * cs.length + 2) cs
  if (skipSpace rest).isEmpty then some d else none

/-- The depth of collections that is still accepted. -/
def maxDepth : Nat := 127

/-- The part of a text that a shape selects. -/
def datum? (shape : Shape) (cs : List Char) : Option Datum := do
  (← read? cs).select? shape maxDepth

end TenantSync.Json
