/-
  TenantSync.Toml.Scalar
  ──────────────────────
  **TEXTS, NUMBERS AND DATES OF TOML.**

  Every reader takes the text behind what has been recognised so far and gives
  what it read together with the rest, or `none`.  Dates and times are texts
  here, in one spelling for each: `T` between date and time, `Z` for UTC, and a
  fraction of at most nine digits without zeros at its end.  Infinities and NaN
  are null.
-/
import TenantSync.Number.Numeral
import TenantSync.Timestamp

namespace TenantSync.Toml

/-! ## §1. Characters. -/

/-- Space and tab. -/
def isBlank (c : Char) : Bool := c == ' ' || c == '\t'

/-- Past spaces and tabs. -/
def skipBlanks (cs : List Char) : List Char := cs.dropWhile isBlank

/-- Past a line end. -/
def lineEnd? : List Char → Option (List Char)
  | '\n' :: rest => some rest
  | '\r' :: '\n' :: rest => some rest
  | _ => none

/-- The characters of comments: all but controls, of which a tab is allowed. -/
def isPlain (c : Char) : Bool := c == '\t' || (0x20 ≤ c.toNat && c.toNat != 0x7F)

/-- Past blanks and line ends. -/
def skipSpace (cs : List Char) : List Char :=
  match cs with
  | [] => []
  | '\r' :: '\n' :: rest => skipSpace rest
  | c :: rest => if isBlank c || c == '\n' then skipSpace rest else c :: rest

/-! ## §2. Texts. -/

/-- The character of a number given in `width` hexadecimal digits. -/
def readCode (width : Nat) (cs : List Char) : Option (Char × List Char) := do
  let digits := cs.take width
  if digits.length < width then none
  let n ← Numeral.natural? 16 digits
  if n.isValidChar then some (Char.ofNat n, cs.drop width) else none

/-- What stands behind a backslash. -/
def readEscape : List Char → Option (Char × List Char)
  | 'b' :: rest => some ('\x08', rest)
  | 't' :: rest => some ('\t', rest)
  | 'n' :: rest => some ('\n', rest)
  | 'f' :: rest => some ('\x0c', rest)
  | 'r' :: rest => some ('\r', rest)
  | '"' :: rest => some ('"', rest)
  | '\\' :: rest => some ('\\', rest)
  | 'u' :: rest => readCode 4 rest
  | 'U' :: rest => readCode 8 rest
  | _ => none

/-- A text on one line behind its opening quote; `escapes` tells whether a
backslash begins an escape. -/
def readShort (quote : Char) (escapes : Bool) : Nat → List Char → Option (List Char × List Char)
  | 0, _ => none
  | _ + 1, [] => none
  | fuel + 1, c :: rest =>
      if c = quote then some ([], rest)
      else if c = '\\' && escapes then do
        let (e, rest) ← readEscape rest
        let (text, rest) ← readShort quote escapes fuel rest
        return (e :: text, rest)
      else if isPlain c then do
        let (text, rest) ← readShort quote escapes fuel rest
        return (c :: text, rest)
      else none

/-- A text over several lines behind its opening quotes.  A run of one or two
quotes belongs to the text, and so do the first of up to five that end it. -/
def readLong (quote : Char) (escapes : Bool) : Nat → List Char → Option (List Char × List Char)
  | 0, _ => none
  | _ + 1, [] => none
  | fuel + 1, c :: rest =>
      if c = quote then
        let quotes := (c :: rest).takeWhile (· = quote)
        let behind := (c :: rest).dropWhile (· = quote)
        if quotes.length < 3 then do
          let (text, rest) ← readLong quote escapes fuel behind
          return (quotes ++ text, rest)
        else if quotes.length ≤ 5 then some (quotes.drop 3, behind)
        else none
      else if c = '\\' && escapes then
        match lineEnd? (skipBlanks rest) with
        | some rest => readLong quote escapes fuel (skipSpace rest)
        | none => do
            let (e, rest) ← readEscape rest
            let (text, rest) ← readLong quote escapes fuel rest
            return (e :: text, rest)
      else
        match lineEnd? (c :: rest) with
        | some rest => do
            let (text, rest) ← readLong quote escapes fuel rest
            return ('\n' :: text, rest)
        | none =>
            if isPlain c then do
              let (text, rest) ← readLong quote escapes fuel rest
              return (c :: text, rest)
            else none

/-- A text on one line behind its opening quote. -/
def readLine (quote : Char) (cs : List Char) : Option (String × List Char) := do
  let (text, rest) ← readShort quote (quote == '"') (cs.length + 1) cs
  return (String.ofList text, rest)

/-- A text behind its opening quote, of which there may be three. -/
def readText (quote : Char) (cs : List Char) : Option (String × List Char) :=
  if cs.take 2 = [quote, quote] then do
    let cs := cs.drop 2
    let cs := (lineEnd? cs).getD cs
    let (text, rest) ← readLong quote (quote == '"') (cs.length + 1) cs
    return (String.ofList text, rest)
  else readLine quote cs

/-! ## §3. Numbers. -/

/-- Digits up to the first other character; an underscore has to stand between
two of them and is left out. -/
def readMore (p : Char → Bool) : List Char → Option (List Char × List Char)
  | '_' :: c :: rest =>
      if p c then (readMore p rest).map fun (ds, rest) => (c :: ds, rest) else none
  | ['_'] => none
  | c :: rest =>
      if p c then (readMore p rest).map fun (ds, rest) => (c :: ds, rest) else some ([], c :: rest)
  | [] => some ([], [])

/-- One digit and more. -/
def readDigits (p : Char → Bool) : List Char → Option (List Char × List Char)
  | c :: rest => if p c then (readMore p rest).map fun (ds, rest) => (c :: ds, rest) else none
  | [] => none

/-- Digits without a leading zero. -/
def readWhole : List Char → Option (List Char × List Char)
  | '0' :: rest => some (['0'], rest)
  | cs => readDigits Char.isDigit cs

/-- An integer as a value, if it fits 64 bits with a sign. -/
def integer? (n : Int) : Option Value :=
  if -(twoTo 63 : Int) ≤ n && n < twoTo 63 then (Number.ofInt? n).map .num else none

/-- The base a prefix announces. -/
def baseOf? : Char → Option Nat
  | 'x' => some 16
  | 'o' => some 8
  | 'b' => some 2
  | _ => none

/-- An integer behind the prefix of its base. -/
def readBased (base : Nat) (cs : List Char) : Option (Value × List Char) := do
  let (ds, rest) ← readDigits (fun c => (Numeral.digit? base c).isSome) cs
  return (← integer? (← Numeral.natural? base ds), rest)

/-- The value of a numeral with a point or an exponent.  What is too large is
refused, and too large below zero it is null. -/
def floating? (negative : Bool) (whole fraction : List Char) (exponent : Int) : Option Value :=
  let digits := Numeral.ofDigits (whole ++ fraction)
  match Binary64.ofDecimal negative digits (exponent - fraction.length) with
  | some x => some (.num (.float x))
  | none => if negative then some .null else none

/-- An exponent behind its mark. -/
def readExponent (cs : List Char) : Option (Int × List Char) := do
  let (minus, cs) := match cs with
    | '-' :: rest => (true, rest)
    | '+' :: rest => (false, rest)
    | _ => (false, cs)
  let (ds, rest) ← readDigits Char.isDigit cs
  let n : Int := Numeral.ofDigits ds
  return (if minus then -n else n, rest)

/-- A decimal number behind its sign. -/
def readDecimal (negative : Bool) (cs : List Char) : Option (Value × List Char) := do
  let (whole, cs) ← readWhole cs
  let exponential (fraction : List Char) (cs : List Char) : Option (Value × List Char) := do
    let (e, rest) ← readExponent cs
    return (← floating? negative whole fraction e, rest)
  match cs with
  | '.' :: rest =>
      let (fraction, rest) ← readDigits Char.isDigit rest
      match rest with
      | 'e' :: rest => exponential fraction rest
      | 'E' :: rest => exponential fraction rest
      | rest => return (← floating? negative whole fraction 0, rest)
  | 'e' :: rest => exponential [] rest
  | 'E' :: rest => exponential [] rest
  | rest =>
      let n : Int := Numeral.ofDigits whole
      return (← integer? (if negative then -n else n), rest)

/-- A number or its special names. -/
def readNumber (cs : List Char) : Option (Value × List Char) :=
  let based : Option (Nat × List Char) := match cs with
    | '0' :: mark :: rest => (baseOf? mark).map fun base => (base, rest)
    | _ => none
  match based with
  | some (base, rest) => readBased base rest
  | none =>
      let (negative, cs) := match cs with
        | '-' :: rest => (true, rest)
        | '+' :: rest => (false, rest)
        | _ => (false, cs)
      if cs.take 3 = ['i', 'n', 'f'] || cs.take 3 = ['n', 'a', 'n'] then some (.null, cs.drop 3)
      else readDecimal negative cs

/-! ## §4. Dates and times. -/

/-- The number of `width` digits within bounds. -/
def readField (width least most : Nat) (cs : List Char) : Option (Nat × List Char) :=
  let digits := cs.take width
  let n := Numeral.ofDigits digits
  if digits.length = width && digits.all Char.isDigit && least ≤ n && n ≤ most then
    some (n, cs.drop width)
  else none

/-- Past a character. -/
def past? (c : Char) : List Char → Option (List Char)
  | d :: rest => if c = d then some rest else none
  | [] => none

/-- Whether a text begins like a date: four digits and a dash. -/
def beginsDate (cs : List Char) : Bool :=
  (readField 4 0 9999 cs).any fun r => (past? '-' r.2).isSome

/-- Whether a text begins like a time: an hour and a colon. -/
def beginsTime (cs : List Char) : Bool :=
  (readField 2 0 23 cs).any fun r => (past? ':' r.2).isSome

/-- A date. -/
def readDate (cs : List Char) : Option (String × List Char) := do
  let (year, rest) ← readField 4 0 9999 cs
  let (month, rest) ← readField 2 1 12 (← past? '-' rest)
  let (day, rest) ← readField 2 1 31 (← past? '-' rest)
  if Timestamp.daysInMonth year month < day then none
  return (String.ofList (cs.take 10), rest)

/-- The fraction of a second. -/
def readFraction (cs : List Char) : Option (String × List Char) :=
  match cs with
  | '.' :: rest =>
      let digits := rest.takeWhile Char.isDigit
      let kept := ((digits.take 9).reverse.dropWhile (· == '0')).reverse
      if digits.isEmpty then none
      else some (if kept.isEmpty then "" else String.ofList ('.' :: kept), rest.drop digits.length)
  | _ => some ("", cs)

/-- A time of the day. -/
def readTime (cs : List Char) : Option (String × List Char) := do
  let (_, rest) ← readField 2 0 23 cs
  let (_, rest) ← readField 2 0 59 (← past? ':' rest)
  let (_, rest) ← readField 2 0 60 (← past? ':' rest)
  let (fraction, rest) ← readFraction rest
  return (String.ofList (cs.take 8) ++ fraction, rest)

/-- The offset of a time from UTC, if one is given. -/
def readOffset (cs : List Char) : Option (String × List Char) :=
  let custom (sign : Char) (cs : List Char) : Option (String × List Char) := do
    let (hours, rest) ← readField 2 0 23 cs
    let (minutes, rest) ← readField 2 0 59 (← past? ':' rest)
    let sign := if hours = 0 && minutes = 0 then '+' else sign
    return (String.ofList (sign :: cs.take 5), rest)
  match cs with
  | 'Z' :: rest => some ("Z", rest)
  | 'z' :: rest => some ("Z", rest)
  | '+' :: rest => custom '+' rest
  | '-' :: rest => custom '-' rest
  | _ => some ("", cs)

/-- A date, a time, or both. -/
def readMoment (cs : List Char) : Option (String × List Char) := do
  if beginsDate cs then
    let (date, rest) ← readDate cs
    match rest with
    | mark :: behind =>
        if (mark == 'T' || mark == 't' || mark == ' ') && beginsTime behind then
          let (time, rest) ← readTime behind
          let (offset, rest) ← readOffset rest
          return (date ++ "T" ++ time ++ offset, rest)
        else return (date, rest)
    | [] => return (date, [])
  else readTime cs

end TenantSync.Toml
