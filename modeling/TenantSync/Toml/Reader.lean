/-
  TenantSync.Toml.Reader
  ──────────────────────
  **FROM TOML TEXT TO A VALUE.**

  A file is read line by line into statements, which are then carried out.
  Arrays may go over several lines and have comments between their items, an
  inline table stays on its line.  Arrays and inline tables nest less than 80
  deep, and a dotted key has less than 80 parts.
-/
import TenantSync.Toml.Table

namespace TenantSync.Toml

/-- The depth that collections and dotted keys do not reach. -/
def depthLimit : Nat := 80

/-! ## §1. Keys. -/

/-- The characters of keys without quotes. -/
def isBare (c : Char) : Bool := c.isAlphanum || c == '_' || c == '-'

/-- One part of a key. -/
def readPart (cs : List Char) : Option (String × List Char) :=
  match cs with
  | '"' :: rest => readLine '"' rest
  | '\'' :: rest => readLine '\'' rest
  | _ =>
      let name := cs.takeWhile isBare
      if name.isEmpty then none else some (String.ofList name, cs.dropWhile isBare)

/-- The parts of a key, blanks around each allowed. -/
def readParts : Nat → List Char → Option (List String × List Char)
  | 0, _ => none
  | fuel + 1, cs => do
      let (part, rest) ← readPart (skipBlanks cs)
      match skipBlanks rest with
      | '.' :: rest =>
          let (parts, rest) ← readParts fuel rest
          return (part :: parts, rest)
      | rest => return ([part], rest)

/-- A key, dotted or not. -/
def readKey (cs : List Char) : Option (Key × List Char) := do
  let (parts, rest) ← readParts (depthLimit - 1) cs
  return (⟨parts.dropLast, parts.getLast?.getD ""⟩, rest)

/-! ## §2. Values. -/

/-- Past a comment, if there is one. -/
def skipComment (cs : List Char) : List Char :=
  match cs with
  | '#' :: rest => rest.dropWhile isPlain
  | _ => cs

/-- Past blanks, comments and line ends. -/
def skipVoid : Nat → List Char → List Char
  | 0, cs => cs
  | fuel + 1, cs =>
      match lineEnd? (skipComment (skipBlanks cs)) with
      | some rest => skipVoid fuel rest
      | none => skipBlanks cs

/-- Past whatever may stand between the items of an array. -/
def skipGap (cs : List Char) : List Char := skipVoid (cs.length + 1) cs

/-- A number, a date or a time. -/
def readNumeric (cs : List Char) : Option (Item × List Char) :=
  if beginsDate cs || beginsTime cs then
    (readMoment cs).map fun (text, rest) => (.moment text, rest)
  else (readNumber cs).map fun (v, rest) => (.scalar v, rest)

/-- The words that are values. -/
def word? (cs : List Char) : Option (Item × List Char) :=
  if cs.take 4 = "true".toList then some (.scalar (.bool true), cs.drop 4)
  else if cs.take 5 = "false".toList then some (.scalar (.bool false), cs.drop 5)
  else if cs.take 3 = "inf".toList || cs.take 3 = "nan".toList then
    some (.scalar .null, cs.drop 3)
  else none

mutual

/-- A value that lies in `depth` collections. -/
def readValue : Nat → (depth : Nat) → List Char → Option (Item × List Char)
  | 0, _, _ => none
  | fuel + 1, depth, cs =>
      match cs with
      | '"' :: rest => (readText '"' rest).map fun (s, rest) => (.scalar (.str s), rest)
      | '\'' :: rest => (readText '\'' rest).map fun (s, rest) => (.scalar (.str s), rest)
      | '[' :: rest =>
          if depthLimit ≤ depth + 1 then none
          else (readItems fuel (depth + 1) rest).map fun (items, rest) => (.array items, rest)
      | '\x7b' :: rest => do
          if depthLimit ≤ depth + 1 then none
          match skipBlanks rest with
          | '\x7d' :: rest => return (.inline [], rest)
          | _ =>
              let (entries, rest) ← readEntries fuel (depth + 1) rest
              return (← inline? entries, rest)
      | c :: _ =>
          if c == '+' || c == '-' || c.isDigit then readNumeric cs else word? cs
      | [] => none

/-- The items of an array and its end; a comma may stand before the end. -/
def readItems : Nat → (depth : Nat) → List Char → Option (List Item × List Char)
  | 0, _, _ => none
  | fuel + 1, depth, cs =>
      match skipGap cs with
      | ']' :: rest => some ([], rest)
      | cs => do
          let (v, rest) ← readValue fuel depth cs
          match skipGap rest with
          | ',' :: rest =>
              let (items, rest) ← readItems fuel depth rest
              return (v :: items, rest)
          | ']' :: rest => return ([v], rest)
          | _ => none

/-- The entries of an inline table and its end, one at least. -/
def readEntries : Nat → (depth : Nat) → List Char → Option (List (Key × Item) × List Char)
  | 0, _, _ => none
  | fuel + 1, depth, cs => do
      let (key, rest) ← readKey cs
      let (v, rest) ← readValue fuel depth (skipBlanks (← past? '=' rest))
      match skipBlanks rest with
      | ',' :: rest =>
          let (entries, rest) ← readEntries fuel depth rest
          return ((key, v) :: entries, rest)
      | '\x7d' :: rest => return ([(key, v)], rest)
      | _ => none

end

/-! ## §3. Files. -/

/-- Past the rest of a line that holds nothing more than a comment. -/
def finishLine (cs : List Char) : Option (List Char) :=
  match skipComment (skipBlanks cs) with
  | [] => some []
  | cs => lineEnd? cs

/-- The statement of a line, and the text behind it. -/
def readStatement (cs : List Char) : Option (Statement × List Char) :=
  match cs with
  | '[' :: '[' :: rest => do
      let (key, rest) ← readKey rest
      return (.element key, ← past? ']' (← past? ']' rest))
  | '[' :: rest => do
      let (key, rest) ← readKey rest
      return (.header key, ← past? ']' rest)
  | _ => do
      let (key, rest) ← readKey cs
      let rest := skipBlanks (← past? '=' rest)
      let (v, rest) ← readValue (2 * rest.length + 2) 0 rest
      return (.entry key v, rest)

/-- The statements of a file. -/
def readStatements : Nat → List Char → Option (List Statement)
  | 0, _ => none
  | fuel + 1, cs =>
      match skipGap cs with
      | [] => some []
      | '#' :: rest => if (rest.dropWhile isPlain).isEmpty then some [] else none
      | cs => do
          let (s, rest) ← readStatement cs
          return s :: (← readStatements fuel (← finishLine rest))

/-- The value that a file defines.  A byte order mark may stand in front. -/
def ofText? (text : String) : Option Value := do
  let cs := text.toList
  let cs := if cs.head? == some '\ufeff' then cs.tail else cs
  ofStatements? (← readStatements (cs.length + 1) cs)

end TenantSync.Toml
