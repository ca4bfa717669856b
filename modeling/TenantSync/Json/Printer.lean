/-
  TenantSync.Json.Printer
  ───────────────────────
  **FROM VALUES TO JSON TEXT.**

  `compact` writes no white space; `pretty` puts every entry and item on a line
  of its own, indented by two for each level, and keeps empty collections
  together.  Only quotes, backslashes and control characters are escaped.
-/
import TenantSync.Value

namespace TenantSync.Json

/-- How floating numbers are written. -/
def floatLayout : Binary64.Layout := ⟨15, -5, "+", ".0", .toEven⟩

/-- A character inside quotes. -/
def quotedChar (c : Char) : List Char :=
  match c with
  | '"' => ['\\', '"']
  | '\\' => ['\\', '\\']
  | '\x08' => ['\\', 'b']
  | '\x0c' => ['\\', 'f']
  | '\n' => ['\\', 'n']
  | '\r' => ['\\', 'r']
  | '\t' => ['\\', 't']
  | c =>
      if c.toNat < 0x20 then
        let digits := Nat.toDigits 16 c.toNat
        '\\' :: 'u' :: List.replicate (4 - digits.length) '0' ++ digits
      else [c]

/-- A text in quotes. -/
def quoted (s : String) : String :=
  "\"" ++ String.ofList (s.toList.flatMap quotedChar) ++ "\""

/-- The text of a number. -/
def number (n : Number) : String := n.format floatLayout

mutual

/-- The text of a value without white space. -/
def compact : Value → String
  | .null => "null"
  | .bool b => if b then "true" else "false"
  | .num n => number n
  | .str s => quoted s
  | .arr items => "[" ++ compactItems items ++ "]"
  | .obj entries => "\x7b" ++ compactEntries entries ++ "\x7d"

/-- The items of a list, commas between them. -/
def compactItems : List Value → String
  | [] => ""
  | [v] => compact v
  | v :: rest => compact v ++ "," ++ compactItems rest

/-- The entries of an object, commas between them. -/
def compactEntries : List (String × Value) → String
  | [] => ""
  | [(k, v)] => quoted k ++ ":" ++ compact v
  | (k, v) :: rest => quoted k ++ ":" ++ compact v ++ "," ++ compactEntries rest

end

/-- The start of a line at a level. -/
def newline (level : Nat) : String := String.ofList ('\n' :: List.replicate (2 * level) ' ')

mutual

/-- The text of a value over several lines. -/
def prettyAt (level : Nat) : Value → String
  | .null => "null"
  | .bool b => if b then "true" else "false"
  | .num n => number n
  | .str s => quoted s
  | .arr [] => "[]"
  | .obj [] => "\x7b\x7d"
  | .arr items => "[" ++ prettyItems (level + 1) items ++ newline level ++ "]"
  | .obj entries => "\x7b" ++ prettyEntries (level + 1) entries ++ newline level ++ "\x7d"

/-- The items of a list, each on its line. -/
def prettyItems (level : Nat) : List Value → String
  | [] => ""
  | [v] => newline level ++ prettyAt level v
  | v :: rest => newline level ++ prettyAt level v ++ "," ++ prettyItems level rest

/-- The entries of an object, each on its line. -/
def prettyEntries (level : Nat) : List (String × Value) → String
  | [] => ""
  | [(k, v)] => newline level ++ quoted k ++ ": " ++ prettyAt level v
  | (k, v) :: rest =>
      newline level ++ quoted k ++ ": " ++ prettyAt level v ++ "," ++ prettyEntries level rest

end

/-- The text of a value over several lines, from the left margin. -/
def pretty (v : Value) : String := prettyAt 0 v

end TenantSync.Json
