/-
  TenantSync.Yaml.Printer
  ───────────────────────
  **FROM VALUES TO YAML TEXT.**

  Mappings are indented by two, sequences inside a mapping stand at the column
  of its keys, empty collections are written in brackets, and no line is ever
  folded.  A text is written

      as a literal block   when it holds a line feed,
      in single quotes     when it would read as something else,
      plain                otherwise,

  unless its characters do not allow that (`Features`), in which case the next
  stricter form is taken, double quotes being the last.  A key that is written
  on several lines or takes more than 128 bytes is announced by `?`.

  Whether a space or a line break is due before the next mark depends on what
  was written last, so the pen keeps its column and two flags.
-/
import TenantSync.Yaml.CoreSchema

namespace TenantSync.Yaml

/-! ## §1. What the characters of a text allow. -/

/-- What the styles of a scalar depend on. -/
structure Features where
  /-- Some character ends a line. -/
  multiline : Bool
  plainAllowed : Bool
  singleAllowed : Bool
  blockAllowed : Bool
  deriving DecidableEq, Repr

/-- The notes taken while walking over a text. -/
structure Survey where
  indicator : Bool := false
  special : Bool := false
  lineBreak : Bool := false
  breakThenSpace : Bool := false
  spaceThenBreak : Bool := false
  previousSpace : Bool := false
  previousBreak : Bool := false
  previousBlank : Bool := true

namespace Survey

/-- Whether a character at the start of a text, followed by `rest`, is an
indicator there. -/
def startsIndicator (c : Char) (spaceFollows : Bool) : Bool :=
  "#,[]\x7b\x7d&*!|>'\"%@`".toList.contains c
    || ((c == '?' || c == ':' || c == '-') && spaceFollows)

/-- Note one character; `first` tells whether it begins the text. -/
def step (s : Survey) (first : Bool) (c : Char) (rest : List Char) : Survey :=
  let spaceFollows := rest.head?.all fun d => isBlank d || isBreak d
  let indicator :=
    if first then startsIndicator c spaceFollows
    else (c == ':' && spaceFollows) || (c == '#' && s.previousBlank)
  let space := c == ' '
  let br := isBreak c
  { indicator := s.indicator || indicator
    special := s.special || !isPrintable c
    lineBreak := s.lineBreak || br
    breakThenSpace := s.breakThenSpace || (space && s.previousBreak)
    spaceThenBreak := s.spaceThenBreak || (br && s.previousSpace)
    previousSpace := space
    previousBreak := br
    previousBlank := isBlank c || br }

/-- Note the rest of a text. -/
def walk : Survey → Bool → List Char → Survey
  | s, _, [] => s
  | s, first, c :: rest => walk (s.step first c rest) false rest

end Survey

/-- What the characters of a text allow. -/
def Features.of (cs : List Char) : Features :=
  let isSpaceOrBreak (c : Char) : Bool := c == ' ' || isBreak c
  let marks := cs.take 3 == ['-', '-', '-'] || cs.take 3 == ['.', '.', '.']
  let s := Survey.walk {} true cs
  let padded := cs.head?.any isSpaceOrBreak || cs.getLast?.any isSpaceOrBreak
  let barred := s.spaceThenBreak || s.special
  { multiline := s.lineBreak
    plainAllowed :=
      !(padded || s.breakThenSpace || barred || s.lineBreak || s.indicator || marks)
    singleAllowed := !(s.breakThenSpace || barred)
    blockAllowed := !(cs.isEmpty || cs.getLast? == some ' ' || barred) }

/-- The style a text is written in; `key` when it is a key on one line. -/
def styleFor (key : Bool) (text : String) : Style :=
  let cs := text.toList
  let f := Features.of cs
  let single : Style := if f.singleAllowed then .singleQuoted else .doubleQuoted
  if cs.contains '\n' then if f.blockAllowed && !key then .literal else .doubleQuoted
  else if readsAsText text && f.plainAllowed then .plain
  else single

/-! ## §2. The pen. -/

/-- What has been written, and what matters of it for what comes next. -/
structure Pen where
  /-- The text so far, last character first. -/
  written : List Char
  column : Nat
  /-- Whether a space would be superfluous. -/
  spaced : Bool
  /-- Whether nothing but indentation and marks stands on the line. -/
  indenting : Bool

namespace Pen

/-- A blank sheet. -/
def fresh : Pen := ⟨[], 0, true, true⟩

/-- Write a character of the current line. -/
def put (p : Pen) (c : Char) : Pen := { p with written := c :: p.written, column := p.column + 1 }

/-- Write a character that ends the line. -/
def putBreak (p : Pen) (c : Char) : Pen := { p with written := c :: p.written, column := 0 }

/-- Write characters of the current line. -/
def puts (p : Pen) (cs : List Char) : Pen := cs.foldl put p

/-- Go to a column of a line on which nothing but indentation stands. -/
def indentTo (p : Pen) (column : Nat) : Pen :=
  let p :=
    if !p.indenting || column < p.column || (p.column = column && !p.spaced) then p.putBreak '\n'
    else p
  let p := p.puts (List.replicate (column - p.column) ' ')
  { p with spaced := true, indenting := true }

/-- Write a mark, with a space before it if one is needed.  `mark` tells whether
the line still counts as indentation behind it. -/
def sign (p : Pen) (text : String) (needsSpace isSpace mark : Bool) : Pen :=
  let p := if needsSpace && !p.spaced then p.put ' ' else p
  let p := p.puts text.toList
  { p with spaced := isSpace, indenting := p.indenting && mark }

/-- Behind text. -/
def afterText (p : Pen) : Pen := { p with spaced := false, indenting := false }

end Pen

/-! ## §3. Scalars. -/

/-- The letter that escapes a character, if there is one. -/
def escapeLetter? (c : Char) : Option Char :=
  match c.toNat with
  | 0x00 => some '0'
  | 0x07 => some 'a'
  | 0x08 => some 'b'
  | 0x09 => some 't'
  | 0x0A => some 'n'
  | 0x0B => some 'v'
  | 0x0C => some 'f'
  | 0x0D => some 'r'
  | 0x1B => some 'e'
  | 0x22 => some '"'
  | 0x5C => some '\\'
  | 0x85 => some 'N'
  | 0xA0 => some '_'
  | 0x2028 => some 'L'
  | 0x2029 => some 'P'
  | _ => none

/-- `width` hexadecimal digits, capital. -/
def hexText (width n : Nat) : List Char :=
  let digits := (Nat.toDigits 16 n).map Char.toUpper
  List.replicate (width - digits.length) '0' ++ digits

/-- A character inside double quotes. -/
def doubleQuotedChar (c : Char) : List Char :=
  if !isPrintable c || isBreak c || c == '"' || c == '\\' then
    match escapeLetter? c with
    | some letter => ['\\', letter]
    | none =>
        let n := c.toNat
        if n ≤ 0xFF then '\\' :: 'x' :: hexText 2 n
        else if n ≤ 0xFFFF then '\\' :: 'u' :: hexText 4 n
        else '\\' :: 'U' :: hexText 8 n
  else [c]

namespace Pen

/-- A text in double quotes. -/
def doubleQuoted (p : Pen) (cs : List Char) : Pen :=
  let p := p.sign "\"" true false false
  let p := p.puts (cs.flatMap doubleQuotedChar)
  (p.sign "\"" false false false).afterText

/-- The inside of single quotes; `broken` when a line was just ended. -/
def singleQuotedBody (indent : Nat) : List Char → (broken : Bool) → Pen → Pen
  | [], broken, p => if broken then p.indentTo indent else p
  | c :: rest, broken, p =>
      if isBreak c then
        let p := if !broken && c == '\n' then p.putBreak '\n' else p
        let p := p.putBreak c
        singleQuotedBody indent rest true { p with indenting := true }
      else if c == ' ' then singleQuotedBody indent rest broken (p.put c)
      else
        let p := if broken then p.indentTo indent else p
        let p := if c == '\'' then (p.put c).put c else p.put c
        singleQuotedBody indent rest false { p with indenting := false }

/-- A text in single quotes. -/
def singleQuoted (p : Pen) (indent : Nat) (cs : List Char) : Pen :=
  let p := singleQuotedBody indent cs false (p.sign "'" true false false)
  (p.sign "'" false false false).afterText

/-- A plain text. -/
def plain (p : Pen) (cs : List Char) : Pen :=
  let p := if !p.spaced && !cs.isEmpty then p.put ' ' else p
  (p.puts cs).afterText

/-- The lines of a literal block; `broken` at the start of a line. -/
def literalBody (indent : Nat) : List Char → (broken : Bool) → Pen → Pen
  | [], _, p => p
  | c :: rest, broken, p =>
      if isBreak c then literalBody indent rest true { p.putBreak c with indenting := true }
      else
        let p := if broken then p.indentTo indent else p
        literalBody indent rest false { p.put c with indenting := false }

/-- The mark for what is done with the breaks at the end of a literal block. -/
def chompingMark (cs : List Char) : String :=
  match cs.reverse with
  | [] => "-"
  | last :: before =>
      if !isBreak last then "-"
      else
        match before with
        | [] => "+"
        | c :: _ => if isBreak c then "+" else ""

/-- A literal block. -/
def literal (p : Pen) (indent : Nat) (cs : List Char) : Pen :=
  let p := p.sign "|" true false false
  let p := if cs.head?.any (fun c => c == ' ' || isBreak c) then p.sign "2" false false false else p
  let p := p.sign (chompingMark cs) false false false
  literalBody indent cs true { p.putBreak '\n' with spaced := true, indenting := true }

/-- A text in a style; `indent` is the column for further lines. -/
def text (p : Pen) (indent : Nat) (style : Style) (cs : List Char) : Pen :=
  match style with
  | .plain => p.plain cs
  | .singleQuoted => p.singleQuoted indent cs
  | .doubleQuoted => p.doubleQuoted cs
  | .literal | .folded => p.literal indent cs

end Pen

/-! ## §4. Values. -/

/-- How floating numbers are written. -/
def floatLayout : Binary64.Layout := ⟨15, -5, "", ".0", .toEven⟩

/-- Whether a key is written on one line in front of its `:`. -/
def isShortKey (key : String) : Bool :=
  !(Features.of key.toList).multiline && key.utf8ByteSize ≤ 128

/-- The columns of the collections around a value: `none` outside of all. -/
abbrev Margin := Option Nat

/-- The column of the entries of a mapping, and of the items of a sequence that
is not the value of a key. -/
def Margin.inner : Margin → Nat
  | none => 0
  | some n => n + 2

/-- The column of the further lines of a scalar. -/
def Margin.text : Margin → Nat
  | none => 2
  | some n => n + 2

namespace Pen

mutual

/-- A value; `underKey` when it is the key or the value of an entry. -/
def value (margin : Margin) (underKey : Bool) : Value → Pen → Pen
  | .null, p => p.plain "null".toList
  | .bool b, p => p.plain (if b then "true" else "false").toList
  | .num n, p => p.plain (n.format floatLayout).toList
  | .str s, p => p.text margin.text (styleFor false s) s.toList
  | .arr [], p => (p.sign "[" true true false).sign "]" false false false
  | .obj [], p => (p.sign "\x7b" true true false).sign "\x7d" false false false
  | .arr items, p =>
      let column :=
        match margin with
        | some n => if underKey && !p.indenting then n else n + 2
        | none => 0
      sequenceItems column items p
  | .obj entries, p => mappingEntries margin.inner entries p

/-- The items of a sequence at a column. -/
def sequenceItems (column : Nat) : List Value → Pen → Pen
  | [], p => p
  | v :: rest, p =>
      let p := (p.indentTo column).sign "-" true false true
      sequenceItems column rest (value (some column) false v p)

/-- The entries of a mapping at a column. -/
def mappingEntries (column : Nat) : List (String × Value) → Pen → Pen
  | [], p => p
  | (k, v) :: rest, p =>
      let p := p.indentTo column
      let p :=
        if isShortKey k then
          (p.text (column + 2) (styleFor true k) k.toList).sign ":" false false false
        else
          let p := p.sign "?" true false true
          let p := p.text (column + 2) (styleFor false k) k.toList
          (p.indentTo column).sign ":" true false true
      mappingEntries column rest (value (some column) true v p)

end

end Pen

/-- The text of a document that holds one value. -/
def print (v : Value) : String :=
  String.ofList ((Pen.fresh.value none false v).indentTo 0).written.reverse

end TenantSync.Yaml
