/-
  TenantSync.Yaml.Lexeme
  ──────────────────────
  **READING ONE WORD.**

  Each function here starts at a cursor that stands on a word of one kind and
  gives what the word says with the cursor behind it; `none` means that the
  text is not a word of that kind.

      anchor, tag, directive   — the words made of names
      quoted, plain, block     — the three ways of writing a scalar

  Scalars share one rule for the blanks between two pieces of text (`Gap`):
  blanks within a line are kept, a single line break becomes a space, and of
  several breaks all but the first are kept.
-/
import TenantSync.Yaml.Cursor
import TenantSync.Yaml.Token

namespace TenantSync.Yaml

/-! ## §1. Names. -/

/-- `&name` or `*name`, the cursor on the mark. -/
def readAnchor (c : Cursor) : Option (String × Cursor) :=
  let c := c.advance 1
  let name := c.rest.takeWhile isWord
  let c := c.advance name.length
  if name.isEmpty then none
  else if c.spaceAt 0 || c.nextIs (fun ch => "?:,]\x7d%@`".toList.contains ch) then
    some (String.ofList name, c)
  else none

/-- The octet `%XX` at the head of a text, and the text behind it. -/
def percentOctet? : List Char → Option (Nat × List Char)
  | '%' :: a :: b :: rest => do
      let high ← hexDigit? a
      let low ← hexDigit? b
      return (16 * high + low, rest)
  | _ => none

/-- A number of continuation octets of an escaped character. -/
def percentTail : Nat → List Char → Option (List UInt8 × List Char)
  | 0, cs => some ([], cs)
  | n + 1, cs => do
      let (octet, cs) ← percentOctet? cs
      if octet / 64 != 2 then none
      let (octets, cs) ← percentTail n cs
      return (.ofNat octet :: octets, cs)

/-- The octets of one character written as `%XX`.  They have the shape of UTF-8,
but need not be the shortest form of a character, nor any. -/
def percentChar? (cs : List Char) : Option (List UInt8 × List Char) := do
  let (lead, rest) ← percentOctet? cs
  let width ←
    if lead < 0x80 then some 0
    else if lead / 32 = 6 then some 1
    else if lead / 16 = 14 then some 2
    else if lead / 8 = 30 then some 3
    else none
  let (octets, rest) ← percentTail width rest
  return (.ofNat lead :: octets, rest)

/-- The characters of a tag besides letters, digits, `_` and `-`; a tag written
in angle brackets may also hold flow indicators. -/
def isTagChar (verbatim : Bool) (c : Char) : Bool :=
  isWord c || ";/?:@&=+$.!~*'()%".toList.contains c || (verbatim && ",[]".toList.contains c)

/-- The octets of the longest run of tag characters, its escapes undone; `acc`
holds those read so far, last one first. -/
def readTagChars (verbatim : Bool) : Nat → Cursor → List UInt8 → Option (List UInt8 × Cursor)
  | 0, _, _ => none
  | fuel + 1, c, acc =>
      match c.rest with
      | ch :: _ =>
          if ch == '%' then do
            let (octets, rest) ← percentChar? c.rest
            readTagChars verbatim fuel (c.advance (c.rest.length - rest.length))
              (octets.reverse ++ acc)
          else if isTagChar verbatim ch then
            readTagChars verbatim fuel (c.advance 1) (Tag.ofAscii [ch] ++ acc)
          else some (acc.reverse, c)
      | [] => some (acc.reverse, c)

/-- A run of tag characters that is not empty. -/
def readTagText (verbatim : Bool) (c : Cursor) : Option (List UInt8 × Cursor) := do
  let (text, c) ← readTagChars verbatim (c.rest.length + 1) c []
  if text.isEmpty then none else some (text, c)

/-- `!`, `!!` or `!name!`, and whether it is closed by a `!` of its own. -/
def readHandle (c : Cursor) : Option (List Char × Bool × Cursor) :=
  if c.nextIs (· == '!') then
    let name := (c.advance 1).rest.takeWhile isWord
    let c := c.advance (1 + name.length)
    if c.nextIs (· == '!') then some ('!' :: name ++ ['!'], true, c.advance 1)
    else some ('!' :: name, false, c)
  else none

/-- A tag, the cursor on its `!`: handle and suffix.  A lone `!`, or one whose
suffix ends before it begins, is the whole tag. -/
def readTag (inFlow : Bool) (c : Cursor) : Option (String × List UInt8 × Cursor) := do
  let (handle, suffix, c) ←
    if c.isAt 1 (· == '<') then do
      let (text, c) ← readTagText true (c.advance 2)
      if c.nextIs (· == '>') then some ([], text, c.advance 1) else none
    else do
      let (handle, closed, c) ← readHandle c
      if closed then
        let (text, c) ← readTagText false c
        some (handle, text, c)
      else
        let (text, c) ← readTagChars false (c.rest.length + 1) c []
        let suffix := Tag.ofAscii (handle.drop 1) ++ text
        if suffix.head?.all (· == 0) then some ([], Tag.mark, c) else some (['!'], suffix, c)
  if c.spaceAt 0 || (inFlow && c.nextIs (· == ',')) then
    some (String.ofList handle, suffix, c)
  else none

/-- A number of one to nine digits. -/
def readVersionNumber (c : Cursor) : Option (Nat × Cursor) :=
  let digits := c.rest.takeWhile Char.isDigit
  if digits.isEmpty || 9 < digits.length then none
  else some (digits.foldl (fun n d => 10 * n + (d.toNat - '0'.toNat)) 0, c.advance digits.length)

/-- A directive, the cursor on its `%`, to the end of its line. -/
def readDirective (c : Cursor) : Option (Token × Cursor) := do
  let c := c.advance 1
  let name := c.rest.takeWhile isWord
  let c := c.advance name.length
  if !c.spaceAt 0 then none
  let (token, c) ←
    if name == "YAML".toList then do
      let (major, c) ← readVersionNumber (c.skipWhile isBlank)
      if !c.nextIs (· == '.') then none
      let (minor, c) ← readVersionNumber (c.advance 1)
      some (Token.version major minor, c)
    else if name == "TAG".toList then do
      let (handle, closed, c) ← readHandle (c.skipWhile isBlank)
      if !closed && handle != ['!'] then none
      if !c.nextIs isBlank then none
      let (text, c) ← readTagText true (c.skipWhile isBlank)
      if !c.spaceAt 0 then none
      some (Token.tagHandle (String.ofList handle) text, c)
    else none
  let c := c.skipComment
  if c.atLineEnd then some (token, c.skipBreak) else none

/-! ## §2. Gaps inside scalars. -/

/-- Blanks and breaks between two pieces of a scalar. -/
structure Gap where
  /-- Whether a line was ended. -/
  broken : Bool
  /-- Blanks on the line where the gap began, last first. -/
  blanks : List Char
  /-- The first break. -/
  first : List Char
  /-- The later breaks, last first. -/
  later : List Char

namespace Gap

/-- No blanks at all; `broken` when a break was just escaped away. -/
def none (broken : Bool) : Gap := ⟨broken, [], [], []⟩

/-- What stands in the scalar for the gap. -/
def text (g : Gap) : List Char :=
  if !g.broken then g.blanks.reverse
  else if g.first == ['\n'] then if g.later.isEmpty then [' '] else g.later.reverse
  else g.first ++ g.later.reverse

/-- Read blanks and breaks.  Once a line was ended, a tab to the left of
`indent` is an error. -/
def read (indent : Nat) : Nat → Cursor → Gap → Option (Gap × Cursor)
  | 0, _, _ => Option.none
  | fuel + 1, c, g =>
      match c.peek? with
      | some ch =>
          if isBlank ch then
            if g.broken then
              if ch == '\t' && c.column < indent then Option.none
              else read indent fuel (c.advance 1) g
            else read indent fuel (c.advance 1) { g with blanks := ch :: g.blanks }
          else if isBreak ch then
            let (br, c) := c.takeBreak
            if g.broken then read indent fuel c { g with later := br ++ g.later }
            else read indent fuel c { g with broken := true, blanks := [], first := br }
          else some (g, c)
      | Option.none => some (g, c)

end Gap

/-! ## §3. Quoted scalars. -/

/-- `n` hexadecimal digits as a number. -/
def readHex (n : Nat) (cs : List Char) : Option Nat :=
  if cs.length < n then none
  else (cs.take n).foldlM (fun acc ch => (hexDigit? ch).map (16 * acc + ·)) 0

/-- The character an escape stands for, and the length of the escape. -/
def readEscape (c : Cursor) : Option (Char × Nat) := do
  let simple (ch : Char) : Option (Char × Nat) := some (ch, 2)
  let coded (n : Nat) : Option (Char × Nat) := do
    let code ← readHex n (c.rest.drop 2)
    if (0xD800 ≤ code && code ≤ 0xDFFF) || 0x10FFFF < code then none
    else some (Char.ofNat code, 2 + n)
  match ← c.peekAt? 1 with
  | '0' => simple '\x00'
  | 'a' => simple '\x07'
  | 'b' => simple '\x08'
  | 't' | '\t' => simple '\t'
  | 'n' => simple '\n'
  | 'v' => simple '\x0b'
  | 'f' => simple '\x0c'
  | 'r' => simple '\r'
  | 'e' => simple '\x1b'
  | ' ' => simple ' '
  | '"' => simple '"'
  | '/' => simple '/'
  | '\\' => simple '\\'
  | 'N' => simple '\u0085'
  | '_' => simple '\u00a0'
  | 'L' => simple '\u2028'
  | 'P' => simple '\u2029'
  | 'x' => coded 2
  | 'u' => coded 4
  | 'U' => coded 8
  | _ => none

/-- Characters up to a blank, a break, the closing quote or an escaped break;
`acc` holds the text so far, last character first.  The flag tells an escaped
break. -/
def readQuotedRun (single : Bool) : Nat → Cursor → List Char → Option (List Char × Bool × Cursor)
  | 0, _, _ => none
  | fuel + 1, c, acc =>
      match c.rest with
      | [] => some (acc, false, c)
      | ch :: _ =>
          if isBlank ch || isBreak ch then some (acc, false, c)
          else if single && ch == '\'' && c.isAt 1 (· == '\'') then
            readQuotedRun single fuel (c.advance 2) ('\'' :: acc)
          else if ch == (if single then '\'' else '"') then some (acc, false, c)
          else if !single && ch == '\\' && c.isAt 1 isBreak then
            some (acc, true, (c.advance 1).skipBreak)
          else if !single && ch == '\\' then do
            let (decoded, width) ← readEscape c
            readQuotedRun single fuel (c.advance width) (decoded :: acc)
          else readQuotedRun single fuel (c.advance 1) (ch :: acc)

/-- The inside of a quoted scalar and its closing quote. -/
def readQuotedBody (single : Bool) : Nat → Cursor → List Char → Option (List Char × Cursor)
  | 0, _, _ => none
  | fuel + 1, c, acc =>
      if c.atDocumentMark || c.rest.isEmpty then none
      else do
        let (acc, escaped, c) ← readQuotedRun single (c.rest.length + 1) c acc
        if c.nextIs (· == (if single then '\'' else '"')) then
          return (acc.reverse, c.advance 1)
        let (gap, c) ← Gap.read 0 (c.rest.length + 1) c (Gap.none escaped)
        readQuotedBody single fuel c (gap.text.reverse ++ acc)

/-- A quoted scalar, the cursor on the opening quote. -/
def readQuoted (single : Bool) (c : Cursor) : Option (String × Cursor) := do
  let c := c.advance 1
  let (text, c) ← readQuotedBody single (c.rest.length + 1) c []
  return (String.ofList text, c)

/-! ## §4. Plain scalars. -/

/-- Characters of a plain scalar up to a blank, a break or an indicator that
ends it.  Inside flow collections a `:` glued to a flow indicator is an error. -/
def plainRunLength (inFlow : Bool) : List Char → Nat → Option Nat
  | [], n => some n
  | ch :: rest, n =>
      let next := rest.head?
      if isBlank ch || isBreak ch then some n
      else if inFlow && ch == ':' && next.any (fun d => ",?[]\x7b\x7d".toList.contains d) then none
      else if ch == ':' && next.all (fun d => isBlank d || isBreak d) then some n
      else if inFlow && ",[]\x7b\x7d".toList.contains ch then some n
      else plainRunLength inFlow rest (n + 1)

/-- The pieces of a plain scalar, each joined to the text before it by the gap
between them.  The flag tells whether the scalar's last gap ended a line. -/
def readPlainBody (inFlow : Bool) (indent : Nat) :
    Nat → Cursor → Gap → List Char → Option (List Char × Bool × Cursor)
  | 0, _, _, _ => none
  | fuel + 1, c, gap, acc =>
      if c.atDocumentMark || c.nextIs (· == '#') then some (acc, gap.broken, c)
      else do
        let n ← plainRunLength inFlow c.rest 0
        let (acc, gap) :=
          if n = 0 then (acc, gap)
          else ((c.rest.take n).reverse ++ gap.text.reverse ++ acc, Gap.none false)
        let c := c.advance n
        if !c.nextIs (fun ch => isBlank ch || isBreak ch) then return (acc, gap.broken, c)
        let (gap, c) ← Gap.read indent (c.rest.length + 1) c gap
        if !inFlow && c.column < indent then return (acc, gap.broken, c)
        readPlainBody inFlow indent fuel c gap acc

/-- A plain scalar: its text, and whether a key may follow on the line reached. -/
def readPlain (inFlow : Bool) (indent : Nat) (c : Cursor) : Option (String × Bool × Cursor) := do
  let (text, broken, c) ← readPlainBody inFlow indent (c.rest.length + 1) c (Gap.none false) []
  return (String.ofList text.reverse, broken, c)

/-! ## §5. Block scalars. -/

/-- What a block scalar does with the breaks at its end. -/
inductive Chomping where
  /-- Drop them all. -/
  | strip
  /-- Keep one. -/
  | clip
  /-- Keep them all. -/
  | keep
  deriving DecidableEq

/-- The chomping mark and the indentation digit, in either order. -/
def readBlockHeader (c : Cursor) : Option (Chomping × Option Nat × Cursor) :=
  let chomping? (c : Cursor) : Option Chomping :=
    match c.peek? with
    | some '+' => some .keep
    | some '-' => some .strip
    | _ => none
  let digit? (c : Cursor) : Option Nat :=
    if c.nextIs Char.isDigit then c.peek?.map fun ch => ch.toNat - '0'.toNat else none
  match chomping? c, digit? c with
  | some ch, _ =>
      let c := c.advance 1
      match digit? c with
      | some 0 => none
      | some d => some (ch, some d, c.advance 1)
      | none => some (ch, none, c)
  | none, some 0 => none
  | none, some d =>
      let c := c.advance 1
      match chomping? c with
      | some ch => some (ch, some d, c.advance 1)
      | none => some (.clip, some d, c)
  | none, none => some (.clip, none, c)

/-- Indentation and empty lines.  With `indent` zero it is still unknown: all
spaces are taken and the widest line so far is kept in `widest`. -/
def readBlockBreaks (indent : Nat) :
    Nat → Cursor → Nat → List Char → Option (Nat × List Char × Cursor)
  | 0, _, _, _ => none
  | fuel + 1, c, widest, acc =>
      let spaces := (c.rest.takeWhile (· == ' ')).length
      let taken := if indent = 0 then spaces else min spaces (indent - c.column)
      let c := c.advance taken
      let widest := max widest c.column
      if (indent = 0 || c.column < indent) && c.nextIs (· == '\t') then none
      else if c.nextIs isBreak then
        let (br, c) := c.takeBreak
        readBlockBreaks indent fuel c widest (br ++ acc)
      else some (widest, acc, c)

/-- The lines of a block scalar.  `lead` is the break before the current line
and `breaks` the empty lines after it, last first. -/
def readBlockLines (literal : Bool) (indent : Nat) :
    Nat → Cursor → (leadingBlank : Bool) → (lead breaks acc : List Char) →
      Option (List Char × List Char × List Char × Cursor)
  | 0, _, _, _, _, _ => none
  | fuel + 1, c, leadingBlank, lead, breaks, acc =>
      if c.column != indent || c.rest.isEmpty then some (lead, breaks, acc, c)
      else do
        let blank := c.nextIs isBlank
        let join :=
          if !literal && lead == ['\n'] && !leadingBlank && !blank then
            if breaks.isEmpty then [' '] else []
          else lead
        let line := c.rest.takeWhile fun ch => !isBreak ch
        let (br, next) := (c.advance line.length).takeBreak
        let acc := line.reverse ++ (breaks ++ (join.reverse ++ acc))
        let (_, breaks, next) ← readBlockBreaks indent (next.rest.length + 1) next 0 []
        readBlockLines literal indent fuel next blank br breaks acc

/-- A block scalar, the cursor on `|` or `>`; `parent` is the indentation of
the collection around it, `-1` for none. -/
def readBlock (literal : Bool) (parent : Int) (c : Cursor) : Option (String × Cursor) := do
  let (chomping, digit, c) ← readBlockHeader (c.advance 1)
  let c := c.skipComment
  if !c.atLineEnd then none
  let c := c.skipBreak
  let given := match digit with
    | some d => if 0 ≤ parent then parent.toNat + d else d
    | none => 0
  let (widest, breaks, c) ← readBlockBreaks given (c.rest.length + 1) c 0 []
  let indent := if given = 0 then max (max widest (parent + 1).toNat) 1 else given
  let (lead, breaks, acc, c) ←
    readBlockLines literal indent (c.rest.length + 1) c false [] breaks []
  let acc := if chomping = .strip then acc else lead.reverse ++ acc
  let acc := if chomping = .keep then breaks ++ acc else acc
  return (String.ofList acc.reverse, c)

end TenantSync.Yaml
