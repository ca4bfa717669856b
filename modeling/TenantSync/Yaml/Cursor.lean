/-
  TenantSync.Yaml.Cursor
  ──────────────────────
  **WHERE A READER OF YAML TEXT STANDS.**

  YAML decides by position as much as by character: a line's indentation, the
  column of a key, the distance since a key began.  A `Cursor` is the rest of
  the text together with how far it is from the start of the text, which line
  it is on and at which column.  Distance is counted in octets of UTF-8, columns
  in characters.  Five characters end a line, CR LF counting once; a break is
  read as a line feed unless it is one of the two Unicode separators, which
  stand for themselves.
-/
namespace TenantSync.Yaml

/-! ## §1. Character classes. -/

/-- Whether a character may occur in a YAML stream at all. -/
def isStreamChar (c : Char) : Bool :=
  let n := c.toNat
  n == 0x09 || n == 0x0A || n == 0x0D || (0x20 ≤ n && n ≤ 0x7E) || n == 0x85
    || (0xA0 ≤ n && n ≤ 0xD7FF) || (0xE000 ≤ n && n ≤ 0xFFFD) || 0x10000 ≤ n

/-- Whether a character is written as it is rather than by an escape. -/
def isPrintable (c : Char) : Bool :=
  let n := c.toNat
  n == 0x0A || (0x20 ≤ n && n ≤ 0x7E) || (0xA0 ≤ n && n ≤ 0xD7FF)
    || (0xE000 ≤ n && n ≤ 0xFFFD && n != 0xFEFF) || 0x10000 ≤ n

/-- The characters that end a line. -/
def isBreak (c : Char) : Bool :=
  c == '\n' || c == '\r' || c == '\u0085' || c == '\u2028' || c == '\u2029'

/-- Space and tab. -/
def isBlank (c : Char) : Bool := c == ' ' || c == '\t'

/-- The characters of anchors, tag handles and directive names. -/
def isWord (c : Char) : Bool := c.isAlphanum || c == '_' || c == '-'

/-- The value of a hexadecimal digit. -/
def hexDigit? (c : Char) : Option Nat :=
  if c.isDigit then some (c.toNat - '0'.toNat)
  else if 'a' ≤ c && c ≤ 'f' then some (c.toNat - 'a'.toNat + 10)
  else if 'A' ≤ c && c ≤ 'F' then some (c.toNat - 'A'.toNat + 10)
  else none

/-! ## §2. The cursor. -/

/-- How many octets characters occupy in UTF-8. -/
def octetCount (cs : List Char) : Nat := cs.foldl (fun n c => n + c.utf8Size) 0

/-- A position in a text. -/
structure Cursor where
  /-- What has not been read yet. -/
  rest : List Char
  /-- How many octets have been read. -/
  index : Nat
  /-- How many lines have been ended. -/
  line : Nat
  /-- How many characters of the current line have been read. -/
  column : Nat

namespace Cursor

/-- The start of a text. -/
def start (text : List Char) : Cursor := ⟨text, 0, 0, 0⟩

/-- The next character. -/
def peek? (c : Cursor) : Option Char := c.rest.head?

/-- The character after `n` others. -/
def peekAt? (c : Cursor) (n : Nat) : Option Char := c.rest[n]?

/-- Whether the next character satisfies `p`. -/
def nextIs (c : Cursor) (p : Char → Bool) : Bool := c.peek?.any p

/-- Whether the character after `n` others satisfies `p`. -/
def isAt (c : Cursor) (n : Nat) (p : Char → Bool) : Bool := (c.peekAt? n).any p

/-- Whether a blank, a break or the end of the text comes after `n` characters. -/
def spaceAt (c : Cursor) (n : Nat) : Bool :=
  (c.peekAt? n).all fun ch => isBlank ch || isBreak ch

/-- Whether a break or the end of the text comes next. -/
def atLineEnd (c : Cursor) : Bool := c.peek?.all isBreak

/-- Past `n` characters of the current line. -/
def advance (c : Cursor) (n : Nat) : Cursor :=
  ⟨c.rest.drop n, c.index + octetCount (c.rest.take n), c.line, c.column + n⟩

/-- Past the characters of the current line that satisfy `p`. -/
def skipWhile (c : Cursor) (p : Char → Bool) : Cursor :=
  c.advance (c.rest.takeWhile p).length

/-- Past a line break, and what the break is read as; nothing happens elsewhere. -/
def takeBreak (c : Cursor) : List Char × Cursor :=
  match c.rest with
  | '\r' :: '\n' :: rest => (['\n'], ⟨rest, c.index + 2, c.line + 1, 0⟩)
  | ch :: rest =>
      if isBreak ch then
        let read := if ch == '\u2028' || ch == '\u2029' then ch else '\n'
        ([read], ⟨rest, c.index + ch.utf8Size, c.line + 1, 0⟩)
      else ([], c)
  | [] => ([], c)

/-- Past a line break. -/
def skipBreak (c : Cursor) : Cursor := c.takeBreak.2

/-- Whether the text goes on with `---` or `...` and a space, which at the
start of a line bounds a document. -/
def atDocumentMark (c : Cursor) : Bool :=
  c.column == 0 && c.spaceAt 3
    && (c.rest.take 3 == ['-', '-', '-'] || c.rest.take 3 == ['.', '.', '.'])

/-- Past blanks and, if one follows, a comment. -/
def skipComment (c : Cursor) : Cursor :=
  let c := c.skipWhile isBlank
  if c.nextIs (· == '#') then c.skipWhile fun ch => !isBreak ch else c

end Cursor

end TenantSync.Yaml
