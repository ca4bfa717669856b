/-
  TenantSync.Yaml.Lexer
  ─────────────────────
  **FROM TEXT TO TOKENS.**

  The lexer keeps three things besides its cursor:

      indent, outer — the column of the block collection it is in, and those of
                      the collections around it
      flow          — how many flow collections are open
      candidates    — for each open flow collection, and for the block level,
                      the place where a key might have begun

  A candidate becomes a key when a `:` follows on the same line and within 1024
  octets; its `slot` is then replaced by `key`, with a `blockMappingStart` in
  front when the key opens a mapping.  A candidate that must be a key,
  because it stands where the entries of the current mapping stand, and does
  not become one is an error.  `tokens?` gives the words of a whole text, or
  `none` if it is not well formed.
-/
import TenantSync.Yaml.Lexeme

namespace TenantSync.Yaml

/-- A place where a key may have begun. -/
structure Candidate where
  /-- The slot put among the tokens there. -/
  slot : Nat
  /-- Whether nothing but a key may stand there. -/
  required : Bool
  index : Nat
  line : Nat
  column : Nat

/-- The state between two words. -/
structure Lexer where
  cursor : Cursor
  /-- The words so far, last first. -/
  tokens : List Token
  /-- The number of slots handed out. -/
  slots : Nat
  indent : Int
  outer : List Int
  flow : Nat
  /-- Whether a key may begin at the cursor. -/
  keyAllowed : Bool
  candidates : List (Option Candidate)

namespace Lexer

/-- The state before the first word. -/
def start (text : List Char) : Lexer :=
  ⟨Cursor.start text, [], 0, -1, [], 0, true, [none]⟩

/-- Add a word. -/
def emit (s : Lexer) (t : Token) : Lexer := { s with tokens := t :: s.tokens }

/-- Add a word of `n` characters that says nothing but its kind. -/
def emitMark (s : Lexer) (t : Token) (n : Nat) : Lexer :=
  { s with tokens := t :: s.tokens, cursor := s.cursor.advance n }

/-! ## §1. Indentation. -/

/-- Open a block collection at `column` if that is to the right of the current
one; `opened` tells whether it was. -/
def openBlock (s : Lexer) (column : Nat) : Lexer × Bool :=
  if s.flow = 0 && s.indent < column then
    ({ s with indent := column, outer := s.indent :: s.outer }, true)
  else (s, false)

/-- Open a block collection at the cursor, with its start word. -/
def openBlockHere (s : Lexer) (t : Token) : Lexer :=
  let (s, opened) := s.openBlock s.cursor.column
  if opened then s.emit t else s

/-- The `blockEnd`s due at a column, and the indentation left over. -/
def closings (column : Int) : Int → List Int → List Token → Int × List Int × List Token
  | indent, [], acc => (indent, [], acc)
  | indent, o :: outer, acc =>
      if column < indent then closings column o outer (.blockEnd :: acc)
      else (indent, o :: outer, acc)

/-- Close the block collections to the right of a column. -/
def closeBlocks (s : Lexer) (column : Int) : Lexer :=
  if s.flow = 0 then
    let (indent, outer, tokens) := closings column s.indent s.outer s.tokens
    { s with indent, outer, tokens }
  else s

/-! ## §2. Candidates for keys. -/

/-- Drop the candidate of the current level; `none` if it had to be a key. -/
def dropCandidate (s : Lexer) : Option Lexer :=
  match s.candidates with
  | some k :: rest => if k.required then none else some { s with candidates := none :: rest }
  | _ => some s

/-- Note that a key may begin at the cursor. -/
def noteCandidate (s : Lexer) : Option Lexer :=
  if s.keyAllowed then do
    let s ← s.dropCandidate
    let c := s.cursor
    let required := s.flow = 0 && s.indent = c.column
    let k : Candidate := ⟨s.slots, required, c.index, c.line, c.column⟩
    return { s with
      tokens := .slot s.slots :: s.tokens
      slots := s.slots + 1
      candidates := some k :: s.candidates.tail }
  else some s

/-- Drop the candidates that are on an earlier line or too far back. -/
def dropStale (s : Lexer) : Option Lexer := do
  let candidates ← s.candidates.mapM fun
    | some k =>
        if k.line < s.cursor.line || k.index + 1024 < s.cursor.index then
          if k.required then none else some none
        else some (some k)
    | none => some none
  return { s with candidates }

/-- Replace a slot by words, given last first. -/
def fillSlot (slot : Nat) (words : List Token) : List Token → List Token
  | [] => []
  | t :: rest => if t = .slot slot then words ++ rest else t :: fillSlot slot words rest

/-! ## §3. One word. -/

/-- Past spaces, comments and line ends.  A byte order mark may start a line. -/
def skipSpace : Nat → Lexer → Lexer
  | 0, s => s
  | fuel + 1, s =>
      let c := s.cursor
      let c := if c.column = 0 && c.nextIs (· == '\ufeff') then c.advance 1 else c
      let c := c.skipWhile fun ch =>
        ch == ' ' || (ch == '\t' && (0 < s.flow || !s.keyAllowed))
      let c := if c.nextIs (· == '#') then c.skipWhile fun ch => !isBreak ch else c
      if c.nextIs isBreak then
        skipSpace fuel { s with cursor := c.skipBreak, keyAllowed := s.keyAllowed || s.flow = 0 }
      else { s with cursor := c }

/-- A word that is read by a function of `Lexeme` and may begin a key. -/
def readWord (s : Lexer) (read : Cursor → Option (Token × Cursor)) : Option Lexer := do
  let s ← s.noteCandidate
  let (t, cursor) ← read s.cursor
  return { s with tokens := t :: s.tokens, cursor, keyAllowed := false }

/-- `[` or `{`. -/
def openFlow (s : Lexer) (t : Token) : Option Lexer := do
  let s ← s.noteCandidate
  return { s.emitMark t 1 with
    flow := s.flow + 1, candidates := none :: s.candidates, keyAllowed := true }

/-- `]` or `}`. -/
def closeFlow (s : Lexer) (t : Token) : Option Lexer := do
  let s ← s.dropCandidate
  let candidates := if 0 < s.flow then s.candidates.tail else s.candidates
  return { s.emitMark t 1 with flow := s.flow - 1, candidates, keyAllowed := false }

/-- `-`. -/
def blockEntry (s : Lexer) : Option Lexer := do
  if s.flow = 0 && !s.keyAllowed then none
  let s ← (s.openBlockHere .blockSequenceStart).dropCandidate
  return { s.emitMark .blockEntry 1 with keyAllowed := true }

/-- `?`. -/
def explicitKey (s : Lexer) : Option Lexer := do
  if s.flow = 0 && !s.keyAllowed then none
  let s ← (s.openBlockHere .blockMappingStart).dropCandidate
  return { s.emitMark .key 1 with keyAllowed := s.flow = 0 }

/-- `:`, which may make a key of the current candidate. -/
def valueMark (s : Lexer) : Option Lexer :=
  match s.candidates with
  | some k :: rest =>
      let (s, opened) := s.openBlock k.column
      let words := if opened then [.key, .blockMappingStart] else [.key]
      let s := { s with
        tokens := fillSlot k.slot words s.tokens, candidates := none :: rest, keyAllowed := false }
      some (s.emitMark .value 1)
  | _ => do
      if s.flow = 0 && !s.keyAllowed then none
      let s := s.openBlockHere .blockMappingStart
      return { s.emitMark .value 1 with keyAllowed := s.flow = 0 }

/-- The mark of a document's start or end, or a directive. -/
def atLineStart (s : Lexer) (read : Cursor → Option (Token × Cursor)) : Option Lexer := do
  let s ← (s.closeBlocks (-1)).dropCandidate
  let (t, cursor) ← read s.cursor
  return { s with tokens := t :: s.tokens, cursor, keyAllowed := false }

/-- A block scalar. -/
def blockScalar (s : Lexer) (literal : Bool) : Option Lexer := do
  let s ← s.dropCandidate
  let (text, cursor) ← readBlock literal s.indent s.cursor
  let t := .scalar text (if literal then .literal else .folded)
  return { s with tokens := t :: s.tokens, cursor, keyAllowed := true }

/-- A plain scalar; behind one that ended a line a key may begin. -/
def plainScalar (s : Lexer) : Option Lexer := do
  let s ← s.noteCandidate
  let (text, broken, cursor) ← readPlain (0 < s.flow) (s.indent + 1).toNat s.cursor
  return { s with tokens := .scalar text .plain :: s.tokens, cursor, keyAllowed := broken }

/-- Whether a plain scalar can begin at the cursor. -/
def plainAhead (s : Lexer) (ch : Char) : Bool :=
  let c := s.cursor
  (!isBlank ch && !"-?:,[]\x7b\x7d#&*!|>'\"%@`".toList.contains ch)
    || (ch == '-' && !c.isAt 1 isBlank)
    || (s.flow = 0 && (ch == '?' || ch == ':') && !c.spaceAt 1)

/-- The end of the stream. -/
def finish (s : Lexer) : Option Lexer := do
  let s ← (s.closeBlocks (-1)).dropCandidate
  return s.emit .streamEnd

/-- Read the word that begins with `ch` at the cursor. -/
def word (s : Lexer) (ch : Char) : Option Lexer :=
  let c := s.cursor
  let inFlow := decide (0 < s.flow)
  if c.column = 0 && ch == '%' then s.atLineStart readDirective
  else if c.atDocumentMark then
    let t := if ch == '-' then Token.documentStart else .documentEnd
    s.atLineStart fun c => some (t, c.advance 3)
  else if ch == '[' then s.openFlow .flowSequenceStart
  else if ch == '{' then s.openFlow .flowMappingStart
  else if ch == ']' then s.closeFlow .flowSequenceEnd
  else if ch == '}' then s.closeFlow .flowMappingEnd
  else if ch == ',' then do
    let s ← s.dropCandidate
    return { s.emitMark .flowEntry 1 with keyAllowed := true }
  else if ch == '-' && c.spaceAt 1 then s.blockEntry
  else if ch == '?' && (inFlow || c.spaceAt 1) then s.explicitKey
  else if ch == ':' && (inFlow || c.spaceAt 1) then s.valueMark
  else if ch == '*' then
    s.readWord fun c => (readAnchor c).map fun (name, c) => (.alias name, c)
  else if ch == '&' then
    s.readWord fun c => (readAnchor c).map fun (name, c) => (.anchor name, c)
  else if ch == '!' then
    s.readWord fun c => (readTag inFlow c).map fun (handle, suffix, c) => (.tag handle suffix, c)
  else if ch == '|' && !inFlow then s.blockScalar true
  else if ch == '>' && !inFlow then s.blockScalar false
  else if ch == '\'' then
    s.readWord fun c => (readQuoted true c).map fun (text, c) => (.scalar text .singleQuoted, c)
  else if ch == '"' then
    s.readWord fun c => (readQuoted false c).map fun (text, c) => (.scalar text .doubleQuoted, c)
  else if s.plainAhead ch then s.plainScalar
  else none

/-- Read words to the end of the text. -/
def run : Nat → Lexer → Option Lexer
  | 0, _ => none
  | fuel + 1, s => do
      let s := skipSpace (s.cursor.rest.length + 1) s
      let s ← s.dropStale
      let s := s.closeBlocks s.cursor.column
      match s.cursor.peek? with
      | none => s.finish
      | some ch => run fuel (← s.word ch)

end Lexer

/-- The words of a text, if it is well formed. -/
def tokens? (text : List Char) : Option (List Token) :=
  if text.all isStreamChar then do
    let s ← Lexer.run (text.length + 1) (Lexer.start text)
    return s.tokens.reverse.filter fun
      | .slot _ => false
      | _ => true
  else none

end TenantSync.Yaml
