/-
  TenantSync.Log.Pattern
  ──────────────────────
  **PATTERNS FOR THE VALUES OF FIELDS.**

  A pattern is a regular expression.  It is written down as it came; what has to
  be known of it here is whether a matcher can be built, and a filter with a
  pattern that has none is no filter.  Three things are asked of a pattern:

      reading   — it is well formed, and its groups have names of their own
      depth     — its parts are nested at most 250 deep
      matcher   — every part can be decided octet by octet without tables of
                  Unicode: in Unicode mode that rules out shorthands, word
                  boundaries and letters without case, outside of it whatever
                  could match a piece of a character

  The tree keeps of each part what these questions need.  Patterns stand inside
  braces, so that no closing brace occurs in them and no counted repetition can
  be written.
-/
import TenantSync.Character.Alphanumeric
import TenantSync.Character.Space
import TenantSync.Number.Numeral

namespace TenantSync.Log

/-! ## §1. Modes. -/

/-- What can be switched on and off inside a pattern. -/
inductive Mode where
  | caseless
  | multiline
  | dotMatchesAll
  | lazyFirst
  | unicode
  | anyLineEnd
  | spaced
  deriving DecidableEq, Repr

namespace Mode

/-- The mode of a letter. -/
def ofChar? : Char → Option Mode
  | 'i' => some .caseless
  | 'm' => some .multiline
  | 's' => some .dotMatchesAll
  | 'U' => some .lazyFirst
  | 'u' => some .unicode
  | 'R' => some .anyLineEnd
  | 'x' => some .spaced
  | _ => none

/-- What some modes become. -/
abbrev Change := List (Mode × Bool)

/-- What a mode is after a change. -/
def after (change : Change) (mode : Mode) (before : Bool) : Bool :=
  ((change.find? fun c => c.1 = mode).map Prod.snd).getD before

end Mode

/-! ## §2. Trees. -/

namespace Pattern

/-- A character that stands for itself; `octet` tells whether it was written as
the number of an octet. -/
structure Literal where
  char : Char
  octet : Bool := false
  deriving DecidableEq, Repr

/-- A set of characters, as written between brackets. -/
inductive CharSet where
  | literal (l : Literal)
  | range (first last : Literal)
  /-- A class with a name. -/
  | named (negated : Bool)
  /-- A class of one letter: digits, white space, word characters. -/
  | shorthand (negated : Bool)
  | union (items : List CharSet)
  /-- The intersection or a difference of two sets. -/
  | combined (left right : CharSet)
  | bracketed (negated : Bool) (set : CharSet)

end Pattern

/-- A regular expression. -/
inductive Pattern where
  | literal (l : Pattern.Literal)
  | anyChar
  /-- The start or the end of a line or of the text. -/
  | anchor
  /-- A place where a word starts, ends or does neither. -/
  | wordBoundary
  | shorthand (negated : Bool)
  | set (s : Pattern.CharSet)
  /-- A change of modes up to the end of the group it stands in. -/
  | switch (change : Mode.Change)
  | group (change : Mode.Change) (body : Pattern)
  | repeated (body : Pattern)
  | sequence (parts : List Pattern)
  | choice (branches : List Pattern)

namespace Pattern

/-! ## §3. Reading. -/

/-- Past white space and comments; a comment runs to the end of its line. -/
def pastSpace (inComment : Bool) : List Char → List Char
  | [] => []
  | c :: rest =>
      if inComment then pastSpace (c != '\n') rest
      else if Character.isSpace c then pastSpace false rest
      else if c = '#' then pastSpace true rest
      else c :: rest

/-- Past what a mode says is not part of the pattern. -/
def skip (spaced : Bool) (cs : List Char) : List Char := if spaced then pastSpace false cs else cs

/-- A number of hexadecimal digits. -/
def hexDigits (spaced : Bool) (value : Nat) : Nat → List Char → Option (Nat × List Char)
  | 0, cs => some (value, cs)
  | width + 1, cs =>
      match skip spaced cs with
      | [] => none
      | c :: rest => do hexDigits spaced (16 * value + (← Numeral.digit? 16 c)) width rest

/-- A character given by its number in `width` hexadecimal digits. -/
def numbered (spaced : Bool) (width : Nat) (cs : List Char) : Option (Pattern × List Char) := do
  let (value, rest) ← hexDigits spaced 0 width cs
  if value < 0xD800 || (0xDFFF < value && value < 0x110000) then
    return (.literal ⟨.ofNat value, width = 2⟩, rest)
  else none

/-- The character of an escape for a control. -/
def control? : Char → Option Char
  | 'a' => some '\x07'
  | 'f' => some '\x0c'
  | 'n' => some '\n'
  | 'r' => some '\r'
  | 't' => some '\t'
  | 'v' => some '\x0b'
  | _ => none

/-- What stands behind a backslash.  Properties of characters need tables, and
references to groups no matcher allows. -/
def escape (spaced : Bool) : List Char → Option (Pattern × List Char)
  | [] => none
  | c :: rest =>
      if c = 'x' then numbered spaced 2 rest
      else if c = 'u' then numbered spaced 4 rest
      else if c = 'U' then numbered spaced 8 rest
      else if ['d', 's', 'w'].contains c then some (.shorthand false, rest)
      else if ['D', 'S', 'W'].contains c then some (.shorthand true, rest)
      else if ['A', 'z'].contains c then some (.anchor, rest)
      else if ['b', 'B', '<', '>'].contains c then some (.wordBoundary, rest)
      else if c.toNat < 128 && !c.isAlphanum then some (.literal ⟨c, false⟩, rest)
      else (control? c).map fun c => (.literal ⟨c, false⟩, rest)

/-- The names of classes. -/
def classNames : List String :=
  ["alnum", "alpha", "ascii", "blank", "cntrl", "digit", "graph", "lower", "print", "punct",
    "space", "upper", "word", "xdigit"]

/-- A class with a name, behind its opening bracket. -/
def namedClass : List Char → Option (CharSet × List Char)
  | ':' :: rest =>
      let negated := rest.head? == some '^'
      let rest := if negated then rest.drop 1 else rest
      let name := String.ofList (rest.takeWhile (· != ':'))
      match rest.dropWhile (· != ':') with
      | ':' :: ']' :: rest => if classNames.contains name then some (.named negated, rest) else none
      | _ => none
  | _ => none

/-- One member of a set, as a tree of its own. -/
def member (spaced : Bool) : List Char → Option (CharSet × List Char)
  | [] => none
  | '\\' :: rest =>
      match escape spaced rest with
      | some (.literal l, rest) => some (.literal l, rest)
      | some (.shorthand negated, rest) => some (.shorthand negated, rest)
      | _ => none
  | c :: rest => some (.literal ⟨c, false⟩, rest)

/-- The character that tells whether a hyphen makes a range.  White space is
passed over and the mark of a comment, but not the comment. -/
def behindHyphen (spaced : Bool) (cs : List Char) : Option Char :=
  if spaced then
    match cs.dropWhile Character.isSpace with
    | '#' :: rest => (rest.dropWhile Character.isSpace).head?
    | rest => rest.head?
  else cs.head?

/-- One member of a set, or a range between two literals. -/
def memberOrRange (spaced : Bool) (cs : List Char) : Option (CharSet × List Char) := do
  let (first, rest) ← member spaced cs
  match skip spaced rest with
  | [] => none
  | '-' :: rest =>
      let next := behindHyphen spaced rest
      if next = some ']' || next = some '-' then return (first, '-' :: rest)
      else
        let (last, rest) ← member spaced (skip spaced rest)
        match first, last with
        | .literal a, .literal b =>
            if a.char.toNat ≤ b.char.toNat then some (.range a b, rest) else none
        | _, _ => none
  | rest => return (first, rest)

/-- The set of the members read so far, the last one first. -/
def unionOf : List CharSet → CharSet
  | [item] => item
  | items => .union items.reverse

/-- The set of the members read since the last operator, with what was read
before that. -/
def combine (left : Option CharSet) (items : List CharSet) : CharSet :=
  match left with
  | some before => .combined before (unionOf items)
  | none => unionOf items

/-- The members of a set up to its closing bracket.  At its start hyphens stand
for themselves, and so does a closing bracket as the very first member. -/
def members : Nat → Bool → Bool → Option CharSet → List CharSet → List Char →
    Option (CharSet × List Char)
  | 0, _, _, _, _, _ => none
  | fuel + 1, spaced, atStart, left, items, cs =>
      let more := members fuel spaced false left
      match skip spaced cs with
      | [] => none
      | '[' :: rest =>
          match namedClass rest with
          | some (item, rest) => more (item :: items) rest
          | none => do
              let rest := skip spaced rest
              let negated := rest.head? == some '^'
              let (inner, rest) ← members fuel spaced true none [] (rest.drop negated.toNat)
              more (.bracketed negated inner :: items) rest
      | c :: rest =>
          if atStart && (c = '-' || (c = ']' && items.isEmpty)) then
            members fuel spaced (c = '-') left (.literal ⟨c, false⟩ :: items) rest
          else if c = ']' then some (combine left items, rest)
          else if ['&', '-', '~'].contains c && rest.head? = some c then
            members fuel spaced false (some (combine left items)) [] (rest.drop 1)
          else do
            let (item, rest) ← memberOrRange spaced (c :: rest)
            more (item :: items) rest

/-- What reading carries along: whether white space is skipped, and the names
of the groups. -/
structure Reading where
  spaced : Bool := false
  names : List String := []

/-- The name of a group, up to the angle that ends it. -/
def groupName? (cs : List Char) : Option (String × List Char) :=
  let name := cs.takeWhile (· != '>')
  let inner (c : Char) : Bool := ['_', '.', '[', ']'].contains c || Character.isAlphanumeric c
  match name, cs.dropWhile (· != '>') with
  | first :: others, _ :: rest =>
      if (first = '_' || Character.isAlphabetic first) && others.all inner then
        some (String.ofList name, rest)
      else none
  | _, _ => none

/-- The modes of a group or a switch, and what stands behind the colon of the
one or the closing parenthesis of the other.  Every mode is named at most once,
and the minus before those that are switched off has one behind it. -/
def modeChange (read : Mode.Change) (off dangling : Bool) :
    List Char → Option (Mode.Change × Char × List Char)
  | [] => none
  | c :: rest =>
      if c = ':' || c = ')' then if dangling then none else some (read, c, rest)
      else if c = '-' then if off then none else modeChange read true true rest
      else do
        let mode ← Mode.ofChar? c
        if read.any fun r => r.1 = mode then none
        else modeChange (read ++ [(mode, !off)]) off false rest

/-- What a parenthesis opens. -/
inductive Opening where
  | switch (change : Mode.Change)
  | group (change : Mode.Change) (name : Option String)

/-- What stands behind an opening parenthesis.  Looking ahead and behind is
beyond a matcher. -/
def opening? (spaced : Bool) (cs : List Char) : Option (Opening × List Char) :=
  let named (rest : List Char) : Option (Opening × List Char) :=
    (groupName? rest).map fun (name, rest) => (.group [] (some name), rest)
  match skip spaced cs with
  | '?' :: 'P' :: '<' :: rest => named rest
  | '?' :: '<' :: rest => if rest.head?.any ['=', '!'].contains then none else named rest
  | '?' :: rest => do
      match ← modeChange [] false false rest with
      | (modes, ':', rest) => return (.group modes none, rest)
      | (modes, _, rest) => if modes.isEmpty then none else return (.switch modes, rest)
  | rest => some (.group [] none, rest)

/-- A part that is one character or one escape. -/
def single? (spaced : Bool) (cs : List Char) : Option (Pattern × List Char) :=
  match cs with
  | [] => none
  | '\\' :: rest => escape spaced rest
  | c :: rest =>
      if c = '\x7b' then none
      else if c = '.' then some (.anyChar, rest)
      else if c = '^' || c = '$' then some (.anchor, rest)
      else some (.literal ⟨c, false⟩, rest)

/-- Whether an operator of repetition may follow a part. -/
def isRepeatable : Pattern → Bool
  | .switch _ => false
  | _ => true

/-- The sequence of the parts read so far, the last one first. -/
def sequenceOf : List Pattern → Pattern
  | [part] => part
  | parts => .sequence parts.reverse

/-- The choice between the branches read so far, the last one first. -/
def choiceOf : List Pattern → Pattern
  | [branch] => branch
  | branches => .choice branches.reverse

/-- A pattern up to the parenthesis that closes its group, or up to the end.
`branches` and `parts` are what has been read of it. -/
def body : Nat → Reading → List Pattern → List Pattern → List Char →
    Option (Pattern × Reading × List Char)
  | 0, _, _, _, _ => none
  | fuel + 1, r, branches, parts, cs =>
      let finished := choiceOf (sequenceOf parts :: branches)
      match skip r.spaced cs with
      | [] => some (finished, r, [])
      | ')' :: rest => some (finished, r, ')' :: rest)
      | '|' :: rest => body fuel r (sequenceOf parts :: branches) [] rest
      | '(' :: rest => do
          match ← opening? r.spaced rest with
          | (.switch modes, rest) =>
              let r := { r with spaced := Mode.after modes .spaced r.spaced }
              body fuel r branches (.switch modes :: parts) rest
          | (.group modes name, rest) =>
              if name.any r.names.contains then none
              else
                let inner : Reading :=
                  ⟨Mode.after modes .spaced r.spaced, name.toList ++ r.names⟩
                let (inside, inner, rest) ← body fuel inner [] [] rest
                if rest.isEmpty then none
                else
                  let r := { r with names := inner.names }
                  body fuel r branches (.group modes inside :: parts) (rest.drop 1)
      | '[' :: rest => do
          let rest := skip r.spaced rest
          let negated := rest.head? == some '^'
          let (inside, rest) ← members rest.length r.spaced true none [] (rest.drop negated.toNat)
          body fuel r branches (.set (.bracketed negated inside) :: parts) rest
      | c :: rest =>
          if ['?', '*', '+'].contains c then
            match parts with
            | [] => none
            | part :: parts =>
                let rest := if rest.head? = some '?' then rest.drop 1 else rest
                if isRepeatable part then body fuel r branches (.repeated part :: parts) rest
                else none
          else do
            let (part, rest) ← single? r.spaced (c :: rest)
            body fuel r branches (part :: parts) rest

/-- Read a pattern. -/
def ofText? (cs : List Char) : Option Pattern := do
  let (pattern, _, rest) ← body (cs.length + 1) {} [] [] cs
  if rest.isEmpty then some pattern else none

/-! ## §4. Depth. -/

mutual

/-- How deep the parts of a set are nested. -/
def CharSet.depth : CharSet → Nat
  | .literal _ | .range _ _ | .named _ | .shorthand _ => 0
  | .union [] => 0
  | .union items => 1 + CharSet.depthOfItems items
  | .combined left right => 1 + max left.depth right.depth
  | .bracketed _ inner => 1 + inner.depth

/-- How deep the deepest of some sets is nested. -/
def CharSet.depthOfItems : List CharSet → Nat
  | [] => 0
  | item :: items => max item.depth (CharSet.depthOfItems items)

end

mutual

/-- How deep the parts of a pattern are nested. -/
def depth : Pattern → Nat
  | .literal _ | .anyChar | .anchor | .wordBoundary | .shorthand _ | .switch _ => 0
  | .set s => s.depth
  | .group _ inside => 1 + depth inside
  | .repeated inside => 1 + depth inside
  | .sequence [] => 0
  | .sequence parts => 1 + depthOfParts parts
  | .choice branches => 1 + depthOfParts branches

/-- How deep the deepest of some patterns is nested. -/
def depthOfParts : List Pattern → Nat
  | [] => 0
  | part :: parts => max (depth part) (depthOfParts parts)

end

/-- How deep patterns may be nested. -/
def depthLimit : Nat := 250

/-! ## §5. Matchers. -/

/-- The modes that decide whether a part can be matched. -/
structure Modes where
  caseless : Bool := false
  unicode : Bool := true
  deriving DecidableEq, Repr

/-- The modes after a change. -/
def Modes.after (m : Modes) (change : Mode.Change) : Modes :=
  ⟨Mode.after change .caseless m.caseless, Mode.after change .unicode m.unicode⟩

/-- Whether a literal can be matched: letters without case need a table in
Unicode mode, and outside of it an octet of its own must be ASCII. -/
def Literal.isMatchable (m : Modes) (l : Literal) : Bool :=
  if m.unicode then !m.caseless else !l.octet || l.char.toNat < 128

/-- Whether a class of one letter can be matched: in Unicode mode it needs a
table, and outside of it its complement matches pieces of characters. -/
def isMatchableShorthand (m : Modes) (negated : Bool) : Bool := !m.unicode && !negated

namespace CharSet

/-- Whether a literal can be a member of a set. -/
def isMatchableLiteral (m : Modes) (l : Literal) : Bool :=
  if m.unicode then !m.caseless else l.char.toNat < 128

mutual

/-- Whether a set can be matched; outside of Unicode mode a complement holds
pieces of characters. -/
def isMatchable (m : Modes) : CharSet → Bool
  | .literal l => isMatchableLiteral m l
  | .range first last => isMatchableLiteral m first && isMatchableLiteral m last
  | .named negated => if m.unicode then !m.caseless else !negated
  | .shorthand negated => isMatchableShorthand m negated
  | .union items => areMatchable m items
  | .combined left right => isMatchable m left && isMatchable m right
  | .bracketed negated inner => (m.unicode || !negated) && isMatchable m inner

/-- Whether all of some sets can be matched. -/
def areMatchable (m : Modes) : List CharSet → Bool
  | [] => true
  | item :: items => isMatchable m item && areMatchable m items

end

end CharSet

mutual

/-- The modes behind a pattern, if it can be matched. -/
def modesBehind (m : Modes) : Pattern → Option Modes
  | .literal l => if l.isMatchable m then some m else none
  | .anyChar => if m.unicode then some m else none
  | .anchor => some m
  | .wordBoundary => if m.unicode then none else some m
  | .shorthand negated => if isMatchableShorthand m negated then some m else none
  | .set s => if s.isMatchable m then some m else none
  | .switch change => some (m.after change)
  | .group change inside => (modesBehind (m.after change) inside).map fun _ => m
  | .repeated inside => modesBehind m inside
  | .sequence parts => modesBehindAll m parts
  | .choice branches => modesBehindAll m branches

/-- The modes behind patterns that follow each other, if all can be matched. -/
def modesBehindAll (m : Modes) : List Pattern → Option Modes
  | [] => some m
  | part :: parts => (modesBehind m part).bind fun m => modesBehindAll m parts

end

/-- Whether a text is a pattern that a matcher can be built for. -/
def isMatchable (cs : List Char) : Bool :=
  (ofText? cs).any fun p => p.depth ≤ depthLimit && (modesBehind {} p).isSome

end Pattern

end TenantSync.Log
