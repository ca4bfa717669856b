/-
  TenantSync.Log.Directive
  ────────────────────────
  **WHAT ONE DIRECTIVE LETS THROUGH.**

  A directive gives a level, and may restrict it to a target, to a span, and to
  a field of the span:

      level
      target=level
      target[span]=level
      target[span{field=value}]=level

  A directive without a level lets everything through.  Of two directives for
  the same events the later counts, and of directives for some of the same
  events the more specific comes first.
-/
import TenantSync.Log.FieldMatch
import TenantSync.Log.Level

namespace TenantSync.Log

/-- What one directive lets through. -/
structure Directive where
  target : Option String := none
  span : Option String := none
  field : Option FieldMatch := none
  level : Level := .trace
  deriving DecidableEq

namespace Directive

/-! ## §1. Reading. -/

/-- The characters a directive may begin with, a bracket aside. -/
def isNameStart (c : Char) : Bool :=
  c == '-' || c == ':' || c == '_' || Character.isAlphanumeric c

/-- What is known of a directive at some place in it; the number says where the
part began that the place is in. -/
inductive Place where
  | start
  | first (began : Nat)
  | span (began : Nat)
  | field (began : Nat)
  | behindField
  | behindSpan
  | level (began : Nat)

/-- The text before and behind a number of octets; none when that is within a
character, or beyond the end. -/
def splitAt? : Nat → List Char → Option (List Char × List Char)
  | 0, cs => some ([], cs)
  | _ + 1, [] => none
  | n + 1, c :: rest =>
      if c.utf8Size ≤ n + 1 then
        (splitAt? (n + 1 - c.utf8Size) rest).map fun (before, behind) => (c :: before, behind)
      else none

/-- The text between two positions, counted in octets. -/
def part? (cs : List Char) (began ended : Nat) : Option (List Char) := do
  let (before, _) ← splitAt? ended cs
  let (_, part) ← splitAt? began before
  return part

/-- Take one character of a directive; `i` is its position, parts are cut out
of `cs`. -/
def step (cs : List Char) (d : Directive) (place : Place) (i : Nat) (c : Char) :
    Option (Directive × Place) :=
  match place with
  | .start =>
      if c = '[' then some (d, .span (i + 1))
      else if isNameStart c then some (d, .first i)
      else none
  | .first began =>
      if c = '=' || c = '[' then do
        let target := some (String.ofList (← part? cs began i))
        return ({ d with target }, if c = '=' then .level (i + 1) else .span (i + 1))
      else some (d, place)
  | .span began =>
      if c = ']' || c = '\x7b' then do
        let span := String.ofList (← part? cs began i)
        if c = ']' then return ({ d with span := some span }, .behindSpan)
        else
          return ({ d with span := if span.isEmpty then none else some span }, .field (i + 1))
      else some (d, place)
  | .field began =>
      if c = '\x7d' then do
        let field ← part? cs began i
        if field.isEmpty then none
        else return ({ d with field := some (← FieldMatch.ofText? field) }, .behindField)
      else some (d, place)
  | .behindField => if c = ']' then some (d, .behindSpan) else none
  | .behindSpan => if c = '=' then some (d, .level (i + 1)) else none
  | .level _ => some (d, place)

/-- Take the characters of a directive from a position on. -/
def steps (cs : List Char) (d : Directive) (place : Place) (i : Nat) :
    List Char → Option (Directive × Place)
  | [] => some (d, place)
  | c :: rest => do
      let (d, place) ← step cs d place i c
      steps cs d place (i + c.utf8Size) rest

/-- Read a directive.  White space around it is not looked at; positions are
counted without it, and yet the parts are cut out of the text with it. -/
def ofText? (cs : List Char) : Option Directive := do
  let (d, place) ← steps cs {} .start 0 (Character.trim cs)
  match place with
  | .first began =>
      let (_, word) ← splitAt? began cs
      match Level.ofWord? word with
      | some level => return { d with level }
      | none => return { d with target := some (String.ofList word) }
  | .level began =>
      let (_, word) ← splitAt? began cs
      if word.isEmpty then return d
      else return { d with level := ← Level.ofWord? word }
  | .behindSpan => return d
  | _ => none

/-! ## §2. Kinds and text. -/

/-- Whether the directive depends on the spans an event is in. -/
def isDynamic (d : Directive) : Bool := d.span.isSome || d.field.isSome

/-- Whether the directive can be decided without looking at values of spans. -/
def isStatic (d : Directive) : Bool := d.span.isNone && d.field.all fun f => f.value.isNone

/-- The directive as text. -/
def text (d : Directive) : String :=
  let field := d.field.map fun f => "\x7b" ++ f.text ++ "\x7d"
  let spans := if d.isDynamic then "[" ++ d.span.getD "" ++ field.getD "" ++ "]" else ""
  let scope := d.target.getD "" ++ spans
  if d.target.isSome || d.isDynamic then scope ++ "=" ++ d.level.name else d.level.name

/-! ## §3. Order. -/

/-- Order of parts that may be missing; what is there comes later. -/
def orderOptional {α : Type} (order : α → α → Ordering) : Option α → Option α → Ordering
  | none, none => .eq
  | none, some _ => .lt
  | some _, none => .gt
  | some a, some b => order a b

/-- Order of matches: one with a value comes later. -/
def orderFields (a b : FieldMatch) : Ordering :=
  ((compare a.value.isSome b.value.isSome).then (compare a.name b.name)).then
    (orderOptional FieldValue.order a.value b.value)

/-- How two directives are ordered by what they apply to, the more specific
first: a longer target, a span, a field. -/
def order (a b : Directive) : Ordering :=
  let size (d : Directive) : Option Nat := d.target.map String.utf8ByteSize
  let specific := ((orderOptional compare (size a) (size b)).then
    (compare a.span.isSome b.span.isSome)).then (compare a.field.isSome b.field.isSome)
  let spelling := ((orderOptional compare a.target b.target).then
    (orderOptional compare a.span b.span)).then (orderOptional orderFields a.field b.field)
  (specific.then spelling).swap

/-- Put a directive into a sorted list, in place of one for the same events. -/
def insert (d : Directive) : List Directive → List Directive
  | [] => [d]
  | e :: rest =>
      match order d e with
      | .lt => d :: e :: rest
      | .eq => d :: rest
      | .gt => e :: insert d rest

end Directive

end TenantSync.Log
