/-
  TenantSync.Toml.Table
  ─────────────────────
  **WHAT A TOML FILE DEFINES.**

  A file is a list of statements that build up one table.  Every table may be
  defined once, and how it came about decides what may still be added to it:

      defined — by a header; no header and no dotted key may open it again
      implied — by a header for a table within it; a header may define it
      dotted  — by a dotted key; only dotted keys of the same place add to it

  A header in double brackets adds an element to a list of tables, and a header
  that passes through such a list means its last element.  Inline tables and
  arrays are closed where they are written.

  Tables keep the order in which their keys came up.  The order counts once all
  is defined: a table that begins with the key `$__toml_private_datetime` stands
  for the date or time that its text spells, and the rest of it for nothing.
-/
import TenantSync.Toml.Scalar

namespace TenantSync.Toml

/-- How a table came about. -/
inductive Origin where
  | defined
  | implied
  | dotted
  deriving DecidableEq, Repr

/-- What stands under a key. -/
inductive Item where
  /-- A flag, a number or a text. -/
  | scalar (v : Value)
  /-- A date or a time, in the one spelling of it. -/
  | moment (text : String)
  | array (items : List Item)
  /-- A table that is closed where it is written. -/
  | inline (entries : List (String × Item))
  | table (origin : Origin) (entries : List (String × Item))
  /-- A list of tables, the last one apart. -/
  | tables (before : List (List (String × Item))) (last : List (String × Item))

/-- The entries of a table. -/
abbrev Entries := List (String × Item)

namespace Entries

/-- What stands under a key. -/
def find? (key : String) (t : Entries) : Option Item := t.lookup key

/-- With another item under a key: in place of the one there, or behind all. -/
def put (key : String) (item : Item) : Entries → Entries
  | [] => [(key, item)]
  | (k, old) :: rest =>
      if k = key then (key, item) :: rest else (k, old) :: Entries.put key item rest

/-- Without a key. -/
def erase (key : String) (t : Entries) : Entries := t.filter fun e => e.1 != key

/-- Change the table at the end of a path; tables that are missing on the way
are made.  `f` gets the origin and the entries of the table. -/
def changeAt (dotted : Bool) (f : Origin → Entries → Option Entries) :
    List String → Origin → Entries → Option Entries
  | [], origin, t => f origin t
  | key :: rest, _, t => do
      match t.find? key with
      | none =>
          let origin := if dotted then Origin.dotted else .implied
          return t.put key (.table origin (← changeAt dotted f rest origin []))
      | some (.table origin inner) =>
          if dotted && origin = .defined then none
          return t.put key (.table origin (← changeAt dotted f rest origin inner))
      | some (.tables before last) =>
          return t.put key (.tables before (← changeAt dotted f rest .defined last))
      | _ => none

/-- Add an entry below a table, by a dotted key if `path` is not empty. -/
def assign (path : List String) (key : String) (item : Item) (origin : Origin) (t : Entries) :
    Option Entries :=
  changeAt true
    (fun origin t =>
      if (origin = .dotted) = path.isEmpty then none
      else if (t.find? key).isSome then none
      else some (t.put key item))
    path origin t

/-- Define the table of a header.  One that was implied so far comes up anew, and
keeps what it holds. -/
def define (path : List String) (key : String) (t : Entries) : Option Entries :=
  changeAt false
    (fun _ t =>
      match t.find? key with
      | none => some (t.put key (.table .defined []))
      | some (.table .implied inner) => some ((t.erase key).put key (.table .defined inner))
      | _ => none)
    path .defined t

/-- Add an element to the list of tables of a header. -/
def extend (path : List String) (key : String) (t : Entries) : Option Entries :=
  changeAt false
    (fun _ t =>
      match t.find? key with
      | none => some (t.put key (.tables [] []))
      | some (.tables before last) => some (t.put key (.tables (before ++ [last]) []))
      | _ => none)
    path .defined t

end Entries

/-- The key that a table begins with which stands for a date or time. -/
def momentKey : String := "$__toml_private_datetime"

/-- The date or time that a text spells from end to end. -/
def momentOf? : Item → Option Value
  | .scalar (.str s) =>
      match readMoment s.toList with
      | some (text, []) => some (.str text)
      | _ => none
  | _ => none

mutual

/-- An item as a value, unless a table in it spells no date or time and ought to. -/
def Item.toValue? : Item → Option Value
  | .scalar v => some v
  | .moment text => some (.str text)
  | .array items => do return .arr (← itemValues? items)
  | .inline entries => tableValue? entries
  | .table _ entries => tableValue? entries
  | .tables before last => do return .arr ((← tableValues? before) ++ [← tableValue? last])

/-- Items as values. -/
def itemValues? : List Item → Option (List Value)
  | [] => some []
  | item :: rest => do return (← item.toValue?) :: (← itemValues? rest)

/-- A table as a value: an object, or the text of a date or time. -/
def tableValue? : List (String × Item) → Option Value
  | [] => some (.obj [])
  | (key, item) :: rest =>
      if key = momentKey then momentOf? item
      else do return .obj ((key, ← item.toValue?) :: (← entryValues? rest))

/-- Entries as entries of an object. -/
def entryValues? : List (String × Item) → Option (List (String × Value))
  | [] => some []
  | (key, item) :: rest => do return (key, ← item.toValue?) :: (← entryValues? rest)

/-- Tables as values. -/
def tableValues? : List (List (String × Item)) → Option (List Value)
  | [] => some []
  | t :: rest => do return (← tableValue? t) :: (← tableValues? rest)

end

/-- A key taken apart at its dots: the way to a table, and a key in it. -/
structure Key where
  path : List String
  last : String
  deriving DecidableEq, Repr

/-- A statement of a file. -/
inductive Statement where
  /-- An entry of the current table. -/
  | entry (key : Key) (item : Item)
  /-- A header, which makes the table current that it defines. -/
  | header (key : Key)
  /-- A header in double brackets, whose new element becomes current. -/
  | element (key : Key)

/-- The inline table of entries, unless two of them are at odds. -/
def inline? (entries : List (Key × Item)) : Option Item := do
  let t ← entries.foldlM (fun (t : Entries) e => t.assign e.1.path e.1.last e.2 .defined) []
  return .inline t

/-- Carry out statements, given the way to the current table. -/
def build (current : List String) (t : Entries) : List Statement → Option Entries
  | [] => some t
  | .entry key item :: rest => do
      let assigned (origin : Origin) (t : Entries) := t.assign key.path key.last item origin
      let t ← t.changeAt false assigned current .defined
      build current t rest
  | .header key :: rest => do
      build (key.path ++ [key.last]) (← t.define key.path key.last) rest
  | .element key :: rest => do
      build (key.path ++ [key.last]) (← t.extend key.path key.last) rest

/-- The value that statements define. -/
def ofStatements? (statements : List Statement) : Option Value := do
  tableValue? (← build [] [] statements)

end TenantSync.Toml
