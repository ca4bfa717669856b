/-
  TenantSync.Yaml.Node
  ────────────────────
  **THE NODES OF A YAML DOCUMENT.**

  A document is a tree of scalars, sequences and mappings.  An alias is a leaf
  that refers to a node by number; `Document.target?` gives the node.  Numbers
  are handed out at anchors: an anchor gets the count of distinct anchor names
  seen before it, so a name that is used a second time shares its new number
  with the next new name, and the later of the two is what both refer to.

  `Document.ofText?` reads a whole stream.  A stream without a document is the
  document without a root; a stream with a second document is refused.
-/
import TenantSync.Yaml.Lexer

namespace TenantSync.Yaml

/-! ## §1. Nodes and documents. -/

/-- A scalar as written. -/
structure Scalar where
  text : String
  style : Style
  /-- The tag in full, if one is given. -/
  tag : Option Tag
  deriving DecidableEq

/-- A node of a document. -/
inductive Node where
  | alias (id : Nat)
  | scalar (s : Scalar)
  | sequence (tag : Option Tag) (items : List Node)
  | mapping (tag : Option Tag) (entries : List (Node × Node))

instance : Inhabited Node := ⟨.alias 0⟩

mutual

/-- How many marks a node takes in the stream: one for a leaf, one for each end
of a collection. -/
def Node.weight : Node → Nat
  | .alias _ => 1
  | .scalar _ => 1
  | .sequence _ items => 2 + weightItems items
  | .mapping _ entries => 2 + weightEntries entries

/-- The weight of the items of a sequence. -/
def weightItems : List Node → Nat
  | [] => 0
  | n :: rest => n.weight + weightItems rest

/-- The weight of the entries of a mapping. -/
def weightEntries : List (Node × Node) → Nat
  | [] => 0
  | (k, v) :: rest => k.weight + v.weight + weightEntries rest

end

/-- A document: its root, and the nodes its aliases refer to. -/
structure Document where
  /-- Nothing when the stream holds no document. -/
  root : Option Node
  /-- Which anchored node a number stands for, latest first. -/
  numbers : List (Nat × Nat)
  /-- The anchored nodes by their order of appearance. -/
  anchored : List (Nat × Node)

/-- The node an alias refers to. -/
def Document.target? (d : Document) (id : Nat) : Option Node := do
  d.anchored.lookup (← d.numbers.lookup id)

/-- The number of marks in the document's stream, a lone one for no document. -/
def Document.weight (d : Document) : Nat := (d.root.map Node.weight).getD 1

/-! ## §2. Reading nodes from words. -/

namespace Node

/-- What is left to read, and what has been learned. -/
structure Reader where
  tokens : List Token
  /-- Tag handles and what they stand for. -/
  handles : List (String × List UInt8)
  /-- The number of each anchor name. -/
  names : List (String × Nat)
  numbers : List (Nat × Nat)
  anchored : List (Nat × Node)
  /-- How many anchors were seen. -/
  anchors : Nat

/-- Reading steps; `none` when the words do not form a document. -/
abbrev Read (α : Type) := StateT Reader Option α

/-- The next word. -/
def peek : Read Token := fun s =>
  match s.tokens with
  | t :: _ => some (t, s)
  | [] => none

/-- Past the next word. -/
def skip : Read Unit := fun s => some ((), { s with tokens := s.tokens.tail })

/-- Give up. -/
def refuse {α : Type} : Read α := fun _ => none

/-- Number an anchor; the result is its order of appearance. -/
def noteAnchor (name : String) : Read Nat := fun s =>
  let id := s.names.length
  let names := (name, id) :: s.names.filter (fun e => e.1 != name)
  some (s.anchors, { s with
    names, numbers := (id, s.anchors) :: s.numbers, anchors := s.anchors + 1 })

/-- Keep the node an anchor stands at. -/
def noteNode (anchor : Option Nat) (n : Node) : Read Node := fun s =>
  match anchor with
  | some a => some (n, { s with anchored := (a, n) :: s.anchored })
  | none => some (n, s)

/-- A tag in full. -/
def fullTag (handle : String) (suffix : List UInt8) : Read Tag := fun s =>
  if handle.isEmpty then some (.ofParts [] suffix, s)
  else (s.handles.lookup handle).map fun expansion => (.ofParts expansion suffix, s)

/-- The scalar that stands where nothing is written. -/
def blank (tag : Option Tag) : Node := .scalar ⟨"", .plain, tag⟩

/-- Anchor and tag, in either order, each at most once. -/
def properties : Read (Option Nat × Option Tag) := do
  match ← peek with
  | .anchor name =>
      skip
      let a ← noteAnchor name
      match ← peek with
      | .tag handle suffix => skip; return (some a, some (← fullTag handle suffix))
      | _ => return (some a, none)
  | .tag handle suffix =>
      skip
      match ← peek with
      | .anchor name =>
          skip
          let tag ← fullTag handle suffix
          return (some (← noteAnchor name), some tag)
      | _ => return (none, some (← fullTag handle suffix))
  | _ => return (none, none)

mutual

/-- One node.  `block` tells whether block collections may begin here, and
`indentless` whether a sequence may stand at the column of its parent's keys. -/
def read (block indentless : Bool) : Nat → Read Node
  | 0 => refuse
  | fuel + 1 => do
      if let .alias name := ← peek then
        skip
        let s ← get
        match s.names.lookup name with
        | some id => return .alias id
        | none => refuse
      else
        let (anchor, tag) ← properties
        let n ← match ← peek with
          | .blockEntry =>
              if indentless then pure (.sequence tag (← readIndentless fuel))
              else if anchor.isSome || tag.isSome then pure (blank tag)
              else refuse
          | .scalar text style => do
              skip
              pure (.scalar ⟨text, style, tag⟩)
          | .flowSequenceStart => do
              skip
              pure (.sequence tag (← readFlowSequence true fuel))
          | .flowMappingStart => do
              skip
              pure (.mapping tag (← readFlowMapping true fuel))
          | t =>
              if block && t = .blockSequenceStart then do
                skip
                pure (.sequence tag (← readBlockSequence fuel))
              else if block && t = .blockMappingStart then do
                skip
                pure (.mapping tag (← readBlockMapping fuel))
              else if anchor.isSome || tag.isSome then pure (blank tag)
              else refuse
        noteNode anchor n

/-- The rest of a block sequence. -/
def readBlockSequence : Nat → Read (List Node)
  | 0 => refuse
  | fuel + 1 => do
      match ← peek with
      | .blockEntry =>
          skip
          let item ← match ← peek with
            | .blockEntry | .blockEnd => pure (blank none)
            | _ => read true false fuel
          return item :: (← readBlockSequence fuel)
      | .blockEnd => skip; return []
      | _ => refuse

/-- The rest of a sequence whose dashes stand at the column of the keys around. -/
def readIndentless : Nat → Read (List Node)
  | 0 => refuse
  | fuel + 1 => do
      match ← peek with
      | .blockEntry =>
          skip
          let item ← match ← peek with
            | .blockEntry | .key | .value | .blockEnd => pure (blank none)
            | _ => read true false fuel
          return item :: (← readIndentless fuel)
      | _ => return []

/-- The rest of a block mapping. -/
def readBlockMapping : Nat → Read (List (Node × Node))
  | 0 => refuse
  | fuel + 1 => do
      match ← peek with
      | .key =>
          skip
          let k ← match ← peek with
            | .key | .value | .blockEnd => pure (blank none)
            | _ => read true true fuel
          let v ← match ← peek with
            | .value => do
                skip
                match ← peek with
                | .key | .value | .blockEnd => pure (blank none)
                | _ => read true true fuel
            | _ => pure (blank none)
          return (k, v) :: (← readBlockMapping fuel)
      | .blockEnd => skip; return []
      | _ => refuse

/-- The rest of a flow sequence.  A key among the items makes a mapping of one
entry; where that key is empty the word behind the mark is passed over. -/
def readFlowSequence (first : Bool) : Nat → Read (List Node)
  | 0 => refuse
  | fuel + 1 => do
      if (← peek) = .flowSequenceEnd then skip; return []
      if !first then
        if (← peek) = .flowEntry then skip else refuse
      match ← peek with
      | .flowSequenceEnd => skip; return []
      | .key =>
          skip
          let k ← match ← peek with
            | .value | .flowEntry | .flowSequenceEnd => do skip; pure (blank none)
            | _ => read false false fuel
          let v ← match ← peek with
            | .value => do
                skip
                match ← peek with
                | .flowEntry | .flowSequenceEnd => pure (blank none)
                | _ => read false false fuel
            | _ => pure (blank none)
          return .mapping none [(k, v)] :: (← readFlowSequence false fuel)
      | _ =>
          let item ← read false false fuel
          return item :: (← readFlowSequence false fuel)

/-- The rest of a flow mapping. -/
def readFlowMapping (first : Bool) : Nat → Read (List (Node × Node))
  | 0 => refuse
  | fuel + 1 => do
      if (← peek) = .flowMappingEnd then skip; return []
      if !first then
        if (← peek) = .flowEntry then skip else refuse
      match ← peek with
      | .flowMappingEnd => skip; return []
      | .key =>
          skip
          let k ← match ← peek with
            | .value | .flowEntry | .flowMappingEnd => pure (blank none)
            | _ => read false false fuel
          let v ← match ← peek with
            | .value => do
                skip
                match ← peek with
                | .flowEntry | .flowMappingEnd => pure (blank none)
                | _ => read false false fuel
            | _ => pure (blank none)
          return (k, v) :: (← readFlowMapping false fuel)
      | _ =>
          let k ← read false false fuel
          return (k, blank none) :: (← readFlowMapping false fuel)

end

end Node

/-! ## §3. Reading a document. -/

namespace Document

open Node

/-- The directives before a document, and whether there is any.  A handle may
be declared once, and so may the version, which has to be 1.1 or 1.2. -/
def directives : Nat → (versioned : Bool) → (declared : List (String × List UInt8)) →
    Read (Bool × List (String × List UInt8))
  | 0, _, _ => refuse
  | fuel + 1, versioned, declared => do
      match ← peek with
      | .version major minor =>
          if versioned || major != 1 || (minor != 1 && minor != 2) then refuse
          else
            skip
            directives fuel true declared
      | .tagHandle handle expansion =>
          if (declared.lookup handle).isSome then refuse
          else
            skip
            directives fuel versioned ((handle, expansion) :: declared)
      | _ => return (versioned || !declared.isEmpty, declared)

/-- The handles that need no declaration. -/
def defaultHandles : List (String × List UInt8) :=
  [("!", Tag.mark), ("!!", Tag.corePrefix)]

/-- The one document of a stream, or nothing. -/
def readStream (fuel : Nat) : Read (Option Node) := do
  if (← peek) = .streamEnd then return none
  let (directed, declared) ← directives fuel false []
  modify fun s => { s with handles := declared ++ defaultHandles }
  let explicit := (← peek) = .documentStart
  if directed && !explicit then refuse
  if explicit then skip
  let root ← match ← peek with
    | .version _ _ | .tagHandle _ _ | .documentStart | .documentEnd | .streamEnd =>
        if explicit then pure (blank none) else refuse
    | _ => Node.read true false fuel
  return some root

/-- Read a stream of at most one document. -/
def ofTokens? (tokens : List Token) : Option Document := do
  let fuel := 3 * tokens.length + 3
  let (root, s) ← (readStream fuel).run ⟨tokens, [], [], [], [], 0⟩
  let rest := s.tokens.dropWhile (· = .documentEnd)
  if rest = [.streamEnd] then some ⟨root, s.numbers, s.anchored⟩ else none

/-- Read the text of a stream of at most one document. -/
def ofText? (text : List Char) : Option Document := do
  ofTokens? (← tokens? text)

end Document

end TenantSync.Yaml
