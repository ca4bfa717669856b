/-
  TenantSync.Config.Include
  ─────────────────────────
  **ONE CONFIGURATION FROM MANY DOCUMENTS.**

  A root document and everything it refers to, directly or not, are loaded in
  depth-first order.  The documents a document refers to are laid over each
  other in the order listed, then the document itself is laid on top: a document
  overrides what it includes, and a later reference an earlier one.

      resolve — documents from any `Loader`, to a depth
      load    — documents held in a map, to any depth they can have

  A document that is reached a second time while it is still open closes a
  cycle and is an error; reached again later it is loaded again.  On a finite
  map of documents the open ones are distinct keys, so as many levels as there
  are documents, and one more to find the error, always suffice.
-/
import TenantSync.Config.Overlay
import TenantSync.Config.Path
import TenantSync.Config.Text
import TenantSync.Digest

namespace TenantSync.Config

/-! ## §1. Errors. -/

/-- Why a document could not be loaded. -/
inductive LoadFault where
  /-- There is no such document. -/
  | notFound (name : String)
  /-- There is one, and it could not be read. -/
  | unreadable (path message : String)
  deriving DecidableEq, Repr

/-- The fault in words. -/
def LoadFault.message : LoadFault → String
  | .notFound name => s!"document not found: {name}"
  | .unreadable path message => s!"cannot read {path}: {message}"

/-- Why no configuration could be built. -/
inductive Error where
  /-- A document is not YAML or does not fit. -/
  | malformed (document : String)
  /-- A document could not be loaded. -/
  | unavailable (document : String) (fault : LoadFault)
  /-- A document includes itself; the chain leads from the root to the
  repetition. -/
  | cycle (chain : List String)
  /-- The depth of a resolution was used up.  No loading of documents comes to this. -/
  | tooDeep (document : String)
  deriving DecidableEq, Repr

namespace Error

/-- The error in words. -/
def message : Error → String
  | .malformed document => s!"failed to parse {document}: not a configuration document"
  | .unavailable document fault => s!"failed to load {document}: {fault.message}"
  | .cycle chain => "include cycle detected: " ++ " -> ".intercalate chain
  | .tooDeep document => s!"includes nested too deeply at {document}"

/-- Whether a document was at fault, and not the way to it. -/
def isParseError : Error → Bool
  | .malformed _ => true
  | _ => false

/-- Whether a document could not be reached. -/
def isLoadError (e : Error) : Bool := !e.isParseError

/-- The document the error is about. -/
def document : Error → String
  | .malformed document => document
  | .unavailable document _ => document
  | .cycle chain => chain.getLast?.getD ""
  | .tooDeep document => document

end Error

/-! ## §2. Resolution. -/

/-- A document that went into a configuration. -/
structure Source where
  id : String
  /-- The SHA-256 of its bytes. -/
  digest : String
  deriving DecidableEq, Repr

/-- A configuration together with the documents it was built from, in the order
in which they were loaded. -/
structure Effective where
  config : Config
  sources : List Source

/-- Where documents come from: given the identifier of the including document
(empty for the root) and the reference as written, the bytes of a document. -/
abbrev Loader (m : Type → Type) := String → String → m (Except LoadFault ByteArray)

/-- The bytes and the content of one document. -/
def fetch {m : Type → Type} [Monad m] (loader : Loader m) (parent reference id : String) :
    ExceptT Error m (ByteArray × Config) := do
  match ← loader parent reference with
  | .error fault => throw (.unavailable id fault)
  | .ok bytes =>
      match ofBytes? bytes with
      | none => throw (.malformed id)
      | some document => return (bytes, document)

/-- The configuration of a document and of all it includes; `opened` are the
identifiers of the documents that lead to it, the root's first. -/
def resolve {m : Type → Type} [Monad m] (loader : Loader m) :
    Nat → (opened : List String) → (parent reference : String) → ExceptT Error m Effective
  | 0, _, parent, reference => throw (.tooDeep (Path.includeId parent reference))
  | depth + 1, opened, parent, reference => do
      let id := Path.includeId parent reference
      if opened.contains id then throw (.cycle (opened ++ [id]))
      let (bytes, document) ← fetch loader parent reference id
      let included ← document.includes.foldlM
        (fun (acc : Effective) reference => do
          let e ← resolve loader depth (opened ++ [id]) id reference
          return ⟨acc.config.overlay e.config, acc.sources ++ e.sources⟩)
        ⟨{}, []⟩
      return ⟨included.config.overlay { document with includes := [] },
        ⟨id, Digest.hexOf bytes⟩ :: included.sources⟩

/-! ## §3. Documents in a map. -/

/-- Documents under their identifiers. -/
abbrev Documents := NameMap ByteArray

/-- The loader that looks documents up by identifier. -/
def Documents.loader (docs : Documents) : Loader Id := fun parent reference =>
  let id := Path.includeId parent reference
  match docs.get? id with
  | some bytes => .ok bytes
  | none => .error (.notFound id)

/-- The configuration of a root document among documents in a map. -/
def load (docs : Documents) (root : String) : Except Error Effective :=
  (resolve docs.loader (docs.size + 1) [] "" root).run

end TenantSync.Config
