/-
  TenantSync.Settings.Basic
  ─────────────────────────
  **SETTINGS OF THE TOOL.**

  Four settings are known: the log filter, the state file, the drift policy and
  the categories to push.  Their values come from layers, the built-in one at
  the bottom, then the user's, then the one of the command line; what counts is
  the merged value, and only that is checked.  Settings that are not known are
  kept and shown.
-/
import TenantSync.Push.Category
import TenantSync.Settings.Layer

namespace TenantSync

namespace Settings

open Push

/-! ## §1. Layers and where they come from. -/

/-- Where a layer comes from. -/
inductive Origin where
  | builtin
  | user
  | cli
  deriving DecidableEq, Repr

/-- The name of an origin. -/
def Origin.name : Origin → String
  | .builtin => "builtin"
  | .user => "user"
  | .cli => "cli"

/-- A layer that contributed. -/
structure Source where
  origin : Origin
  /-- The file it was read from. -/
  path : Option String := none
  /-- The SHA-256 of that file. -/
  digest : Option String := none
  deriving DecidableEq, Repr

/-- A list of categories by name. -/
def categoryNames (cs : List Category) : Value := .arr (cs.map fun c => .str c.name)

/-- The layer at the bottom. -/
def builtin : Payload := .ofValue <| .obj
  [("log_level", .str "info"), ("state_file", .str "orgsync-state.json"),
    ("drift", .str DriftPolicy.keep.name), ("categories", categoryNames Category.all)]

/-! ## §2. What settings have to be. -/

/-- The known settings. -/
structure Resolved where
  logLevel : String
  stateFile : String
  drift : DriftPolicy
  categories : List Category
  deriving DecidableEq, Repr

/-- What is wrong with a setting. -/
inductive Invalid where
  | logLevel
  | stateFile
  | drift
  | categories
  | category
  /-- A text is not the name of a policy or of a category. -/
  | unknown (message : String)
  deriving DecidableEq, Repr

/-- What is wrong, in words. -/
def Invalid.message : Invalid → String
  | .logLevel => "log_level must be a non-empty string"
  | .stateFile => "state_file must be a non-empty path"
  | .drift => "drift must be a string"
  | .categories => "categories must be a list"
  | .category => "categories must be strings"
  | .unknown message => message

/-- A text that is not empty. -/
def nonempty? : Value → Option String
  | .str s => if s.isEmpty then none else some s
  | _ => none

/-- The drift policy of a value. -/
def driftOf : Value → Except Invalid DriftPolicy
  | .str s => (DriftPolicy.parse s).mapError .unknown
  | _ => .error .drift

/-- The category of a value. -/
def categoryOf : Value → Except Invalid Category
  | .str s => (Category.parse s).mapError .unknown
  | _ => .error .category

/-- The categories of a value; the first that is wrong counts. -/
def categoriesOf : Value → Except Invalid (List Category)
  | .arr items => items.mapM categoryOf
  | _ => .error .categories

/-- The known settings of a value, checked in the order in which they stand in
`Resolved`. -/
def resolve (values : Value) : Except Invalid Resolved := do
  let field (key : String) : Value := (values.get? key).getD .null
  let logLevel ← (nonempty? (field "log_level")).elim (.error .logLevel) .ok
  let stateFile ← (nonempty? (field "state_file")).elim (.error .stateFile) .ok
  let drift ← driftOf (field "drift")
  let categories ← categoriesOf (field "categories")
  return { logLevel, stateFile, drift, categories }

end Settings

/-! ## §3. Settings. -/

/-- Settings, with where they come from. -/
structure Settings where
  /-- The merged layers. -/
  values : Payload
  /-- The layers that contributed, lowest first. -/
  sources : List Settings.Source
  resolved : Settings.Resolved

namespace Settings

/-- A layer read from a file. -/
structure FileLayer where
  path : String
  digest : String
  values : Payload

/-- The settings of the layers there are. -/
def ofLayers (user : Option FileLayer) (cli : Option Payload) : Except Invalid Settings := do
  let layers := builtin :: ((user.map FileLayer.values).toList ++ cli.toList)
  let fromUser := user.map fun f => Source.mk .user (some f.path) (some f.digest)
  let fromCli := cli.map fun _ => Source.mk .cli none none
  let values := Payload.overlayAll layers
  return {
    values
    sources := { origin := .builtin } :: (fromUser.toList ++ fromCli.toList)
    resolved := ← resolve values.value }

/-- The record of a source. -/
def Source.encode (s : Source) : Value := .obj <|
  [("origin", .str s.origin.name)]
    ++ (s.path.map fun p => ("path", Value.str p)).toList
    ++ (s.digest.map fun d => ("digest", Value.str d)).toList

/-- The record of settings: values and sources. -/
def encode (s : Settings) : Value := .obj
  [("values", s.values.value), ("sources", .arr (s.sources.map Source.encode))]

end Settings

end TenantSync
