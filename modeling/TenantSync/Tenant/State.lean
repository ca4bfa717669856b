/-
  TenantSync.Tenant.State
  ───────────────────────
  **EVERYTHING A TENANT HOLDS.**

  One section for each kind of element, and a counter from which identifiers are
  made.  Rules live in namespaces, and a namespace exists whether or not it has
  rules.  A setting is kept under its name even when its value is empty, and
  counts as unset then.

  A snapshot is the record of a state.  Fields it lacks are those of a new
  tenant, whose rule namespaces are the built-in ones.
-/
import TenantSync.Tenant.Remote
import TenantSync.Json.Reader
import TenantSync.Json.Printer

namespace TenantSync

open Config

/-- The namespaces of rules that a new tenant has. -/
def builtinNamespaces : List String := [defaultNamespace, "managed", "service"]

/-- Everything a tenant holds. -/
structure State where
  /-- The names subscribed to, by resource category. -/
  resources : NameMap NameSet := .empty
  /-- The rules by namespace. -/
  rules : NameMap (NameMap (Remote Rule)) :=
    NameMap.ofList (builtinNamespaces.map fun n => (n, .empty))
  falsePositives : NameMap (Remote FalsePositive) := .empty
  outputs : NameMap (Remote Output) := .empty
  integrity : NameMap (Remote IntegrityRule) := .empty
  exfilWatches : NameMap (Remote ExfilWatch) := .empty
  exfilEvents : NameMap (Remote ExfilEvent) := .empty
  artifacts : NameMap (Remote ArtifactRule) := .empty
  yaraSources : NameMap (Remote YaraSource) := .empty
  yaraRules : NameMap (Remote YaraRule) := .empty
  /-- The installation keys by identifier. -/
  installationKeys : NameMap (Remote InstallationKey) := .empty
  orgValues : NameMap String := .empty
  /-- The number of identifiers made so far. -/
  idCounter : UInt64 := 0
  deriving DecidableEq

namespace State

instance : Inhabited State := ⟨{}⟩

/-! ## §1. Identifiers. -/

/-- A number in at least eight hexadecimal digits. -/
def hex8 (n : UInt64) : String :=
  let digits := Nat.toDigits 16 n.toNat
  String.ofList (List.replicate (8 - digits.length) '0' ++ digits)

/-- A new identifier. -/
def nextId (kind : String) (s : State) : String × State :=
  let n := s.idCounter + 1
  (s!"{kind}-{hex8 n}", { s with idCounter := n })

/-- Who a tenant says has made its elements. -/
def author : String := "orgsync"

/-- A body as the tenant stores it at a time: with a new identifier. -/
def stamp {α : Type} (now : Timestamp) (kind : String) (body : α) (s : State) :
    Remote α × State :=
  let (id, s) := s.nextId kind
  let made : Meta :=
    { id := some id, createdBy := some author, createdAt := some now, updatedAt := some now }
  (⟨body, made⟩, s)

/-! ## §2. Size. -/

/-- The number of elements; a setting counts when its value is not empty. -/
def elementCount (s : State) : Nat :=
  s.resources.total NameMap.size + s.rules.total NameMap.size
    + s.falsePositives.size + s.outputs.size + s.integrity.size + s.exfilWatches.size
    + s.exfilEvents.size + s.artifacts.size + s.yaraSources.size + s.yaraRules.size
    + s.installationKeys.size + (s.orgValues.values.filter fun v => !v.isEmpty).length

/-! ## §3. Snapshots. -/

open Decoder in
/-- A set of names, given as a list. -/
def nameSetDecoder : Decoder NameSet :=
  (listOf text).filterMap fun names => some (NameSet.ofList names)

open Decoder in
/-- A section of elements that may be missing. -/
def elements {α : Type} (name : String) (d : Decoder α) : Fields (NameMap (Remote α)) :=
  field name (mapOf (Remote.decoder d)) .empty

open Decoder in
/-- A snapshot. -/
def decoder : Decoder State :=
  let new : State := {}
  record <|
    State.mk <$> field "resources" (mapOf nameSetDecoder) new.resources
      <*> field "dr_rules" (mapOf (mapOf (Remote.decoder Rule.decoder))) new.rules
      <*> elements "fp_rules" FalsePositive.decoder <*> elements "outputs" Output.decoder
      <*> elements "integrity" IntegrityRule.decoder
      <*> elements "exfil_watches" ExfilWatch.decoder
      <*> elements "exfil_events" ExfilEvent.decoder
      <*> elements "artifacts" ArtifactRule.decoder
      <*> elements "yara_sources" YaraSource.decoder <*> elements "yara_rules" YaraRule.decoder
      <*> elements "installation_keys" InstallationKey.decoder
      <*> field "org_values" (mapOf text) new.orgValues
      <*> field "id_counter" count64 new.idCounter

open Value in
/-- The record of a state. -/
def encode (s : State) : Value :=
  let held {α : Type} (f : α → Value) (m : NameMap (Remote α)) : Value :=
    ofMap (Remote.encode f) m
  .obj
    [("resources", ofMap (fun names => Value.names names.keys) s.resources),
      ("dr_rules", ofMap (held Rule.encode) s.rules),
      ("fp_rules", held FalsePositive.encode s.falsePositives),
      ("outputs", held Output.encode s.outputs),
      ("integrity", held IntegrityRule.encode s.integrity),
      ("exfil_watches", held ExfilWatch.encode s.exfilWatches),
      ("exfil_events", held ExfilEvent.encode s.exfilEvents),
      ("artifacts", held ArtifactRule.encode s.artifacts),
      ("yara_sources", held YaraSource.encode s.yaraSources),
      ("yara_rules", held YaraRule.encode s.yaraRules),
      ("installation_keys", held InstallationKey.encode s.installationKeys),
      ("org_values", ofMap .str s.orgValues),
      ("id_counter", ofUInt64 s.idCounter)]

/-- The text of a snapshot. -/
def toSnapshot (s : State) : String := Json.pretty s.encode ++ "\n"

/-- Read the text of a snapshot. -/
def ofSnapshot? (text : String) : Option State := do
  decoder.decode (← Json.datum? decoder.shape text.toList)

/-- Read a snapshot from a value whose scalars are one thing only. -/
def ofValue? (v : Value) : Option State := decoder.decode (Datum.ofValue v)

end State

end TenantSync
