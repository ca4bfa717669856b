/-
  TenantSync.Config.Basic
  ───────────────────────
  **A CONFIGURATION DOCUMENT.**

  A document has a version, references to documents it builds on, and one
  section for each category of elements.  Sections are maps from names, so a
  document has no order of its own; only the resource names of a category and
  the references to other documents are lists.
-/
import TenantSync.Config.Element

namespace TenantSync

namespace Config

/-- The two kinds of rules of the exfil section. -/
structure ExfilSection where
  watches : NameMap ExfilWatch := .empty
  events : NameMap ExfilEvent := .empty
  deriving DecidableEq

/-- Whether neither kind has an element. -/
def ExfilSection.isEmpty (s : ExfilSection) : Bool := s.watches.isEmpty && s.events.isEmpty

/-- Signature rules and the sources they draw on. -/
structure YaraSection where
  rules : NameMap YaraRule := .empty
  sources : NameMap YaraSource := .empty
  deriving DecidableEq

/-- Whether neither kind has an element. -/
def YaraSection.isEmpty (s : YaraSection) : Bool := s.rules.isEmpty && s.sources.isEmpty

end Config

/-- A configuration document. -/
structure Config where
  /-- Zero when the document does not give one. -/
  version : UInt32 := 0
  /-- References to the documents this one is laid over, in order. -/
  includes : List String := []
  /-- The names subscribed to, by resource category. -/
  resources : NameMap (List String) := .empty
  rules : NameMap Config.Rule := .empty
  falsePositives : NameMap Config.FalsePositive := .empty
  outputs : NameMap Config.Output := .empty
  integrity : NameMap Config.IntegrityRule := .empty
  exfil : Config.ExfilSection := {}
  artifacts : NameMap Config.ArtifactRule := .empty
  yara : Config.YaraSection := {}
  installationKeys : NameMap Config.InstallationKey := .empty
  orgValues : NameMap String := .empty
  deriving DecidableEq

namespace Config

instance : Inhabited Config := ⟨{}⟩

/-- The subscriptions as pairs of a category and a name. -/
def resourcePairs (c : Config) : List (String × String) :=
  c.resources.entries.flatMap fun (category, names) => names.map fun name => (category, name)

/-- The namespaces that the rules of the document live in. -/
def ruleNamespaces (c : Config) : NameSet :=
  NameSet.ofList (c.rules.values.map Rule.effectiveNamespace)

/-- Whether no category has an element. -/
def isEmpty (c : Config) : Bool :=
  c.resources.values.all List.isEmpty && c.rules.isEmpty && c.falsePositives.isEmpty
    && c.outputs.isEmpty && c.integrity.isEmpty && c.exfil.isEmpty && c.artifacts.isEmpty
    && c.yara.isEmpty && c.installationKeys.isEmpty && c.orgValues.isEmpty

end Config

end TenantSync
