/-
  TenantSync.Config.Element
  ─────────────────────────
  **THE THINGS A TENANT IS CONFIGURED WITH.**

  One structure for each kind of element, with the comparison that decides
  whether an element held by the tenant still has the desired content:

      lists of names   are compared as sets,
      path components  in order,
      free-form data   up to the sign of zero,
      a rule without a say on being enabled is enabled,
      a key's description is its identity and not compared.

  Every comparison is an equality of something computed from each side, hence
  an equivalence.
-/
import TenantSync.Value

namespace TenantSync.Config

/-- Whether two lists hold the same names, in whatever order and number. -/
def sameSet (a b : List String) : Bool := a.all b.contains && b.all a.contains

/-- The namespace of rules that do not name one. -/
def defaultNamespace : String := "general"

/-- A detection and response rule. -/
structure Rule where
  name : String := ""
  /-- Empty when the rule does not name one. -/
  ruleNamespace : String := ""
  detect : Payload := .null
  respond : Payload := .null
  enabled? : Option Bool := none
  deriving DecidableEq

namespace Rule

/-- The namespace the rule lives in. -/
def effectiveNamespace (r : Rule) : String :=
  if r.ruleNamespace.isEmpty then defaultNamespace else r.ruleNamespace

/-- Whether the rule is enabled; it is unless it says otherwise. -/
def enabled (r : Rule) : Bool := r.enabled?.getD true

/-- Same content. -/
def sameContent (a b : Rule) : Bool :=
  a.detect.same b.detect && a.respond.same b.respond && a.enabled == b.enabled

end Rule

/-- A filter of false positives. -/
structure FalsePositive where
  data : Payload := .null
  deriving DecidableEq

/-- Same content. -/
def FalsePositive.sameContent (a b : FalsePositive) : Bool := a.data.same b.data

/-- An output destination: a module, the stream it gets, and the parameters
that are the module's own. -/
structure Output where
  module : String := ""
  stream : String := ""
  params : NameMap Payload := .empty
  deriving DecidableEq

/-- Same content. -/
def Output.sameContent (a b : Output) : Bool :=
  a.module == b.module && a.stream == b.stream
    && a.params.map (·.value.clearZeroSigns) == b.params.map (·.value.clearZeroSigns)

/-- A rule of file integrity monitoring. -/
structure IntegrityRule where
  patterns : List String := []
  tags : List String := []
  platforms : List String := []
  deriving DecidableEq

/-- Same content. -/
def IntegrityRule.sameContent (a b : IntegrityRule) : Bool :=
  sameSet a.patterns b.patterns && sameSet a.tags b.tags && sameSet a.platforms b.platforms

/-- A rule that watches one kind of event for a value. -/
structure ExfilWatch where
  event : String := ""
  operator : String := ""
  value : String := ""
  /-- The components of a path, in order. -/
  path : List String := []
  tags : List String := []
  platforms : List String := []
  deriving DecidableEq

/-- Same content. -/
def ExfilWatch.sameContent (a b : ExfilWatch) : Bool :=
  a.event == b.event && a.operator == b.operator && a.value == b.value && a.path == b.path
    && sameSet a.tags b.tags && sameSet a.platforms b.platforms

/-- Which sensors a rule applies to. -/
structure Filters where
  tags : List String := []
  platforms : List String := []
  deriving DecidableEq

/-- Same content. -/
def Filters.sameContent (a b : Filters) : Bool :=
  sameSet a.tags b.tags && sameSet a.platforms b.platforms

/-- A list of events to collect. -/
structure ExfilEvent where
  events : List String := []
  filters : Filters := {}
  deriving DecidableEq

/-- Same content. -/
def ExfilEvent.sameContent (a b : ExfilEvent) : Bool :=
  sameSet a.events b.events && a.filters.sameContent b.filters

/-- A rule of artifact collection. -/
structure ArtifactRule where
  ignoreCert : Bool := false
  deleteAfter : Bool := false
  daysRetention : UInt32 := 0
  patterns : List String := []
  tags : List String := []
  platforms : List String := []
  deriving DecidableEq

/-- Same content. -/
def ArtifactRule.sameContent (a b : ArtifactRule) : Bool :=
  a.ignoreCert == b.ignoreCert && a.deleteAfter == b.deleteAfter
    && a.daysRetention == b.daysRetention && sameSet a.patterns b.patterns
    && sameSet a.tags b.tags && sameSet a.platforms b.platforms

/-- A signature rule: names of sources, and the sensors it applies to. -/
structure YaraRule where
  sources : List String := []
  filters : Filters := {}
  deriving DecidableEq

/-- Same content. -/
def YaraRule.sameContent (a b : YaraRule) : Bool :=
  sameSet a.sources b.sources && a.filters.sameContent b.filters

/-- Where signatures come from. -/
structure YaraSource where
  source : String := ""
  deriving DecidableEq

/-- Same content. -/
def YaraSource.sameContent (a b : YaraSource) : Bool := a.source == b.source

/-- A key with which sensors are installed. -/
structure InstallationKey where
  desc : String := ""
  tags : List String := []
  usePublicRootCa : Bool := false
  deriving DecidableEq

/-- Same content; the description is the identity of a key. -/
def InstallationKey.sameContent (a b : InstallationKey) : Bool :=
  sameSet a.tags b.tags && a.usePublicRootCa == b.usePublicRootCa

end TenantSync.Config
