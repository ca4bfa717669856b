/-
  TenantSync.Config.Encode
  ────────────────────────
  **WRITING A DOCUMENT AS A VALUE.**

  Fields come in declared order, maps in key order.  A field is left out when
  it is empty and reading supplies the same again; the other fields are written
  even when they are empty.
-/
import TenantSync.Config.Basic

namespace TenantSync

namespace Value

/-- A list of texts. -/
def names (l : List String) : Value := .arr (l.map .str)

/-- An unsigned integer. -/
def ofUInt64 (n : UInt64) : Value := .num (.natural n)

/-- A map, its values encoded by `f`. -/
def ofMap {α : Type} (f : α → Value) (m : NameMap α) : Value :=
  .obj (m.entries.map fun e => (e.1, f e.2))

/-- A field that is left out when `empty` holds. -/
def fieldUnless (empty : Bool) (name : String) (v : Value) : List (String × Value) :=
  if empty then [] else [(name, v)]

end Value

namespace Config

open Value

/-- The record of a rule. -/
def Rule.encode (r : Rule) : Value := .obj <|
  fieldUnless r.name.isEmpty "name" (.str r.name)
    ++ fieldUnless r.ruleNamespace.isEmpty "namespace" (.str r.ruleNamespace)
    ++ [("detect", r.detect.value), ("respond", r.respond.value)]
    ++ (r.enabled?.map fun b => ("is_enabled", Value.bool b)).toList

/-- The record of a filter of false positives. -/
def FalsePositive.encode (r : FalsePositive) : Value := .obj [("data", r.data.value)]

/-- The record of an output destination. -/
def Output.encode (o : Output) : Value := .obj <|
  [("module", .str o.module), ("type", .str o.stream)]
    ++ o.params.entries.map fun e => (e.1, e.2.value)

/-- The record of an integrity rule. -/
def IntegrityRule.encode (r : IntegrityRule) : Value := .obj
  [("patterns", names r.patterns), ("tags", names r.tags), ("platforms", names r.platforms)]

/-- The record of an exfil watch. -/
def ExfilWatch.encode (w : ExfilWatch) : Value := .obj <|
  [("event", .str w.event), ("operator", .str w.operator), ("value", .str w.value),
    ("path", names w.path)]
    ++ fieldUnless w.tags.isEmpty "tags" (names w.tags)
    ++ fieldUnless w.platforms.isEmpty "platforms" (names w.platforms)

/-- The record of sensor filters. -/
def Filters.encode (f : Filters) : Value := .obj
  [("tags", names f.tags), ("platforms", names f.platforms)]

/-- The record of an exfil event list. -/
def ExfilEvent.encode (e : ExfilEvent) : Value := .obj
  [("events", names e.events), ("filters", e.filters.encode)]

/-- The record of an artifact rule. -/
def ArtifactRule.encode (r : ArtifactRule) : Value := .obj
  [("is_ignore_cert", .bool r.ignoreCert), ("is_delete_after", .bool r.deleteAfter),
    ("days_retention", ofUInt64 r.daysRetention.toUInt64), ("patterns", names r.patterns),
    ("tags", names r.tags), ("platforms", names r.platforms)]

/-- The record of a signature rule. -/
def YaraRule.encode (r : YaraRule) : Value := .obj
  [("sources", names r.sources), ("filters", r.filters.encode)]

/-- The record of a source of signatures. -/
def YaraSource.encode (s : YaraSource) : Value := .obj [("source", .str s.source)]

/-- The record of an installation key. -/
def InstallationKey.encode (k : InstallationKey) : Value := .obj <|
  [("desc", .str k.desc), ("tags", names k.tags)]
    ++ fieldUnless (!k.usePublicRootCa) "use_public_root_ca" (.bool k.usePublicRootCa)

/-- The record of the exfil section. -/
def ExfilSection.encode (s : ExfilSection) : Value := .obj <|
  fieldUnless s.watches.isEmpty "watch" (ofMap ExfilWatch.encode s.watches)
    ++ fieldUnless s.events.isEmpty "list" (ofMap ExfilEvent.encode s.events)

/-- The record of the yara section. -/
def YaraSection.encode (s : YaraSection) : Value := .obj <|
  fieldUnless s.rules.isEmpty "rules" (ofMap YaraRule.encode s.rules)
    ++ fieldUnless s.sources.isEmpty "sources" (ofMap YaraSource.encode s.sources)

/-- The record of a document. -/
def encode (c : Config) : Value := .obj <|
  fieldUnless (c.version == 0) "version" (ofUInt64 c.version.toUInt64)
    ++ fieldUnless c.includes.isEmpty "include" (names c.includes)
    ++ fieldUnless c.resources.isEmpty "resources" (ofMap names c.resources)
    ++ fieldUnless c.rules.isEmpty "rules" (ofMap Rule.encode c.rules)
    ++ fieldUnless c.falsePositives.isEmpty "fps" (ofMap FalsePositive.encode c.falsePositives)
    ++ fieldUnless c.outputs.isEmpty "outputs" (ofMap Output.encode c.outputs)
    ++ fieldUnless c.integrity.isEmpty "integrity" (ofMap IntegrityRule.encode c.integrity)
    ++ fieldUnless c.exfil.isEmpty "exfil" c.exfil.encode
    ++ fieldUnless c.artifacts.isEmpty "artifact" (ofMap ArtifactRule.encode c.artifacts)
    ++ fieldUnless c.yara.isEmpty "yara" c.yara.encode
    ++ fieldUnless c.installationKeys.isEmpty "installation_keys"
        (ofMap InstallationKey.encode c.installationKeys)
    ++ fieldUnless c.orgValues.isEmpty "org-value" (ofMap .str c.orgValues)

end Config

end TenantSync
