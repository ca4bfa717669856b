/-
  TenantSync.Config.Decode
  ────────────────────────
  **READING A DOCUMENT FROM DATA.**

  Every field of every record may be missing and then takes the value of an
  empty record.  Lists and sections, but not single elements, also accept null
  for empty.  What is not a known field is passed over, except in an output
  destination, whose further fields are its parameters.
-/
import TenantSync.Config.Basic
import TenantSync.Decoder

namespace TenantSync.Config

open Decoder

/-- A list of texts that may be null. -/
def names (field : String) : Fields (List String) :=
  Decoder.field field (orElse [] (listOf text)) []

/-- A section that may be null. -/
def sectionOf {α : Type} (field : String) (d : Decoder α) : Fields (NameMap α) :=
  Decoder.field field (orElse .empty (mapOf d)) .empty

/-- A detection and response rule. -/
def Rule.decoder : Decoder Rule := record <|
  Rule.mk <$> field "name" text "" <*> field "namespace" text ""
    <*> field "detect" payload .null <*> field "respond" payload .null
    <*> field "is_enabled" (optional flag) none

/-- A filter of false positives. -/
def FalsePositive.decoder : Decoder FalsePositive :=
  record <| FalsePositive.mk <$> field "data" payload .null

/-- The fields of an output destination that are not parameters. -/
def Output.ownFields : List String := ["module", "type"]

/-- The parameters among the entries of an output destination. -/
def Output.paramsOf (entries : List (Datum × Datum)) : Option (NameMap Payload) := do
  let params ← entries.filterMapM fun e => do
    let key ← e.1.text?
    if ownFields.contains key then return none
    return some (key, ← e.2.payload? true)
  return NameMap.ofList params

/-- An output destination.  Within its parameters keys have to be texts. -/
def Output.decoder : Decoder Output where
  shape := .whole
  decode
    | .table _ entries => do
        if !ownFields.all (occursOnce entries) then none
        let own := Prod.mk <$> field "module" text "" <*> field "type" text ""
        let (module, stream) ← own.read (valueUnder entries)
        return { module, stream, params := ← paramsOf entries }
    | .scalar r => if r.blank then some {} else none
    | .list .. => none

/-- A rule of file integrity monitoring. -/
def IntegrityRule.decoder : Decoder IntegrityRule := record <|
  IntegrityRule.mk <$> names "patterns" <*> names "tags" <*> names "platforms"

/-- A rule that watches one kind of event. -/
def ExfilWatch.decoder : Decoder ExfilWatch := record <|
  ExfilWatch.mk <$> field "event" text "" <*> field "operator" text "" <*> field "value" text ""
    <*> names "path" <*> names "tags" <*> names "platforms"

/-- Which sensors a rule applies to. -/
def Filters.decoder : Decoder Filters :=
  record <| Filters.mk <$> names "tags" <*> names "platforms"

/-- A list of events to collect. -/
def ExfilEvent.decoder : Decoder ExfilEvent := record <|
  ExfilEvent.mk <$> names "events" <*> field "filters" (orElse {} Filters.decoder) {}

/-- A rule of artifact collection. -/
def ArtifactRule.decoder : Decoder ArtifactRule := record <|
  ArtifactRule.mk <$> field "is_ignore_cert" flag false <*> field "is_delete_after" flag false
    <*> field "days_retention" count32 0
    <*> names "patterns" <*> names "tags" <*> names "platforms"

/-- A signature rule. -/
def YaraRule.decoder : Decoder YaraRule := record <|
  YaraRule.mk <$> names "sources" <*> field "filters" (orElse {} Filters.decoder) {}

/-- A source of signatures. -/
def YaraSource.decoder : Decoder YaraSource :=
  record <| YaraSource.mk <$> field "source" text ""

/-- An installation key. -/
def InstallationKey.decoder : Decoder InstallationKey := record <|
  InstallationKey.mk <$> field "desc" text "" <*> names "tags"
    <*> field "use_public_root_ca" flag false

/-- The exfil section. -/
def ExfilSection.decoder : Decoder ExfilSection := record <|
  ExfilSection.mk <$> sectionOf "watch" ExfilWatch.decoder <*> sectionOf "list" ExfilEvent.decoder

/-- The yara section. -/
def YaraSection.decoder : Decoder YaraSection := record <|
  YaraSection.mk <$> sectionOf "rules" YaraRule.decoder <*> sectionOf "sources" YaraSource.decoder

/-- A document. -/
def decoder : Decoder Config := record <|
  Config.mk <$> field "version" count32 0 <*> names "include"
    <*> sectionOf "resources" (listOf text) <*> sectionOf "rules" Rule.decoder
    <*> sectionOf "fps" FalsePositive.decoder <*> sectionOf "outputs" Output.decoder
    <*> sectionOf "integrity" IntegrityRule.decoder
    <*> field "exfil" (orElse {} ExfilSection.decoder) {}
    <*> sectionOf "artifact" ArtifactRule.decoder
    <*> field "yara" (orElse {} YaraSection.decoder) {}
    <*> sectionOf "installation_keys" InstallationKey.decoder <*> sectionOf "org-value" text

end TenantSync.Config
