/-
  TenantSync.Push.Category
  ────────────────────────
  **WHAT A PUSH MAY BE RESTRICTED TO.**

  Ten categories, named as the sections of a document are, in the order in which
  a push goes through them.
-/
namespace TenantSync.Push

/-- A section of a document that a push can reconcile. -/
inductive Category where
  | resources
  | rules
  | falsePositives
  | outputs
  | integrity
  | exfil
  | artifacts
  | yara
  | installationKeys
  | orgValues
  deriving DecidableEq, Repr

namespace Category

/-- Every category, in the order of a push. -/
def all : List Category :=
  [.resources, .rules, .falsePositives, .outputs, .integrity, .exfil, .artifacts, .yara,
    .installationKeys, .orgValues]

/-- The name of the section in a document. -/
def name : Category → String
  | .resources => "resources"
  | .rules => "rules"
  | .falsePositives => "fps"
  | .outputs => "outputs"
  | .integrity => "integrity"
  | .exfil => "exfil"
  | .artifacts => "artifact"
  | .yara => "yara"
  | .installationKeys => "installation_keys"
  | .orgValues => "org-value"

/-- The short name of a category in a description of options. -/
def label : Category → String
  | .resources => "Resources"
  | .rules => "DrRules"
  | .falsePositives => "FpRules"
  | .outputs => "Outputs"
  | .integrity => "Integrity"
  | .exfil => "Exfil"
  | .artifacts => "Artifacts"
  | .yara => "Yara"
  | .installationKeys => "InstallationKeys"
  | .orgValues => "OrgValues"

/-- The category of a name, or what is wrong with the name. -/
def parse (s : String) : Except String Category :=
  match all.find? fun c => c.name == s with
  | some c => .ok c
  | none =>
      let known := ", ".intercalate (all.map name)
      .error s!"unknown category '{s}' (expected one of: {known})"

end Category

/-- What to do with an element whose content differs from the desired one. -/
inductive DriftPolicy where
  /-- Leave it as it is. -/
  | keep
  /-- Replace it, if the push is forced. -/
  | replace
  deriving DecidableEq, Repr

namespace DriftPolicy

/-- The name of a policy. -/
def name : DriftPolicy → String
  | .keep => "keep"
  | .replace => "replace"

/-- The short name of a policy in a description of options. -/
def label : DriftPolicy → String
  | .keep => "Keep"
  | .replace => "Replace"

/-- The policy of a name, or what is wrong with the name. -/
def parse (s : String) : Except String DriftPolicy :=
  if s = "keep" then .ok .keep
  else if s = "replace" then .ok .replace
  else .error s!"unknown drift policy '{s}' (expected keep or replace)"

end DriftPolicy

end TenantSync.Push
