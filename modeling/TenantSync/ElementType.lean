/-
  TenantSync.ElementType
  ──────────────────────
  **THE KINDS OF ELEMENTS.**

  Twelve kinds, in the order in which operations on them are listed.
-/
namespace TenantSync

/-- A kind of element of a tenant. -/
inductive ElementType where
  | resource
  | rule
  | falsePositive
  | output
  | integrity
  | exfilWatch
  | exfilEvent
  | artifact
  | yaraSource
  | yaraRule
  | installationKey
  | orgValue
  deriving DecidableEq, Repr

namespace ElementType

/-- Every kind, in order. -/
def all : List ElementType :=
  [.resource, .rule, .falsePositive, .output, .integrity, .exfilWatch, .exfilEvent, .artifact,
    .yaraSource, .yaraRule, .installationKey, .orgValue]

/-- The name of a kind. -/
def name : ElementType → String
  | .resource => "resource"
  | .rule => "dr_rule"
  | .falsePositive => "fp_rule"
  | .output => "output"
  | .integrity => "integrity"
  | .exfilWatch => "exfil_watch"
  | .exfilEvent => "exfil_event"
  | .artifact => "artifact"
  | .yaraSource => "yara_source"
  | .yaraRule => "yara_rule"
  | .installationKey => "installation_key"
  | .orgValue => "org_value"

/-- The place of a kind in the order. -/
def rank (t : ElementType) : Nat := all.idxOf t

/-- The kind of a name. -/
def ofName? (s : String) : Option ElementType := all.find? fun t => t.name == s

end ElementType

end TenantSync
