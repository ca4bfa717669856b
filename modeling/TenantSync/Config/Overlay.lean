/-
  TenantSync.Config.Overlay
  ─────────────────────────
  **LAYING ONE DOCUMENT OVER ANOTHER.**

      version           the upper one's, unless it has none
      sections of maps  an upper element replaces the lower one of its name
      resource names    the lower ones in order, then the new ones of the upper
      references        never carried over

  Elements are replaced as a whole; nothing inside an element is merged.
-/
import TenantSync.Config.Basic

namespace TenantSync.Config

/-- The names of a list, each at its first occurrence only; `seen` names are
left out. -/
def firstOccurrences (seen : List String) : List String → List String
  | [] => []
  | n :: rest =>
      if seen.contains n then firstOccurrences seen rest
      else n :: firstOccurrences (n :: seen) rest

/-- The names of both lists, each at its first occurrence only. -/
def orderedUnion (lower upper : List String) : List String := firstOccurrences [] (lower ++ upper)

/-- The subscriptions of two documents. -/
def overlayResources (lower upper : NameMap (List String)) : NameMap (List String) :=
  upper.entries.foldl
    (fun m (category, names) =>
      m.insert category (orderedUnion ((m.get? category).getD []) names)) lower

/-- `upper` laid over `lower`. -/
def overlay (lower upper : Config) : Config where
  version := if upper.version = 0 then lower.version else upper.version
  includes := []
  resources := overlayResources lower.resources upper.resources
  rules := lower.rules.overlay upper.rules
  falsePositives := lower.falsePositives.overlay upper.falsePositives
  outputs := lower.outputs.overlay upper.outputs
  integrity := lower.integrity.overlay upper.integrity
  exfil :=
    { watches := lower.exfil.watches.overlay upper.exfil.watches
      events := lower.exfil.events.overlay upper.exfil.events }
  artifacts := lower.artifacts.overlay upper.artifacts
  yara :=
    { rules := lower.yara.rules.overlay upper.yara.rules
      sources := lower.yara.sources.overlay upper.yara.sources }
  installationKeys := lower.installationKeys.overlay upper.installationKeys
  orgValues := lower.orgValues.overlay upper.orgValues

/-- Documents laid over each other, the first at the bottom. -/
def overlayAll (documents : List Config) : Config := documents.foldl overlay {}

end TenantSync.Config
