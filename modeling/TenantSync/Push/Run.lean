/-
  TenantSync.Push.Run
  ───────────────────
  **A PUSH.**

  A configuration is pushed category by category, each category in passes over
  one store each:

      rules   one pass for each namespace
      exfil   watches, then event lists
      yara    sources, then rules
      others  one pass

  A pass is only made when the ones before it had no failure.  What can be wrong
  with the configuration itself is found out before the tenant is called.
-/
import TenantSync.Push.Stores

namespace TenantSync.Push

open Config

/-- A run on a tenant that may fail as a whole. -/
abbrev Run (α : Type) := ExceptT Error (StateM Tenant) α

/-- The passes of a push, one over each store. -/
inductive Pass where
  | resources
  /-- Over the rules of one namespace. -/
  | rules (ns : String)
  | falsePositives
  | outputs
  | integrity
  | exfilWatches
  | exfilEvents
  | artifacts
  | yaraSources
  | yaraRules
  | installationKeys
  | orgValues
  deriving DecidableEq, Repr

/-! ## §1. The passes of a category. -/

/-- The rules of a document that live in a namespace. -/
def rulesOf (c : Config) (ns : String) : NameMap Rule :=
  c.rules.filter fun _ rule => rule.effectiveNamespace == ns

/-- The namespaces to reconcile: those of the document's rules, or all the
tenant has if the document has no rules. -/
def namespaces (c : Config) : Run (List String) := do
  if c.rules.isEmpty then
    match ← (Tenant.ruleNamespaces).run with
    | .ok names => return names
    | .error cause => throw (.fetch .rule cause)
  else return c.ruleNamespaces.keys

/-- The desired subscriptions. -/
def desiredResources (c : Config) : NameMap Unit :=
  NameSet.ofList (c.resourcePairs.map fun (category, name) => Store.resourceName category name)

/-- The desired settings, empty ones left out. -/
def desiredOrgValues (c : Config) : NameMap String := c.orgValues.filter fun _ v => !v.isEmpty

/-- Make a pass with the desired elements of a document; settings are those of
a table. -/
def Pass.run (table : List String) (mode : Mode) (c : Config) : Pass → Run Outcome
  | .resources => reconcile .resources mode (desiredResources c)
  | .rules ns => reconcile (.rules ns) mode (rulesOf c ns)
  | .falsePositives => reconcile (.plain .falsePositives) mode c.falsePositives
  | .outputs => reconcile (.plain .outputs) mode c.outputs
  | .integrity => reconcile (.plain .integrity) mode c.integrity
  | .exfilWatches => reconcile (.plain .exfilWatches) mode c.exfil.watches
  | .exfilEvents => reconcile (.plain .exfilEvents) mode c.exfil.events
  | .artifacts => reconcile (.plain .artifacts) mode c.artifacts
  | .yaraSources => reconcile (.plain .yaraSources) mode c.yara.sources
  | .yaraRules => reconcile (.plain .yaraRules) mode c.yara.rules
  | .installationKeys => reconcile .installationKeys mode c.installationKeys
  | .orgValues => reconcile (.orgValues table) mode (desiredOrgValues c)

/-- Make passes in turn, up to the first that has a failure. -/
def runPasses (table : List String) (mode : Mode) (c : Config) : List Pass → Run Outcome
  | [] => return {}
  | p :: rest => do
      let o ← p.run table mode c
      if o.failures.isEmpty then return o ++ (← runPasses table mode c rest)
      else return o

/-- The passes of a category. -/
def passes (c : Config) : Category → Run (List Pass)
  | .resources => return [.resources]
  | .rules => return (← namespaces c).map Pass.rules
  | .falsePositives => return [.falsePositives]
  | .outputs => return [.outputs]
  | .integrity => return [.integrity]
  | .exfil => return [.exfilWatches, .exfilEvents]
  | .artifacts => return [.artifacts]
  | .yara => return [.yaraSources, .yaraRules]
  | .installationKeys => return [.installationKeys]
  | .orgValues => return [.orgValues]

/-- Reconcile a category. -/
def pushCategory (table : List String) (mode : Mode) (c : Config) (category : Category) :
    Run Outcome := do
  runPasses table mode c (← passes c category)

/-! ## §2. What can be wrong with a configuration. -/

/-- The settings of a document that the tenant does not have. -/
def unknownOrgValues (table : List String) (c : Config) : List String :=
  c.orgValues.keys.filter fun key => !table.contains key

/-- The first installation key of a document that has the identity of one
before it. -/
def sharedDescription? (c : Config) : Option Invalid :=
  go .empty c.installationKeys.entries
where
  /-- With the names of the keys seen so far by identity. -/
  go (seen : NameMap String) : List (String × InstallationKey) → Option Invalid
    | [] => none
    | (name, key) :: rest =>
        let identity := Store.keyIdentity name key
        match seen.get? identity with
        | some first => some (.sharedDescription first name identity)
        | none => go (seen.insert identity name) rest

/-- What is wrong with a configuration, as far as the selected categories go. -/
def invalid? (table : List String) (c : Config) (o : Options) : Option Invalid :=
  let unknown := if o.selected .orgValues then unknownOrgValues table c else []
  if !unknown.isEmpty then some (.unsupportedOrgValues unknown)
  else if o.selected .installationKeys then sharedDescription? c
  else none

/-! ## §3. The push. -/

/-- Reconcile categories in turn; a failure ends the push with the operations
of the categories so far. -/
def pushCategories (table : List String) (mode : Mode) (c : Config) :
    List Category → List Operation → Run (List Operation)
  | [], operations => return operations
  | category :: rest, operations => do
      let o ← pushCategory table mode c category
      let operations := operations ++ o.operations
      if o.failures.isEmpty then pushCategories table mode c rest operations
      else throw (.mutations o.failures operations)

/-- Push a configuration to a tenant that has the settings of a table. -/
def pushWith (table : List String) (o : Options) (c : Config) : Run (List Operation) := do
  let categories := o.categories
  if categories.isEmpty then throw .nothingSelected
  if let some why := invalid? table c o then throw (.invalid why)
  pushCategories table o.mode c categories []

/-- Push a configuration. -/
def push (o : Options) (c : Config) : Run (List Operation) :=
  pushWith Store.supportedOrgValues o c

/-- Push what was resolved from a root document. -/
def pushEffective (o : Options) (effective : Except Config.Error Effective) :
    Run (List Operation) :=
  match effective with
  | .ok e => push o e.config
  | .error e => throw (.config e)

end TenantSync.Push
