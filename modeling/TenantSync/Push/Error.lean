/-
  TenantSync.Push.Error
  ─────────────────────
  **HOW A PUSH CAN FAIL.**

  Before the tenant is called: no configuration, or one that cannot be pushed.
  Afterwards: the elements of a kind cannot be listed, or some mutations failed.
  In the last case the operations up to and including the failing pass are
  known, and what succeeded stays done.
-/
import TenantSync.Config.Include
import TenantSync.Push.Operation
import TenantSync.Tenant.Error

namespace TenantSync.Push

/-- What was tried when a mutation failed. -/
inductive MutationAction where
  | create
  | delete
  | replace
  deriving DecidableEq, Repr

/-- The name of an action. -/
def MutationAction.name : MutationAction → String
  | .create => "Create"
  | .delete => "Delete"
  | .replace => "Replace"

/-- A mutation that failed. -/
structure Failure where
  element : ElementType
  name : String
  action : MutationAction
  error : TenantError
  deriving DecidableEq, Repr

/-- The failure in words. -/
def Failure.text (f : Failure) : String :=
  s!"{f.action.name} {f.element.name} '{f.name}': {f.error.message}"

/-- Why a configuration cannot be pushed. -/
inductive Invalid where
  /-- It sets settings that the tenant does not have. -/
  | unsupportedOrgValues (keys : List String)
  /-- Two of its installation keys would be the same one. -/
  | sharedDescription (first second description : String)
  deriving DecidableEq, Repr

/-- The reason in words. -/
def Invalid.message : Invalid → String
  | .unsupportedOrgValues keys => "unsupported org-value key(s): " ++ ", ".intercalate keys
  | .sharedDescription first second description =>
      s!"installation keys '{first}' and '{second}' share the description '{description}'"

/-- Why a push failed. -/
inductive Error where
  /-- There is no configuration. -/
  | config (e : Config.Error)
  /-- The configuration cannot be pushed. -/
  | invalid (why : Invalid)
  /-- No category is selected. -/
  | nothingSelected
  /-- Elements of a kind could not be listed. -/
  | fetch (element : ElementType) (cause : TenantError)
  /-- Mutations failed; the operations are those of all passes so far. -/
  | mutations (failures : List Failure) (operations : List Operation)
  deriving DecidableEq

namespace Error

/-- The error in words. -/
def message : Error → String
  | .config e => s!"config error: {e.message}"
  | .invalid why => s!"invalid config: {why.message}"
  | .nothingSelected => "no categories selected for sync"
  | .fetch element cause => s!"failed to fetch remote {element.name} state: {cause.message}"
  | .mutations failures _ =>
      let texts := failures.map Failure.text
      s!"{failures.length} remote mutation(s) failed: " ++ "; ".intercalate texts

/-- The exit code of a program that fails with the error. -/
def exitCode : Error → Nat
  | .config _ | .invalid _ | .nothingSelected => 1
  | .fetch .. => 2
  | .mutations .. => 3

/-- Whether the tenant was called before the error arose. -/
def reachedTenant : Error → Bool
  | .config _ | .invalid _ | .nothingSelected => false
  | .fetch .. | .mutations .. => true

end Error

end TenantSync.Push
