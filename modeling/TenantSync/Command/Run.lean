/-
  TenantSync.Command.Run
  ──────────────────────
  **WHAT THE TOOL DOES AND SAYS.**

  The tool runs over any `Files`, and what it says is a value, so it can be
  reasoned about; `Main` only prints the value.  A push reads the state file,
  reconciles, and writes the state file back unless the run is dry or the push
  failed before the tenant was called.

      0   done
      1   settings, state or configuration could not be used
      2   the command line was refused, or elements could not be listed
      3   some mutations failed
-/
import TenantSync.Command.Invocation
import TenantSync.Config.Directory
import TenantSync.Push.Report
import TenantSync.Push.Run
import TenantSync.Settings.Load
import TenantSync.Tenant.Snapshot

namespace TenantSync.Command

open Push

/-- What a run prints and how it ends. -/
structure Reply where
  output : String := ""
  errors : String := ""
  code : Nat := 0
  deriving DecidableEq, Repr

/-- What a run can ask of the world around it. -/
structure World (m : Type → Type) where
  files : Files m
  environment : String → Option String
  /-- The time at which elements are stamped. -/
  now : Timestamp

/-- A reply that prints one line about an error. -/
def complain (line : String) (code : Nat) : Reply := { errors := line ++ "\n", code }

variable {m : Type → Type} [Monad m]

/-! ## §1. Commands without effect. -/

/-- Show a configuration. -/
def render (w : World m) (root : String) (sources : Bool) : m Reply := do
  match ← Config.loadFile w.files "." root with
  | .error e => return complain s!"Configuration error: {e.message}" 1
  | .ok effective =>
      let lines := effective.sources.map fun s => s!"# {s.id} sha256:{s.digest}\n"
      let shown := if sources then String.join lines else ""
      return { output := shown ++ effective.config.toYaml }

/-- Show settings. -/
def showSettings (s : Settings) : Reply := { output := Json.pretty s.encode ++ "\n" }

/-! ## §2. Pushing. -/

/-- The options of a push. -/
def optionsOf (s : Settings.Resolved) (p : PushRequest) : Options :=
  let o : Options := { mode := { dryRun := p.dryRun, force := p.force, drift := s.drift } }
  o.select s.categories

/-- The record of a push. -/
def reportOf (p : PushRequest) (ops : List Operation) (failures : List Failure) : Value :=
  Value.canonicalize <| .obj
    [("dry_run", .bool p.dryRun), ("force", .bool p.force),
      ("operations", .arr (ops.map Operation.encode)), ("summary", (Summary.of ops).encode),
      ("failures", .names (failures.map Failure.text))]

/-- What is printed about a push. -/
def describe (p : PushRequest) (ops : List Operation) (failures : List Failure) : String :=
  if p.json then Json.pretty (reportOf p ops failures) ++ "\n"
  else
    let lines := ops.map fun op => op.text ++ "\n"
    let dry := if p.dryRun then "[dry-run] " else ""
    String.join lines ++ "\n" ++ dry ++ (Summary.of ops).text ++ "\n"

/-- The reply about operations that were made and failures among them. -/
def replyOf (p : PushRequest) (ops : List Operation) (failures : List Failure) : Reply :=
  let output := describe p (Operation.sort ops) failures
  if failures.isEmpty then { output }
  else
    let lines := failures.map fun f => s!"Failed: {f.text}\n"
    let last := s!"Push incomplete: {failures.length} mutation(s) failed\n"
    { output, errors := String.join lines ++ last, code := 3 }

/-- The reply about a push. -/
def replyTo (p : PushRequest) : Except Push.Error (List Operation) → Reply
  | .ok ops => replyOf p ops []
  | .error (.mutations failures ops) => replyOf p ops failures
  | .error e => complain s!"Push failed: {e.message}" e.exitCode

/-- Whether the tenant was called by a push. -/
def reachedTenant : Except Push.Error (List Operation) → Bool
  | .ok _ => true
  | .error e => e.reachedTenant

/-- Push a configuration to the tenant kept in the state file. -/
def pushTo (w : World m) (s : Settings.Resolved) (p : PushRequest) : m Reply := do
  match ← Tenant.read w.files w.now s.stateFile with
  | .error fault => return complain s!"Error loading state: {fault.message}" 1
  | .ok tenant =>
      let effective ← Config.loadFile w.files "." p.root
      let (result, tenant) := (pushEffective (optionsOf s p) effective).run.run tenant
      if !p.dryRun && reachedTenant result then
        match ← tenant.write w.files s.stateFile with
        | .error _ => return { code := 1 }
        | .ok () => return replyTo p result
      else return replyTo p result

/-- The settings that a push is given on the command line. -/
def overridesOf (p : PushRequest) : Option Payload :=
  let given :=
    (p.state.map fun path => ("state_file", Value.str path)).toList
      ++ (if p.only.isEmpty then [] else [("categories", Settings.categoryNames p.only)])
      ++ (p.drift.map fun d => ("drift", Value.str d.name)).toList
  if given.isEmpty then none else some (.ofValue (.obj given))

/-! ## §3. The tool. -/

/-- How the tool is used. -/
def usage : String :=
  "Usage: orgsync [--settings FILE] [-v] COMMAND\n\n"
    ++ "  render ROOT [--sources]\n"
    ++ "  push ROOT [--dry-run] [--force] [--json] [--state FILE]\n"
    ++ "            [--only CATEGORY]... [--drift POLICY]\n"
    ++ "  settings\n"

/-- The reply to a command line that asks for nothing to be done. -/
def replyToStop : Stop → Reply
  | .refused => { errors := usage, code := 2 }
  | .help => { output := usage }
  | .version => { output := "orgsync 0.1.0\n" }

/-- Do what is asked for. -/
def perform (w : World m) (i : Invocation) : m Reply := do
  let overrides := match i.request with
    | .push p => overridesOf p
    | _ => none
  let path := i.settings.or (Settings.defaultPath w.environment)
  match ← Settings.load w.files path overrides with
  | .error e => return complain s!"Error loading settings: {e.message}" 1
  | .ok settings =>
      match i.request with
      | .render root sources => render w root sources
      | .push p => pushTo w settings.resolved p
      | .settings => return showSettings settings

/-- Run the tool on a command line. -/
def run (w : World m) (args : List String) : m Reply := do
  match Invocation.ofArguments args with
  | .error stop => return replyToStop stop
  | .ok i => perform w i

end TenantSync.Command
