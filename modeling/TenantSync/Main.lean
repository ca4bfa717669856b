/-
  TenantSync.Main
  ───────────────
  **THE TOOL ON A REAL SYSTEM.**

  The only module that acts: it reads files, the environment and the clock, runs
  the tool and prints its reply.
-/
import TenantSync.Command.Run
import Std.Time.DateTime.Timestamp

namespace TenantSync

/-- The fault of a failed file operation. -/
def FileFault.ofError : IO.Error → FileFault
  | .noFileOrDirectory .. => .notFound
  | .inappropriateType _ 20 _ => .notADirectory
  | .inappropriateType _ 21 _ => .isADirectory
  | e => .other (toString e)

/-- The result of a file operation. -/
def settle {α : Type} (action : IO α) : IO (Except FileFault α) := do
  try return .ok (← action)
  catch e => return .error (FileFault.ofError e)

/-- The files of the system. -/
def systemFiles : Files IO where
  read path := settle (IO.FS.readBinFile path)
  write path bytes := settle (IO.FS.writeBinFile path bytes)
  present path := do
    match ← settle (IO.FS.Handle.mk path .read) with
    | .ok _ => return true
    | .error .notFound => return false
    | .error .notADirectory => return false
    | .error _ => return true

/-- The time of the system's clock. -/
def currentTime : IO Timestamp := do
  let t ← Std.Time.Timestamp.now
  return ⟨t.val.second.val, t.val.nano.val.toNat⟩

end TenantSync

/-- Run the tool. -/
def main (args : List String) : IO UInt32 := do
  let settings ← IO.getEnv TenantSync.Settings.pathVariable
  let home ← IO.getEnv "HOME"
  let environment (name : String) : Option String :=
    if name = TenantSync.Settings.pathVariable then settings
    else if name = "HOME" then home
    else none
  let world : TenantSync.Command.World IO :=
    { files := TenantSync.systemFiles, environment, now := ← TenantSync.currentTime }
  let reply ← TenantSync.Command.run world args
  IO.print reply.output
  IO.eprint reply.errors
  return UInt32.ofNat reply.code
