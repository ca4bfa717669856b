/-
  TenantSync.Tenant.Snapshot
  ──────────────────────────
  **A TENANT KEPT IN A FILE.**

  The state of a tenant is kept as a snapshot.  Where there is no file the
  tenant is new; a tenant that was read has no faults and an empty log.
-/
import TenantSync.Files.Basic
import TenantSync.Tenant.Basic

namespace TenantSync

/-- Why a snapshot could not be read or written. -/
inductive SnapshotFault where
  /-- The file could not be read or written. -/
  | inaccessible (path message : String)
  /-- The file does not hold a snapshot. -/
  | invalid (path : String)
  deriving DecidableEq, Repr

/-- The fault in words. -/
def SnapshotFault.message : SnapshotFault → String
  | .inaccessible path message => s!"failed to access state snapshot {path}: {message}"
  | .invalid path => s!"invalid state snapshot {path}: not the record of a tenant"

namespace Tenant

variable {m : Type → Type} [Monad m]

/-- The tenant of a snapshot file; elements will be stamped with `now`. -/
def read (files : Files m) (now : Timestamp) (path : String) :
    m (Except SnapshotFault Tenant) := do
  match ← files.read path with
  | .error .notFound => return .ok { now }
  | .error fault => return .error (.inaccessible path fault.message)
  | .ok bytes =>
      match String.fromUTF8? bytes with
      | none => return .error (.inaccessible path "stream did not contain valid UTF-8")
      | some text =>
          match State.ofSnapshot? text with
          | none => return .error (.invalid path)
          | some state => return .ok { state, now }

/-- Keep a tenant in a file. -/
def write (files : Files m) (t : Tenant) (path : String) : m (Except SnapshotFault Unit) := do
  match ← files.write path t.state.toSnapshot.toUTF8 with
  | .error fault => return .error (.inaccessible path fault.message)
  | .ok () => return .ok ()

end Tenant

end TenantSync
