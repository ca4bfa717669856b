/-
  TenantSync.Config.Directory
  ───────────────────────────
  **DOCUMENTS IN FILES.**

  The identifier of a document, taken as a path below a directory, names its
  file; an absolute identifier is the path itself.

  Files may include each other to any depth that they can have.  No document
  is open twice at one time, so no more levels are open than there are names.
-/
import TenantSync.Config.Include
import TenantSync.Files.Basic

namespace TenantSync.Config

variable {m : Type → Type} [Monad m]

/-- The loader that reads the files below a directory. -/
def fileLoader (files : Files m) (directory : String) : Loader m := fun parent reference => do
  let path := Files.join directory (Path.includeId parent reference)
  match ← files.read path with
  | .ok bytes => return .ok bytes
  | .error .notFound => return .error (.notFound path)
  | .error fault => return .error (.unreadable path fault.message)

/-- The levels to which files can include each other: one for every name, of which there
are not more than numbers of so many digits in base 257, and one to find the error. -/
def fileDepth : Nat := Nat.pow 257 Files.maxName + 1

/-- The configuration of a root document in a file below a directory. -/
def loadFile (files : Files m) (directory root : String) : m (Except Error Effective) :=
  (resolve (fileLoader files directory) fileDepth [] "" root).run

end TenantSync.Config
