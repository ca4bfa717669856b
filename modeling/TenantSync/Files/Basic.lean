/-
  TenantSync.Files.Basic
  ──────────────────────
  **READING AND WRITING FILES.**

  Programs of this library touch files through `Files`, three operations in a
  monad: the real ones run in `IO`, and `Files.Tree` runs them on a value, so
  that what a program does to files can be reasoned about.
-/
namespace TenantSync

/-- Why a file could not be read or written. -/
inductive FileFault where
  /-- Nothing has that name. -/
  | notFound
  /-- Something on the way is a file. -/
  | notADirectory
  /-- The name belongs to a directory. -/
  | isADirectory
  /-- A component of the name, or all of it, is too long. -/
  | nameTooLong
  /-- The name holds a NUL. -/
  | invalidName
  /-- Anything else, in words. -/
  | other (message : String)
  deriving DecidableEq, Repr

/-- The fault in the system's words. -/
def FileFault.message : FileFault → String
  | .notFound => "No such file or directory (os error 2)"
  | .notADirectory => "Not a directory (os error 20)"
  | .isADirectory => "Is a directory (os error 21)"
  | .nameTooLong => "File name too long (os error 36)"
  | .invalidName => "file name contained an unexpected NUL byte"
  | .other message => message

/-- Access to files in a monad. -/
structure Files (m : Type → Type) where
  /-- The bytes of a file. -/
  read : String → m (Except FileFault ByteArray)
  /-- Make a file of given bytes, or replace the bytes of one. -/
  write : String → ByteArray → m (Except FileFault Unit)
  /-- Whether a name belongs to a file or a directory. -/
  present : String → m Bool

namespace Files

/-- The longest name of a file, in bytes. -/
def maxName : Nat := 4095

/-- A path below a directory; an absolute path stays as it is. -/
def join (dir path : String) : String :=
  if path.toList.head? == some '/' || dir.isEmpty then path
  else if dir.toList.getLast? == some '/' then dir ++ path
  else dir ++ "/" ++ path

end Files

end TenantSync
