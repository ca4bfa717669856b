/-
  TenantSync.Files.Tree
  ─────────────────────
  **FILES AS A VALUE.**

  A tree of files is a list of directories and files under absolute names, each
  name a list of components, together with the directory that relative names
  start from.  A name is followed component by component: whatever is passed
  through has to be a directory, `.` stays, and `..` goes up, the root being
  above itself.
-/
import TenantSync.Config.Path
import TenantSync.Files.Basic

namespace TenantSync

/-- What a name stands for. -/
inductive FileEntry where
  | directory
  | file (bytes : ByteArray)

/-- Directories and files, and where relative names start. -/
structure FileTree where
  entries : List (List String × FileEntry)
  current : List String

namespace FileTree

/-- What an absolute name stands for; the root is always a directory. -/
def at? (t : FileTree) (name : List String) : Option FileEntry :=
  if name.isEmpty then some .directory else t.entries.lookup name

/-- The tree with an entry put in or replaced. -/
def put (t : FileTree) (name : List String) (e : FileEntry) : FileTree :=
  { t with entries := (name, e) :: t.entries.filter (fun x => x.1 != name) }

/-- The tree with a directory and all directories above it; what is there stays. -/
def ensureDirectory (t : FileTree) (name : List String) : FileTree :=
  (List.range name.length).foldl
    (fun t i =>
      let above := name.take (i + 1)
      if (t.at? above).isSome then t else t.put above .directory) t

/-- A file system with one empty directory, the current one. -/
def empty (current : List String) : FileTree :=
  (FileTree.mk [] current).ensureDirectory current

/-- The longest component of a name, in bytes. -/
def maxComponent : Nat := 255

/-- Follow components from an absolute name. -/
def walk (t : FileTree) : List String → List String → Except FileFault (List String)
  | here, [] => .ok here
  | here, part :: rest =>
      match t.at? here with
      | none => .error .notFound
      | some (.file _) => .error .notADirectory
      | some .directory =>
          if part == "" || part == "." then t.walk here rest
          else if part == ".." then t.walk here.dropLast rest
          else if maxComponent < part.utf8ByteSize then .error .nameTooLong
          else t.walk (here ++ [part]) rest

/-- Follow components of a path from where it starts. -/
def follow (t : FileTree) (path : String) (parts : List String) :
    Except FileFault (List String) :=
  if path.toList.contains '\x00' then .error .invalidName
  else if path.isEmpty then .error .notFound
  else if Files.maxName < path.utf8ByteSize then .error .nameTooLong
  else t.walk (if path.toList.head? == some '/' then [] else t.current) parts

/-- The components of a path, those between slashes. -/
def partsOf (path : String) : List String :=
  (Config.Path.components path.toList).map String.ofList

/-- The absolute name that a path leads to. -/
def locate (t : FileTree) (path : String) : Except FileFault (List String) :=
  t.follow path (partsOf path)

/-- The components that are followed to make a file.  A slash at the end asks for
a directory, whatever the name before it stands for: the way then ends at the
directory that holds the name, and no file can be made there. -/
def partsToMake (path : String) : List String :=
  let parts := partsOf path
  let named := (parts.reverse.dropWhile (· == "")).reverse
  match named.getLast? with
  | some last =>
      if named.length < parts.length && last != "." && last != ".." then named.dropLast ++ ["."]
      else parts
  | none => parts

/-- The bytes of a file. -/
def read (t : FileTree) (path : String) : Except FileFault ByteArray := do
  match t.at? (← t.locate path) with
  | some (.file bytes) => return bytes
  | some .directory => throw .isADirectory
  | none => throw .notFound

/-- The tree with the bytes of a file made or replaced. -/
def write (t : FileTree) (path : String) (bytes : ByteArray) : Except FileFault FileTree := do
  let name ← t.follow path (partsToMake path)
  match t.at? name with
  | some .directory => throw .isADirectory
  | _ => return t.put name (.file bytes)

/-- Whether a path leads to something. -/
def isPresent (t : FileTree) (path : String) : Bool :=
  match t.locate path with
  | .ok name => (t.at? name).isSome
  | .error _ => false

/-- The operations on files, run on a tree. -/
def files : Files (StateM FileTree) where
  read path := return (← get).read path
  write path bytes := do
    match (← get).write path bytes with
    | .ok t => set t; return .ok ()
    | .error fault => return .error fault
  present path := return (← get).isPresent path

end FileTree

end TenantSync
