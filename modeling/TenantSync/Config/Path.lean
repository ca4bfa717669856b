/-
  TenantSync.Config.Path
  ──────────────────────
  **IDENTIFIERS OF DOCUMENTS.**

  A document is identified by a path in lexical normal form.  A reference is
  taken relative to the directory of the document it stands in, unless it is
  absolute; empty and `.` components are dropped, and `..` takes back the
  component before it.  What `..` cannot take back stays at the front of a
  relative path and vanishes from an absolute one.
-/
namespace TenantSync.Config.Path

/-- The components of a path, those between slashes. -/
def components : List Char → List (List Char)
  | [] => [[]]
  | c :: rest =>
      if c = '/' then [] :: components rest
      else
        match components rest with
        | [] => [[c]]
        | head :: tail => (c :: head) :: tail

/-- One component on top of a path in normal form, last component first. -/
def push (absolute : Bool) (stack : List (List Char)) (part : List Char) : List (List Char) :=
  if part = [] || part = ['.'] then stack
  else if part = ['.', '.'] then
    match stack with
    | last :: below =>
        if last = ['.', '.'] then if absolute then stack else part :: stack else below
    | [] => if absolute then [] else [part]
  else part :: stack

/-- Components with slashes between them. -/
def join : List (List Char) → List Char
  | [] => []
  | [part] => part
  | part :: rest => part ++ '/' :: join rest

/-- Whether a path begins at the root. -/
def isAbsolute (path : List Char) : Bool := path.head? == some '/'

/-- The lexical normal form of a path. -/
def normalize (path : List Char) : List Char :=
  let absolute := isAbsolute path
  let joined := join ((components path).foldl (push absolute) []).reverse
  if absolute then '/' :: joined else joined

/-- The text before the last slash, if there is a slash. -/
def beforeLastSlash? (path : List Char) : Option (List Char) :=
  match path.reverse.dropWhile (· != '/') with
  | [] => none
  | _ :: before => some before.reverse

/-- The identifier of the document that `reference`, standing in the document
`parent`, refers to. -/
def includeId (parent reference : String) : String :=
  let reference := reference.toList
  let dir := (beforeLastSlash? parent.toList).getD []
  if isAbsolute reference || dir.isEmpty then String.ofList (normalize reference)
  else String.ofList (normalize (dir ++ '/' :: reference))

end TenantSync.Config.Path
