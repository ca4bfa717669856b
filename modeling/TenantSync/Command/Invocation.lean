/-
  TenantSync.Command.Invocation
  ─────────────────────────────
  **WHAT THE TOOL IS ASKED TO DO.**

      render ROOT [--sources]
      push ROOT [--dry-run] [--force] [--json] [--state FILE]
                [--only CATEGORY]... [--drift POLICY]
      settings

  Every command also takes `--settings FILE` and `-v` or `--verbose`, in front
  of its name or behind it.  Only `--only` may be repeated.
-/
import TenantSync.Command.Words
import TenantSync.Push.Category

namespace TenantSync.Command

open Push

/-! ## §1. Invocations. -/

/-- What a push is asked to do. -/
structure PushRequest where
  root : String
  dryRun : Bool := false
  force : Bool := false
  json : Bool := false
  state : Option String := none
  only : List Category := []
  drift : Option DriftPolicy := none
  deriving DecidableEq, Repr

/-- A command and its arguments. -/
inductive Request where
  | render (root : String) (sources : Bool)
  | push (p : PushRequest)
  | settings
  deriving DecidableEq, Repr

/-- What the tool is asked to do. -/
structure Invocation where
  request : Request
  settings : Option String
  verbose : Bool
  deriving DecidableEq, Repr

/-! ## §2. Grammars. -/

/-- What may stand in front of the name of a command. -/
def commonGrammar : Grammar where
  short := [('v', "verbose")]
  switches := ["verbose"]
  options := ["settings"]
  version := true

/-- A grammar of a command. -/
def grammarWith (switches options : List String) : Grammar :=
  { commonGrammar with
    switches := commonGrammar.switches ++ switches
    options := commonGrammar.options ++ options
    version := false }

/-- The names of the commands, and their switches and options. -/
def commands : List (String × Grammar) :=
  [("render", grammarWith ["sources"] []),
    ("push", grammarWith ["dry-run", "force", "json"] ["state", "only", "drift"]),
    ("settings", grammarWith [] [])]

/-! ## §3. Checks on words. -/

/-- Options whose value must not be empty. -/
def pathOptions : List String := ["settings", "state"]

/-- Options that may be repeated. -/
def repeatable : List String := ["only"]

/-- Whether the value of an option is acceptable. -/
def valueFits (name value : String) : Bool :=
  if name = "only" then (Category.parse value).isOk
  else if name = "drift" then (DriftPolicy.parse value).isOk
  else !pathOptions.contains name || !value.isEmpty

/-- The name of a word that must not be repeated. -/
def uniqueName? : Word → Option String
  | .switch name => some name
  | .option name _ => if repeatable.contains name then none else some name
  | .operand _ => none

/-- Whether a word fits behind others, of which at most `most` may be operands. -/
def wordFits (most : Nat) (before : List Word) (w : Word) : Bool :=
  match w with
  | .operand _ => before.countP (fun w => w matches .operand _) < most
  | .option name value => valueFits name value && isNew
  | .switch _ => isNew
where
  /-- Whether nothing of the same name comes before. -/
  isNew : Bool :=
    (uniqueName? w).all fun name => before.all fun b => uniqueName? b != some name

/-- Whether words fit one after the other. -/
def wordsFit (most : Nat) (before : List Word) : List Word → Bool
  | [] => true
  | w :: rest => wordFits most before w && wordsFit most (before ++ [w]) rest

/-- The words of a reading, if they fit and it went to the end. -/
def accept (most : Nat) (r : Reading) : Except Stop (List Word) :=
  if !wordsFit most [] r.words then .error .refused
  else match r.stop with
    | some stop => .error stop
    | none => .ok r.words

/-! ## §4. From words to an invocation. -/

/-- The last value of an option. -/
def valueOf (name : String) (words : List Word) : Option String :=
  words.foldl
    (fun found w => match w with
      | .option n v => if n = name then some v else found
      | _ => found)
    none

/-- Every value of an option. -/
def valuesOf (name : String) (words : List Word) : List String :=
  words.filterMap fun
    | .option n v => if n = name then some v else none
    | _ => none

/-- The first operand. -/
def operand? (words : List Word) : Option String :=
  words.findSome? fun
    | .operand text => some text
    | _ => none

/-- Whether a switch is set. -/
def isSet (name : String) (words : List Word) : Bool := words.contains (.switch name)

/-- The request of a command and its words. -/
def requestOf (command : String) (words : List Word) : Except Stop Request :=
  if command = "settings" then .ok .settings
  else
    match operand? words with
    | none => .error .refused
    | some root =>
        if command = "render" then .ok (.render root (isSet "sources" words))
        else .ok <| .push {
          root
          dryRun := isSet "dry-run" words
          force := isSet "force" words
          json := isSet "json" words
          state := valueOf "state" words
          only := (valuesOf "only" words).filterMap fun v => (Category.parse v).toOption
          drift := (valueOf "drift" words).bind fun v => (DriftPolicy.parse v).toOption }

/-- The number of operands a command takes at most. -/
def operandsOf (command : String) : Nat := if command = "settings" then 0 else 1

/-- The command `help`, which may be given the name of one command. -/
def helpOf : List String → Stop
  | [] => .help
  | [name] => if (commands.lookup name).isSome || name = "help" then .help else .refused
  | _ => .refused

/-- Understand arguments. -/
def Invocation.ofArguments (args : List String) : Except Stop Invocation := do
  let front := read commonGrammar false args
  let frontWords ← accept 0 front
  match front.rest with
  | [] => .error .refused
  | command :: rest =>
      match commands.lookup command with
      | none => .error (if command = "help" then helpOf rest else .refused)
      | some grammar =>
          let words ← accept (operandsOf command) (read grammar true rest)
          return {
            request := ← requestOf command words
            settings := (valueOf "settings" words).or (valueOf "settings" frontWords)
            verbose := isSet "verbose" words || isSet "verbose" frontWords }

end TenantSync.Command
