/-
  TenantSync.Command.Words
  ────────────────────────
  **A COMMAND LINE TAKEN APART.**

  A grammar says which switches and options there are.  Arguments are read from
  the left into words:

      --name          a switch
      --name value    an option; the value must not look like a switch
      --name=value    an option
      -xy             one-letter switches
      --              everything behind it is an operand
      anything else   an operand

  Reading stops at the first argument that does not fit, and at a request for
  help or for the version; the words before it are kept, because a fault in them
  is reported first.
-/
namespace TenantSync.Command

/-- The switches and options of a command. -/
structure Grammar where
  /-- One-letter names of switches. -/
  short : List (Char × String)
  switches : List String
  /-- The names that are followed by a value. -/
  options : List String
  /-- Whether the version may be asked for. -/
  version : Bool

/-- A word of a command line. -/
inductive Word where
  | switch (name : String)
  | option (name value : String)
  | operand (text : String)
  deriving DecidableEq, Repr

/-- Why reading stopped before the end. -/
inductive Stop where
  /-- An argument does not fit. -/
  | refused
  | help
  | version
  deriving DecidableEq, Repr

/-- Words, what stopped the reading, and what was not read. -/
structure Reading where
  words : List Word := []
  stop : Option Stop := none
  rest : List String := []
  deriving DecidableEq, Repr

namespace Reading

/-- With a word in front. -/
def after (w : Word) (r : Reading) : Reading := { r with words := w :: r.words }

/-- Nothing but a reason to stop. -/
def stopped (s : Stop) : Reading := { stop := some s }

end Reading

/-- Whether an argument looks like a switch. -/
def isDashed (arg : String) : Bool := arg.toList.head? == some '-' && arg != "-"

/-- The one-letter switches of an argument, up to one that stops. -/
def letters (g : Grammar) : List Char → List Word × Option Stop
  | [] => ([], none)
  | c :: rest =>
      match g.short.lookup c with
      | some name =>
          let (words, stop) := letters g rest
          (.switch name :: words, stop)
      | none =>
          if c = 'h' then ([], some .help)
          else if c = 'V' && g.version then ([], some .version)
          else ([], some .refused)

/-- A long name, and the value given with it. -/
def longName (arg : String) : String × Option String :=
  let cs := arg.toList.drop 2
  let name := String.ofList (cs.takeWhile (· != '='))
  match cs.dropWhile (· != '=') with
  | _ :: value => (name, some (String.ofList value))
  | [] => (name, none)

/-- Read arguments.  With `whole` unset reading ends before the first operand. -/
def read (g : Grammar) (whole : Bool) : List String → Reading
  | [] => {}
  | arg :: rest =>
      if arg = "--" then { words := rest.map .operand }
      else if arg.startsWith "--" then
        let (name, value) := longName arg
        if g.options.contains name then
          match value, rest with
          | some value, rest => (read g whole rest).after (.option name value)
          | none, value :: rest =>
              if isDashed value then .stopped .refused
              else (read g whole rest).after (.option name value)
          | none, [] => .stopped .refused
        else if value.isSome then .stopped .refused
        else if g.switches.contains name then (read g whole rest).after (.switch name)
        else if name = "help" then .stopped .help
        else if name = "version" && g.version then .stopped .version
        else .stopped .refused
      else if isDashed arg then
        match letters g (arg.toList.drop 1) with
        | (words, some stop) => { words, stop := some stop }
        | (words, none) => words.foldr .after (read g whole rest)
      else if whole then (read g whole rest).after (.operand arg)
      else { rest := arg :: rest }

end TenantSync.Command
