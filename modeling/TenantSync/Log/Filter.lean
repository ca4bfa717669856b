/-
  TenantSync.Log.Filter
  ─────────────────────
  **WHICH EVENTS ARE LOGGED.**

  A filter is a list of directives with commas between them.  It is written with
  the more specific directives first, and those for spans and fields after the
  others.
-/
import TenantSync.Log.Directive

namespace TenantSync.Log

/-- The directives of a filter, in the order in which they are written. -/
structure Filter where
  /-- Those that can be decided at once. -/
  static : List Directive
  /-- Those that depend on spans. -/
  dynamic : List Directive
  deriving DecidableEq

namespace Filter

/-- The filter of directives. -/
def ofDirectives (ds : List Directive) : Filter :=
  let sort (ds : List Directive) : List Directive := ds.foldl (fun l d => Directive.insert d l) []
  let dynamic := ds.filter Directive.isDynamic
  let static := ds.filter (fun d => !d.isDynamic) ++ dynamic.filter Directive.isStatic
  ⟨sort static, sort dynamic⟩

/-- The parts of a text between commas. -/
def split : List Char → List (List Char)
  | [] => [[]]
  | c :: rest =>
      match split rest with
      | [] => [[c]]
      | head :: tail => if c = ',' then [] :: head :: tail else (c :: head) :: tail

/-- Read a filter; empty directives are passed over, so that an empty text is
the filter without directives. -/
def ofText? (text : String) : Option Filter := do
  let parts := (split text.toList).filter fun p => !p.isEmpty
  return ofDirectives (← parts.mapM Directive.ofText?)

/-- The filter as text. -/
def text (f : Filter) : String :=
  ",".intercalate ((f.static ++ f.dynamic).map Directive.text)

/-- The filter to use: the one of the environment, then that of being verbose,
then the configured one.  A text that is no filter counts as missing, and
`info` is used when nothing is left. -/
def choose (environment : Option String) (verbose : Bool) (configured : String) : Filter :=
  let fallback := ofDirectives [{ level := .info }]
  let level := if verbose then "debug" else configured
  ((environment.bind ofText?).or (ofText? level)).getD fallback

end Filter

end TenantSync.Log
