/-
  TenantSync.Log.Level
  ────────────────────
  **HOW MUCH IS LET THROUGH.**

  Six levels, from `off` to `trace`.  A level is named by its word in any case,
  or by its number, counted from the most silent.
-/
import TenantSync.Number.Numeral

namespace TenantSync.Log

/-- How much is let through. -/
inductive Level where
  | off
  | error
  | warn
  | info
  | debug
  | trace
  deriving DecidableEq, Repr

namespace Level

/-- Every level, the most silent first. -/
def all : List Level := [.off, .error, .warn, .info, .debug, .trace]

/-- The name of a level. -/
def name : Level → String
  | .off => "off"
  | .error => "error"
  | .warn => "warn"
  | .info => "info"
  | .debug => "debug"
  | .trace => "trace"

/-- The level of a word: its name in any case, or its number. -/
def ofWord? (cs : List Char) : Option Level :=
  match Numeral.unsigned? cs with
  | some n => all[n]?
  | none => all.find? fun l => l.name.toList == cs.map Char.toLower

end Level

end TenantSync.Log
