/-
  TenantSync.Yaml.Token
  ─────────────────────
  **THE WORDS OF A YAML STREAM.**

  Indentation is turned into brackets here: a block collection starts with
  `blockSequenceStart` or `blockMappingStart` and ends with `blockEnd`, so that
  what reads tokens never looks at columns.  A `:` may make a key of something
  that was read before it; `slot` holds the place where the key would begin
  until that is decided, and none is left in a finished list.
-/
import TenantSync.Yaml.Tag

namespace TenantSync.Yaml

/-- How a scalar is written. -/
inductive Style where
  | plain
  | singleQuoted
  | doubleQuoted
  | literal
  | folded
  deriving DecidableEq, Repr

/-- A word of a YAML stream. -/
inductive Token where
  | streamEnd
  /-- `%YAML major.minor` -/
  | version (major minor : Nat)
  /-- `%TAG handle expansion` -/
  | tagHandle (handle : String) (expansion : List UInt8)
  | documentStart
  | documentEnd
  | blockSequenceStart
  | blockMappingStart
  | blockEnd
  | flowSequenceStart
  | flowSequenceEnd
  | flowMappingStart
  | flowMappingEnd
  | blockEntry
  | flowEntry
  | key
  | value
  | alias (name : String)
  | anchor (name : String)
  | tag (handle : String) (suffix : List UInt8)
  | scalar (text : String) (style : Style)
  /-- The place where a key begins if a `:` follows. -/
  | slot (id : Nat)
  deriving DecidableEq, Repr

end TenantSync.Yaml
