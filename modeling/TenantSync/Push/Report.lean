/-
  TenantSync.Push.Report
  ──────────────────────
  **WHAT A PUSH SAYS IT DID.**

  Operations and their counts as records, for programs that read them.
-/
import TenantSync.Config.Encode
import TenantSync.Decoder
import TenantSync.Push.Operation

namespace TenantSync.Push

open Decoder

/-- A kind of element, by name. -/
def elementDecoder : Decoder ElementType := text.filterMap ElementType.ofName?

/-- An operation, every field of which has to be there. -/
def Operation.decoder : Decoder Operation := record <|
  Operation.mk <$> required "element_type" elementDecoder <*> required "element_name" Decoder.text
    <*> required "is_added" flag <*> required "is_removed" flag

/-- The record of an operation. -/
def Operation.encode (op : Operation) : Value := .obj
  [("element_type", .str op.element.name), ("element_name", .str op.name),
    ("is_added", .bool op.added), ("is_removed", .bool op.removed)]

/-- The record of counts. -/
def Summary.encode (s : Summary) : Value := .obj
  [("added", .ofUInt64 (.ofNat s.added)), ("removed", .ofUInt64 (.ofNat s.removed)),
    ("replaced", .ofUInt64 (.ofNat s.replaced)), ("unchanged", .ofUInt64 (.ofNat s.unchanged))]

end TenantSync.Push
