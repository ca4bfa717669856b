/-
  TenantSync.Tenant.Remote
  ────────────────────────
  **ELEMENTS AS A TENANT HOLDS THEM.**

  A tenant adds to each element what it knows about it by itself: an identifier,
  who made it and when.  None of that is content.
-/
import TenantSync.Config.Decode
import TenantSync.Config.Encode
import TenantSync.Timestamp

namespace TenantSync

/-- What a tenant knows about an element by itself. -/
structure Meta where
  id : Option String := none
  createdBy : Option String := none
  createdAt : Option Timestamp := none
  updatedAt : Option Timestamp := none
  deriving DecidableEq, Repr

/-- An element as a tenant holds it. -/
structure Remote (α : Type) where
  body : α
  info : Meta := {}
  deriving DecidableEq

open Decoder in
/-- A point in time. -/
def Timestamp.decoder : Decoder Timestamp := text.filterMap Timestamp.ofText?

/-- A point in time as a value. -/
def Timestamp.encode (t : Timestamp) : Value := .str t.format

namespace Meta

open Decoder

/-- What a tenant knows about an element. -/
def decoder : Decoder Meta := record <|
  Meta.mk <$> field "id" (optional text) none <*> field "created_by" (optional text) none
    <*> field "created_at" (optional Timestamp.decoder) none
    <*> field "updated_at" (optional Timestamp.decoder) none

/-- The record of what a tenant knows about an element. -/
def encode (m : Meta) : Value := .obj <|
  (m.id.map fun s => ("id", Value.str s)).toList
    ++ (m.createdBy.map fun s => ("created_by", Value.str s)).toList
    ++ (m.createdAt.map fun t => ("created_at", t.encode)).toList
    ++ (m.updatedAt.map fun t => ("updated_at", t.encode)).toList

end Meta

namespace Remote

open Decoder

variable {α : Type}

/-- An element, its body read by `d`; the body has to be there. -/
def decoder (d : Decoder α) : Decoder (Remote α) := record <|
  Remote.mk <$> required "body" d <*> field "meta" Meta.decoder {}

/-- The record of an element, its body written by `f`. -/
def encode (f : α → Value) (r : Remote α) : Value := .obj
  [("body", f r.body), ("meta", r.info.encode)]

end Remote

end TenantSync
