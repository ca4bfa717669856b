/-
  TenantSync.Settings.Layer
  ─────────────────────────
  **LAYERS OF SETTINGS.**

  A layer is free-form data, laid over the ones before it:

      object over object   merged key by key, in depth
      anything else        the upper one counts, as a whole

  So a list is replaced and never extended, and null is a value like any other.
  The keys of an object stay in order, whatever is laid over it.
-/
import TenantSync.Value

namespace TenantSync

namespace Value

mutual

/-- `upper` laid over `lower`. -/
def overlay (lower : Value) : Value → Value
  | .obj upper =>
      match lower with
      | .obj entries => .obj (overlayEntries entries upper)
      | _ => .obj upper
  | v => v

/-- Entries laid over the entries of an object, one after the other. -/
def overlayEntries (lower : List (String × Value)) :
    List (String × Value) → List (String × Value)
  | [] => lower
  | (k, v) :: rest =>
      let merged := match NameMap.lookupEntry k lower with
        | some below => below.overlay v
        | none => v
      overlayEntries (NameMap.insertEntry k merged lower) rest

end

mutual

theorem overlay_canonical : ∀ {lower upper : Value}, lower.Canonical → upper.Canonical →
    (lower.overlay upper).Canonical
  | lower, .obj upper, hl, hu => by
    cases lower with
    | obj entries =>
      exact overlayEntries_canonical hl.1 hl.2 (canonicalEntries_iff.1 hu.1)
    | null | bool | num | str | arr => exact hu
  | _, .null, _, hu => hu
  | _, .bool _, _, hu => hu
  | _, .num _, _, hu => hu
  | _, .str _, _, hu => hu
  | _, .arr _, _, hu => hu

theorem overlayEntries_canonical : ∀ {lower upper : List (String × Value)},
    CanonicalEntries lower → lower.Pairwise (fun a b => a.1 < b.1) →
    (∀ e ∈ upper, Canonical e.2) →
    (Value.obj (overlayEntries lower upper)).Canonical
  | _, [], hl, ha, _ => ⟨hl, ha⟩
  | lower, (k, v) :: rest, hl, ha, hu => by
    have hv : v.Canonical := hu (k, v) List.mem_cons_self
    have hrest : ∀ e ∈ rest, Canonical e.2 := fun e he => hu e (List.mem_cons_of_mem _ he)
    have hmerged : Canonical (match NameMap.lookupEntry k lower with
        | some below => below.overlay v
        | none => v) := by
      split
      next below h =>
        exact overlay_canonical
          (canonicalEntries_iff.1 hl _ (NameMap.mem_of_lookupEntry h)) hv
      next => exact hv
    rw [overlayEntries]
    refine overlayEntries_canonical (canonicalEntries_iff.2 fun e he => ?_)
      (NameMap.insertEntry_ascending k _ ha) hrest
    rcases NameMap.mem_insertEntry he with rfl | he
    · exact hmerged
    · exact canonicalEntries_iff.1 hl e he

end

end Value

namespace Payload

/-- `upper` laid over `lower`. -/
def overlay (lower upper : Payload) : Payload :=
  ⟨lower.value.overlay upper.value, Value.overlay_canonical lower.canonical upper.canonical⟩

/-- Layers laid over each other, the first at the bottom; null without any. -/
def overlayAll (layers : List Payload) : Payload := layers.foldl overlay .null

end Payload

end TenantSync
