/-
  TenantSync.Proofs.Settings.Layer
  ────────────────────────────────
  **WHO HAS THE LAST SAY ON A PATH.**

  A path is a list of keys into objects within objects.  A layer touches a path where it
  has something there, or something on the way that is no object and so rules out that
  anything is there.  One layer on top of others:

      touches the path     what it has there counts, up to the entries of an object
      does not touch it    what was there before stays, whatever it was

  Neither depends on what else the layers hold, although an object is merged with the one
  below it and with nothing else.  So of any number of layers the last that touches a path
  decides what is there (`overlayAll_last_say`).
-/
import Mathlib.Data.List.Induction
import TenantSync.Settings.Layer

namespace TenantSync

namespace Value

/-! ## §1. Paths. -/

/-- Whether the value has entries, if only none. -/
def IsObject : Value → Prop
  | .obj _ => True
  | _ => False

instance : DecidablePred IsObject
  | .obj _ => .isTrue trivial
  | .null | .bool _ | .num _ | .str _ | .arr _ => .isFalse id

/-- The value at the end of a path of keys. -/
def at? : List String → Value → Option Value
  | [], v => some v
  | k :: path, v => (v.get? k).bind (at? path)

/-- The value has something at the end of the path, or something on the way that is no
object. -/
def Touches (v : Value) (path : List String) : Prop :=
  (v.at? path).isSome
    ∨ ∃ way, way <+: path ∧ way ≠ path ∧ ∃ stop, v.at? way = some stop ∧ ¬stop.IsObject

/-- A value that is shown without the entries of an object. -/
def outline : Value → Value
  | .obj _ => .obj []
  | v => v

variable {lower upper v w : Value} {k : String} {path : List String}

theorem at?_cons : v.at? (k :: path) = (v.get? k).bind (at? path) := rfl

theorem touches_nil (v : Value) : v.Touches [] := .inl rfl

/-- A longer path is touched by what is no object, or below its first key. -/
theorem touches_cons :
    v.Touches (k :: path) ↔ ¬v.IsObject ∨ ∃ w, v.get? k = some w ∧ w.Touches path := by
  constructor
  · -- the way to what is there, or to what stops it, begins with the first key or not at all
    rintro (hthere | ⟨way, hway, hne, stop, hstop, hobject⟩)
    · obtain ⟨found, hfound⟩ := Option.isSome_iff_exists.1 hthere
      obtain ⟨w, hw, hend⟩ := Option.bind_eq_some_iff.1 hfound
      exact .inr ⟨w, hw, .inl (Option.isSome_iff_exists.2 ⟨found, hend⟩)⟩
    · cases way with
      | nil =>
          cases hstop
          exact .inl hobject
      | cons first way =>
          obtain ⟨rfl, hrest⟩ := List.cons_prefix_cons.1 hway
          obtain ⟨w, hw, hend⟩ := Option.bind_eq_some_iff.1 hstop
          refine .inr ⟨w, hw, .inr ⟨way, hrest, ?_, stop, hend, hobject⟩⟩
          exact fun heq => hne (heq ▸ rfl)
  · rintro (hobject | ⟨w, hw, hthere | ⟨way, hway, hne, stop, hstop, hobject⟩⟩)
    · exact .inr ⟨[], List.nil_prefix, (List.cons_ne_nil k path).symm, v, rfl, hobject⟩
    · left
      rw [at?_cons, hw]
      exact hthere
    · refine .inr ⟨k :: way, List.cons_prefix_cons.2 ⟨rfl, hway⟩, ?_, stop, ?_, hobject⟩
      · exact fun heq => hne (List.cons.inj heq).2
      · rw [at?_cons, hw]
        exact hstop

instance decidableTouches : ∀ (path : List String) (v : Value), Decidable (v.Touches path)
  | [], v => .isTrue (touches_nil v)
  | k :: path, v =>
      match hw : v.get? k with
      | none => decidable_of_iff (¬v.IsObject) <| by simp [touches_cons, hw]
      | some w =>
          have := decidableTouches path w
          decidable_of_iff (¬v.IsObject ∨ w.Touches path) <| by simp [touches_cons, hw]

/-! ## §2. One layer on top of another. -/

theorem outline_overlay (lower upper : Value) : (lower.overlay upper).outline = upper.outline := by
  cases upper with
  | obj => cases lower <;> rfl
  | _ => rfl

theorem overlay_of_not_isObject (h : ¬upper.IsObject) : lower.overlay upper = upper := by
  cases upper with
  | obj => exact absurd trivial h
  | _ => rfl

/-- Each key of the entries laid over others is merged with what the others have under it. -/
theorem lookupEntry_overlayEntries (k : String) {upper : List (String × Value)}
    (hupper : upper.Pairwise fun a b => a.1 < b.1) : ∀ lower : List (String × Value),
      NameMap.lookupEntry k (overlayEntries lower upper) = match NameMap.lookupEntry k upper with
        | none => NameMap.lookupEntry k lower
        | some v => some ((NameMap.lookupEntry k lower).elim v fun below => below.overlay v) := by
  induction upper with
  | nil => exact fun _ => rfl
  | cons e rest ih =>
      intro lower
      obtain ⟨hhead, hrest⟩ := List.pairwise_cons.1 hupper
      rw [overlayEntries, ih hrest, NameMap.lookupEntry]
      by_cases hk : k = e.1
      · -- no further entry has this key
        have hnone : NameMap.lookupEntry k rest = none :=
          NameMap.lookupEntry_eq_none_of_lt fun e' he' => hk ▸ hhead e' he'
        rw [hnone, NameMap.lookupEntry_insertEntry, if_pos hk, if_pos hk, ← hk]
        cases NameMap.lookupEntry k lower <;> rfl
      · rw [NameMap.lookupEntry_insertEntry, if_neg hk, if_neg hk]

/-- What an object laid over a value has under a key. -/
theorem get?_overlay (hupper : upper.IsObject) (hcanonical : upper.Canonical) (k : String) :
    (lower.overlay upper).get? k = match upper.get? k with
      | none => lower.get? k
      | some v => some ((lower.get? k).elim v fun below => below.overlay v) := by
  cases upper with
  | obj entries =>
      cases lower with
      | obj below => exact lookupEntry_overlayEntries k hcanonical.2 below
      | _ =>
          show NameMap.lookupEntry k entries = match NameMap.lookupEntry k entries with
            | none => none
            | some v => some v
          cases NameMap.lookupEntry k entries <;> rfl
  | _ => exact absurd hupper not_false

/-- What stands under a key of a canonical value is canonical. -/
theorem Canonical.get? (h : v.Canonical) (hw : v.get? k = some w) : w.Canonical := by
  cases v with
  | obj entries => exact canonicalEntries_iff.1 h.1 _ (NameMap.mem_of_lookupEntry hw)
  | _ => cases hw

/-- **A layer that touches a path decides what is there**, up to the entries of an object. -/
theorem at?_overlay_of_touches (hcanonical : upper.Canonical) (h : upper.Touches path) :
    ((lower.overlay upper).at? path).map outline = (upper.at? path).map outline := by
  induction path generalizing lower upper with
  | nil => exact congrArg some (outline_overlay lower upper)
  | cons k path ih =>
      by_cases hobject : upper.IsObject
      · -- below the first key it is the entry of `upper` that is laid over what is there
        obtain ⟨w, hw, htouches⟩ := (touches_cons.1 h).resolve_left (not_not_intro hobject)
        rw [at?_cons, at?_cons, get?_overlay hobject hcanonical, hw]
        cases hlower : lower.get? k with
        | none => rfl
        | some below => exact ih (hcanonical.get? hw) htouches
      · rw [overlay_of_not_isObject hobject]

/-- **A layer that does not touch a path leaves what is there as it is.** -/
theorem at?_overlay_of_not_touches (hcanonical : upper.Canonical) (h : ¬upper.Touches path) :
    (lower.overlay upper).at? path = lower.at? path := by
  induction path generalizing lower upper with
  | nil => exact absurd (touches_nil upper) h
  | cons k path ih =>
      rw [touches_cons, not_or, Classical.not_not] at h
      obtain ⟨hobject, hbelow⟩ := h
      rw [at?_cons, at?_cons, get?_overlay hobject hcanonical]
      cases hw : upper.get? k with
      | none => rfl
      | some w =>
          have huntouched : ¬w.Touches path := fun htouches => hbelow ⟨w, hw, htouches⟩
          cases hlower : lower.get? k with
          | none =>
              -- nothing at the end of the way, or the path would be touched
              have hnone : w.at? path = none :=
                Option.not_isSome_iff_eq_none.1 fun hthere => huntouched (.inl hthere)
              exact hnone
          | some below => exact ih (hcanonical.get? hw) huntouched

/-- A value that is shown without entries is an object where the other is one. -/
theorem isObject_iff_of_outline (h : v.outline = w.outline) : v.IsObject ↔ w.IsObject := by
  have houtline : ∀ u : Value, u.outline.IsObject ↔ u.IsObject := fun u => by cases u <;> rfl
  rw [← houtline, h, houtline]

/-- What is no object is there where it is shown. -/
theorem eq_some_of_outline {found said : Option Value} (h : found.map outline = said.map outline)
    (hsaid : said = some v) (hv : ¬v.IsObject) : found = some v := by
  have hplain : ∀ u : Value, ¬u.IsObject → u.outline = u := by
    intro u hu
    cases u with
    | obj => exact absurd trivial hu
    | _ => rfl
  rw [hsaid, Option.map_some, Option.map_eq_some_iff] at h
  obtain ⟨w, hw, houtline⟩ := h
  have hobject := isObject_iff_of_outline houtline
  rw [hw, ← hplain w fun h => hv (hobject.1 h), houtline, hplain v hv]

/-- Under one key, an object laid over a value shows what it has there itself, or else what
the value has. -/
theorem outline_get?_overlay (hupper : upper.IsObject) (hcanonical : upper.Canonical)
    (k : String) :
    ((lower.overlay upper).get? k).map outline
      = ((upper.get? k).or (lower.get? k)).map outline := by
  rw [get?_overlay hupper hcanonical]
  cases upper.get? k with
  | none => rfl
  | some v =>
      cases lower.get? k with
      | none => rfl
      | some below => exact congrArg some (outline_overlay below v)

end Value

/-! ## §3. Layers. -/

namespace Payload

/-- Layers that do not touch a path leave what is there as it is. -/
theorem at?_foldl_of_not_touches {path : List String} (layers : List Payload)
    (h : ∀ layer ∈ layers, ¬layer.value.Touches path) : ∀ below : Payload,
      (layers.foldl overlay below).value.at? path = below.value.at? path := by
  induction layers with
  | nil => exact fun _ => rfl
  | cons layer layers ih =>
      intro below
      obtain ⟨hlayer, hlayers⟩ := List.forall_mem_cons.1 h
      rw [List.foldl_cons, ih hlayers]
      exact Value.at?_overlay_of_not_touches layer.canonical hlayer

/-- What layers come to is, on a path, what the last layer has there that touches it, up to
the entries of an object. -/
theorem outline_overlayAll {path : List String} (below : List Payload) (layer : Payload)
    {above : List Payload} (htouches : layer.value.Touches path)
    (habove : ∀ upper ∈ above, ¬upper.value.Touches path) :
    ((overlayAll (below ++ layer :: above)).value.at? path).map Value.outline
      = (layer.value.at? path).map Value.outline := by
  rw [overlayAll, List.foldl_append, List.foldl_cons, at?_foldl_of_not_touches above habove]
  exact Value.at?_overlay_of_touches layer.canonical htouches

/-- Of layers that are objects, the uppermost with an entry under a key has the say on it. -/
theorem outline_get?_overlayAll (layers : List Payload)
    (hobjects : ∀ layer ∈ layers, layer.value.IsObject) (k : String) :
    ((overlayAll layers).value.get? k).map Value.outline
      = (layers.reverse.findSome? fun layer => layer.value.get? k).map Value.outline := by
  induction layers using List.reverseRecOn with
  | nil => rfl
  | append_singleton layers layer ih =>
      have hlayer := hobjects layer (List.mem_append_right _ List.mem_cons_self)
      have hlayers := ih fun below hbelow => hobjects below (List.mem_append_left _ hbelow)
      rw [overlayAll, List.foldl_append, List.reverse_append]
      show ((Value.overlay (overlayAll layers).value layer.value).get? k).map Value.outline
        = ((layer :: layers.reverse).findSome? fun layer => layer.value.get? k).map Value.outline
      rw [Value.outline_get?_overlay hlayer layer.canonical, List.findSome?_cons]
      cases layer.value.get? k with
      | none => exact hlayers
      | some v => rfl

/-- **The last layer that touches a path has the say on it.**  Where no layer touches the
path, nothing is there.  Else there is something exactly if the last layer that touches it
has something there: the same value if it is no object, and an object if it is one. -/
theorem overlayAll_last_say (layers : List Payload) (path : List String) (hlayers : layers ≠ []) :
    ((∀ layer ∈ layers, ¬layer.value.Touches path) →
        (overlayAll layers).value.at? path = none)
      ∧ ∀ below layer above, layers = below ++ layer :: above → layer.value.Touches path →
        (∀ upper ∈ above, ¬upper.value.Touches path) →
          ((overlayAll layers).value.at? path).isSome = (layer.value.at? path).isSome
            ∧ ∀ v, layer.value.at? path = some v →
              (¬v.IsObject → (overlayAll layers).value.at? path = some v)
                ∧ (v.IsObject →
                  ∃ w, (overlayAll layers).value.at? path = some w ∧ w.IsObject) := by
  constructor
  · intro huntouched
    rw [overlayAll, at?_foldl_of_not_touches layers huntouched]
    cases path with
    | nil =>
        -- the whole of a layer is always there
        obtain ⟨layer, rest, rfl⟩ := List.exists_cons_of_ne_nil hlayers
        exact absurd (Value.touches_nil layer.value) (huntouched layer List.mem_cons_self)
    | cons k path => rfl
  · rintro below layer above rfl htouches habove
    have hsay := outline_overlayAll below layer htouches habove
    refine ⟨?_, fun v hv => ?_⟩
    · rw [← Option.isSome_map, hsay, Option.isSome_map]
    · refine ⟨Value.eq_some_of_outline hsay hv, fun hvalue => ?_⟩
      rw [hv, Option.map_some, Option.map_eq_some_iff] at hsay
      obtain ⟨w, hw, houtline⟩ := hsay
      exact ⟨w, hw, (Value.isObject_iff_of_outline houtline).2 hvalue⟩

/-- A text between two objects: what the lower one had is gone, and the upper one starts
anew. -/
theorem overlayAll_last_say_switched :
    ∃ below layer above : Payload,
      below.value.at? ["push", "force"] = some (.bool true)
        ∧ layer.value.at? ["push"] = some (.str "off")
        ∧ (overlayAll [below, layer, above]).value.at? ["push", "force"] = none
        ∧ (overlayAll [below, layer, above]).value.at? ["push", "drift"] = some (.str "keep") := by
  let below : Payload := .ofValue (.obj [("push", .obj [("force", .bool true)])])
  let layer : Payload := .ofValue (.obj [("push", .str "off")])
  let above : Payload := .ofValue (.obj [("push", .obj [("drift", .str "keep")])])
  have hforce := (overlayAll_last_say [below, layer, above] ["push", "force"]
    (List.cons_ne_nil _ _)).2 [below] layer [above] rfl (by decide +kernel) (by decide +kernel)
  have hdrift := (overlayAll_last_say [below, layer, above] ["push", "drift"]
    (List.cons_ne_nil _ _)).2 [below, layer] above [] rfl (by decide +kernel) (by decide +kernel)
  refine ⟨below, layer, above, by decide +kernel, by decide +kernel, ?_, ?_⟩
  · have hnone : (layer.value.at? ["push", "force"]).isSome = false := by decide +kernel
    exact Option.isNone_iff_eq_none.1 (by rw [← Option.not_isSome, hforce.1, hnone]; rfl)
  · exact (hdrift.2 (.str "keep") (by decide +kernel)).1 (by decide +kernel)

end Payload

end TenantSync
