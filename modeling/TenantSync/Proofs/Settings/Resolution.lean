/-
  TenantSync.Proofs.Settings.Resolution
  ─────────────────────────────────────
  **SETTINGS ARE WHAT THE HIGHEST LAYERS SAY.**

  Four keys are read from the merged layers.  What is no object is never merged: under such
  a key there is what the highest layer has that has the key, or else an object, which is
  refused as this layer's own would be.  So the settings are those that the highest layers
  spell, one key at a time, and there are none exactly where one of these values is not
  what it has to be (`load_highest`).  What lower layers have under the key is of no
  concern, be it right or wrong.
-/
import TenantSync.Files.Tree
import TenantSync.Proofs.Exec
import TenantSync.Proofs.Settings.Layer
import TenantSync.Settings.Load

namespace TenantSync

/-! ## §1. Names. -/

namespace Push

/-- A policy is parsed from its name, and from nothing else. -/
theorem DriftPolicy.parse_eq_ok {s : String} {d : DriftPolicy} :
    DriftPolicy.parse s = .ok d ↔ s = d.name := by
  unfold DriftPolicy.parse
  by_cases hkeep : s = "keep"
  · subst hkeep
    cases d <;> decide
  · by_cases hreplace : s = "replace"
    · subst hreplace
      cases d <;> decide
    · rw [if_neg hkeep, if_neg hreplace]
      cases d with
      | keep => exact ⟨nofun, fun h => absurd h hkeep⟩
      | replace => exact ⟨nofun, fun h => absurd h hreplace⟩

theorem Category.name_injective : Function.Injective Category.name := by
  intro c d
  cases c <;> cases d <;> decide

/-- A category is parsed from its name, and from nothing else. -/
theorem Category.parse_eq_ok {s : String} {c : Category} :
    Category.parse s = .ok c ↔ s = c.name := by
  have hall : c ∈ Category.all := by cases c <;> decide
  unfold Category.parse
  cases hfind : Category.all.find? fun c => c.name == s with
  | none =>
      refine ⟨nofun, fun h => ?_⟩
      exact absurd (beq_iff_eq.2 h.symm) (List.find?_eq_none.1 hfind c hall)
  | some d =>
      have hname := List.find?_some hfind
      simp only [beq_iff_eq] at hname
      constructor
      · intro h
        cases h
        exact hname.symm
      · intro h
        exact congrArg _ (Category.name_injective (hname.trans h))

end Push

namespace Settings

open Push

/-! ## §2. What values spell. -/

/-- The settings that values spell, one for each key. -/
structure Spelt (value : String → Option Value) (r : Resolved) : Prop where
  logLevel : value "log_level" = some (.str r.logLevel) ∧ r.logLevel ≠ ""
  stateFile : value "state_file" = some (.str r.stateFile) ∧ r.stateFile ≠ ""
  drift : value "drift" = some (.str r.drift.name)
  /-- The names of categories, in order and as often as they are listed. -/
  categories : value "categories" = some (categoryNames r.categories)

/-- A text is read from a value that is one, and not empty. -/
theorem nonempty?_eq_ok {v : Value} {e : Invalid} {s : String} :
    (nonempty? v).elim (.error e) Except.ok = .ok s ↔ v = .str s ∧ s ≠ "" := by
  cases v with
  | str t =>
      by_cases ht : t = ""
      · subst ht
        refine ⟨nofun, ?_⟩
        rintro ⟨heq, hne⟩
        cases heq
        exact absurd rfl hne
      · have hempty : t.isEmpty = false := by simpa using ht
        simp only [nonempty?, hempty, Bool.false_eq_true, if_false, Option.elim_some,
          Except.ok.injEq, Value.str.injEq]
        exact ⟨fun h => ⟨h, h ▸ ht⟩, And.left⟩
  | _ => exact ⟨nofun, fun h => nomatch h.1⟩

theorem driftOf_eq_ok {v : Value} {d : DriftPolicy} : driftOf v = .ok d ↔ v = .str d.name := by
  cases v with
  | str s =>
      rw [driftOf, mapError_eq_ok, DriftPolicy.parse_eq_ok, Value.str.injEq]
  | _ => exact ⟨nofun, nofun⟩

theorem categoryOf_eq_ok {v : Value} {c : Category} : categoryOf v = .ok c ↔ v = .str c.name := by
  cases v with
  | str s =>
      rw [categoryOf, mapError_eq_ok, Category.parse_eq_ok, Value.str.injEq]
  | _ => exact ⟨nofun, nofun⟩

theorem mapM_categoryOf_eq_ok {items : List Value} : ∀ {cs : List Category},
    items.mapM categoryOf = .ok cs ↔ items = cs.map fun c => .str c.name := by
  induction items with
  | nil =>
      intro cs
      cases cs with
      | nil => exact ⟨fun _ => rfl, fun _ => rfl⟩
      | cons c cs => exact ⟨nofun, nofun⟩
  | cons item items ih =>
      intro cs
      rw [List.mapM_cons, bind_eq_ok]
      constructor
      · rintro ⟨c, hc, h⟩
        obtain ⟨cs', hcs', h⟩ := bind_eq_ok.1 h
        cases h
        rw [categoryOf_eq_ok.1 hc, ih.1 hcs']
        rfl
      · intro h
        cases cs with
        | nil => cases h
        | cons c cs =>
            obtain ⟨hc, hcs⟩ := List.cons.inj h
            exact ⟨c, categoryOf_eq_ok.2 hc, bind_eq_ok.2 ⟨cs, ih.2 hcs, rfl⟩⟩

theorem categoriesOf_eq_ok {v : Value} {cs : List Category} :
    categoriesOf v = .ok cs ↔ v = categoryNames cs := by
  cases v with
  | arr items =>
      rw [categoriesOf, mapM_categoryOf_eq_ok, categoryNames, Value.arr.injEq]
  | _ => exact ⟨nofun, nofun⟩

/-- A value other than null is there for a key exactly if it is read for the key. -/
theorem getD_null_eq {found : Option Value} {v : Value} (hv : v ≠ .null) :
    found.getD .null = v ↔ found = some v := by
  cases found with
  | none => exact ⟨fun h => absurd h.symm hv, nofun⟩
  | some w => exact ⟨congrArg some, Option.some.inj⟩

/-- **Values resolve to the settings that they spell.** -/
theorem resolve_eq_ok_iff {values : Value} {r : Resolved} :
    resolve values = .ok r ↔ Spelt values.get? r := by
  unfold resolve
  simp only [bind_eq_ok, nonempty?_eq_ok, driftOf_eq_ok, categoriesOf_eq_ok, categoryNames,
    getD_null_eq, ne_eq, reduceCtorEq, not_false_eq_true]
  constructor
  · rintro ⟨logLevel, hlog, stateFile, hstate, drift, hdrift, categories, hcategories, h⟩
    cases h
    exact ⟨hlog, hstate, hdrift, hcategories⟩
  · intro h
    exact ⟨r.logLevel, h.logLevel, r.stateFile, h.stateFile, r.drift, h.drift, r.categories,
      h.categories, rfl⟩

/-! ## §3. Layers. -/

/-- The layers of a file and of the command line, highest first. -/
def layersFrom (user : Option FileLayer) (cli : Option Payload) : List Payload :=
  cli.toList ++ (user.map FileLayer.values).toList ++ [builtin]

/-- The value that the highest layer has under a key. -/
def highest (user : Option FileLayer) (cli : Option Payload) (key : String) : Option Value :=
  (layersFrom user cli).findSome? fun layer => layer.value.get? key

/-- The layers, lowest first. -/
theorem reverse_layersFrom (user : Option FileLayer) (cli : Option Payload) :
    (layersFrom user cli).reverse
      = builtin :: ((user.map FileLayer.values).toList ++ cli.toList) := by
  cases user <;> cases cli <;> rfl

/-- Values that look alike spell the same settings. -/
theorem Spelt.congr {value value' : String → Option Value} {r : Resolved}
    (houtline : ∀ key, (value' key).map Value.outline = (value key).map Value.outline)
    (h : Spelt value r) : Spelt value' r where
  logLevel := ⟨Value.eq_some_of_outline (houtline _) h.logLevel.1 not_false, h.logLevel.2⟩
  stateFile := ⟨Value.eq_some_of_outline (houtline _) h.stateFile.1 not_false, h.stateFile.2⟩
  drift := Value.eq_some_of_outline (houtline _) h.drift not_false
  categories := Value.eq_some_of_outline (houtline _) h.categories not_false

/-- Settings are resolved from all layers, laid over each other. -/
theorem ofLayers_resolved (user : Option FileLayer) (cli : Option Payload) :
    (ofLayers user cli).map Settings.resolved
      = resolve (Payload.overlayAll (layersFrom user cli).reverse).value := by
  rw [reverse_layersFrom]
  unfold ofLayers
  dsimp only
  cases resolve (Payload.overlayAll
    (builtin :: ((user.map FileLayer.values).toList ++ cli.toList))).value <;> rfl

section Layers

variable {user : Option FileLayer} {cli : Option Payload}
  (htable : ∀ layer ∈ user, layer.values.value.IsObject)
  (hcli : ∀ layer ∈ cli, layer.value.IsObject)
include htable hcli

/-- **Layers spell what the highest of them do.** -/
theorem ofLayers_resolved_eq_ok {r : Resolved} :
    (ofLayers user cli).map Settings.resolved = .ok r ↔ Spelt (highest user cli) r := by
  have hobjects : ∀ layer ∈ (layersFrom user cli).reverse, layer.value.IsObject := by
    intro layer hlayer
    rw [List.mem_reverse, layersFrom, List.mem_append, List.mem_append, List.mem_singleton,
      Option.mem_toList, Option.mem_toList] at hlayer
    rcases hlayer with (hlayer | hlayer) | rfl
    · exact hcli layer hlayer
    · obtain ⟨file, hfile, rfl⟩ := Option.map_eq_some_iff.1 hlayer
      exact htable file hfile
    · exact trivial
  have houtline := Payload.outline_get?_overlayAll _ hobjects
  rw [List.reverse_reverse] at houtline
  rw [ofLayers_resolved, resolve_eq_ok_iff]
  exact ⟨Spelt.congr fun key => (houtline key).symm, Spelt.congr houtline⟩

end Layers

/-! ## §4. Files. -/

variable {σ : Type}

/-- Once the user's layer was read, settings come from the layers. -/
theorem execState_load {files : Files (StateM σ)} {path : Option String} {w : σ}
    {user : Option FileLayer} (cli : Option Payload)
    (huser : (execState (readLayer files path) w).1 = .ok user) :
    (execState (load files path cli) w).1 = (ofLayers user cli).mapError .invalid := by
  unfold load
  rw [execState_bind, huser]
  rfl

/-- Settings that were loaded are those of the layers of a file, or none, and of the
command line. -/
theorem load_eq_ok {files : Files (StateM σ)} {path : Option String} {cli : Option Payload} {w : σ}
    {s : Settings} (h : (execState (load files path cli) w).1 = .ok s) :
    ∃ user : Option FileLayer, s.values = Payload.overlayAll (layersFrom user cli).reverse
      ∧ Spelt s.values.value.get? s.resolved := by
  cases huser : (execState (readLayer files path) w).1 with
  | error e =>
      unfold load at h
      rw [execState_bind, huser] at h
      cases h
  | ok user =>
      rw [execState_load cli huser, mapError_eq_ok] at h
      refine ⟨user, ?_⟩
      rw [reverse_layersFrom]
      unfold ofLayers at h
      obtain ⟨r, hr, hs⟩ := bind_eq_ok.1 h
      cases hs
      exact ⟨rfl, resolve_eq_ok_iff.1 hr⟩

/-- What the command line has under a key counts, unless it is an object. -/
theorem get?_of_load {files : Files (StateM σ)} {path : Option String} {cli : Payload} {w : σ}
    {s : Settings} (h : (execState (load files path (some cli)) w).1 = .ok s)
    (hcli : cli.value.IsObject) {key : String} {v : Value} (hv : cli.value.get? key = some v)
    (hplain : ¬v.IsObject) : s.values.value.get? key = some v := by
  obtain ⟨user, hvalues, -⟩ := load_eq_ok h
  have hlayers : (layersFrom user (some cli)).reverse
      = (layersFrom user none).reverse ++ [cli] := List.reverse_cons
  rw [hvalues, hlayers, Payload.overlayAll, List.foldl_append]
  show (Value.overlay _ cli.value).get? key = some v
  rw [Value.get?_overlay hcli cli.canonical, hv]
  cases Value.get? key _ with
  | none => rfl
  | some below => exact congrArg some (Value.overlay_of_not_isObject hplain)

/-- **Settings are what the highest layers say.**  With a table in the user's file, or no
file, and an object from the command line, or none, there are settings exactly if the
values that the highest layers have under the four keys spell some, and then those; else
what is wrong with a value is told. -/
theorem load_highest (files : Files (StateM σ)) (path : Option String) (w : σ)
    (user : Option FileLayer) (cli : Option Payload)
    (huser : (execState (readLayer files path) w).1 = .ok user)
    (htable : ∀ layer ∈ user, layer.values.value.IsObject)
    (hcli : ∀ layer ∈ cli, layer.value.IsObject) :
    (∀ r, (∃ s, (execState (load files path cli) w).1 = .ok s ∧ s.resolved = r)
        ↔ Spelt (highest user cli) r)
      ∧ ((¬∃ r, Spelt (highest user cli) r) →
        ∃ why, (execState (load files path cli) w).1 = .error (.invalid why)) := by
  have hresolved := @ofLayers_resolved_eq_ok user cli htable hcli
  rw [execState_load cli huser]
  cases hlayers : ofLayers user cli with
  | error why =>
      rw [hlayers] at hresolved
      have hnone : ∀ r, ¬Spelt (highest user cli) r := fun r h => nomatch hresolved.2 h
      refine ⟨fun r => ⟨?_, fun h => absurd h (hnone r)⟩, fun _ => ⟨why, rfl⟩⟩
      rintro ⟨s, hs, -⟩
      cases hs
  | ok s =>
      rw [hlayers] at hresolved
      refine ⟨fun r => ⟨?_, fun h => ?_⟩, fun h => absurd ⟨s.resolved, hresolved.1 rfl⟩ h⟩
      · rintro ⟨s', hs', rfl⟩
        cases hs'
        exact hresolved.1 rfl
      · exact ⟨s, rfl, Except.ok.inj (hresolved.2 h)⟩

/-- A wrong policy in the user's file does no harm below a right one, and right categories
there do not help below wrong ones. -/
theorem load_highest_overridden :
    let text := "drift = \"sometimes\"\nlog_level = \"warn\"\ncategories = [\"rules\"]\n"
    let w : FileTree := ⟨[(["settings.toml"], .file text.toUTF8)], []⟩
    let cli (categories : List String) : Payload := .ofValue (.obj
      [("drift", .str "replace"), ("categories", .arr (categories.map .str))])
    let outcome (categories : List String) := (execState
      (load FileTree.files (some "settings.toml") (some (cli categories))) w).1
    (∃ s, outcome ["org-value", "rules", "org-value"] = .ok s
        ∧ s.resolved = ⟨"warn", "orgsync-state.json", .replace, [.orgValues, .rules, .orgValues]⟩)
      ∧ ∃ why, outcome ["rules", "widgets"] = .error (.invalid why) := by
  intro text w cli outcome
  let table : Value := .obj [("drift", .str "sometimes"), ("log_level", .str "warn"),
    ("categories", .arr [.str "rules"])]
  let layer : FileLayer := ⟨"settings.toml", Digest.hexOf text.toUTF8, .ofValue table⟩
  have htext : (String.fromUTF8? text.toUTF8).bind Toml.ofText? = some table := by decide +kernel
  have hread : (execState (FileTree.files.read "settings.toml") w).1 = .ok text.toUTF8 := by
    decide +kernel
  have huser : (execState (readLayer FileTree.files (some "settings.toml")) w).1
      = .ok (some layer) := by
    have hpresent : (execState (FileTree.files.present "settings.toml") w).1 = true := by
      decide +kernel
    unfold readLayer
    simp only
    rw [execState_bind, hpresent]
    show (execState (FileTree.files.read "settings.toml" >>= _) w).1 = _
    rw [execState_bind, hread]
    show (layerOf "settings.toml" text.toUTF8).map some = _
    unfold layerOf
    rw [htext]
    rfl
  have hload (categories : List String) := load_highest FileTree.files (some "settings.toml") w
    (some layer) (some (cli categories)) huser
    (fun l hl => by cases hl; exact trivial) (fun l hl => by cases hl; exact trivial)
  constructor
  · refine ((hload _).1 _).2 ⟨?_, ?_, ?_, ?_⟩ <;> decide +kernel
  · refine (hload _).2 ?_
    rintro ⟨r, hr⟩
    have hlisted : highest (some layer) (some (cli ["rules", "widgets"])) "categories"
        = some (.arr [.str "rules", .str "widgets"]) := by
      decide +kernel
    have hok : categoriesOf (.arr [.str "rules", .str "widgets"]) = .ok r.categories :=
      categoriesOf_eq_ok.2 (Option.some.inj (hlisted.symm.trans hr.categories))
    have hwidgets : (categoriesOf (.arr [.str "rules", .str "widgets"])).toOption = none := by
      decide +kernel
    rw [hok] at hwidgets
    cases hwidgets

end Settings

end TenantSync
