/-
  TenantSync.Proofs.Config.Stack
  ──────────────────────────────
  **WHAT A STACK OF DOCUMENTS COMES TO.**

  Two rules of precedence go through one fold.  For whatever has one value the last
  document that has a say counts, and counts alone:

      version    the last that is not zero
      elements   of each name, the last, as a whole

  For the names of a resource category the first mention counts: the lists of all
  documents that have the category, one after the other, without repetitions.

  `Overlaid` tells what comes out without laying anything over anything, and is told of
  one document only (`overlayAll_eq_iff`).
-/
import Mathlib.Data.List.Induction
import TenantSync.Proofs.Config.Overlay

namespace TenantSync.Config

/-- The document that documents come to, the first of them at the bottom. -/
structure Overlaid (documents : List Config) (c : Config) : Prop where
  includes : c.includes = []
  /-- The last version that a document gives. -/
  version : c.version = ((documents.map Config.version).filter (· ≠ 0)).getLast?.getD 0
  /-- An element is that of the last document which has one of its name. -/
  elements : ∀ (k : Keyed) (name : String),
    (k.of c).get? name = (documents.filterMap fun d => (k.of d).get? name).getLast?
  /-- A category has the names that it has in any document, each where it comes first. -/
  resources : ∀ category : String,
    let mentioned := documents.filterMap fun d => d.resources.get? category
    c.resources.get? category
      = if mentioned = [] then none else some mentioned.flatten.eraseDups

/-! ## §1. Names. -/

theorem firstOccurrences_eq_eraseDups_filter (names : List String) :
    ∀ seen : List String,
      firstOccurrences seen names = (names.filter fun n => !seen.contains n).eraseDups := by
  induction names with
  | nil => exact fun _ => rfl
  | cons m rest ih =>
      intro seen
      rw [firstOccurrences]
      cases hm : seen.contains m with
      | true =>
          simp only [List.filter_cons, hm, ih, Bool.not_true, Bool.false_eq_true, if_true,
            if_false]
      | false =>
          -- behind a new name, this name is among those that were seen
          have hseen : (rest.filter fun n => !(m :: seen).contains n)
              = (rest.filter fun n => !seen.contains n).filter fun n => !n == m := by
            rw [List.filter_filter]
            refine List.filter_congr fun n _ => ?_
            rw [List.contains_cons, Bool.not_or]
          simp only [List.filter_cons, hm, ih, Bool.not_false, Bool.false_eq_true, if_true,
            if_false]
          rw [List.eraseDups_cons, hseen]

/-- Taking each name at its first occurrence is leaving out repetitions. -/
theorem firstOccurrences_nil (names : List String) :
    firstOccurrences [] names = names.eraseDups := by
  have hall : (names.filter fun n => !([] : List String).contains n) = names :=
    List.filter_eq_self.2 fun _ _ => rfl
  rw [firstOccurrences_eq_eraseDups_filter, hall]

/-- What a union adds to names without repetitions. -/
theorem orderedUnion_eraseDups (names more : List String) :
    orderedUnion names.eraseDups more = (names ++ more).eraseDups := by
  rw [← firstOccurrences_nil, orderedUnion_dropLower, orderedUnion, firstOccurrences_nil]

/-! ## §2. The stack. -/

theorem version_overlayAll (documents : List Config) :
    (overlayAll documents).version
      = ((documents.map Config.version).filter (· ≠ 0)).getLast?.getD 0 := by
  induction documents using List.reverseRecOn with
  | nil => rfl
  | append_singleton documents d ih =>
      rw [overlayAll_concat, List.map_append, List.filter_append]
      show (if d.version = 0 then (overlayAll documents).version else d.version) = _
      by_cases hversion : d.version = 0
      · rw [if_pos hversion, ih]
        simp [hversion]
      · rw [if_neg hversion]
        simp [hversion]

theorem resources_overlayAll (documents : List Config) (category : String) :
    (overlayAll documents).resources.get? category
      = if (documents.filterMap fun d => d.resources.get? category) = [] then none
        else some (documents.filterMap fun d => d.resources.get? category).flatten.eraseDups := by
  induction documents using List.reverseRecOn with
  | nil => rfl
  | append_singleton documents d ih =>
      rw [overlayAll_concat, List.filterMap_append]
      show (overlayResources _ _).get? category = _
      rw [get?_overlayResources, ih]
      generalize (documents.filterMap fun d => d.resources.get? category) = mentioned
      cases hnames : d.resources.get? category with
      | none => simp [hnames, unionOf]
      | some names =>
          have hunder : ((if mentioned = [] then none
              else some mentioned.flatten.eraseDups).getD []) = mentioned.flatten.eraseDups := by
            by_cases hmentioned : mentioned = []
            · rw [if_pos hmentioned, hmentioned]
              rfl
            · rw [if_neg hmentioned]
              rfl
          rw [unionOf, hunder, orderedUnion_eraseDups]
          simp [hnames]

/-- A stack is what its documents come to. -/
theorem overlaid_overlayAll (documents : List Config) :
    Overlaid documents (overlayAll documents) where
  includes := includes_overlayAll documents
  version := version_overlayAll documents
  elements := Keyed.get?_overlayAll documents
  resources := resources_overlayAll documents

/-- Documents that look the same in every part are the same. -/
theorem ext_keyed {c c' : Config} (hversion : c.version = c'.version)
    (hincludes : c.includes = c'.includes) (hresources : c.resources = c'.resources)
    (hkeyed : ∀ k : Keyed, k.of c = k.of c') : c = c' := by
  have hexfil : c.exfil = c'.exfil := by
    have hwatches : c.exfil.watches = c'.exfil.watches := hkeyed .exfilWatches
    have hevents : c.exfil.events = c'.exfil.events := hkeyed .exfilEvents
    calc c.exfil = ⟨c.exfil.watches, c.exfil.events⟩ := rfl
      _ = c'.exfil := by rw [hwatches, hevents]
  have hyara : c.yara = c'.yara := by
    have hrules : c.yara.rules = c'.yara.rules := hkeyed .yaraRules
    have hsources : c.yara.sources = c'.yara.sources := hkeyed .yaraSources
    calc c.yara = ⟨c.yara.rules, c.yara.sources⟩ := rfl
      _ = c'.yara := by rw [hrules, hsources]
  cases c with
  | mk =>
      cases c' with
      | mk =>
          simp only [Config.mk.injEq]
          exact ⟨hversion, hincludes, hresources, hkeyed .rules, hkeyed .falsePositives,
            hkeyed .outputs, hkeyed .integrity, hexfil, hkeyed .artifacts, hyara,
            hkeyed .installationKeys, hkeyed .orgValues⟩

/-- Documents come to one document only. -/
theorem Overlaid.unique {documents : List Config} {c c' : Config} (h : Overlaid documents c)
    (h' : Overlaid documents c') : c = c' :=
  ext_keyed (h.version.trans h'.version.symm) (h.includes.trans h'.includes.symm)
    (NameMap.ext fun category => (h.resources category).trans (h'.resources category).symm)
    fun k => NameMap.ext fun name => (h.elements k name).trans (h'.elements k name).symm

/-- **What a stack of documents comes to**, and nothing else: no references, the last
version that is given, every element as the last document has it that has one of its
name, and every name of a category where it is first mentioned. -/
theorem overlayAll_eq_iff (documents : List Config) (c : Config) :
    overlayAll documents = c ↔ Overlaid documents c := by
  constructor
  · rintro rfl
    exact overlaid_overlayAll documents
  · exact (overlaid_overlayAll documents).unique

example :
    let lower : Config := { version := 1, resources := .ofList [("api", ["b", "a"])],
                            orgValues := .ofList [("otx", "x"), ("shodan", "s")] }
    let upper : Config := { resources := .ofList [("api", ["c", "a"])],
                            orgValues := .ofList [("otx", "y")] }
    overlayAll [lower, upper] = { version := 1, resources := .ofList [("api", ["b", "a", "c"])],
                                  orgValues := .ofList [("otx", "y"), ("shodan", "s")] } := by
  decide +kernel

end TenantSync.Config
