/-
  TenantSync.Proofs.Config.Overlay
  ────────────────────────────────
  **IT DOES NOT MATTER IN WHICH GROUPS DOCUMENTS ARE LAID OVER EACH OTHER.**

  Laying documents over each other is associative, exactly and in every section:
  a map keeps the uppermost element of each name, and an ordered union of lists
  keeps first occurrences, which are the same whether duplicates are dropped
  earlier or later.  The empty document below changes nothing that a document
  above it does not change as well.  So a stack of stacks is one stack
  (`overlayAll_append`), and in it

      an element is the one of the last document that has one of its name
      the names of a resource category are first occurrences over all documents

  A document is tidy when it has no references and subscribes to nothing twice.
  Every stack is tidy, and tidy documents are exactly those the empty document
  leaves alone from either side: they form a monoid, in which laying a document
  over a stack that it is on top of already changes nothing (`overlay_monoid`).
-/
import TenantSync.Config.Overlay
import TenantSync.Proofs.NameMap

namespace TenantSync.Config

/-! ## §1. First occurrences. -/

theorem mem_firstOccurrences {n : String} (names : List String) :
    ∀ {seen : List String}, n ∈ firstOccurrences seen names ↔ n ∈ names ∧ n ∉ seen := by
  induction names with
  | nil =>
      intro seen
      simp [firstOccurrences]
  | cons m rest ih =>
      intro seen
      rw [firstOccurrences]
      by_cases hm : m ∈ seen
      · rw [if_pos (List.contains_iff_mem.2 hm), ih, List.mem_cons]
        constructor
        · exact fun h => ⟨.inr h.1, h.2⟩
        · rintro ⟨rfl | h, hn⟩
          · exact absurd hm hn
          · exact ⟨h, hn⟩
      · rw [if_neg (fun h => hm (List.contains_iff_mem.1 h)), List.mem_cons, List.mem_cons, ih,
          List.mem_cons]
        by_cases hn : n = m
        · subst hn
          simp [hm]
        · simp [hn]

/-- Which names were seen matters, not how often or in which order. -/
theorem firstOccurrences_congr (names : List String) :
    ∀ {seen seen' : List String}, (∀ n, n ∈ seen ↔ n ∈ seen') →
      firstOccurrences seen names = firstOccurrences seen' names := by
  induction names with
  | nil => exact fun _ => rfl
  | cons m rest ih =>
      intro seen seen' h
      have hcontains : seen.contains m = seen'.contains m := by
        rw [Bool.eq_iff_iff, List.contains_iff_mem, List.contains_iff_mem]
        exact h m
      have hcons : ∀ n, n ∈ m :: seen ↔ n ∈ m :: seen' := fun n => by
        rw [List.mem_cons, List.mem_cons, h]
      rw [firstOccurrences, firstOccurrences, hcontains, ih h, ih hcons]

/-- What comes first counts as seen for what comes after it. -/
theorem firstOccurrences_append (first rest : List String) :
    ∀ seen : List String, firstOccurrences seen (first ++ rest)
      = firstOccurrences seen first ++ firstOccurrences (first ++ seen) rest := by
  induction first with
  | nil => exact fun seen => rfl
  | cons m first ih =>
      intro seen
      rw [List.cons_append, firstOccurrences, firstOccurrences]
      cases hm : seen.contains m with
      | true =>
          have hseen : ∀ n, n ∈ first ++ seen ↔ n ∈ m :: first ++ seen := by
            intro n
            have := List.contains_iff_mem.1 hm
            simp only [List.cons_append, List.mem_cons, List.mem_append]
            constructor
            · exact .inr
            · rintro (rfl | h)
              · exact .inr this
              · exact h
          rw [if_pos rfl, if_pos rfl, ih, firstOccurrences_congr rest hseen]
      | false =>
          have hseen : ∀ n, n ∈ first ++ m :: seen ↔ n ∈ m :: first ++ seen := by
            intro n
            simp only [List.cons_append, List.mem_cons, List.mem_append, or_left_comm]
          rw [if_neg Bool.false_ne_true, if_neg Bool.false_ne_true, ih,
            firstOccurrences_congr rest hseen]
          rfl

/-- Duplicates that are dropped later need not be dropped before. -/
theorem firstOccurrences_absorb (names : List String) :
    ∀ {seen seen' : List String}, (∀ n ∈ seen', n ∈ seen) →
      firstOccurrences seen (firstOccurrences seen' names) = firstOccurrences seen names := by
  induction names with
  | nil => exact fun _ => rfl
  | cons m rest ih =>
      intro seen seen' hsub
      by_cases hm' : m ∈ seen'
      · -- dropped before, and dropped later as well
        rw [firstOccurrences, if_pos (List.contains_iff_mem.2 hm'), ih hsub,
          firstOccurrences, if_pos (List.contains_iff_mem.2 (hsub m hm'))]
      · have hkept : firstOccurrences seen' (m :: rest)
            = m :: firstOccurrences (m :: seen') rest := by
          rw [firstOccurrences, if_neg fun h => hm' (List.contains_iff_mem.1 h)]
        rw [hkept, firstOccurrences, firstOccurrences]
        by_cases hm : m ∈ seen
        · have hsub' : ∀ n ∈ m :: seen', n ∈ seen := by
            intro n hn
            rcases List.mem_cons.1 hn with rfl | hn
            · exact hm
            · exact hsub n hn
          rw [if_pos (List.contains_iff_mem.2 hm), if_pos (List.contains_iff_mem.2 hm), ih hsub']
        · have hsub' : ∀ n ∈ m :: seen', n ∈ m :: seen := by
            intro n hn
            rcases List.mem_cons.1 hn with rfl | hn
            · exact List.mem_cons_self
            · exact List.mem_cons_of_mem _ (hsub n hn)
          rw [if_neg fun h => hm (List.contains_iff_mem.1 h),
            if_neg fun h => hm (List.contains_iff_mem.1 h), ih hsub']

/-- Duplicates in the lower list are dropped anyway. -/
theorem orderedUnion_dropLower (a b : List String) :
    orderedUnion (firstOccurrences [] a) b = orderedUnion a b := by
  unfold orderedUnion
  have hseen : ∀ n, n ∈ firstOccurrences [] a ++ [] ↔ n ∈ a ++ [] := by
    intro n
    rw [List.append_nil, List.append_nil, mem_firstOccurrences]
    simp
  rw [firstOccurrences_append, firstOccurrences_append,
    firstOccurrences_absorb a (fun n hn => hn), firstOccurrences_congr b hseen]

/-- Duplicates in the upper list are dropped anyway. -/
theorem orderedUnion_dropUpper (a b : List String) :
    orderedUnion a (firstOccurrences [] b) = orderedUnion a b := by
  unfold orderedUnion
  rw [firstOccurrences_append, firstOccurrences_append,
    firstOccurrences_absorb b (by simp)]

theorem orderedUnion_assoc (a b c : List String) :
    orderedUnion (orderedUnion a b) c = orderedUnion a (orderedUnion b c) := by
  calc orderedUnion (orderedUnion a b) c
      = orderedUnion (a ++ b) c := orderedUnion_dropLower (a ++ b) c
    _ = orderedUnion a (b ++ c) := by unfold orderedUnion; rw [List.append_assoc]
    _ = orderedUnion a (orderedUnion b c) := (orderedUnion_dropUpper a (b ++ c)).symm

theorem nodup_firstOccurrences (names : List String) :
    ∀ seen : List String, (firstOccurrences seen names).Nodup := by
  induction names with
  | nil => exact fun _ => List.nodup_nil
  | cons m rest ih =>
      intro seen
      rw [firstOccurrences]
      split
      · exact ih seen
      · refine List.nodup_cons.2 ⟨fun h => ?_, ih (m :: seen)⟩
        exact ((mem_firstOccurrences rest).1 h).2 List.mem_cons_self

/-- Names that are new and pairwise different all occur for the first time. -/
theorem firstOccurrences_of_nodup {names : List String} (hnodup : names.Nodup) :
    ∀ {seen : List String}, (∀ n ∈ names, n ∉ seen) → firstOccurrences seen names = names := by
  induction names with
  | nil => exact fun _ => rfl
  | cons m rest ih =>
      intro seen hnew
      obtain ⟨hm, hrest⟩ := List.nodup_cons.1 hnodup
      have hnew' : ∀ n ∈ rest, n ∉ m :: seen := by
        intro n hn hseen
        rcases List.mem_cons.1 hseen with rfl | hseen
        · exact hm hn
        · exact hnew n (List.mem_cons_of_mem _ hn) hseen
      rw [firstOccurrences, if_neg fun h => hnew m List.mem_cons_self (List.contains_iff_mem.1 h),
        ih hrest hnew']

/-- Exactly the lists without repetitions lose nothing. -/
theorem firstOccurrences_eq_self {names : List String} :
    firstOccurrences [] names = names ↔ names.Nodup :=
  ⟨fun h => h ▸ nodup_firstOccurrences names [],
    fun h => firstOccurrences_of_nodup h fun _ _ => List.not_mem_nil⟩

/-- Names that were all seen add nothing. -/
theorem firstOccurrences_of_seen {names seen : List String} (h : ∀ n ∈ names, n ∈ seen) :
    firstOccurrences seen names = [] := by
  refine List.eq_nil_iff_forall_not_mem.2 fun n hn => ?_
  obtain ⟨hnames, hseen⟩ := (mem_firstOccurrences names).1 hn
  exact hseen (h n hnames)

/-- The upper list adds nothing when it is there already. -/
theorem orderedUnion_again (a b : List String) :
    orderedUnion (orderedUnion a b) b = orderedUnion a b := by
  have hself : orderedUnion b b = firstOccurrences [] b := by
    have hseen : firstOccurrences (b ++ []) b = [] :=
      firstOccurrences_of_seen fun n hn => List.mem_append_left [] hn
    rw [orderedUnion, firstOccurrences_append, hseen, List.append_nil]
  calc orderedUnion (orderedUnion a b) b
      = orderedUnion a (orderedUnion b b) := orderedUnion_assoc a b b
    _ = orderedUnion a (firstOccurrences [] b) := by rw [hself]
    _ = orderedUnion a b := orderedUnion_dropUpper a b

/-! ## §2. Subscriptions. -/

/-- The names of a category in two documents: those of the lower one stay as they
are unless the upper one has the category as well. -/
def unionOf : Option (List String) → Option (List String) → Option (List String)
  | lower, none => lower
  | lower, some names => some (orderedUnion (lower.getD []) names)

theorem unionOf_assoc (a b c : Option (List String)) :
    unionOf (unionOf a b) c = unionOf a (unionOf b c) := by
  cases c with
  | none => rfl
  | some z =>
      cases b with
      | none => exact congrArg some (orderedUnion_dropUpper (a.getD []) z).symm
      | some y => exact congrArg some (orderedUnion_assoc (a.getD []) y z)

theorem get?_overlayResources (lower upper : NameMap (List String)) (category : String) :
    (overlayResources lower upper).get? category
      = unionOf (lower.get? category) (upper.get? category) := by
  -- by the entries of the upper document, which meet each category once
  have key : ∀ (l : List (String × List String)), l.Pairwise (fun a b => a.1 < b.1) →
      ∀ m : NameMap (List String),
        (l.foldl (fun m e =>
          m.insert e.1 (orderedUnion ((m.get? e.1).getD []) e.2)) m).get? category
          = unionOf (m.get? category) (NameMap.lookupEntry category l) := by
    intro l
    induction l with
    | nil => exact fun _ m => rfl
    | cons e rest ih =>
        intro hl m
        obtain ⟨hhead, hrest⟩ := List.pairwise_cons.1 hl
        rw [List.foldl_cons, ih hrest, NameMap.get?_insert, NameMap.lookupEntry]
        by_cases hcategory : category = e.1
        · have hnone : NameMap.lookupEntry category rest = none :=
            NameMap.lookupEntry_eq_none_of_lt fun e' he' => hcategory ▸ hhead e' he'
          rw [if_pos hcategory, if_pos hcategory, hnone, ← hcategory]
          rfl
        · rw [if_neg hcategory, if_neg hcategory]
  exact key upper.entries upper.ascending lower

theorem unionOf_again (a b : Option (List String)) : unionOf (unionOf a b) b = unionOf a b := by
  cases b with
  | none => rfl
  | some y => exact congrArg some (orderedUnion_again (a.getD []) y)

theorem overlayResources_assoc (a b c : NameMap (List String)) :
    overlayResources (overlayResources a b) c = overlayResources a (overlayResources b c) :=
  NameMap.ext fun category => by simp only [get?_overlayResources, unionOf_assoc]

theorem overlayResources_again (a b : NameMap (List String)) :
    overlayResources (overlayResources a b) b = overlayResources a b :=
  NameMap.ext fun category => by simp only [get?_overlayResources, unionOf_again]

/-- Under a map of subscriptions, nothing stands for the lists it has, less
repetitions: none are lost exactly where there are none. -/
theorem overlayResources_empty_lower {m : NameMap (List String)} :
    overlayResources .empty m = m
      ↔ ∀ category names, m.get? category = some names → names.Nodup := by
  have hseen : ∀ category, (overlayResources .empty m).get? category
      = (m.get? category).map (firstOccurrences []) := by
    intro category
    rw [get?_overlayResources, NameMap.get?_empty]
    cases m.get? category <;> rfl
  constructor
  · intro h category names hnames
    have hcategory := hseen category
    rw [h, hnames] at hcategory
    exact firstOccurrences_eq_self.1 (Option.some.inj hcategory).symm
  · intro h
    refine NameMap.ext fun category => ?_
    rw [hseen]
    cases hnames : m.get? category with
    | none => rfl
    | some names =>
        exact congrArg some (firstOccurrences_eq_self.2 (h category names hnames))

/-! ## §3. Documents. -/

theorem overlay_maps_assoc {α : Type} (a b c : NameMap α) :
    (a.overlay b).overlay c = a.overlay (b.overlay c) :=
  NameMap.ext fun k => by simp only [NameMap.get?_overlay, Option.or_assoc]

/-- **Laying documents over each other is associative.** -/
theorem overlay_assoc (a b c : Config) :
    (a.overlay b).overlay c = a.overlay (b.overlay c) := by
  have hversion : (if c.version = 0 then (if b.version = 0 then a.version else b.version)
        else c.version)
      = if (if c.version = 0 then b.version else c.version) = 0 then a.version
        else if c.version = 0 then b.version else c.version := by
    by_cases hc : c.version = 0
    · simp only [hc, if_true]
    · simp only [hc, if_false]
  unfold overlay
  simp only [overlay_maps_assoc, overlayResources_assoc, hversion]

/-- The empty document on top changes nothing. -/
theorem overlay_empty (a : Config) : a.overlay {} = { a with includes := [] } := rfl

/-- A document without references is left alone by the empty one on top. -/
theorem overlay_empty_of_includes {a : Config} (h : a.includes = []) : a.overlay {} = a := by
  rw [overlay_empty, ← h]

/-- The bottom of a stack can be laid under the rest in the end. -/
theorem foldl_overlay (documents : List Config) :
    ∀ {a : Config}, a.includes = [] →
      documents.foldl overlay a = a.overlay (overlayAll documents) := by
  induction documents with
  | nil => exact fun h => (overlay_empty_of_includes h).symm
  | cons d documents ih =>
      intro a h
      have hbottom : overlayAll (d :: documents) = (overlay {} d).overlay (overlayAll documents) :=
        ih rfl
      calc (d :: documents).foldl overlay a
          = (a.overlay d).overlay (overlayAll documents) := ih rfl
        _ = ((a.overlay {}).overlay d).overlay (overlayAll documents) := by
            rw [overlay_empty_of_includes h]
        _ = a.overlay (overlayAll (d :: documents)) := by
            rw [hbottom, overlay_assoc a {} d, overlay_assoc]

/-- A stack is without references. -/
theorem includes_overlayAll (documents : List Config) : (overlayAll documents).includes = [] := by
  rcases List.eq_nil_or_concat documents with rfl | ⟨first, d, rfl⟩
  · rfl
  · simp only [overlayAll, List.concat_eq_append, List.foldl_append]
    rfl

/-- **A stack of two stacks is one stack.** -/
theorem overlayAll_append (lower upper : List Config) :
    overlayAll (lower ++ upper) = (overlayAll lower).overlay (overlayAll upper) := by
  rw [overlayAll, List.foldl_append]
  exact foldl_overlay upper (includes_overlayAll lower)

/-- One document on top of a stack. -/
theorem overlayAll_concat (documents : List Config) (d : Config) :
    overlayAll (documents ++ [d]) = (overlayAll documents).overlay d := by
  rw [overlayAll, List.foldl_append]
  rfl

/-! ## §4. The monoid of tidy documents. -/

theorem overlay_maps_again {α : Type} (a b : NameMap α) :
    (a.overlay b).overlay b = a.overlay b :=
  NameMap.ext fun k => by simp only [NameMap.get?_overlay, Option.or_self, ← Option.or_assoc]

/-- A document that is on top already changes nothing. -/
theorem overlay_again (a b : Config) : (a.overlay b).overlay b = a.overlay b := by
  have hversion : (if b.version = 0 then (if b.version = 0 then a.version else b.version)
        else b.version)
      = if b.version = 0 then a.version else b.version := by
    by_cases hb : b.version = 0
    · simp only [hb, if_true]
    · simp only [hb, if_false]
  unfold overlay
  simp only [overlay_maps_again, overlayResources_again, hversion]

/-- The documents without references that subscribe to nothing twice. -/
structure Tidy (c : Config) : Prop where
  /-- There is no reference to another document. -/
  includes : c.includes = []
  /-- No category names anything twice. -/
  resources : ∀ category names, c.resources.get? category = some names → names.Nodup

theorem overlay_maps_empty {α : Type} (m : NameMap α) : NameMap.empty.overlay m = m :=
  NameMap.ext fun k => by rw [NameMap.get?_overlay, NameMap.get?_empty, Option.or_none]

/-- On the empty document, one loses its references and what it subscribes to
more than once. -/
theorem empty_overlay (a : Config) :
    overlay {} a = { a with
      includes := [], resources := overlayResources .empty a.resources } := by
  have hversion : (if a.version = 0 then 0 else a.version) = a.version := by
    by_cases ha : a.version = 0
    · rw [if_pos ha, ha]
    · rw [if_neg ha]
  unfold overlay
  simp only [overlay_maps_empty, hversion]

/-- **Tidy documents are those that the empty one under them leaves alone.** -/
theorem tidy_iff (a : Config) : a.Tidy ↔ overlay {} a = a := by
  rw [empty_overlay]
  constructor
  · intro h
    rw [overlayResources_empty_lower.2 h.resources, ← h.includes]
  · intro h
    exact ⟨(congrArg Config.includes h).symm,
      overlayResources_empty_lower.1 (congrArg Config.resources h)⟩

/-- A stack is tidy: it stands on the empty document. -/
theorem tidy_overlayAll (documents : List Config) : (overlayAll documents).Tidy :=
  (tidy_iff _).2 (overlayAll_append [] documents).symm

/-- **Documents form a monoid.**  Laying over is associative, for documents and for
stacks of them; stacks are tidy; the empty document is neutral on either side for
exactly the tidy ones; and laying the same document over twice is laying it over
once. -/
theorem overlay_monoid :
    (∀ a b c : Config, (a.overlay b).overlay c = a.overlay (b.overlay c))
      ∧ (∀ lower upper : List Config,
          overlayAll (lower ++ upper) = (overlayAll lower).overlay (overlayAll upper))
      ∧ (∀ documents : List Config, (overlayAll documents).Tidy)
      ∧ (∀ a : Config, a.Tidy ↔ overlay {} a = a ∧ a.overlay {} = a)
      ∧ (∀ a b : Config, (a.overlay b).overlay b = a.overlay b) := by
  refine ⟨overlay_assoc, overlayAll_append, tidy_overlayAll, fun a => ?_, overlay_again⟩
  constructor
  · exact fun h => ⟨(tidy_iff a).1 h, overlay_empty_of_includes h.includes⟩
  · exact fun h => (tidy_iff a).2 h.1

/-! ## §5. What is seen of a stack. -/

/-- The sections of a document that hold elements by name. -/
inductive Keyed where
  | rules
  | falsePositives
  | outputs
  | integrity
  | exfilWatches
  | exfilEvents
  | artifacts
  | yaraSources
  | yaraRules
  | installationKeys
  | orgValues
  deriving DecidableEq

namespace Keyed

/-- The elements of a section. -/
@[reducible] def Body : Keyed → Type
  | .rules => Rule
  | .falsePositives => FalsePositive
  | .outputs => Output
  | .integrity => IntegrityRule
  | .exfilWatches => ExfilWatch
  | .exfilEvents => ExfilEvent
  | .artifacts => ArtifactRule
  | .yaraSources => YaraSource
  | .yaraRules => YaraRule
  | .installationKeys => InstallationKey
  | .orgValues => String

/-- The section of a document. -/
def of (c : Config) : (k : Keyed) → NameMap k.Body
  | .rules => c.rules
  | .falsePositives => c.falsePositives
  | .outputs => c.outputs
  | .integrity => c.integrity
  | .exfilWatches => c.exfil.watches
  | .exfilEvents => c.exfil.events
  | .artifacts => c.artifacts
  | .yaraSources => c.yara.sources
  | .yaraRules => c.yara.rules
  | .installationKeys => c.installationKeys
  | .orgValues => c.orgValues

theorem of_empty (k : Keyed) : k.of {} = .empty := by
  cases k <;> rfl

theorem of_overlay (lower upper : Config) (k : Keyed) :
    k.of (lower.overlay upper) = (k.of lower).overlay (k.of upper) := by
  cases k <;> rfl

/-- **An element of a stack is that of the last document which has one of its name.** -/
theorem get?_overlayAll (documents : List Config) (k : Keyed) (name : String) :
    (k.of (overlayAll documents)).get? name
      = (documents.filterMap fun d => (k.of d).get? name).getLast? := by
  -- what lies below the stack shows through where no document has an element of the name
  have hbelow : ∀ a : Config, (k.of (documents.foldl overlay a)).get? name
      = (documents.filterMap fun d => (k.of d).get? name).getLast?.or ((k.of a).get? name) := by
    induction documents with
    | nil => exact fun a => rfl
    | cons d documents ih =>
        intro a
        rw [List.foldl_cons, ih, of_overlay, NameMap.get?_overlay, ← Option.or_assoc,
          List.filterMap_cons]
        cases (k.of d).get? name with
        | none => rw [Option.or_none]
        | some v =>
            rw [List.getLast?_cons]
            cases (documents.filterMap fun d => (k.of d).get? name).getLast? <;> rfl
  rw [overlayAll, hbelow, of_empty, NameMap.get?_empty, Option.or_none]

end Keyed

end TenantSync.Config
