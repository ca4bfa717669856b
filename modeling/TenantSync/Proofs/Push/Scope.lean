/-
  TenantSync.Proofs.Push.Scope
  ────────────────────────────
  **A PUSH STAYS WITHIN ITS SCOPE.**

  In the scope of a push are the categories that are selected; of the rules those
  of the namespaces that the document's rules live in, if it has any; of the
  settings those of the table.  Whatever a push returns and whichever calls fail,
  all else is left as it is, and had no influence on what was done:

      a category not selected           none of its stages is scheduled
      a namespace without a rule        neither is a pass over it
      a setting outside the table       never decided about

  Within the rules, each rule of the document is desired by the pass over its own
  namespace and by no other one.  Names are taken apart at the namespace of the
  pass and not at a slash, so it is no matter which texts they are made of.
-/
import TenantSync.Proofs.Push.Course
import TenantSync.Proofs.Push.Reading

namespace TenantSync.Push

open Config Tenant

/-! ## §1. What every stage keeps, a push keeps. -/

theorem push_keeps {table : List String} {o : Options} {c : Config} {t : Tenant}
    {R : Tenant → Tenant → Prop} (hrefl : ∀ t, R t t)
    (htrans : ∀ {t t' t''}, R t t' → R t' t'' → R t t'')
    (hstages : ¬Unpushable table o c →
      ∀ stage ∈ schedule o c t.state, Keeps R (stage.run table o.mode c)) :
    R t (exec (pushWith table o c) t).2 := by
  rw [exec_pushWith]
  cases o.categories.isEmpty with
  | true => exact hrefl t
  | false =>
      cases hinvalid : invalid? table c o with
      | some why => exact hrefl t
      | none =>
          exact runStages_keeps table o.mode c hrefl htrans _ []
            (hstages (invalid?_eq_none.1 hinvalid)) t

/-- A push is confined to its schedule. -/
theorem push_confined (table : List String) (o : Options) (c : Config) (t : Tenant) :
    Confined (schedule o c t.state) t (exec (pushWith table o c) t).2 := by
  refine push_keeps (fun t' => (Confined.refl t').mono fun _ hmem => nomatch hmem)
    (fun h h' => (h.trans h').mono fun _ hmem => (List.mem_append.1 hmem).elim id id)
    fun _ stage hstage t' => (stage.run_confined table o.mode c t').mono fun stage' hmem => ?_
  rw [List.mem_singleton.1 hmem]
  exact hstage

/-- A push leaves the slice of a pass alone that it does not make. -/
theorem push_sameAt (table : List String) {o : Options} {c : Config} {t : Tenant} {p : Pass}
    (hp : .pass p ∉ schedule o c t.state) :
    p.SameAt t.state (exec (pushWith table o c) t).2.state :=
  (push_confined table o c t).others p hp

/-! ## §2. Categories that are not selected. -/

/-- Two states agree on everything of a category. -/
def SameSections : Category → State → State → Prop
  | .resources, s, s' => s'.resources = s.resources
  | .rules, s, s' => s'.rules = s.rules
  | .falsePositives, s, s' => s'.falsePositives = s.falsePositives
  | .outputs, s, s' => s'.outputs = s.outputs
  | .integrity, s, s' => s'.integrity = s.integrity
  | .exfil, s, s' => s'.exfilWatches = s.exfilWatches ∧ s'.exfilEvents = s.exfilEvents
  | .artifacts, s, s' => s'.artifacts = s.artifacts
  | .yara, s, s' => s'.yaraSources = s.yaraSources ∧ s'.yaraRules = s.yaraRules
  | .installationKeys, s, s' => s'.installationKeys = s.installationKeys
  | .orgValues, s, s' => s'.orgValues = s.orgValues

/-- The slices of the passes of a category are all there is of it. -/
theorem sameSections_of_slices {category : Category} {s s' : State}
    (h : ∀ p, (Stage.pass p).category = category → p.SameAt s s') :
    SameSections category s s' := by
  cases category with
  | resources => exact h .resources rfl
  | rules => exact NameMap.ext fun ns => h (.rules ns) rfl
  | falsePositives => exact h .falsePositives rfl
  | outputs => exact h .outputs rfl
  | integrity => exact h .integrity rfl
  | exfil => exact ⟨h .exfilWatches rfl, h .exfilEvents rfl⟩
  | artifacts => exact h .artifacts rfl
  | yara => exact ⟨h .yaraSources rfl, h .yaraRules rfl⟩
  | installationKeys => exact h .installationKeys rfl
  | orgValues => exact h .orgValues rfl

theorem push_sameSections (table : List String) {o : Options} (c : Config) (t : Tenant)
    {category : Category} (hselected : o.selected category = false) :
    SameSections category t.state (exec (pushWith table o c) t).2.state := by
  refine sameSections_of_slices fun p hp => push_sameAt table fun hstage => ?_
  have hsome := selected_of_mem_schedule hstage
  rw [hp, hselected] at hsome
  cases hsome

/-! ## §3. Namespaces. -/

/-- A rule of a document lives in a namespace. -/
def HasRuleIn (c : Config) (ns : String) : Prop :=
  ∃ name rule, c.rules.get? name = some rule ∧ rule.effectiveNamespace = ns

theorem mem_ruleNamespaces {c : Config} {ns : String} :
    ns ∈ c.ruleNamespaces.keys ↔ HasRuleIn c ns := by
  unfold Config.ruleNamespaces NameSet.ofList NameMap.values HasRuleIn
  rw [NameMap.mem_keys_ofList]
  simp only [List.map_map, List.mem_map, Function.comp_apply, NameMap.get?_eq_some_iff]
  constructor
  · rintro ⟨e, he, rfl⟩
    exact ⟨e.1, e.2, he, rfl⟩
  · rintro ⟨name, rule, he, rfl⟩
    exact ⟨(name, rule), he, rfl⟩

/-- A document with rules has a pass over each namespace that one of them lives in. -/
theorem mem_schedule_rules {o : Options} {c : Config} {s : State} {ns : String}
    (hrules : c.rules.isEmpty = false) :
    .pass (.rules ns) ∈ schedule o c s ↔ o.selected .rules = true ∧ HasRuleIn c ns := by
  have hstages : Stage.pass (.rules ns) ∈ stages c s .rules ↔ HasRuleIn c ns := by
    unfold stages scope
    rw [if_neg (by simp [hrules]), if_neg (by simp [hrules]), List.nil_append, List.mem_map,
      ← mem_ruleNamespaces]
    constructor
    · rintro ⟨ns', hns', heq⟩
      cases heq
      exact hns'
    · exact fun h => ⟨ns, h, rfl⟩
  constructor
  · intro h
    obtain ⟨category, hcategory, hstage⟩ := List.mem_flatMap.1 h
    obtain rfl : Category.rules = category := category_of_mem_stages hstage
    exact ⟨mem_categories.1 hcategory, hstages.1 hstage⟩
  · exact fun h => mem_schedule h.1 (hstages.2 h.2)

/-- A document with rules knows its namespaces, and the tenant is not asked. -/
theorem namespaces_not_mem_schedule {o : Options} {c : Config} {s : State}
    (hrules : c.rules.isEmpty = false) : .namespaces ∉ schedule o c s := by
  intro h
  obtain ⟨category, -, hstage⟩ := List.mem_flatMap.1 h
  obtain rfl : Category.rules = category := category_of_mem_stages hstage
  unfold stages at hstage
  rw [if_neg (by simp [hrules]), List.nil_append] at hstage
  obtain ⟨ns, -, heq⟩ := List.mem_map.1 hstage
  cases heq

/-- The rules that are desired in a namespace are those of the document that live there. -/
theorem get?_rulesOf {c : Config} {ns name : String} {rule : Rule} :
    (rulesOf c ns).get? name = some rule
      ↔ c.rules.get? name = some rule ∧ rule.effectiveNamespace = ns := by
  unfold rulesOf
  rw [NameMap.get?_filter (fun _ (rule : Rule) => rule.effectiveNamespace == ns),
    Option.filter_eq_some_iff, beq_iff_eq]

/-- A stage desires the rule of a name. -/
def Stage.desiresRule (c : Config) (name : String) : Stage → Bool
  | .pass (.rules ns) => (rulesOf c ns).contains name
  | _ => false

/-- A list without duplicates has at most one element that a test finds. -/
theorem filter_eq_singleton {α : Type} {l : List α} (hl : l.Nodup) {p : α → Bool} {a : α}
    (ha : a ∈ l) (hp : ∀ b ∈ l, p b = true ↔ b = a) : l.filter p = [a] := by
  have hmem : ∀ b, b ∈ l.filter p ↔ b = a := by
    intro b
    rw [List.mem_filter]
    constructor
    · exact fun h => (hp b h.1).1 h.2
    · rintro rfl
      exact ⟨ha, (hp b ha).2 rfl⟩
  have hnodup := hl.filter p
  cases hfilter : l.filter p with
  | nil =>
      rw [hfilter] at hmem
      cases (hmem a).2 rfl
  | cons b rest =>
      rw [hfilter] at hmem hnodup
      obtain rfl := (hmem b).1 List.mem_cons_self
      cases rest with
      | nil => rfl
      | cons d rest =>
          -- a second element would be the same one again
          obtain rfl := (hmem d).1 (List.mem_cons_of_mem _ List.mem_cons_self)
          exact absurd List.mem_cons_self (List.nodup_cons.1 hnodup).1

/-- **Each rule of a document is desired in one pass only**, that over its namespace. -/
theorem desiresRule_once {o : Options} {c : Config} (s : State) {name : String} {rule : Rule}
    (hselected : o.selected .rules = true) (hrule : c.rules.get? name = some rule) :
    (schedule o c s).filter (Stage.desiresRule c name)
      = [.pass (.rules rule.effectiveNamespace)] := by
  have hrules : c.rules.isEmpty = false := by
    unfold NameMap.isEmpty
    rw [List.isEmpty_eq_false_iff_exists_mem]
    exact ⟨(name, rule), NameMap.get?_eq_some_iff.1 hrule⟩
  refine filter_eq_singleton (schedule_nodup o c s)
    ((mem_schedule_rules hrules).2 ⟨hselected, name, rule, hrule, rfl⟩) fun stage _ => ?_
  constructor
  · intro hdesires
    unfold Stage.desiresRule at hdesires
    split at hdesires
    · rename_i ns
      obtain ⟨rule', hrule'⟩ := Option.isSome_iff_exists.1 hdesires
      obtain ⟨hsame, rfl⟩ := get?_rulesOf.1 hrule'
      rw [hrule] at hsame
      cases hsame
      rfl
    · cases hdesires
  · rintro rfl
    show ((rulesOf c _).get? name).isSome = true
    rw [get?_rulesOf.2 ⟨hrule, rfl⟩]
    rfl

/-! ## §4. Settings outside the table. -/

/-- Settings outside a table are as they were. -/
def SameOutside (table : List String) (t t' : Tenant) : Prop :=
  ∀ key, key ∉ table → t'.state.orgValues.get? key = t.state.orgValues.get? key

section Settings

variable {table : List String}

theorem SameOutside.refl (t : Tenant) : SameOutside table t t := fun _ _ => rfl

theorem SameOutside.trans {t t' t'' : Tenant} (h : SameOutside table t t')
    (h' : SameOutside table t' t'') : SameOutside table t t'' :=
  fun key hkey => (h' key hkey).trans (h key hkey)

/-- Setting a setting of the table leaves all others alone. -/
theorem setOrgValue_sameOutside {key : String} (hkey : key ∈ table) (value : String) :
    Keeps (SameOutside table) (setOrgValue key value) := by
  refine keeps_of_changing (exec_setOrgValue key value) .refl fun {t _ _ _} hok => ?_
  cases hok
  intro other hother
  show (t.state.orgValues.insert key value).get? other = _
  rw [NameMap.get?_insert, if_neg]
  rintro rfl
  exact hother hkey

/-- Whatever the readings are answered, only settings that were asked for are listed. -/
theorem mem_of_readOrgValues (keys : List String) :
    ∀ {acc held : NameMap (Remote String)} {t t' : Tenant} {id : String},
      exec (Store.readOrgValues keys acc) t = (.ok held, t') → id ∈ held.keys →
        id ∈ keys ∨ id ∈ acc.keys := by
  induction keys with
  | nil =>
      intro acc held t t' id h hid
      cases h
      exact .inr hid
  | cons key rest ih =>
      intro acc held t t' id h hid
      rw [Pass.readOrgValues_cons, exec_bind] at h
      rcases hone : exec (Pass.readSetting key) t with ⟨e | value, t₁⟩
      · rw [hone] at h
        cases h
      · rw [hone] at h
        rcases ih h hid with hrest | hacc
        · exact .inl (List.mem_cons_of_mem _ hrest)
        · -- what was entered first is the setting that was read first
          cases hempty : value.isEmpty with
          | true =>
              rw [hempty] at hacc
              exact .inr hacc
          | false =>
              rw [hempty, if_neg Bool.false_ne_true, NameMap.mem_keys, NameMap.get?_insert] at hacc
              by_cases hkey : id = key
              · exact .inl (hkey ▸ List.mem_cons_self)
              · rw [if_neg hkey] at hacc
                exact .inr (NameMap.mem_keys.2 hacc)

/-- A pass over settings decides about settings of the table only. -/
theorem orgValues_sameOutside {mode : Mode} {c : Config}
    (hcovered : Pass.Covered table c .orgValues) :
    Keeps (SameOutside table) (Pass.run table mode c .orgValues) := by
  intro t
  rw [show Pass.run table mode c .orgValues = _ from Pass.run_eq table mode c .orgValues,
    exec_reconcile]
  rcases hfetch : exec (Pass.store table .orgValues).fetch t with ⟨cause | held, t₁⟩
  · have hshows := Pass.shows_fetch table .orgValues hfetch
    intro key _
    rw [hshows.state]
  · have hshows := Pass.shows_fetch table .orgValues hfetch
    have hstart : SameOutside table t t₁ := fun key _ => by rw [hshows.state]
    refine hstart.trans (enactAll_keeps_calls .refl (fun h h' => h.trans h') mode _ ?_ t₁)
    intro d hd
    -- what is decided about was desired or listed, and both are in the table
    have hid : d.id ∈ table := by
      rcases (mem_plan_ids _ _ _ _ _).1 (List.mem_map_of_mem hd) with hdesired | hheld
      · obtain ⟨e, he, heq⟩ := List.mem_map.1 hdesired
        rw [← show e.1 = d.id from heq]
        exact Pass.mem_table_of_desired hcovered (NameMap.get?_eq_some_iff.2 he)
      · rcases mem_of_readOrgValues table hfetch hheld with htable | hempty
        · exact htable
        · cases hempty
    cases d with
    | add id body => exact setOrgValue_sameOutside hid body
    | keep id => exact Keeps.pure .refl ()
    | replace id body held => exact setOrgValue_sameOutside hid body
    | remove id held => exact setOrgValue_sameOutside hid ""

theorem push_sameOutside (table : List String) (o : Options) (c : Config) (t : Tenant) :
    SameOutside table t (exec (pushWith table o c) t).2 := by
  refine push_keeps .refl (fun h h' => h.trans h') fun hpushable stage hstage => ?_
  by_cases hstageOrg : stage = .pass .orgValues
  · subst hstageOrg
    exact orgValues_sameOutside (covered_of_pushable hpushable (selected_of_mem_schedule hstage))
  · -- no other stage touches a setting
    intro t' key _
    have hsame := (stage.run_confined table o.mode c t').others .orgValues fun hmem =>
      hstageOrg (List.mem_singleton.1 hmem).symm
    rw [show _ = _ from hsame]

end Settings

/-! ## §5. The push. -/

/-- **A push stays within its scope**, whatever it returns and whichever calls fail.
It changes nothing of a category that is not selected, no rule of a namespace that no
configured rule lives in, and no setting outside the table.  Namespaces out of scope are
not listed either: a push on a tenant that differs there only is the same push.  Each
configured rule is desired in one pass, and a pass over a namespace changes nothing but
the rules of that namespace and reads nothing else. -/
theorem push_isolated (table : List String) (o : Options) (c : Config) (t : Tenant) :
    (∀ category, o.selected category = false →
      SameSections category t.state (exec (pushWith table o c) t).2.state)
    ∧ (c.rules.isEmpty = false → ∀ ns, ¬HasRuleIn c ns →
        (exec (pushWith table o c) t).2.state.rules.get? ns = t.state.rules.get? ns
        ∧ .namespaces ∉ schedule o c t.state ∧ .pass (.rules ns) ∉ schedule o c t.state)
    ∧ (∀ key, key ∉ table →
        (exec (pushWith table o c) t).2.state.orgValues.get? key = t.state.orgValues.get? key)
    ∧ (∀ u, AlikeTo (schedule o c t.state) t u →
        (exec (pushWith table o c) u).1 = (exec (pushWith table o c) t).1
        ∧ AlikeTo (schedule o c t.state) (exec (pushWith table o c) t).2
            (exec (pushWith table o c) u).2)
    ∧ (o.selected .rules = true → ∀ name rule, c.rules.get? name = some rule →
        (schedule o c t.state).filter (Stage.desiresRule c name)
          = [.pass (.rules rule.effectiveNamespace)])
    ∧ ∀ ns, (Pass.OnlyAt (.rules ns) t.state (exec (Pass.run table o.mode c (.rules ns)) t).2.state)
        ∧ ∀ u, Pass.Alike (.rules ns) t u →
            (exec (Pass.run table o.mode c (.rules ns)) u).1
              = (exec (Pass.run table o.mode c (.rules ns)) t).1
            ∧ Pass.Alike (.rules ns) (exec (Pass.run table o.mode c (.rules ns)) t).2
                (exec (Pass.run table o.mode c (.rules ns)) u).2 := by
  refine ⟨fun category hselected => push_sameSections table c t hselected, fun hrules ns hns => ?_,
    push_sameOutside table o c t, fun u h => push_respects h,
    fun hselected name rule hrule => desiresRule_once t.state hselected hrule, fun ns => ?_⟩
  · have hnot : .pass (.rules ns) ∉ schedule o c t.state := fun h =>
      hns ((mem_schedule_rules hrules).1 h).2
    exact ⟨push_sameAt table hnot, namespaces_not_mem_schedule hrules, hnot⟩
  · exact ⟨(Pass.run_within table o.mode c (.rules ns) t).state,
      fun u h => Pass.run_respects table o.mode c (.rules ns) t u h⟩

end TenantSync.Push
