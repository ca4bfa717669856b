/-
  TenantSync.Proofs.Push.Size
  ───────────────────────────
  **THE SIZE OF A STATE IS THE SUM OF THE SIZES OF ITS PARTS.**

  A call changes one part of a state.  So by how much it changes the number of
  elements is seen in that part alone:

      put where there is none        one more
      taken away                     one less
      a setting                      counts if its value is not empty
      a key under a taken identifier as many
-/
import TenantSync.Proofs.Push.Additive
import TenantSync.Proofs.Push.Subscriptions

namespace TenantSync.Push

open Config Tenant

/-! ## §1. Parts. -/

theorem elementCount_section {p : Pass} {sec : Section p.Body} (h : p.section? = some sec)
    (m : NameMap (Remote p.Body)) (s : State) :
    (sec.put m s).elementCount + (sec.get s).size = s.elementCount + m.size := by
  -- every section is one of the summands
  unfold State.elementCount
  cases p <;> cases h <;> dsimp only [Section.falsePositives, Section.outputs, Section.integrity,
    Section.exfilWatches, Section.exfilEvents, Section.artifacts, Section.yaraSources,
    Section.yaraRules] <;> omega

theorem elementCount_resources (m : NameMap NameSet) (s : State) :
    ({ s with resources := m } : State).elementCount + s.resources.total NameMap.size
      = s.elementCount + m.total NameMap.size := by
  unfold State.elementCount
  dsimp only
  omega

theorem elementCount_rules (m : NameMap (NameMap (Remote Rule))) (s : State) :
    ({ s with rules := m } : State).elementCount + s.rules.total NameMap.size
      = s.elementCount + m.total NameMap.size := by
  unfold State.elementCount
  dsimp only
  omega

theorem elementCount_installationKeys (m : NameMap (Remote InstallationKey)) (s : State) :
    ({ s with installationKeys := m } : State).elementCount + s.installationKeys.size
      = s.elementCount + m.size := by
  unfold State.elementCount
  dsimp only
  omega

/-- A setting counts if it is not empty. -/
def settingCount (value : String) : Nat := (!value.isEmpty).toNat

theorem elementCount_orgValues (m : NameMap String) (s : State) :
    ({ s with orgValues := m } : State).elementCount + s.orgValues.total settingCount
      = s.elementCount + m.total settingCount := by
  unfold State.elementCount
  simp only [NameMap.length_filter_values]
  unfold settingCount
  omega

/-! ## §2. Changes of a part. -/

section Changes

variable {s : State}

/-- An element of a section is put where there is none. -/
theorem elementCount_added {p : Pass} {sec : Section p.Body} (h : p.section? = some sec)
    {now : Timestamp} {name : String} {body : p.Body} (hnone : (sec.get s).get? name = none) :
    (sec.added now name body s).elementCount = s.elementCount + 1 := by
  let stamped := s.stamp now sec.element.name body
  -- the section is the same after an identifier was given out
  have hget : sec.get stamped.2 = sec.get s := Pass.section_get_idCounter h s _
  have hput := elementCount_section h ((sec.get stamped.2).insert name stamped.1) stamped.2
  rw [hget, NameMap.size_insert hnone] at hput
  show (sec.put ((sec.get stamped.2).insert name stamped.1) stamped.2).elementCount = _
  rw [hget]
  refine Nat.add_right_cancel (hput.trans ?_)
  show s.elementCount + _ = _
  omega

theorem elementCount_deleted {p : Pass} {sec : Section p.Body} (h : p.section? = some sec)
    {name : String} {u : Unit} {s' : State} {m : Mutation}
    (hok : sec.deleted name s = .ok (u, s', m)) : s'.elementCount + 1 = s.elementCount := by
  unfold Section.deleted at hok
  split at hok
  next hcontains =>
    cases hok
    obtain ⟨r, hr⟩ := Option.isSome_iff_exists.1 hcontains
    have hput := elementCount_section h ((sec.get s).erase name) s
    have herase := NameMap.size_erase hr
    omega
  next => cases hok

/-- A pair is subscribed that was not. -/
theorem elementCount_withSubscription {category name : String}
    (hnot : ¬IsSubscribed s category name) :
    (withSubscription category name s).elementCount = s.elementCount + 1 := by
  have hput := elementCount_resources (s.resources.insert category
    ((subscribed s category).insert name ())) s
  have htotal := NameMap.total_insert NameMap.size s.resources category
    ((subscribed s category).insert name ())
  have hnone : (subscribed s category).get? name = none := by
    unfold IsSubscribed NameMap.contains at hnot
    simpa using hnot
  rw [NameMap.size_insert hnone] at htotal
  -- a category that is not there has no subscriptions
  have hbefore : ((s.resources.get? category).map NameMap.size).getD 0
      = (subscribed s category).size := by
    unfold subscribed
    cases s.resources.get? category <;> rfl
  unfold withSubscription
  omega

theorem elementCount_withoutSubscription {category name : String} {u : Unit} {s' : State}
    {m : Mutation} (hok : withoutSubscription category name s = .ok (u, s', m)) :
    s'.elementCount + 1 = s.elementCount := by
  unfold withoutSubscription at hok
  split at hok
  · cases hok
  next names hnames =>
    split at hok
    next hcontains =>
      cases hok
      obtain ⟨r, hr⟩ := Option.isSome_iff_exists.1 hcontains
      have hrest := NameMap.size_erase hr
      -- whether the category stays or goes, one name less is counted in it
      have htotal : (if (names.erase name).isEmpty then s.resources.erase category
          else s.resources.insert category (names.erase name)).total NameMap.size + 1
          = s.resources.total NameMap.size := by
        split
        next hempty =>
          have hsize : (names.erase name).size = 0 := by
            rw [NameMap.eq_empty_of_isEmpty hempty]
            rfl
          have herase := NameMap.total_erase NameMap.size hnames
          omega
        next =>
          have hinsert := NameMap.total_insert NameMap.size s.resources category
            (names.erase name)
          rw [hnames] at hinsert
          simp only [Option.map_some, Option.getD_some] at hinsert
          omega
      have hput := elementCount_resources (if (names.erase name).isEmpty then
        s.resources.erase category else s.resources.insert category (names.erase name)) s
      omega
    next => cases hok

/-- A rule is put where there is none. -/
theorem elementCount_withRule {now : Timestamp} {ns name : String} {rule : Rule} {u : Unit}
    {s' : State} {m : Mutation} (hok : withRule now ns name rule s = .ok (u, s', m))
    (hnone : Pass.held (.rules ns) s name = none) : s'.elementCount = s.elementCount + 1 := by
  unfold withRule at hok
  split at hok
  · cases hok
  next rules hrules =>
    cases hok
    have hnone : rules.get? name = none := by
      rw [← hnone]
      show _ = (s.rules.get? ns).bind _
      rw [hrules]
      rfl
    let remote := (s.stamp now ElementType.rule.name { rule with name, ruleNamespace := ns }).1
    have hput := elementCount_rules (s.rules.insert ns (rules.insert name remote))
      { s with idCounter := s.idCounter + 1 }
    have htotal := NameMap.total_insert NameMap.size s.rules ns (rules.insert name remote)
    rw [hrules, NameMap.size_insert hnone] at htotal
    simp only [Option.map_some, Option.getD_some] at htotal
    refine Nat.add_right_cancel (hput.trans ?_)
    show s.elementCount + _ = _ + s.rules.total NameMap.size
    omega

theorem elementCount_withoutRule {ns name : String} {u : Unit} {s' : State} {m : Mutation}
    (hok : withoutRule ns name s = .ok (u, s', m)) : s'.elementCount + 1 = s.elementCount := by
  unfold withoutRule at hok
  cases hrules : s.rules.get? ns with
  | none =>
      rw [hrules] at hok
      cases hok
  | some rules =>
      simp only [hrules, Option.getD_some] at hok
      split at hok
      next hcontains =>
        cases hok
        obtain ⟨r, hr⟩ := Option.isSome_iff_exists.1 hcontains
        have hput := elementCount_rules (s.rules.insert ns (rules.erase name)) s
        have htotal := NameMap.total_insert NameMap.size s.rules ns (rules.erase name)
        have hrest := NameMap.size_erase hr
        rw [hrules] at htotal
        simp only [Option.map_some, Option.getD_some] at htotal
        omega
      next => cases hok

/-- A setting counts after it was set as its value says, and before as it was. -/
theorem elementCount_setting (name value : String) (s : State) :
    ({ s with orgValues := s.orgValues.insert name value } : State).elementCount
        + settingCount (setting s name) = s.elementCount + settingCount value := by
  have hput := elementCount_orgValues (s.orgValues.insert name value) s
  have htotal := NameMap.total_insert settingCount s.orgValues name value
  have hbefore : ((s.orgValues.get? name).map settingCount).getD 0
      = settingCount (setting s name) := by
    unfold setting
    cases s.orgValues.get? name <;> rfl
  omega

/-- A state grows with its keys when one is made. -/
theorem elementCount_withKey (now : Timestamp) (key : InstallationKey) (s : State) :
    (withKey now key s).2.elementCount + s.installationKeys.size
      = s.elementCount + (withKey now key s).2.installationKeys.size :=
  elementCount_installationKeys (withKey now key s).2.installationKeys
    { s with idCounter := s.idCounter + 1 }

/-- A state is larger by one element when a key is made under an identifier that is new. -/
theorem elementCount_withKey_fresh {n : Nat} (hn : Numbered n s) (hfew : n + 1 < twoTo 64)
    (now : Timestamp) (key : InstallationKey) :
    (withKey now key s).2.elementCount = s.elementCount + 1 := by
  have hput := elementCount_withKey now key s
  have hsize : (withKey now key s).2.installationKeys.size = s.installationKeys.size + 1 :=
    NameMap.size_insert (hn.fresh hfew)
  omega

/-- A state is as large as before when a key is made under the identifier of another one. -/
theorem elementCount_withKey_taken {held : Remote InstallationKey}
    (htaken : s.installationKeys.get? (State.keyId (s.idCounter + 1)) = some held)
    (now : Timestamp) (key : InstallationKey) :
    (withKey now key s).2.elementCount = s.elementCount := by
  have hput := elementCount_withKey now key s
  have hkeys : (withKey now key s).2.installationKeys.keys = s.installationKeys.keys :=
    NameMap.keys_insert htaken
  have hsize := congrArg List.length hkeys
  unfold NameMap.keys at hsize
  rw [List.length_map, List.length_map] at hsize
  unfold NameMap.size at hput
  omega

end Changes

end TenantSync.Push
