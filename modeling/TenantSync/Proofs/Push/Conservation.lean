/-
  TenantSync.Proofs.Push.Conservation
  ───────────────────────────────────
  **WHAT A PUSH REPORTS IS BY HOW MUCH THE TENANT GREW.**

  Every decision that goes through moves the number of elements by what its
  operation says:

      added       one more       the element is put where there was none
      removed     one less       the element that is held is taken away
      replaced    as many        the one and the other
      kept        as many        there is no call

  That an addition puts something new into the tenant has a reason of its own in
  each kind of store:

      sections, rules    nothing is held under the name
      subscriptions      no pair of the text is subscribed
      settings           the setting is empty, and is set to a value that is not
      keys               the next identifier is not taken

  The last of these holds until the counter of identifiers begins anew; the others
  hold in every state that a listing shows as it is.  The decisions of a pass are
  about different elements, so what is true of each of them where the pass began is
  true when its turn comes.
-/
import TenantSync.Proofs.Push.Keys
import TenantSync.Proofs.Push.Size

namespace TenantSync.Push

open Config Tenant

/-! ## §1. States that differ in size by what is reported. -/

/-- From `s` to `s'` the number of elements moved by what some operations add and
remove; a replacement is both. -/
def Balanced (operations : List Operation) (s s' : State) : Prop :=
  s'.elementCount + operations.countP Operation.removed
    = s.elementCount + operations.countP Operation.added

theorem Balanced.refl (s : State) : Balanced [] s s := rfl

theorem Balanced.append {operations operations' : List Operation} {s s' s'' : State}
    (h : Balanced operations s s') (h' : Balanced operations' s' s'') :
    Balanced (operations ++ operations') s s'' := by
  unfold Balanced at *
  rw [List.countP_append, List.countP_append]
  omega

section Single

variable {element : ElementType} {name : String} {s s' : State}

theorem balanced_add :
    Balanced [.add element name] s s' ↔ s'.elementCount = s.elementCount + 1 := Iff.rfl

theorem balanced_remove :
    Balanced [.remove element name] s s' ↔ s'.elementCount + 1 = s.elementCount := Iff.rfl

theorem balanced_replace :
    Balanced [.replace element name] s s' ↔ s'.elementCount = s.elementCount := by
  show s'.elementCount + 1 = s.elementCount + 1 ↔ _
  omega

theorem balanced_keep :
    Balanced [.keep element name] s s' ↔ s'.elementCount = s.elementCount := Iff.rfl

end Single

/-! ## §2. Calls that go through. -/

/-- A change that was made is the state afterwards. -/
theorem state_of_changing {α : Type} {t t' : Tenant} {site : CallSite} {a : α}
    {change : Except TenantError (α × State × Mutation)}
    (h : t.changing site change = (.ok a, t')) :
    ∃ s m, change = .ok (a, s, m) ∧ t'.state = s := by
  rcases changing_cases h with ⟨e, hr, -⟩ | ⟨a', s, m, hok, hr, rfl⟩
  · cases hr
  · cases hr
    exact ⟨s, m, hok, rfl⟩

/-- A replacement that deletes and creates has done both. -/
theorem deleted_and_created {β : Type} {store : Store Tenant β} {id : String} {body : β}
    {held : Remote β} {t t' : Tenant}
    (hreplace : store.replace id body held = (do store.delete id held; store.create id body))
    (h : exec (store.replace id body held) t = (.ok (), t')) :
    ∃ t₁, exec (store.delete id held) t = (.ok (), t₁)
      ∧ exec (store.create id body) t₁ = (.ok (), t') := by
  rw [hreplace, exec_bind] at h
  rcases hdelete : exec (store.delete id held) t with ⟨e | _, t₁⟩
  · rw [hdelete] at h
    cases h
  · rw [hdelete] at h
    exact ⟨t₁, rfl, h⟩

/-- Every call of a store that fits what is held and goes through moves the size of the state
by what is reported of it, and leaves all other elements alone. -/
structure Counts {β : Type} (store : Store Tenant β) (view : View β) (admits : β → Prop) :
    Prop where
  create : ∀ {id body t t'}, view t.state id = none → admits body →
    exec (store.create id body) t = (.ok (), t') →
    t'.state.elementCount = t.state.elementCount + 1
  delete : ∀ {id held t t'}, view t.state id = some held →
    exec (store.delete id held) t = (.ok (), t') →
    t'.state.elementCount + 1 = t.state.elementCount
  replace : ∀ {id body held t t'}, view t.state id = some held → admits body →
    exec (store.replace id body held) t = (.ok (), t') →
    t'.state.elementCount = t.state.elementCount
  elsewhere : ∀ {d : Decision β} {t t'}, d.Fits view admits t.state →
    exec (d.call store) t = (.ok (), t') →
    ∀ i, i ≠ d.id → view t'.state i = view t.state i

section Stores

variable {β : Type} {store : Store Tenant β} {view : View β} {stored : String → β → β}
  {admits : β → Prop}

/-- The calls of a lawful store act on one element only. -/
theorem elsewhere_of_lawful {direct : Bool} (hlaw : Lawful store view stored admits direct)
    {d : Decision β} {t t' : Tenant} (hfits : d.Fits view admits t.state)
    (h : exec (d.call store) t = (.ok (), t')) :
    ∀ i, i ≠ d.id → view t'.state i = view t.state i := by
  cases d with
  | add id body =>
      rcases hlaw.create hfits.1 hfits.2 h with ⟨-, info, hacted⟩ | ⟨⟨e, hr⟩, -⟩
      · exact hacted.elsewhere
      · cases hr
  | keep id =>
      cases h
      exact fun i _ => rfl
  | replace id body held =>
      rcases hlaw.replace hfits.1 hfits.2 h with ⟨-, info, hacted⟩ | ⟨⟨e, hr⟩, -⟩
      · exact hacted.elsewhere
      · cases hr
  | remove id held =>
      rcases hlaw.delete hfits h with ⟨-, hacted⟩ | ⟨⟨e, hr⟩, -⟩
      · exact hacted.elsewhere
      · cases hr

/-- Where an element is replaced by deleting and creating it, the two make up for each other. -/
theorem Counts.ofDefault (hlaw : Lawful store view stored admits false)
    (hreplace : ∀ id body held,
      store.replace id body held = (do store.delete id held; store.create id body))
    (hcreate : ∀ {id body t t'}, view t.state id = none →
      exec (store.create id body) t = (.ok (), t') →
      t'.state.elementCount = t.state.elementCount + 1)
    (hdelete : ∀ {id held t t'}, exec (store.delete id held) t = (.ok (), t') →
      t'.state.elementCount + 1 = t.state.elementCount) : Counts store view admits where
  create := fun hnone _ h => hcreate hnone h
  delete := fun _ h => hdelete h
  replace := by
    intro id body held t t' hview _ h
    obtain ⟨t₁, hgone, hmade⟩ := deleted_and_created (hreplace id body held) h
    have hnone : view t₁.state id = none := by
      rcases hlaw.delete hview hgone with ⟨-, hacted⟩ | ⟨⟨e, hr⟩, -⟩
      · exact hacted.here
      · cases hr
    have hless := hdelete hgone
    have hmore := hcreate hnone hmade
    omega
  elsewhere := fun hfits h => elsewhere_of_lawful hlaw hfits h

end Stores

namespace Pass

theorem plain_counts {p : Pass} {sec : Section p.Body} (h : p.section? = some sec) :
    Counts (.plain sec) p.view p.Admits := by
  have hlaw := plain_lawful h
  rw [direct_section h] at hlaw
  refine .ofDefault hlaw (fun _ _ _ => rfl) ?_ ?_
  · intro id body t t' hnone hcall
    rw [show exec ((Store.plain sec).create id body) t = _ from exec_add sec id body t] at hcall
    obtain ⟨s, m, hok, hstate⟩ := state_of_changing hcall
    cases hok
    rw [view_section h] at hnone
    rw [hstate]
    exact elementCount_added h hnone
  · intro id held t t' hcall
    rw [show exec ((Store.plain sec).delete id held) t = _ from exec_delete sec id t] at hcall
    obtain ⟨s, m, hok, rfl⟩ := state_of_changing hcall
    exact elementCount_deleted h hok

theorem rules_counts (ns : String) : Counts (.rules ns) (view (.rules ns)) (Admits (.rules ns)) := by
  refine .ofDefault (rules_lawful ns) (fun _ _ _ => rfl) ?_ ?_
  · intro id rule t t' hnone hcall
    cases hid : Store.ruleOf ns id with
    | error e =>
        rw [rules_create_refused hid] at hcall
        cases hcall
    | ok name =>
        rw [rules_create hid, exec_addRule] at hcall
        obtain ⟨s, m, hok, rfl⟩ := state_of_changing hcall
        obtain rfl := Store.ruleOf_eq_ok.1 hid
        exact elementCount_withRule hok ((view_label (.rules ns) _ _).symm.trans hnone)
  · intro id held t t' hcall
    cases hid : Store.ruleOf ns id with
    | error e =>
        rw [rules_delete_refused hid] at hcall
        cases hcall
    | ok name =>
        rw [rules_delete hid, exec_deleteRule] at hcall
        obtain ⟨s, m, hok, rfl⟩ := state_of_changing hcall
        exact elementCount_withoutRule hok

/-! Subscriptions. -/

/-- There is nothing to see of a text but whether a pair of it is subscribed. -/
theorem view_resources (s : State) (id : String) :
    (TextOf (IsSubscribed s) id → view .resources s id = some ⟨(), {}⟩)
      ∧ (¬TextOf (IsSubscribed s) id → view .resources s id = none) := by
  show (_ → (Store.resourceElements s.resources).get? id = _)
    ∧ (_ → (Store.resourceElements s.resources).get? id = none)
  rw [← mem_resourceElements]
  refine ⟨fun hmem => ?_, NameMap.get?_eq_none_iff.2⟩
  obtain ⟨r, hr⟩ := NameMap.mem_keys.1 hmem
  have hentry := NameMap.mem_entries_ofList (NameMap.get?_eq_some_iff.1 hr)
  simp only [List.mem_flatMap, List.mem_map] at hentry
  obtain ⟨_, -, name, -, heq⟩ := hentry
  cases heq
  exact hr

theorem view_resources_congr {s s' : State} {id : String}
    (h : TextOf (IsSubscribed s') id ↔ TextOf (IsSubscribed s) id) :
    view .resources s' id = view .resources s id := by
  by_cases hin : TextOf (IsSubscribed s) id
  · rw [(view_resources s id).1 hin, (view_resources s' id).1 (h.2 hin)]
  · rw [(view_resources s id).2 hin, (view_resources s' id).2 fun hin' => hin (h.1 hin')]

theorem elementCount_of_subscribe {id : String} {body : Unit} {t t' : Tenant}
    (h : exec (Store.resources.create id body) t = (.ok (), t'))
    (hnot : ∀ category name, Store.splitResource id = .ok (category, name) →
      ¬IsSubscribed t.state category name) :
    t'.state.elementCount = t.state.elementCount + 1 := by
  rw [exec_resources_create] at h
  split at h
  next category name hsplit =>
    rw [exec_subscribe] at h
    obtain ⟨s, m, hok, hstate⟩ := state_of_changing h
    cases hok
    rw [hstate]
    exact elementCount_withSubscription (hnot category name hsplit)
  next => cases h

theorem elementCount_of_unsubscribe {id : String} {held : Remote Unit} {t t' : Tenant}
    (h : exec (Store.resources.delete id held) t = (.ok (), t')) :
    t'.state.elementCount + 1 = t.state.elementCount := by
  rw [exec_resources_delete] at h
  split at h
  next category name hsplit =>
    rw [exec_unsubscribe] at h
    obtain ⟨s, m, hok, rfl⟩ := state_of_changing h
    exact elementCount_withoutSubscription hok
  next => cases h

/-- A call leaves all pairs alone but the one that its text is taken apart into. -/
theorem subscribed_elsewhere {d : Decision Unit} {t t' : Tenant}
    (h : exec (d.call Store.resources) t = (.ok (), t')) {category name : String}
    (hpair : Store.splitResource d.id ≠ .ok (category, name)) :
    IsSubscribed t'.state category name ↔ IsSubscribed t.state category name := by
  have hcreate : ∀ {t t'}, exec (Store.resources.create d.id ()) t = (.ok (), t') →
      (IsSubscribed t'.state category name ↔ IsSubscribed t.state category name) := by
    intro t t' hcall
    rw [subscribed_of_create hcall]
    exact or_iff_right hpair
  have hdelete : ∀ {t t' held}, exec (Store.resources.delete d.id held) t = (.ok (), t') →
      (IsSubscribed t'.state category name ↔ IsSubscribed t.state category name) := by
    intro t t' held hcall
    rw [subscribed_of_delete hcall]
    exact and_iff_left hpair
  cases d with
  | add id body => exact hcreate h
  | keep id =>
      cases h
      exact Iff.rfl
  | replace id body held =>
      obtain ⟨t₁, hgone, hmade⟩ := deleted_and_created rfl h
      exact (hcreate hmade).trans (hdelete hgone)
  | remove id held => exact hdelete h

theorem resources_counts : Counts .resources (view .resources) (Admits .resources) where
  create := by
    intro id body t t' hnone _ h
    refine elementCount_of_subscribe h fun category name hsplit hsubscribed => ?_
    obtain ⟨rfl, -⟩ := Store.splitResource_eq_ok.1 hsplit
    rw [(view_resources _ _).1 ⟨category, name, hsubscribed, rfl⟩] at hnone
    cases hnone
  delete := fun _ h => elementCount_of_unsubscribe h
  replace := by
    intro id body held t t' _ _ h
    obtain ⟨t₁, hgone, hmade⟩ := deleted_and_created rfl h
    have hless := elementCount_of_unsubscribe hgone
    -- the pair that is subscribed is the one that was unsubscribed before
    have hmore := elementCount_of_subscribe hmade fun category name hsplit hsubscribed =>
      ((subscribed_of_delete hgone).1 hsubscribed).2 hsplit
    omega
  elsewhere := by
    intro d t t' _ h i hi
    refine view_resources_congr (exists₂_congr fun category name => and_congr_left ?_)
    -- a pair of another text is another pair
    rintro rfl
    exact subscribed_elsewhere h fun hsplit => hi (Store.splitResource_eq_ok.1 hsplit).1.symm

/-! Settings. -/

/-- A setting that goes through leaves all other ones alone, and counts as its value says. -/
theorem set_counts {id value : String} {t t' : Tenant}
    (h : exec (setOrgValue id value) t = (.ok (), t')) :
    t'.state.elementCount + settingCount (setting t.state id)
        = t.state.elementCount + settingCount value := by
  rw [exec_setOrgValue] at h
  obtain ⟨s, m, hok, hstate⟩ := state_of_changing h
  cases hok
  rw [hstate]
  exact elementCount_setting id value t.state

theorem settingCount_of_view {s : State} {id : String} :
    settingCount (setting s id) = (view .orgValues s id).toList.length := by
  show (!(setting s id).isEmpty).toNat = (heldSetting s id).toList.length
  unfold heldSetting
  cases (setting s id).isEmpty <;> rfl

theorem settingCount_admitted {value : String} (h : Admits .orgValues value) :
    settingCount value = 1 := by
  unfold settingCount
  rw [show value.isEmpty = false from h]
  rfl

theorem orgValues_counts (table : List String) :
    Counts (.orgValues table) (view .orgValues) (Admits .orgValues) where
  create := by
    intro id value t t' hnone hvalue h
    have hset := set_counts h
    rw [settingCount_of_view, hnone, settingCount_admitted hvalue] at hset
    exact hset
  delete := by
    intro id held t t' hview h
    have hset := set_counts (show exec (setOrgValue id "") t = _ from h)
    rw [settingCount_of_view, hview] at hset
    exact hset
  replace := by
    intro id value held t t' hview hvalue h
    have hset := set_counts h
    rw [settingCount_of_view, hview, settingCount_admitted hvalue] at hset
    exact Nat.add_right_cancel hset
  elsewhere := fun hfits h => elsewhere_of_lawful (orgValues_lawful table) hfits h

/-- **Every store but that of installation keys counts.** -/
theorem store_counts (table : List String) {p : Pass} (hkeys : p ≠ .installationKeys) :
    Counts (p.store table) p.view p.Admits := by
  cases hp : p.section? with
  | some sec =>
      rw [store_plain table hp]
      exact plain_counts hp
  | none =>
      cases p with
      | resources => exact resources_counts
      | rules ns => exact rules_counts ns
      | installationKeys => exact absurd rfl hkeys
      | orgValues => exact orgValues_counts table
      | _ => cases hp

end Pass

/-! ## §3. Decisions, passes and visits. -/

section Decisions

variable {β : Type} {store : Store Tenant β} {view : View β} {admits : β → Prop}
  (hcounts : Counts store view admits)

include hcounts

theorem Counts.balanced {d : Decision β} {t t' : Tenant} (hfits : d.Fits view admits t.state)
    (h : exec (d.call store) t = (.ok (), t')) :
    Balanced [d.operation store.element] t.state t'.state := by
  cases d with
  | add id body => exact balanced_add.2 (hcounts.create hfits.1 hfits.2 h)
  | keep id =>
      cases h
      exact balanced_keep.2 rfl
  | replace id body held => exact balanced_replace.2 (hcounts.replace hfits.1 hfits.2 h)
  | remove id held => exact balanced_remove.2 (hcounts.delete hfits h)

/-- **Decisions about different elements** that fit the state in front of the first of them
are balanced by their operations, if all go through. -/
theorem Counts.balanced_all {ds : List (Decision β)} {t t' : Tenant}
    (h : WentThrough store ds t t') (hnodup : (ds.map Decision.id).Nodup)
    (hfits : ∀ d ∈ ds, d.Fits view admits t.state) :
    Balanced (ds.map (Decision.operation store.element)) t.state t'.state := by
  induction h with
  | nil => exact .refl _
  | @cons d ds t t₁ t' hcall _ ih =>
      obtain ⟨hnew, hnodup⟩ := List.nodup_cons.1 hnodup
      have hfirst := hfits d List.mem_cons_self
      have hone := hcounts.balanced hfirst hcall
      -- the others are about other elements, and fit what the first one left
      have hrest := ih hnodup fun d' hd' => by
        have hne : d'.id ≠ d.id := fun heq => hnew (List.mem_map.2 ⟨d', hd', heq⟩)
        exact (hfits d' (List.mem_cons_of_mem _ hd')).congr
          (hcounts.elsewhere hfirst hcall _ hne)
      exact hone.append hrest

end Decisions

/-! ### Installation keys. -/

/-- Steps move the size of the state by the keys that are made and dropped. -/
theorem KeyRun.elementCount {now : Timestamp} {steps : List KeyStep} {s s' : State}
    (h : KeyRun now steps s s') :
    ∀ {n : Nat}, Numbered n s → n + steps.countP KeyStep.isMake < twoTo 64 →
      s'.elementCount + steps.countP KeyStep.isDrop
        = s.elementCount + steps.countP KeyStep.isMake := by
  induction h with
  | nil => exact fun _ _ => rfl
  | @drop steps s s' id key hheld hrest ih =>
      intro n hn hfew
      have hrest := ih (hn.erase id) (by simpa [KeyStep.isMake] using hfew)
      have hput := elementCount_installationKeys (s.installationKeys.erase id) s
      have herase := NameMap.size_erase hheld
      simp only [List.countP_cons, KeyStep.isDrop, KeyStep.isMake, if_true, Bool.false_eq_true,
        if_false] at hrest ⊢
      omega
  | @make steps s s' key hrest ih =>
      intro n hn hfew
      rw [List.countP_cons_of_pos (show KeyStep.isMake (.make key) = true from rfl)] at hfew
      have hrest := ih (hn.make (by omega) now key) (by omega)
      have hmade := elementCount_withKey_fresh hn (by omega) now key
      simp only [List.countP_cons, KeyStep.isDrop, KeyStep.isMake, if_true, Bool.false_eq_true,
        if_false] at hrest ⊢
      omega

/-- A decision about a key that goes through makes a key if it is reported to add one, and
drops a key if it is reported to remove one. -/
theorem countP_keySteps {d : Decision InstallationKey} {t t' : Tenant}
    (h : exec (d.call Store.installationKeys) t = (.ok (), t')) :
    d.keySteps.countP KeyStep.isMake
        = [d.operation .installationKey].countP Operation.added
      ∧ d.keySteps.countP KeyStep.isDrop
        = [d.operation .installationKey].countP Operation.removed := by
  -- a key without an identifier cannot be deleted
  have hdelete : ∀ {id held t₁}, exec (Store.installationKeys.delete id held) t = (.ok (), t₁) →
      ∃ keyId, held.info.id = some keyId := by
    intro id held t₁ hcall
    unfold Store.installationKeys at hcall
    dsimp only at hcall
    split at hcall
    next keyId hid => exact ⟨keyId, hid⟩
    next => cases hcall
  cases d with
  | add id body => exact ⟨rfl, rfl⟩
  | keep id => exact ⟨rfl, rfl⟩
  | replace id body held =>
      obtain ⟨t₁, hgone, -⟩ := deleted_and_created rfl h
      obtain ⟨keyId, hid⟩ := hdelete hgone
      simp only [Decision.keySteps, hid]
      exact ⟨rfl, rfl⟩
  | remove id held =>
      obtain ⟨keyId, hid⟩ := hdelete h
      simp only [Decision.keySteps, hid]
      exact ⟨rfl, rfl⟩

theorem countP_keySteps_all {ds : List (Decision InstallationKey)} {t t' : Tenant}
    (h : WentThrough Store.installationKeys ds t t') :
    (ds.flatMap Decision.keySteps).countP KeyStep.isMake
        = (ds.map (Decision.operation .installationKey)).countP Operation.added
      ∧ (ds.flatMap Decision.keySteps).countP KeyStep.isDrop
        = (ds.map (Decision.operation .installationKey)).countP Operation.removed := by
  induction h with
  | nil => exact ⟨rfl, rfl⟩
  | @cons d ds _ _ _ hcall _ ih =>
      obtain ⟨hmakes, hdrops⟩ := countP_keySteps hcall
      obtain ⟨hmakes', hdrops'⟩ := ih
      rw [List.flatMap_cons, List.countP_append, List.countP_append, hmakes, hdrops, hmakes',
        hdrops', ← List.countP_append, ← List.countP_append]
      exact ⟨rfl, rfl⟩

/-- Decisions about keys are balanced by their operations, if the counter does not begin
anew on the way. -/
theorem balanced_of_keys {ds : List (Decision InstallationKey)} {t t' : Tenant} {n : Nat}
    (h : WentThrough Store.installationKeys ds t t') (hn : Numbered n t.state)
    (hfew : n + issued t t' < twoTo 64) :
    Balanced (ds.map (Decision.operation .installationKey)) t.state t'.state := by
  have hdone := keysDone_of_wentThrough h
  obtain ⟨hmakes, hdrops⟩ := countP_keySteps_all h
  rw [hdone.issued] at hfew
  have hsize := hdone.run.elementCount hn hfew
  rw [hmakes, hdrops] at hsize
  exact hsize

/-! ### Passes and visits. -/

section Runs

variable {table : List String} {mode : Mode} {c : Config} {t t' : Tenant}

/-- Identifiers from `t` to `t'` continue those of `t`, and are so few that the counter does
not begin anew. -/
def FewIssued (t t' : Tenant) : Prop := ∃ n, Numbered n t.state ∧ n + issued t t' < twoTo 64

/-- A pass that has no failure is balanced by what it reports. -/
theorem Pass.balanced_of_run {p : Pass} {o : Outcome} (hcovered : p.Covered table c)
    (hdry : mode.dryRun = false) (hshown : t.faults.SettingsShown)
    (hkeys : p = .installationKeys → FewIssued t t')
    (h : exec (p.run table mode c) t = (.ok o, t')) (hok : o.failures = []) :
    Balanced o.operations t.state t'.state := by
  obtain ⟨t₁, hstate, hlog, henact⟩ := run_ok_decisions hshown h
  have hgone := wentThrough_of_enactAll hdry _ henact hok
  rw [operations_of_run hshown h]
  -- the listing left state and log as they were
  suffices hall : Balanced ((p.decisions table mode c t.state).map (Decision.operation p.element))
      t₁.state t'.state by rwa [hstate] at hall
  by_cases hp : p = .installationKeys
  · subst hp
    obtain ⟨n, hn, hfew⟩ := hkeys rfl
    rw [← hstate] at hn
    have hissued : issued t₁ t' = issued t t' := by
      unfold issued
      rw [hlog]
    exact balanced_of_keys hgone hn (by rwa [hissued])
  · have hall := (store_counts table hp).balanced_all hgone (decisions_ids_nodup hp) fun d hd => by
      rw [hstate]
      exact fits_of_decision hp hcovered hd
    rwa [store_element] at hall

theorem Stage.issues_of_run {stage : Stage} {r : Except Error Outcome}
    (h : exec (stage.run table mode c) t = (r, t')) : Issues t t' := by
  have hissues := stage_keeps_calls .refl (fun h h' => h.trans h') issues_call table mode c stage t
  rwa [h] at hissues

/-- Visits give out identifiers in turn. -/
theorem Ran.issues {visits : List Visit} (h : Ran table mode c t visits t') : Issues t t' := by
  induction h with
  | nil => exact .refl _
  | cons hrun _ _ ih => exact (Stage.issues_of_run hrun).trans ih

/-- **Visits without a failure are balanced by what they report.** -/
theorem Ran.balanced {visits : List Visit} (h : Ran table mode c t visits t')
    (hclean : Clean visits) (hdry : mode.dryRun = false) (hshown : t.faults.SettingsShown)
    (hcovered : ∀ p, .pass p ∈ visits.map Visit.stage → p.Covered table c)
    (hkeys : .pass .installationKeys ∈ visits.map Visit.stage → FewIssued t t') :
    Balanced (operationsOf visits) t.state t'.state := by
  induction h with
  | nil => exact .refl _
  | @cons t t₁ t' v visits hrun hlog hrest ih =>
      have hconfined := v.stage.run_confined table mode c t
      have hissues := Stage.issues_of_run hrun
      rw [hrun] at hconfined
      -- what is given out from `t` to `t'` is given out by the first visit or by the others
      have hfew : FewIssued t t' → FewIssued t t₁ ∧ FewIssued t₁ t' := by
        rintro ⟨n, hn, hfew⟩
        rw [hissues.issued_trans hrest.issues] at hfew
        exact ⟨⟨n, hn, by omega⟩, _, hn.issues hissues (by omega), by omega⟩
      have hfirst : Balanced v.outcome.operations t.state t₁.state := by
        have hnone := hclean v List.mem_cons_self
        cases hstage : v.stage with
        | namespaces =>
            rw [hstage] at hrun
            obtain ⟨houtcome, hstate, -⟩ := run_namespaces_ok hrun
            rw [houtcome, hstate]
            exact .refl _
        | pass p =>
            rw [hstage] at hrun
            have hmem : Stage.pass p ∈ (v :: visits).map Visit.stage :=
              hstage ▸ List.mem_cons_self
            exact Pass.balanced_of_run (hcovered p hmem) hdry hshown
              (fun hp => (hfew (hkeys (hp ▸ hmem))).1) hrun hnone
      have hlater := ih (fun v hv => hclean v (List.mem_cons_of_mem _ hv))
        (hshown.weaker hconfined.weaker) (fun p hp => hcovered p (List.mem_cons_of_mem _ hp))
        fun hp => (hfew (hkeys (List.mem_cons_of_mem _ hp))).2
      exact hfirst.append hlater

end Runs

/-! ## §4. The push. -/

/-- What a summary counts. -/
theorem summary_counts (operations : List Operation) :
    (Summary.of operations).added + (Summary.of operations).replaced
        = operations.countP Operation.added
      ∧ (Summary.of operations).removed + (Summary.of operations).replaced
        = operations.countP Operation.removed := by
  -- by the operations, from any summary on
  have hall : ∀ s : Summary,
      (operations.foldl Summary.count s).added + (operations.foldl Summary.count s).replaced
          = s.added + s.replaced + operations.countP Operation.added
        ∧ (operations.foldl Summary.count s).removed
            + (operations.foldl Summary.count s).replaced
          = s.removed + s.replaced + operations.countP Operation.removed := by
    induction operations with
    | nil => exact fun s => ⟨rfl, rfl⟩
    | cons op operations ih =>
        intro s
        obtain ⟨hadded, hremoved⟩ := ih (s.count op)
        rw [List.foldl_cons, hadded, hremoved, List.countP_cons, List.countP_cons]
        unfold Summary.count
        cases op.added <;> cases op.removed <;> simp <;> omega
  obtain ⟨hadded, hremoved⟩ := hall {}
  exact ⟨hadded.trans (Nat.zero_add _), hremoved.trans (Nat.zero_add _)⟩

/-- States are balanced by operations if they differ by what the summary of these says. -/
theorem balanced_iff_summary {operations : List Operation} {s s' : State} :
    Balanced operations s s'
      ↔ s'.elementCount + (Summary.of operations).removed
        = s.elementCount + (Summary.of operations).added := by
  obtain ⟨hadded, hremoved⟩ := summary_counts operations
  unfold Balanced
  omega

/-- **Conservation.**  A push that succeeds and is not dry leaves as many elements as there
were, with those that it reports as added and without those that it reports as removed;
what it reports as replaced or unchanged makes no difference.  If it is about
installation keys, fewer than `2^64` identifiers must have been given out to the tenant, those
of this push included. -/
theorem push_conserves {n : Nat} {t t' : Tenant} (table : List String) (o : Options) (c : Config)
    {operations : List Operation} (hreached : Reached n t) (hshown : t.faults.SettingsShown)
    (hdry : o.mode.dryRun = false)
    (hfew : o.selected .installationKeys = true → n + issued t t' < twoTo 64)
    (h : exec (pushWith table o c) t = (.ok operations, t')) :
    t'.state.elementCount + (Summary.of operations).removed
      = t.state.elementCount + (Summary.of operations).added := by
  rw [← balanced_iff_summary]
  rcases push_cases h with ⟨-, hr, -⟩ | ⟨-, -, ⟨why, hr⟩, -⟩ | ⟨-, hpushable, hfinish⟩
  · cases hr
  · cases hr
  · cases hfinish with
    | completed visits hsts hran hclean =>
        have hselected : ∀ p, .pass p ∈ visits.map Visit.stage →
            o.selected (Stage.pass p).category = true := by
          intro p hp
          exact selected_of_mem_schedule (c := c) (s := t.state) (hsts ▸ hp)
        refine hran.balanced hclean hdry hshown
          (fun p hp => covered_of_pushable hpushable (hselected p hp)) fun hkeys => ?_
        have hfew := hfew (hselected _ hkeys)
        exact ⟨n, hreached.numbered (by omega), hfew⟩

/-- A push adds a second key, removes a setting, replaces an output and keeps the first
key. -/
theorem push_conserves_mixed :
    let o : Options := ⟨{ force := true, drift := .replace },
      fun c => c == .outputs || c == .installationKeys || c == .orgValues⟩
    let c : Config :=
      { outputs := .ofList [("x", { module := "slack", stream := "event" })],
        installationKeys := .ofList [("k", {}), ("l", {})] }
    let t₁ : Tenant := (exec (createInstallationKey { desc := "k" }) { now := ⟨0, 0⟩ }).2
    let t₂ : Tenant := (exec (setOrgValue "otx" "1") t₁).2
    let t : Tenant :=
      (exec (Section.outputs.add "x" { module := "syslog", stream := "event" }) t₂).2
    let final := exec (push o c) t
    final.1.toOption.map Summary.of
        = some { added := 1, removed := 1, replaced := 1, unchanged := 1 }
      ∧ final.2.state.elementCount + 1 = t.state.elementCount + 1 := by
  intro o c t₁ t₂ t final
  have hsummary : final.1.toOption.map Summary.of
      = some { added := 1, removed := 1, replaced := 1, unchanged := 1 } := by decide +kernel
  obtain ⟨operations, hok, hcounted⟩ := Option.map_eq_some_iff.1 hsummary
  have hpush : final = (final.1, final.2) := (Prod.eta final).symm
  rw [eq_ok_of_toOption hok] at hpush
  have hreached : Reached (0 + issued { now := ⟨0, 0⟩ } t₁ + issued t₁ t₂ + issued t₂ t) t :=
    .called (.called (.called (.new ⟨0, 0⟩) (.createInstallationKey { desc := "k" }))
      (.setOrgValue "otx" "1")) (.add (p := .outputs) rfl "x" _)
  have hshown : t.faults.SettingsShown := by
    have hnone : t.faults.answer ⟨.list, .orgValue⟩ = none := by decide +kernel
    intro what hwhat
    rw [hnone] at hwhat
    cases hwhat
  have hsize := push_conserves Store.supportedOrgValues o c hreached hshown rfl
    (fun _ => by decide +kernel) hpush
  have hremoved : (Summary.of operations).removed = 1 := by rw [hcounted]
  have hadded : (Summary.of operations).added = 1 := by rw [hcounted]
  rw [hremoved, hadded] at hsize
  exact ⟨hsummary, hsize⟩

/-- **When the counter begins anew**, a push reports a key as added that comes in place of
another one: a tenant to which `2^64` identifiers were given out is as large afterwards as
before. -/
theorem push_conserves_key_replaced :
    ¬ ∀ (n : Nat) (t t' : Tenant) (o : Options) (c : Config) (operations : List Operation),
      Reached n t → t.faults.Quiet → o.mode.dryRun = false →
      exec (push o c) t = (.ok operations, t') →
      t'.state.elementCount + (Summary.of operations).removed
        = t.state.elementCount + (Summary.of operations).added := by
  intro hconserves
  obtain ⟨n, falsePositives, log, hreached⟩ := reached_withFirstKey 18446744073709551615
  have hzero : UInt64.ofNat (18446744073709551615 + 1) = 0 := rfl
  rw [hzero] at hreached
  let t := withFirstKey falsePositives log 0
  let o : Options := ⟨{}, fun c => c == .installationKeys⟩
  let c : Config := { installationKeys := NameMap.empty.insert "b" {} }
  let operations : List Operation := [.add .installationKey "b", .keep .installationKey "a"]
  obtain ⟨t', hpush, hstate⟩ : ∃ t', exec (push o c) t = (.ok operations, t')
      ∧ t'.state = (withKey ⟨0, 0⟩ { desc := "b" } t.state).2 := ⟨_, rfl, rfl⟩
  have hsize := hconserves n t t' o c operations hreached (fun _ => rfl) rfl hpush
  have hremoved : (Summary.of operations).removed = 0 := rfl
  have hadded : (Summary.of operations).added = 1 := rfl
  rw [hremoved, hadded] at hsize
  -- the key that is made has the identifier of the one that is there
  have hcount : t'.state.elementCount = t.state.elementCount := by
    rw [hstate]
    exact elementCount_withKey_taken ((NameMap.get?_insert _ _ _ _).trans (if_pos rfl)) _ _
  omega

end TenantSync.Push
