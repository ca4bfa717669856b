/-
  TenantSync.Proofs.Push.Subscriptions
  ────────────────────────────────────
  **WHAT A PUSH DOES TO SUBSCRIPTIONS, WHATEVER THEY ARE CALLED.**

  A subscription is a pair of a category and a name, and goes by one text, the two
  with a slash between them.  What is configured and what is held is compared as
  such texts, and before the tenant is called a text is taken apart again, at its
  first slash:

      category without a slash   the text is taken apart into the pair it was made of
      category with a slash      it is taken apart into another pair

  So a push that succeeds decides about a text and acts on the pair in front of
  whose name the first slash stands.  That is the configured one unless a category
  has a slash (`push_subscriptions`); with one it is not (`slash_misdirects`).
-/
import TenantSync.Proofs.Push.Course

namespace TenantSync.Push

open Config Tenant

/-! ## §1. A text and its pair. -/

namespace Store

/-- What is taken apart was put together around its first slash. -/
theorem eq_append_of_splitAtSlash? {cs : List Char} :
    ∀ {before behind : List Char}, splitAtSlash? cs = some (before, behind) →
      cs = before ++ '/' :: behind ∧ '/' ∉ before := by
  induction cs with
  | nil => exact fun h => nomatch h
  | cons c cs ih =>
      intro before behind h
      rw [splitAtSlash?] at h
      split at h
      next hc =>
        cases h
        exact ⟨by rw [hc]; rfl, List.not_mem_nil⟩
      next hc =>
        obtain ⟨⟨before', behind'⟩, hsplit, heq⟩ := Option.map_eq_some_iff.1 h
        cases heq
        obtain ⟨rfl, hnot⟩ := ih hsplit
        exact ⟨rfl, fun hmem => (List.mem_cons.1 hmem).elim (Ne.symm hc) hnot⟩

/-- What is put together is taken apart again, if the first part has no slash. -/
theorem splitAtSlash?_append {before : List Char} (behind : List Char) (h : '/' ∉ before) :
    splitAtSlash? (before ++ '/' :: behind) = some (before, behind) := by
  induction before with
  | nil => exact if_pos rfl
  | cons c before ih =>
      rw [List.mem_cons, not_or] at h
      obtain ⟨hc, hrest⟩ := h
      rw [List.cons_append, splitAtSlash?, if_neg (Ne.symm hc), ih hrest]
      rfl

/-- A text is taken apart into the pair that it is made of and that has no slash in its
category. -/
theorem splitResource_eq_ok {id category name : String} :
    splitResource id = .ok (category, name)
      ↔ id = resourceName category name ∧ '/' ∉ category.toList := by
  have hname : id = resourceName category name
      ↔ id.toList = category.toList ++ '/' :: name.toList := by
    rw [← String.toList_inj]
    simp [resourceName]
  rw [hname]
  unfold splitResource
  constructor
  · intro h
    split at h
    next before behind hsplit =>
      cases h
      rw [String.toList_ofList, String.toList_ofList]
      exact eq_append_of_splitAtSlash? hsplit
    · cases h
  · rintro ⟨hid, hnot⟩
    rw [hid, splitAtSlash?_append _ hnot]
    simp only [String.ofList_toList]

end Store

/-! ## §2. Subscribing and unsubscribing. -/

/-- A pair is subscribed in a state. -/
def IsSubscribed (s : State) (category name : String) : Prop :=
  (subscribed s category).contains name = true

theorem subscribed_congr {s s' : State} (h : s'.resources = s.resources) :
    IsSubscribed s' = IsSubscribed s := by
  funext category name
  unfold IsSubscribed subscribed
  rw [h]

theorem isSubscribed_withSubscription {s : State} {category name category' name' : String} :
    IsSubscribed (withSubscription category name s) category' name'
      ↔ (category' = category ∧ name' = name) ∨ IsSubscribed s category' name' := by
  unfold IsSubscribed subscribed withSubscription NameMap.contains
  simp only [NameMap.get?_insert]
  by_cases hc : category' = category
  · subst hc
    by_cases hn : name' = name
    · simp [NameMap.get?_insert, hn]
    · simp [NameMap.get?_insert, hn, subscribed]
  · simp [hc]

theorem isSubscribed_withoutSubscription {s s' : State} {u : Unit} {m : Mutation}
    {category name category' name' : String}
    (h : withoutSubscription category name s = .ok (u, s', m)) :
    IsSubscribed s' category' name'
      ↔ IsSubscribed s category' name' ∧ ¬(category' = category ∧ name' = name) := by
  unfold withoutSubscription at h
  split at h
  · cases h
  next names hnames =>
    split at h
    · cases h
      have hget : ((if (names.erase name).isEmpty = true then s.resources.erase category
            else s.resources.insert category (names.erase name)).get? category').getD .empty
          = if category' = category then names.erase name
            else (s.resources.get? category').getD .empty := by
        split
        next hempty =>
          -- a category disappears with its last subscription
          rw [NameMap.get?_erase, NameMap.eq_empty_of_isEmpty hempty]
          split <;> rfl
        next =>
          rw [NameMap.get?_insert]
          split <;> rfl
      unfold IsSubscribed subscribed NameMap.contains
      rw [hget]
      by_cases hc : category' = category
      · subst hc
        simp [NameMap.get?_erase, hnames]
        by_cases hn : name' = name
        · simp [hn]
        · simp [hn]
      · simp [hc]
    · cases h

/-! ## §3. What decisions do to subscriptions. -/

theorem exec_resources_create (id : String) (body : Unit) (t : Tenant) :
    exec (Store.resources.create id body) t = match Store.splitResource id with
      | .ok (category, name) => exec (subscribe category name) t
      | .error e => (.error e, t) := by
  show exec (Store.resources.liftExcept (Store.splitResource id) >>= _) t = _
  cases Store.splitResource id <;> rfl

theorem exec_resources_delete (id : String) (held : Remote Unit) (t : Tenant) :
    exec (Store.resources.delete id held) t = match Store.splitResource id with
      | .ok (category, name) => exec (unsubscribe category name) t
      | .error e => (.error e, t) := by
  show exec (Store.resources.liftExcept (Store.splitResource id) >>= _) t = _
  cases Store.splitResource id <;> rfl

section Decisions

variable {t t' : Tenant} {id category name : String}

/-- An addition subscribes the pair that its text is taken apart into. -/
theorem subscribed_of_create {body : Unit}
    (h : exec (Store.resources.create id body) t = (.ok (), t')) :
    IsSubscribed t'.state category name
      ↔ Store.splitResource id = .ok (category, name) ∨ IsSubscribed t.state category name := by
  rw [exec_resources_create] at h
  split at h
  next category' name' hsplit =>
    rw [exec_subscribe] at h
    rcases changing_cases h with ⟨e, hr, -⟩ | ⟨a, s, m, hok, -, rfl⟩
    · cases hr
    · cases hok
      show IsSubscribed (withSubscription category' name' t.state) category name ↔ _
      rw [isSubscribed_withSubscription, hsplit, Except.ok.injEq, Prod.mk.injEq]
      rw [eq_comm (a := category'), eq_comm (a := name')]
  next => cases h

/-- A removal unsubscribes that pair. -/
theorem subscribed_of_delete {held : Remote Unit}
    (h : exec (Store.resources.delete id held) t = (.ok (), t')) :
    IsSubscribed t'.state category name
      ↔ IsSubscribed t.state category name
        ∧ ¬Store.splitResource id = .ok (category, name) := by
  rw [exec_resources_delete] at h
  split at h
  next category' name' hsplit =>
    rw [exec_unsubscribe] at h
    rcases changing_cases h with ⟨e, hr, -⟩ | ⟨a, s, m, hok, -, rfl⟩
    · cases hr
    · show IsSubscribed s category name ↔ _
      rw [isSubscribed_withoutSubscription hok, hsplit, Except.ok.injEq, Prod.mk.injEq]
      rw [eq_comm (a := category'), eq_comm (a := name')]
  next => cases h

/-- Decisions add a text that is taken apart into a pair. -/
def AddsPair (ds : List (Decision Unit)) (category name : String) : Prop :=
  ∃ id body, .add id body ∈ ds ∧ Store.splitResource id = .ok (category, name)

/-- Decisions remove such a text. -/
def RemovesPair (ds : List (Decision Unit)) (category name : String) : Prop :=
  ∃ id held, .remove id held ∈ ds ∧ Store.splitResource id = .ok (category, name)

theorem addsPair_cons {ds : List (Decision Unit)} {body : Unit} :
    AddsPair (.add id body :: ds) category name
      ↔ Store.splitResource id = .ok (category, name) ∨ AddsPair ds category name := by
  constructor
  · rintro ⟨other, body', hmem, hother⟩
    rcases List.mem_cons.1 hmem with heq | hmem
    · cases heq
      exact .inl hother
    · exact .inr ⟨other, body', hmem, hother⟩
  · rintro (hid | ⟨other, body', hmem, hother⟩)
    · exact ⟨id, body, List.mem_cons_self, hid⟩
    · exact ⟨other, body', List.mem_cons_of_mem _ hmem, hother⟩

theorem removesPair_cons {ds : List (Decision Unit)} {held : Remote Unit} :
    RemovesPair (.remove id held :: ds) category name
      ↔ Store.splitResource id = .ok (category, name) ∨ RemovesPair ds category name := by
  constructor
  · rintro ⟨other, held', hmem, hother⟩
    rcases List.mem_cons.1 hmem with heq | hmem
    · cases heq
      exact .inl hother
    · exact .inr ⟨other, held', hmem, hother⟩
  · rintro (hid | ⟨other, held', hmem, hother⟩)
    · exact ⟨id, held, List.mem_cons_self, hid⟩
    · exact ⟨other, held', List.mem_cons_of_mem _ hmem, hother⟩

/-- What is decided about other texts than one is not about its pair. -/
theorem not_removesPair {ds : List (Decision Unit)} (hnew : id ∉ ds.map Decision.id)
    (hid : Store.splitResource id = .ok (category, name)) : ¬RemovesPair ds category name := by
  rintro ⟨other, held, hmem, hother⟩
  have hsame : other = id :=
    (Store.splitResource_eq_ok.1 hother).1.trans (Store.splitResource_eq_ok.1 hid).1.symm
  exact hnew (hsame ▸ List.mem_map_of_mem hmem)

/-- **Decisions that have gone through** subscribe the pairs of added texts, unsubscribe those
of removed ones, and leave all others as they are. -/
theorem subscribed_of_wentThrough {ds : List (Decision Unit)}
    (h : WentThrough Store.resources ds t t') (hnodup : (ds.map Decision.id).Nodup)
    (hnone : ∀ id body held, .replace id body held ∉ ds) :
    IsSubscribed t'.state category name
      ↔ AddsPair ds category name
        ∨ IsSubscribed t.state category name ∧ ¬RemovesPair ds category name := by
  induction h with
  | nil => simp [AddsPair, RemovesPair]
  | @cons d ds t t₁ t' hcall _ ih =>
      obtain ⟨hnew, hnodup⟩ := List.nodup_cons.1 hnodup
      rw [ih hnodup fun id body held hmem => hnone id body held (List.mem_cons_of_mem _ hmem)]
      cases d with
      | keep id =>
          cases hcall
          simp [AddsPair, RemovesPair]
      | replace id body held => exact absurd List.mem_cons_self (hnone id body held)
      | add id body =>
          have hremoves : RemovesPair (.add id body :: ds) category name
              ↔ RemovesPair ds category name := by
            simp [RemovesPair]
          rw [addsPair_cons, hremoves, subscribed_of_create hcall, or_and_right, or_left_comm,
            or_assoc]
          -- no later decision removes the text that was added
          refine or_congr_left ?_
          exact ⟨And.left, fun hid => ⟨hid, not_removesPair hnew hid⟩⟩
      | remove id held =>
          have hadds : AddsPair (.remove id held :: ds) category name
              ↔ AddsPair ds category name := by
            simp [AddsPair]
          rw [hadds, removesPair_cons, subscribed_of_delete hcall, not_or, and_assoc]

end Decisions

/-! ## §4. Texts that are configured and texts that are held. -/

/-- A text is the one of a pair of some kind. -/
def TextOf (pair : String → String → Prop) (id : String) : Prop :=
  ∃ category name, pair category name ∧ id = Store.resourceName category name

/-- Pairs without a slash in their category have texts of their own. -/
theorem textOf_resourceName {pair : String → String → Prop} {category name : String}
    (hpairs : ∀ category name, pair category name → '/' ∉ category.toList)
    (hslash : '/' ∉ category.toList) :
    TextOf pair (Store.resourceName category name) ↔ pair category name := by
  constructor
  · rintro ⟨category', name', hpair, heq⟩
    have hsplit := Store.splitResource_eq_ok.2 ⟨heq, hpairs _ _ hpair⟩
    rw [Store.splitResource_eq_ok.2 ⟨rfl, hslash⟩] at hsplit
    cases hsplit
    exact hpair
  · exact fun h => ⟨category, name, h, rfl⟩

/-- A pair is listed in a document. -/
def Configured (c : Config) (category name : String) : Prop := (category, name) ∈ c.resourcePairs

/-- Texts are desired for the configured pairs. -/
theorem mem_desiredResources {c : Config} {id : String} :
    id ∈ (desiredResources c).keys ↔ TextOf (Configured c) id := by
  unfold desiredResources NameSet.ofList
  rw [NameMap.mem_keys_ofList]
  simp only [List.map_map, List.mem_map, Function.comp_apply]
  constructor
  · rintro ⟨⟨category, name⟩, hmem, rfl⟩
    exact ⟨category, name, hmem, rfl⟩
  · rintro ⟨category, name, hmem, rfl⟩
    exact ⟨(category, name), hmem, rfl⟩

theorem subscribed_iff {s : State} {category name : String} :
    IsSubscribed s category name ↔ ∃ names, (category, names) ∈ s.resources.entries
      ∧ name ∈ names.keys := by
  unfold IsSubscribed subscribed NameMap.contains
  simp only [← NameMap.get?_eq_some_iff, NameMap.mem_keys, Option.isSome_iff_exists]
  cases s.resources.get? category <;> simp

/-- Texts are listed for the subscribed pairs. -/
theorem mem_resourceElements {s : State} {id : String} :
    id ∈ (Store.resourceElements s.resources).keys ↔ TextOf (IsSubscribed s) id := by
  unfold Store.resourceElements
  rw [NameMap.mem_keys_ofList]
  simp only [List.map_flatMap, List.mem_flatMap, List.map_map, List.mem_map, Function.comp_apply]
  constructor
  · rintro ⟨⟨category, names⟩, hentry, name, hname, rfl⟩
    exact ⟨category, name, subscribed_iff.2 ⟨names, hentry, hname⟩, rfl⟩
  · rintro ⟨category, name, hsubscribed, rfl⟩
    obtain ⟨names, hentry, hname⟩ := subscribed_iff.1 hsubscribed
    exact ⟨(category, names), hentry, name, hname, rfl⟩

/-! ## §5. The pass over resources. -/

namespace Pass

variable {table : List String} {mode : Mode} {c : Config} {s : State} {category name : String}

/-- A subscription that is held is kept: it has no content that could differ. -/
theorem decision_resources {id : String} {body : Unit} (held : Option (Remote Unit)) :
    decision (store table .resources) mode id body held
      = if held.isSome then .keep id else .add id body := by
  cases held <;> rfl

/-- What a pass over resources decides. -/
theorem mem_decisions_resources {d : Decision Unit} :
    d ∈ decisions table mode c .resources s
      ↔ (∃ id, TextOf (Configured c) id
          ∧ d = if ((listed table .resources s).get? id).isSome then .keep id else .add id ())
        ∨ ∃ id r, (listed table .resources s).get? id = some r ∧ ¬TextOf (Configured c) id
          ∧ d = dismissal mode id r := by
  have hdesired : ∀ id, (desired c .resources).get? id = some () ↔ TextOf (Configured c) id := by
    intro id
    rw [← mem_desiredResources, NameMap.mem_keys]
    exact ⟨fun h => ⟨(), h⟩, fun ⟨_, h⟩ => h⟩
  have hnot : ∀ id, (desired c .resources).get? id = none ↔ ¬TextOf (Configured c) id := by
    intro id
    rw [← mem_desiredResources]
    exact NameMap.get?_eq_none_iff
  rw [mem_decisions (by simp)]
  refine or_congr ?_ (exists₂_congr fun id r => and_congr_right' (and_congr_left' (hnot id)))
  constructor
  · rintro ⟨id, body, hget, rfl⟩
    exact ⟨id, (hdesired id).1 hget, decision_resources _⟩
  · rintro ⟨id, htext, rfl⟩
    exact ⟨id, (), (hdesired id).2 htext, (decision_resources _).symm⟩

/-- It replaces nothing. -/
theorem replace_not_mem_decisions {id : String} {body : Unit} {held : Remote Unit} :
    .replace id body held ∉ decisions table mode c .resources s := by
  intro hmem
  rcases mem_decisions_resources.1 hmem with ⟨_, -, heq⟩ | ⟨_, _, -, -, heq⟩
  · split at heq <;> cases heq
  · unfold dismissal at heq
    split at heq <;> cases heq

/-- It adds the pairs without a slash in their category whose text is configured and not
listed. -/
theorem addsPair_decisions :
    AddsPair (decisions table mode c .resources s) category name
      ↔ '/' ∉ category.toList ∧ TextOf (Configured c) (Store.resourceName category name)
        ∧ ¬TextOf (IsSubscribed s) (Store.resourceName category name) := by
  unfold AddsPair
  simp only [Store.splitResource_eq_ok]
  constructor
  · rintro ⟨id, body, hmem, rfl, hslash⟩
    rcases mem_decisions_resources.1 hmem with ⟨id, htext, heq⟩ | ⟨_, _, -, -, heq⟩
    · split at heq
      · cases heq
      next hlisted =>
        cases heq
        refine ⟨hslash, htext, ?_⟩
        rw [← mem_resourceElements, NameMap.mem_keys, ← Option.isSome_iff_exists]
        exact hlisted
    · unfold dismissal at heq
      split at heq <;> cases heq
  · rintro ⟨hslash, htext, hnot⟩
    rw [← mem_resourceElements, NameMap.mem_keys, ← Option.isSome_iff_exists] at hnot
    exact ⟨_, (), mem_decisions_resources.2 (.inl ⟨_, htext, (if_neg hnot).symm⟩), rfl, hslash⟩

/-- It removes those whose text is listed and not configured, under force. -/
theorem removesPair_decisions :
    RemovesPair (decisions table mode c .resources s) category name
      ↔ '/' ∉ category.toList ∧ mode.force = true
        ∧ TextOf (IsSubscribed s) (Store.resourceName category name)
        ∧ ¬TextOf (Configured c) (Store.resourceName category name) := by
  unfold RemovesPair
  simp only [Store.splitResource_eq_ok]
  constructor
  · rintro ⟨id, held, hmem, rfl, hslash⟩
    rcases mem_decisions_resources.1 hmem with ⟨_, -, heq⟩ | ⟨id, r, hget, hnot, heq⟩
    · split at heq <;> cases heq
    · unfold dismissal at heq
      split at heq
      next hforce =>
        cases heq
        exact ⟨hslash, hforce, mem_resourceElements.1 (NameMap.mem_keys.2 ⟨_, hget⟩), hnot⟩
      · cases heq
  · rintro ⟨hslash, hforce, htext, hnot⟩
    obtain ⟨r, hget⟩ := NameMap.mem_keys.1 (mem_resourceElements.2 htext)
    exact ⟨_, r, mem_decisions_resources.2 (.inr ⟨_, r, hget, hnot, (if_pos hforce).symm⟩), rfl,
      hslash⟩

/-- **What a pass over resources that has no failure does to a pair.** -/
theorem subscribed_of_run {t t' : Tenant} {o : Outcome} (hdry : mode.dryRun = false)
    (h : exec (Pass.run table mode c .resources) t = (.ok o, t')) (hok : o.failures = []) :
    IsSubscribed t'.state category name
      ↔ AddsPair (decisions table mode c .resources t.state) category name
        ∨ IsSubscribed t.state category name
          ∧ ¬RemovesPair (decisions table mode c .resources t.state) category name := by
  obtain ⟨held, t₁, hfetch, henact⟩ := run_ok h
  rw [exec_fetch table (by simp)] at hfetch
  obtain ⟨rfl, rfl⟩ := reading_ok hfetch
  -- a listing leaves the state as it is
  exact subscribed_of_wentThrough (t := t.counted ⟨.list, .resource⟩)
    (wentThrough_of_enactAll hdry _ henact hok) (decisions_ids_nodup (p := .resources) (by simp))
    fun _ _ _ => replace_not_mem_decisions

end Pass

/-! ## §6. The push. -/

/-- No category has a slash, neither one that is configured nor one subscribed in. -/
def Unslashed (c : Config) (s : State) : Prop :=
  ∀ category name, Configured c category name ∨ IsSubscribed s category name →
    '/' ∉ category.toList

section Push

variable {table : List String} {o : Options} {c : Config} {t t' : Tenant}
  {operations : List Operation} {category name : String}

/-- A push that succeeded has made the pass over resources, on the subscriptions that it
found and that it left. -/
theorem subscribed_of_push (hresources : o.selected .resources = true)
    (hdry : o.mode.dryRun = false) (h : exec (pushWith table o c) t = (.ok operations, t')) :
    IsSubscribed t'.state category name
      ↔ AddsPair (Pass.decisions table o.mode c .resources t.state) category name
        ∨ IsSubscribed t.state category name
          ∧ ¬RemovesPair (Pass.decisions table o.mode c .resources t.state) category name := by
  rcases push_cases h with ⟨-, hr, -⟩ | ⟨-, -, ⟨why, hr⟩, -⟩ | ⟨-, -, hfinish⟩
  · cases hr
  · cases hr
  · cases hfinish with
    | completed visits hsts hran hclean =>
        have hnodup := schedule_nodup o c t.state
        have hscheduled : Stage.pass .resources ∈ schedule o c t.state :=
          mem_schedule hresources List.mem_cons_self
        rw [hsts] at hscheduled hnodup
        obtain ⟨v, hv, hvp⟩ := List.mem_map.1 hscheduled
        obtain ⟨t₁, t₂, hrun, -, hbefore, hafter, -⟩ := hran.visit hnodup hv hvp
        have hpass : IsSubscribed t₂.state category name ↔ _ :=
          Pass.subscribed_of_run hdry hrun (hclean v hv)
        unfold Pass.decisions at hpass ⊢
        rw [hbefore.listed, subscribed_congr hbefore] at hpass
        rw [subscribed_congr hafter]
        exact hpass

/-- **What a push does to subscriptions**, if it succeeds, is decided by texts and done to
the pairs that these are taken apart into.  A pair with a slash in its category is left
as it is.  Any other pair is subscribed if its text is configured and no pair is listed
under it, and otherwise stays as it was; under force, only if its text is configured.
Where no category has a slash, these are the configured pairs. -/
theorem push_subscriptions (hresources : o.selected .resources = true)
    (hdry : o.mode.dryRun = false) (h : exec (pushWith table o c) t = (.ok operations, t')) :
    (∀ category name, IsSubscribed t'.state category name ↔
      if '/' ∈ category.toList then IsSubscribed t.state category name
      else
        (TextOf (Configured c) (Store.resourceName category name)
            ∧ ¬TextOf (IsSubscribed t.state) (Store.resourceName category name))
        ∨ IsSubscribed t.state category name
          ∧ (o.mode.force = true → TextOf (Configured c) (Store.resourceName category name)))
    ∧ (Unslashed c t.state →
      (∀ category name, Configured c category name → IsSubscribed t'.state category name)
      ∧ (∀ category name, IsSubscribed t'.state category name →
          IsSubscribed t.state category name ∨ Configured c category name)
      ∧ (o.mode.force = true →
          ∀ category name, IsSubscribed t'.state category name ↔ Configured c category name)) := by
  have hexact : ∀ category name, IsSubscribed t'.state category name ↔
      if '/' ∈ category.toList then IsSubscribed t.state category name
      else
        (TextOf (Configured c) (Store.resourceName category name)
            ∧ ¬TextOf (IsSubscribed t.state) (Store.resourceName category name))
        ∨ IsSubscribed t.state category name
          ∧ (o.mode.force = true → TextOf (Configured c) (Store.resourceName category name)) := by
    intro category name
    rw [subscribed_of_push hresources hdry h, Pass.addsPair_decisions, Pass.removesPair_decisions]
    by_cases hslash : '/' ∈ category.toList
    · simp [hslash]
    · rw [if_neg hslash]
      refine or_congr (and_iff_right hslash) (and_congr_right fun hsubscribed => ?_)
      -- a pair that is subscribed has its text in the listing
      have hlisted : TextOf (IsSubscribed t.state) (Store.resourceName category name) :=
        ⟨category, name, hsubscribed, rfl⟩
      simp [hslash, hlisted]
  refine ⟨hexact, fun hunslashed => ?_⟩
  -- without slashes a text is configured, or listed, exactly if its pair is
  have hplain : ∀ category name, '/' ∉ category.toList →
      (IsSubscribed t'.state category name ↔ Configured c category name
        ∧ ¬IsSubscribed t.state category name ∨ IsSubscribed t.state category name
          ∧ (o.mode.force = true → Configured c category name)) := by
    intro category name hslash
    rw [hexact, if_neg hslash,
      textOf_resourceName (fun _ _ h => hunslashed _ _ (.inl h)) hslash,
      textOf_resourceName (fun _ _ h => hunslashed _ _ (.inr h)) hslash]
  have hkept : ∀ category name, IsSubscribed t'.state category name → '/' ∉ category.toList := by
    intro category name hsubscribed hslash
    rw [hexact, if_pos hslash] at hsubscribed
    exact hunslashed category name (.inr hsubscribed) hslash
  have hall : ∀ category name, Configured c category name →
      IsSubscribed t'.state category name := by
    intro category name hconfigured
    refine (hplain category name (hunslashed category name (.inl hconfigured))).2 ?_
    by_cases hbefore : IsSubscribed t.state category name
    · exact .inr ⟨hbefore, fun _ => hconfigured⟩
    · exact .inl ⟨hconfigured, hbefore⟩
  refine ⟨hall, fun category name hsubscribed => ?_, fun hforce category name => ?_⟩
  · rcases (hplain category name (hkept category name hsubscribed)).1 hsubscribed with h | h
    · exact .inr h.1
    · exact .inl h.1
  · refine ⟨fun hsubscribed => ?_, hall category name⟩
    rcases (hplain category name (hkept category name hsubscribed)).1 hsubscribed with h | h
    · exact h.1
    · exact h.2 hforce

/-- One pair is added, one kept and one removed, under names with slashes. -/
theorem push_subscriptions_forced :
    let o : Options := ⟨{ force := true }, fun c => c == .resources⟩
    let c : Config := { resources := .ofList [("a", ["b/c", "d"])] }
    let t : Tenant :=
      { state := { resources := .ofList [("a", .ofList ["d", "e"])] }, now := ⟨0, 0⟩ }
    let final := exec (pushWith [] o c) t
    final.1 = .ok [.add .resource "a/b/c", .keep .resource "a/d", .remove .resource "a/e"]
      ∧ Unslashed c t.state
      ∧ ∀ category name, IsSubscribed final.2.state category name ↔ Configured c category name := by
  intro o c t final
  have hok : final.1
      = .ok [.add .resource "a/b/c", .keep .resource "a/d", .remove .resource "a/e"] :=
    eq_ok_of_toOption (by decide +kernel)
  have hunslashed : Unslashed c t.state := by
    have hpairs : ∀ pair ∈ c.resourcePairs, pair.1 = "a" := by decide +kernel
    have hcategories : t.state.resources.keys = ["a"] := by decide +kernel
    intro category name h
    have hcategory : category = "a" := by
      rcases h with hconfigured | hsubscribed
      · exact hpairs _ hconfigured
      · obtain ⟨names, hentry, -⟩ := subscribed_iff.1 hsubscribed
        have hmem : category ∈ t.state.resources.keys := List.mem_map_of_mem hentry
        rwa [hcategories, List.mem_singleton] at hmem
    rw [hcategory]
    decide
  have hpush : final = (final.1, final.2) := (Prod.eta final).symm
  rw [hok] at hpush
  exact ⟨hok, hunslashed, ((push_subscriptions rfl rfl hpush).2 hunslashed).2.2 rfl⟩

/-- A slash in a category misdirects a push: it succeeds, and subscribes a pair that is not
configured in place of the one that is. -/
theorem slash_misdirects :
    let o : Options := ⟨{}, fun c => c == .resources⟩
    let c : Config := { resources := .ofList [("a/b", ["c"])] }
    let final := exec (pushWith [] o c) { now := ⟨0, 0⟩ }
    final.1 = .ok [.add .resource "a/b/c"]
      ∧ Configured c "a/b" "c" ∧ ¬IsSubscribed final.2.state "a/b" "c"
      ∧ ¬Configured c "a" "b/c" ∧ IsSubscribed final.2.state "a" "b/c" := by
  intro o c final
  refine ⟨eq_ok_of_toOption (by decide +kernel), ?_⟩
  unfold Configured IsSubscribed
  decide +kernel

end Push

end TenantSync.Push
