/-
  TenantSync.Proofs.Push.Stores
  ─────────────────────────────
  **THE STORES OF A TENANT ARE LAWFUL.**

  All stores but those of resources and installation keys hold an element under
  its own name, and each of their calls acts on the one element it is made for:

      plain sections    hold the desired body as it is
      rules             hold it with the name and the namespace it is stored under
      settings          hold it if it is not empty; setting one replaces it

  Resources and installation keys are found under identities that the tenant
  makes of what it holds, and several elements can have one.
-/
import TenantSync.Proofs.Push.Listing

namespace TenantSync.Push

open Config Tenant

namespace Pass

/-! ## §1. What a store makes of a body. -/

/-- The body that is stored for a desired one under a name. -/
def stored : (p : Pass) → String → p.Body → p.Body
  | .rules ns, name, rule => { rule with name, ruleNamespace := ns }
  | .resources, _, body | .falsePositives, _, body | .outputs, _, body | .integrity, _, body
  | .exfilWatches, _, body | .exfilEvents, _, body | .artifacts, _, body
  | .yaraSources, _, body | .yaraRules, _, body | .installationKeys, _, body
  | .orgValues, _, body => body

/-- The body that is stored for a desired one under an identity. -/
def storedAs (p : Pass) (id : String) (body : p.Body) : p.Body :=
  ((p.unlabel id).map fun name => p.stored name body).getD body

/-- Which bodies make an element; an empty setting is none. -/
def Admits : (p : Pass) → p.Body → Prop
  | .orgValues, value => value.isEmpty = false
  | _, _ => True

/-- Whether an element is replaced in one call. -/
def direct : Pass → Bool
  | .orgValues => true
  | _ => false

theorem storedAs_label (p : Pass) (name : String) (body : p.Body) :
    p.storedAs (p.label name) body = p.stored name body := by
  unfold storedAs
  rw [unlabel_eq_some.2 rfl]
  rfl

/-! ## §2. Changes of one element. -/

/-- A change, if the state allows it, makes `after` of one element, leaves all
others alone, and is logged as one mutation of that element. -/
def ChangesTo {β : Type} (view : View β) (element : ElementType) (id : String) (s : State)
    (after : Option (Remote β)) (kind : MutationKind)
    (change : Except TenantError (Unit × State × Mutation)) : Prop :=
  ∀ {u s' m}, change = .ok (u, s', m) → view s' id = after
    ∧ (∀ i, i ≠ id → view s' i = view s i) ∧ m = ⟨kind, element, id⟩

/-- A call that makes a change acts on the element of the change, or fails. -/
theorem acted_of_changing {β : Type} {view : View β} {kind : MutationKind}
    {element : ElementType} {id : String} {after : Option (Remote β)} {site : CallSite}
    {t t' : Tenant} {r : Except TenantError Unit}
    {change : Except TenantError (Unit × State × Mutation)}
    (hchange : ChangesTo view element id t.state after kind change)
    (h : t.changing site change = (r, t')) :
    (r = .ok () ∧ Acted view element id t t' after [kind])
      ∨ (∃ e, r = .error e) ∧ Acted view element id t t' (view t.state id) [] := by
  rcases changing_cases h with ⟨e, hr, rfl⟩ | ⟨a, s, m, hok, hr, rfl⟩
  · exact .inr ⟨⟨e, hr⟩, .nothing rfl rfl⟩
  · obtain ⟨hhere, helsewhere, rfl⟩ := hchange hok
    exact .inl ⟨hr, hhere, helsewhere, rfl⟩

/-! ## §3. Plain sections. -/

section Plain

variable {p : Pass} {sec : Section p.Body} (h : p.section? = some sec)
include h

theorem section_get_put (m : NameMap (Remote p.Body)) (s : State) : sec.get (sec.put m s) = m := by
  cases p <;> cases h <;> rfl

theorem section_get_idCounter (s : State) (n : UInt64) :
    sec.get { s with idCounter := n } = sec.get s := by
  cases p <;> cases h <;> rfl

/-- Plain sections hold neither the count of identifiers nor the keys. -/
theorem section_put_apart (m : NameMap (Remote p.Body)) (s : State) :
    (sec.put m s).idCounter = s.idCounter
      ∧ (sec.put m s).installationKeys = s.installationKeys := by
  cases p <;> cases h <;> exact ⟨rfl, rfl⟩

theorem section_get_added (now : Timestamp) (name : String) (body : p.Body) (s : State) :
    sec.get (sec.added now name body s)
      = (sec.get s).insert name (s.stamp now sec.element.name body).1 := by
  unfold Section.added
  rw [section_get_put h, stamp_snd, section_get_idCounter h]

theorem section_idCounter_added (now : Timestamp) (name : String) (body : p.Body) (s : State) :
    (sec.added now name body s).idCounter = s.idCounter + 1 := by
  unfold Section.added
  rw [(section_put_apart h _ _).1, stamp_snd]

theorem view_section (s : State) (id : String) : p.view s id = (sec.get s).get? id := by
  cases p <;> cases h <;> rfl

theorem storedAs_section (id : String) (body : p.Body) : p.storedAs id body = body := by
  cases p <;> cases h <;> rfl

theorem direct_section : p.direct = false := by
  cases p <;> cases h <;> rfl

theorem added_changesTo (now : Timestamp) (id : String) (body : p.Body) (s : State) :
    ChangesTo p.view sec.element id s
      (some ⟨body, (s.stamp now sec.element.name body).1.info⟩) .created
      (.ok ((), sec.added now id body s, ⟨.created, sec.element, id⟩)) := by
  intro u s' m hok
  cases hok
  have hget : ∀ i, p.view (sec.added now id body s) i
      = if i = id then some (s.stamp now sec.element.name body).1 else p.view s i := by
    intro i
    rw [view_section h, section_get_added h, NameMap.get?_insert, view_section h]
  refine ⟨by rw [hget, if_pos rfl]; rfl, fun i hi => by rw [hget, if_neg hi], rfl⟩

theorem deleted_changesTo (id : String) (s : State) :
    ChangesTo p.view sec.element id s none .deleted (sec.deleted id s) := by
  intro u s' m hok
  unfold Section.deleted at hok
  split at hok <;> cases hok
  have hget : ∀ i, p.view (sec.put ((sec.get s).erase id) s) i
      = if i = id then none else p.view s i := by
    intro i
    rw [view_section h, section_get_put h, NameMap.get?_erase, view_section h]
  exact ⟨by rw [hget, if_pos rfl], fun i hi => by rw [hget, if_neg hi], rfl⟩

theorem plain_lawful : Lawful (.plain sec) p.view p.storedAs p.Admits p.direct := by
  rw [direct_section h]
  refine Lawful.ofDefault (fun _ _ _ => rfl) ?_ ?_
  · intro id body t t' r hview _ hexec
    rw [show exec ((Store.plain sec).create id body) t = _ from exec_add sec id body t] at hexec
    rw [storedAs_section h, ← hview]
    rcases acted_of_changing (added_changesTo h t.now id body t.state) hexec
      with ⟨hr, hacted⟩ | hnot
    · exact .inl ⟨hr, _, hacted⟩
    · exact .inr hnot
  · intro id held t t' r hview hexec
    rw [show exec ((Store.plain sec).delete id held) t = _ from exec_delete sec id t] at hexec
    rw [← hview]
    exact acted_of_changing (deleted_changesTo h id t.state) hexec

end Plain

/-! ## §4. Rules. -/

section Rules

variable (ns : String)

/-- The rules of a namespace are replaced by ones that differ under one name. -/
theorem view_rules_insert {s s' : State} {rules rules' : NameMap (Remote Rule)} {name : String}
    (hs : s.rules.get? ns = some rules) (hs' : s'.rules = s.rules.insert ns rules')
    (hother : ∀ n, n ≠ name → rules'.get? n = rules.get? n) :
    view (.rules ns) s' (Store.ruleName ns name) = rules'.get? name
      ∧ ∀ i, i ≠ Store.ruleName ns name → view (.rules ns) s' i = view (.rules ns) s i := by
  have hheld : ∀ n, held (.rules ns) s n = rules.get? n := by
    intro n
    show (s.rules.get? ns).bind (fun rules => rules.get? n) = _
    rw [hs, Option.bind_some]
  have hheld' : ∀ n, held (.rules ns) s' n = rules'.get? n := by
    intro n
    show (s'.rules.get? ns).bind (fun rules => rules.get? n) = _
    rw [hs', NameMap.get?_insert, if_pos rfl, Option.bind_some]
  refine ⟨(view_label (.rules ns) s' name).trans (hheld' name), fun i hi => ?_⟩
  unfold view
  cases hn : unlabel (.rules ns) i with
  | none => rfl
  | some n =>
      -- an identity other than that of the name has another name
      have hne : n ≠ name := by
        intro heq
        exact hi (heq ▸ unlabel_eq_some.1 hn)
      rw [Option.bind_some, Option.bind_some, hheld, hheld', hother n hne]

theorem withRule_changesTo (now : Timestamp) (name : String) (rule : Rule) (s : State) :
    ∃ info, ChangesTo (view (.rules ns)) .rule (Store.ruleName ns name) s
      (some ⟨stored (.rules ns) name rule, info⟩) .created (withRule now ns name rule s) := by
  let remote := (s.stamp now ElementType.rule.name { rule with name, ruleNamespace := ns }).1
  refine ⟨remote.info, ?_⟩
  intro u s' m hok
  unfold withRule at hok
  cases hns : s.rules.get? ns with
  | none =>
      rw [hns] at hok
      cases hok
  | some rules =>
      rw [hns] at hok
      cases hok
      have hrules : ({ s with rules := s.rules.insert ns (rules.insert name remote),
                              idCounter := s.idCounter + 1 } : State).rules = _ := rfl
      -- one name of the namespace was written, and the view follows
      obtain ⟨hhere, helsewhere⟩ := view_rules_insert ns hns hrules fun n hn => by
        rw [NameMap.get?_insert, if_neg hn]
      refine ⟨hhere.trans ?_, helsewhere, rfl⟩
      rw [NameMap.get?_insert, if_pos rfl]
      rfl

theorem withoutRule_changesTo (name : String) (s : State) :
    ChangesTo (view (.rules ns)) .rule (Store.ruleName ns name) s none .deleted
      (withoutRule ns name s) := by
  intro u s' m hok
  unfold withoutRule at hok
  cases hns : s.rules.get? ns with
  | none =>
      rw [hns] at hok
      cases hok
  | some rules =>
      simp only [hns, Option.getD_some] at hok
      split at hok <;> cases hok
      have hrules :
          ({ s with rules := s.rules.insert ns (rules.erase name) } : State).rules = _ := rfl
      obtain ⟨hhere, helsewhere⟩ := view_rules_insert ns hns hrules fun n hn => by
        rw [NameMap.get?_erase, if_neg hn]
      refine ⟨hhere.trans ?_, helsewhere, rfl⟩
      rw [NameMap.get?_erase, if_pos rfl]

theorem rules_lawful :
    Lawful (.rules ns) (view (.rules ns)) (storedAs (.rules ns)) (Admits (.rules ns)) false := by
  -- an identity that is not the name of a rule of the namespace is refused
  have hrefused : ∀ {id : String} {e : TenantError} {t t' : Tenant} {r : Except TenantError Unit},
      exec (throw e : Tenant.Call Unit) t = (r, t') → (∃ e, r = .error e)
        ∧ Acted (view (.rules ns)) .rule id t t' (view (.rules ns) t.state id) [] := by
    intro id e t t' r hexec
    cases hexec
    exact ⟨⟨e, rfl⟩, .nothing rfl rfl⟩
  refine Lawful.ofDefault (fun _ _ _ => rfl) ?_ ?_
  · intro id rule t t' r hview _ hexec
    rw [← hview]
    cases hid : Store.ruleOf ns id with
    | error e =>
        rw [rules_create_refused hid] at hexec
        exact .inr (hrefused hexec)
    | ok name =>
        rw [rules_create hid, exec_addRule] at hexec
        obtain rfl := Store.ruleOf_eq_ok.1 hid
        obtain ⟨info, hchange⟩ := withRule_changesTo ns t.now name rule t.state
        rcases acted_of_changing hchange hexec with ⟨hr, hacted⟩ | hnot
        · rw [show storedAs (.rules ns) (Store.ruleName ns name) rule = _ from
            storedAs_label (.rules ns) name rule]
          exact .inl ⟨hr, info, hacted⟩
        · exact .inr hnot
  · intro id held t t' r hview hexec
    rw [← hview]
    cases hid : Store.ruleOf ns id with
    | error e =>
        rw [rules_delete_refused hid] at hexec
        exact .inr (hrefused hexec)
    | ok name =>
        rw [rules_delete hid, exec_deleteRule] at hexec
        obtain rfl := Store.ruleOf_eq_ok.1 hid
        exact acted_of_changing (withoutRule_changesTo ns name t.state) hexec

end Rules

/-! ## §5. Settings. -/

/-- Setting a setting to a value that is not empty makes it an element, setting
it to the empty one unmakes it. -/
theorem setting_changesTo (name value : String) (s : State) :
    ChangesTo (view .orgValues) .orgValue name s
      (if value.isEmpty then none else some ⟨value, {}⟩)
      (if value.isEmpty then .deleted else .created)
      (.ok ((), { s with orgValues := s.orgValues.insert name value },
        ⟨if value.isEmpty then .deleted else .created, .orgValue, name⟩)) := by
  intro u s' m hok
  cases hok
  -- a setting that was never set reads as one that was set to the empty value
  have hsetting : ∀ n, setting { s with orgValues := s.orgValues.insert name value } n
      = if n = name then value else setting s n := by
    intro n
    unfold setting
    rw [NameMap.get?_insert]
    by_cases hn : n = name
    · rw [if_pos hn, if_pos hn, Option.getD_some]
    · rw [if_neg hn, if_neg hn]
  refine ⟨?_, fun i hi => ?_, rfl⟩
  · show heldSetting _ name = _
    unfold heldSetting
    rw [hsetting, if_pos rfl]
  · show heldSetting _ i = heldSetting s i
    unfold heldSetting
    rw [hsetting, if_neg hi]

theorem orgValues_lawful (table : List String) :
    Lawful (.orgValues table) (view .orgValues) (storedAs .orgValues) (Admits .orgValues) true where
  create := by
    intro id value t t' r hview hvalue hexec
    rw [show exec ((Store.orgValues table).create id value) t = _ from
      exec_setOrgValue id value t] at hexec
    have hacted := acted_of_changing (setting_changesTo id value t.state) hexec
    rw [show value.isEmpty = false from hvalue, hview] at hacted
    rcases hacted with ⟨hr, hacted⟩ | hnot
    · exact .inl ⟨hr, {}, hacted⟩
    · exact .inr hnot
  delete := by
    intro id held t t' r hview hexec
    rw [show exec ((Store.orgValues table).delete id held) t = _ from
      exec_setOrgValue id "" t] at hexec
    -- deleting a setting is setting it to the empty value
    have hacted := acted_of_changing (setting_changesTo id "" t.state) hexec
    rw [hview] at hacted
    exact hacted
  replace := by
    intro id value held t t' r hview hvalue hexec
    rw [show exec ((Store.orgValues table).replace id value held) t = _ from
      exec_setOrgValue id value t] at hexec
    have hacted := acted_of_changing (setting_changesTo id value t.state) hexec
    rw [show value.isEmpty = false from hvalue, hview] at hacted
    rcases hacted with ⟨hr, hacted⟩ | ⟨hr, hnot⟩
    · exact .inl ⟨hr, {}, hacted⟩
    · exact .inr ⟨hr, .inl hnot⟩

/-- **Every store that holds its elements under their names is lawful.** -/
theorem store_lawful (table : List String) {p : Pass} (hresources : p ≠ .resources)
    (hkeys : p ≠ .installationKeys) :
    Lawful (p.store table) p.view p.storedAs p.Admits p.direct := by
  cases hp : p.section? with
  | some sec =>
      rw [store_plain table hp]
      exact plain_lawful hp
  | none =>
      cases p with
      | resources => exact absurd rfl hresources
      | rules ns => exact rules_lawful ns
      | installationKeys => exact absurd rfl hkeys
      | orgValues => exact orgValues_lawful table
      | _ => cases hp

end Pass

end TenantSync.Push
