/-
  TenantSync.Proofs.Push.Listing
  ──────────────────────────────
  **A LISTING SHOWS WHAT IS HELD, UNDER THE NAMES OF THE REPORT.**

  Operations name an element by its identity in the store.  A rule has a composed
  one, `namespace/rule`; all other elements go by their own name.  `label` makes
  the identity of a name, `unlabel` finds the name again, and

      p.view s (p.label name)  =  p.held s name

  A listing that succeeds gives exactly this view of the state it is made in; it
  changes nothing but the count of calls.  For settings there are two provisos:
  only those of the table are listed, and a setting that the tenant denies to
  have counts as not set, whatever it is.
-/
import TenantSync.Proofs.Push.Pass

namespace TenantSync.Push

open Config Tenant

/-! ## §1. Composed names. -/

namespace Store

theorem afterPart?_eq_some (ps : List Char) :
    ∀ cs rest, afterPart? ps cs = some rest ↔ cs = ps ++ rest := by
  induction ps with
  | nil =>
      intro cs rest
      simp [afterPart?]
  | cons p ps ih =>
      intro cs rest
      cases cs with
      | nil => simp [afterPart?]
      | cons c cs =>
          by_cases h : p = c
          · subst h
            simp [afterPart?, ih]
          · simp [afterPart?, h, Ne.symm h]

/-- A composed name stands for a rule exactly if it is the name of that rule. -/
theorem ruleOf_eq_ok {ns id rule : String} : ruleOf ns id = .ok rule ↔ id = ruleName ns rule := by
  have hname : id = ruleName ns rule ↔ id.toList = (ns.toList ++ ['/']) ++ rule.toList := by
    rw [← String.toList_inj]
    simp [ruleName]
  rw [hname, ← afterPart?_eq_some]
  unfold ruleOf
  cases afterPart? (ns.toList ++ ['/']) id.toList with
  | none => simp
  | some cs =>
      rw [Except.ok.injEq, Option.some.injEq, ← String.toList_inj, String.toList_ofList]

/-- One text is the name of a rule in two namespaces, and each finds its own in it. -/
example : ruleOf "a" "a/b/c" = .ok "b/c" ∧ ruleOf "a/b" "a/b/c" = .ok "c" := ⟨rfl, rfl⟩

theorem ruleName_injective (ns : String) : Function.Injective (ruleName ns) := by
  intro a b h
  have hb : ruleOf ns (ruleName ns a) = .ok b := ruleOf_eq_ok.2 h
  rw [ruleOf_eq_ok.2 rfl] at hb
  cases hb
  rfl

end Store

/-! ## §2. What is held. -/

namespace Pass

/-- The identity of the element of a name. -/
def label : Pass → String → String
  | .rules ns, name => Store.ruleName ns name
  | _, name => name

/-- The name of the element of an identity. -/
def unlabel : Pass → String → Option String
  | .rules ns, id => (Store.ruleOf ns id).toOption
  | _, id => some id

/-- A setting as an element; it is one when it is not empty. -/
def heldSetting (s : State) (name : String) : Option (Remote String) :=
  if (setting s name).isEmpty then none else some ⟨setting s name, {}⟩

/-- What a state holds of a pass under a name. -/
def held : (p : Pass) → State → String → Option (Remote p.Body)
  | .resources, s, name => (Store.resourceElements s.resources).get? name
  | .rules ns, s, name => (s.rules.get? ns).bind fun rules => rules.get? name
  | .falsePositives, s, name => s.falsePositives.get? name
  | .outputs, s, name => s.outputs.get? name
  | .integrity, s, name => s.integrity.get? name
  | .exfilWatches, s, name => s.exfilWatches.get? name
  | .exfilEvents, s, name => s.exfilEvents.get? name
  | .artifacts, s, name => s.artifacts.get? name
  | .yaraSources, s, name => s.yaraSources.get? name
  | .yaraRules, s, name => s.yaraRules.get? name
  | .installationKeys, s, name => (Store.keyElements s.installationKeys.values).get? name
  | .orgValues, s, name => heldSetting s name

/-- What a state holds of a pass, by identity. -/
def view (p : Pass) : View p.Body := fun s id => (p.unlabel id).bind (p.held s)

theorem unlabel_eq_some {p : Pass} {id name : String} :
    p.unlabel id = some name ↔ id = p.label name := by
  cases p with
  | rules ns =>
      show (Store.ruleOf ns id).toOption = some name ↔ id = Store.ruleName ns name
      rw [← Store.ruleOf_eq_ok]
      cases Store.ruleOf ns id <;> simp [Except.toOption]
  | _ => exact Option.some_inj

theorem label_injective (p : Pass) : Function.Injective p.label := by
  intro a b h
  have hb : p.unlabel (p.label a) = some b := unlabel_eq_some.2 h
  rw [unlabel_eq_some.2 rfl] at hb
  exact Option.some.inj hb

theorem view_label (p : Pass) (s : State) (name : String) :
    p.view s (p.label name) = p.held s name := by
  unfold view
  rw [unlabel_eq_some.2 rfl, Option.bind_some]

/-- What is held has a label. -/
theorem label_of_view {p : Pass} {s : State} {id : String} {r : Remote p.Body}
    (h : p.view s id = some r) : ∃ name, id = p.label name ∧ p.held s name = some r := by
  obtain ⟨name, hname, hheld⟩ := Option.bind_eq_some_iff.1 h
  exact ⟨name, unlabel_eq_some.1 hname, hheld⟩

theorem heldSetting_congr {s s' : State} (h : s'.orgValues = s.orgValues) :
    heldSetting s' = heldSetting s := by
  have hsetting : setting s' = setting s := by
    funext name
    unfold setting
    rw [h]
  unfold heldSetting
  rw [hsetting]

/-- What is held depends on the slice of the pass only. -/
theorem SameAt.held {p : Pass} {s s' : State} (h : p.SameAt s s') : p.held s' = p.held s := by
  cases p with
  | orgValues => exact heldSetting_congr h
  | _ =>
      simp only [SameAt] at h
      funext name
      simp only [Pass.held, h]

theorem SameAt.view {p : Pass} {s s' : State} (h : p.SameAt s s') : p.view s' = p.view s := by
  unfold Pass.view
  rw [h.held]

/-! ## §3. What is listed. -/

/-- The settings of a table as a state shows them, entered into a map. -/
def shownSettings (s : State) :
    List String → NameMap (Remote String) → NameMap (Remote String)
  | [], acc => acc
  | key :: rest, acc =>
      shownSettings s rest
        (if (setting s key).isEmpty then acc else acc.insert key ⟨setting s key, {}⟩)

/-- What the store of a pass lists of a state. -/
def listed (table : List String) : (p : Pass) → State → NameMap (Remote p.Body)
  | .resources, s => Store.resourceElements s.resources
  | .rules ns, s =>
      NameMap.ofList <| ((s.rules.get? ns).getD .empty).entries.map fun (name, rule) =>
        (Store.ruleName ns name, rule)
  | .falsePositives, s => s.falsePositives
  | .outputs, s => s.outputs
  | .integrity, s => s.integrity
  | .exfilWatches, s => s.exfilWatches
  | .exfilEvents, s => s.exfilEvents
  | .artifacts, s => s.artifacts
  | .yaraSources, s => s.yaraSources
  | .yaraRules, s => s.yaraRules
  | .installationKeys, s => Store.keyElements s.installationKeys.values
  | .orgValues, s => shownSettings s table .empty

theorem get?_shownSettings (s : State) (keys : List String) :
    ∀ (acc : NameMap (Remote String)) (id : String),
      (shownSettings s keys acc).get? id
        = if id ∈ keys then (heldSetting s id).or (acc.get? id) else acc.get? id := by
  induction keys with
  | nil =>
      intro acc id
      simp [shownSettings]
  | cons key rest ih =>
      intro acc id
      rw [shownSettings, ih]
      by_cases hid : id = key
      · subst hid
        cases hs : (setting s id).isEmpty <;> simp [heldSetting, hs, NameMap.get?_insert]
      · cases hk : (setting s key).isEmpty <;> simp [hid, NameMap.get?_insert]

/-- Nothing is listed that is not held. -/
theorem view_of_listed {table : List String} {p : Pass} {s : State} {id : String}
    {r : Remote p.Body} (h : (p.listed table s).get? id = some r) : p.view s id = some r := by
  cases p with
  | rules ns =>
      cases hid : unlabel (.rules ns) id with
      | none =>
          -- no rule has the name, so the renamed map does not have it either
          have hne : ∀ name, id ≠ Store.ruleName ns name := by
            intro name heq
            rw [unlabel_eq_some.2 heq] at hid
            cases hid
          rw [show (listed table (.rules ns) s).get? id = none from
            NameMap.get?_rename_of_ne _ hne] at h
          cases h
      | some name =>
          obtain rfl := unlabel_eq_some.1 hid
          rw [view_label, ← h]
          show (s.rules.get? ns).bind (fun rules => rules.get? name) = (NameMap.ofList _).get? _
          rw [show label (.rules ns) name = Store.ruleName ns name from rfl,
            NameMap.get?_rename (Store.ruleName_injective ns)]
          cases s.rules.get? ns <;> rfl
  | orgValues =>
      have hshown : (shownSettings s table .empty).get? id = some r := h
      rw [get?_shownSettings, NameMap.get?_empty, Option.or_none] at hshown
      by_cases hid : id ∈ table
      · rw [if_pos hid] at hshown
        exact hshown
      · rw [if_neg hid] at hshown
        cases hshown
  | _ => exact h

theorem listed_eq_none {table : List String} {p : Pass} {s : State} {id : String}
    (h : p.view s id = none) : (p.listed table s).get? id = none := by
  cases hlisted : (p.listed table s).get? id with
  | none => rfl
  | some r =>
      rw [view_of_listed hlisted] at h
      cases h

/-- What is held is listed, except settings outside the table. -/
theorem listed_of_view {table : List String} {p : Pass} {s : State} {id : String}
    {r : Remote p.Body} (htable : p = .orgValues → id ∈ table) (h : p.view s id = some r) :
    (p.listed table s).get? id = some r := by
  cases p with
  | rules ns =>
      obtain ⟨name, rfl, hheld⟩ := label_of_view h
      show (NameMap.ofList _).get? (Store.ruleName ns name) = some r
      rw [NameMap.get?_rename (Store.ruleName_injective ns), ← hheld]
      show _ = (s.rules.get? ns).bind fun rules => rules.get? name
      cases s.rules.get? ns <;> rfl
  | orgValues =>
      have hheld : heldSetting s id = some r := h
      show (shownSettings s table .empty).get? id = some r
      rw [get?_shownSettings, if_pos (htable rfl), hheld, Option.some_or]
  | _ => exact h

/-- What is listed depends on the slice of the pass only. -/
theorem SameAt.listed {p : Pass} {s s' : State} (table : List String) (h : p.SameAt s s') :
    p.listed table s' = p.listed table s := by
  cases p with
  | orgValues =>
      refine NameMap.ext fun id => ?_
      show (shownSettings s' table .empty).get? id = (shownSettings s table .empty).get? id
      rw [get?_shownSettings, get?_shownSettings, heldSetting_congr h]
  | _ =>
      simp only [SameAt] at h
      simp only [Pass.listed, h]

/-! ## §4. The listing call. -/

/-- A reading whose answer is turned into another one. -/
theorem exec_read_map {α β : Type} {x : Tenant.Call α} {site : CallSite} {shown : α} {t : Tenant}
    (h : exec x t = t.reading site shown) (f : α → β) :
    exec (x >>= fun a => pure (f a)) t = t.reading site (f shown) := by
  rw [exec_bind, h]
  unfold reading
  cases t.faults.answer site <;> rfl

/-- Listing anything but settings is one reading. -/
theorem exec_fetch (table : List String) {p : Pass} (hp : p ≠ .orgValues) (t : Tenant) :
    exec (p.store table).fetch t = t.reading ⟨.list, p.element⟩ (p.listed table t.state) := by
  cases p with
  | resources => exact exec_read_map (exec_resources t) Store.resourceElements
  | rules ns => exact exec_read_map (exec_rules ns t) fun held => NameMap.ofList <|
      held.entries.map fun (name, rule) => (Store.ruleName ns name, rule)
  | installationKeys => exact exec_read_map (exec_installationKeys t) Store.keyElements
  | orgValues => exact absurd rfl hp
  | _ => exact exec_list _ t

/-- What a listing that began in `t` came to. -/
structure Shows {α : Type} (t : Tenant) (shown : α) (r : Except TenantError α) (t' : Tenant) :
    Prop where
  state : t'.state = t.state
  log : t'.log = t.log
  weaker : t.faults.Weaker t'.faults
  ok : t.faults.SettingsShown → ∀ a, r = .ok a → a = shown
  quiet : t.faults.Quiet → r = .ok shown

theorem shows_of_reading {α : Type} {t t' : Tenant} {site : CallSite} {shown : α}
    {r : Except TenantError α} (h : t.reading site shown = (r, t')) : Shows t shown r t' := by
  have hcounted : t' = t.counted site := by
    rw [← reading_snd t site shown, h]
  refine ⟨by rw [hcounted, counted_state], by rw [hcounted, counted_log], ?_, ?_, ?_⟩
  · rw [hcounted, counted_faults]
    exact Faults.check_weaker t.faults site
  · intro _ a hr
    rw [hr] at h
    exact (reading_ok h).1
  · intro hquiet
    unfold reading at h
    rw [hquiet site] at h
    exact (congrArg Prod.fst h).symm

/-- Read a setting; one that does not exist is not set. -/
def readSetting (key : String) : Tenant.Call String :=
  tryCatch (Tenant.orgValue key) fun
    | .notFound _ => return ""
    | e => throw e

theorem readOrgValues_cons (key : String) (rest : List String) (acc : NameMap (Remote String)) :
    Store.readOrgValues (key :: rest) acc = readSetting key >>= fun value =>
      Store.readOrgValues rest (if value.isEmpty then acc else acc.insert key ⟨value, {}⟩) := rfl

/-- A setting is mistaken only if the tenant denies to have it. -/
theorem shows_readSetting {key : String} {t t' : Tenant} {r : Except TenantError String}
    (h : exec (readSetting key) t = (r, t')) : Shows t (setting t.state key) r t' := by
  unfold readSetting at h
  rw [exec_tryCatch, exec_orgValue] at h
  rcases hread : t.reading ⟨.list, .orgValue⟩ (setting t.state key) with ⟨e | value, t₁⟩
  · have hshows := shows_of_reading hread
    rw [hread] at h
    -- only faults make a reading fail
    have hanswer : t.faults.answer ⟨.list, .orgValue⟩ = some e := by
      unfold reading at hread
      cases hs : t.faults.answer ⟨.list, .orgValue⟩ with
      | none =>
          rw [hs] at hread
          cases hread
      | some e' =>
          rw [hs] at hread
          cases hread
          rfl
    cases e with
    | notFound what =>
        cases h
        refine ⟨hshows.state, hshows.log, hshows.weaker,
          fun hshown => absurd hanswer (hshown what), fun hquiet => ?_⟩
        rw [hquiet] at hanswer
        cases hanswer
    | rejected why =>
        cases h
        exact hshows
    | unavailable why =>
        cases h
        exact hshows
  · rw [hread] at h
    cases h
    exact shows_of_reading hread

theorem shows_readOrgValues (keys : List String) :
    ∀ {acc : NameMap (Remote String)} {t t' : Tenant}
      {r : Except TenantError (NameMap (Remote String))},
      exec (Store.readOrgValues keys acc) t = (r, t') →
        Shows t (shownSettings t.state keys acc) r t' := by
  induction keys with
  | nil =>
      intro acc t t' r h
      cases h
      refine ⟨rfl, rfl, .refl _, fun _ a ha => ?_, fun _ => rfl⟩
      cases ha
      rfl
  | cons key rest ih =>
      intro acc t t' r h
      rw [readOrgValues_cons, exec_bind] at h
      rcases hone : exec (readSetting key) t with ⟨e | value, t₁⟩
      · have hshows := shows_readSetting hone
        rw [hone] at h
        cases h
        refine ⟨hshows.state, hshows.log, hshows.weaker, fun _ a ha => ?_, fun hquiet => ?_⟩
        · cases ha
        · cases hshows.quiet hquiet
      · have hshows := shows_readSetting hone
        rw [hone] at h
        have hrest := ih h
        -- the first reading changed nothing, so the others show the same state
        rw [hshows.state] at hrest
        refine ⟨hrest.state.trans hshows.state, hrest.log.trans hshows.log,
          hshows.weaker.trans hrest.weaker, fun hshown a ha => ?_, fun hquiet => ?_⟩
        · have hvalue := hshows.ok hshown value rfl
          subst hvalue
          exact hrest.ok (hshown.weaker hshows.weaker) a ha
        · have hvalue := hshows.ok hquiet.settingsShown value rfl
          subst hvalue
          exact hrest.quiet (hquiet.weaker hshows.weaker)

/-- **A listing shows what is held** and changes nothing but the count of calls. -/
theorem shows_fetch (table : List String) (p : Pass) {t t' : Tenant}
    {r : Except TenantError (NameMap (Remote p.Body))}
    (h : exec (p.store table).fetch t = (r, t')) : Shows t (p.listed table t.state) r t' := by
  by_cases hp : p = .orgValues
  · subst hp
    exact shows_readOrgValues table h
  · rw [exec_fetch table hp] at h
    exact shows_of_reading h

end Pass

end TenantSync.Push
