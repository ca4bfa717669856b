/-
  TenantSync.Proofs.Push.Additive
  ───────────────────────────────
  **A PUSH WITHOUT FORCE ONLY ADDS.**

  Without force a pass decides to keep or to add, and nothing else.  What it adds
  could still replace something, for creating an element replaces one that is
  there.  It does not, for a reason of its own in each kind of store:

      sections, rules, settings    only what was not listed is created
      subscriptions                subscribing keeps what is subscribed
      installation keys            a new key gets an identifier that is not taken

  The last of these holds as long as the counter of identifiers has not begun
  anew (`Reached.numbered`); once it has, a new key may get the identifier of an
  old one and take its place.  Settings are listed as they are unless the tenant
  denies to have one.
-/
import TenantSync.Proofs.Push.DryRun
import TenantSync.Proofs.Push.Reachable

namespace TenantSync.Push

open Config Tenant

/-! ## §1. What is kept. -/

/-- Whatever one state holds, apart from installation keys, another one holds unchanged. -/
structure Grows (s s' : State) : Prop where
  subscriptions : ∀ category name, (subscribed s category).contains name = true →
    (subscribed s' category).contains name = true
  /-- Rules of every namespace, elements of plain sections, settings that are not empty. -/
  elements : ∀ p : Pass, p.ByName → ∀ name element, p.held s name = some element →
    p.held s' name = some element

/-- The installation keys of one state are in another one, unchanged. -/
def KeysKept (s s' : State) : Prop :=
  ∀ id key, s.installationKeys.get? id = some key → s'.installationKeys.get? id = some key

theorem Grows.refl (s : State) : Grows s s := ⟨fun _ _ h => h, fun _ _ _ _ h => h⟩

theorem Grows.trans {s s' s'' : State} (h : Grows s s') (h' : Grows s' s'') : Grows s s'' where
  subscriptions := fun category name hin =>
    h'.subscriptions category name (h.subscriptions category name hin)
  elements := fun p hp name element hin =>
    h'.elements p hp name element (h.elements p hp name element hin)

/-- A change within one pass keeps everything if it keeps the elements of the pass. -/
theorem grows_of_onlyAt {p : Pass} {s s' : State} (h : p.OnlyAt s s')
    (hresources : p = .resources → ∀ category name,
      (subscribed s category).contains name = true → (subscribed s' category).contains name = true)
    (helements : p.ByName → ∀ name element, p.held s name = some element →
      p.held s' name = some element) : Grows s s' where
  subscriptions := by
    intro category name hin
    by_cases hp : p = .resources
    · exact hresources hp category name hin
    · have hsame : s'.resources = s.resources := h.others .resources (Ne.symm hp)
      unfold subscribed at hin ⊢
      rwa [hsame]
  elements := by
    intro q hq name element hin
    by_cases hp : q = p
    · subst hp
      exact helements hq name element hin
    · rw [(h.others q hp).held]
      exact hin

/-- From `t` to `t'` nothing was logged but creations. -/
def OnlyCreated (t t' : Tenant) : Prop :=
  ∃ logged, t'.log = t.log ++ logged ∧ ∀ m ∈ logged, m.kind = .created

theorem OnlyCreated.of_log {t t' : Tenant} (h : t'.log = t.log) : OnlyCreated t t' :=
  ⟨[], by rw [h, List.append_nil], fun _ hm => nomatch hm⟩

theorem OnlyCreated.trans {t t' t'' : Tenant} (h : OnlyCreated t t') (h' : OnlyCreated t' t'') :
    OnlyCreated t t'' := by
  obtain ⟨logged, hlog, hall⟩ := h
  obtain ⟨logged', hlog', hall'⟩ := h'
  refine ⟨logged ++ logged', by rw [hlog', hlog, List.append_assoc], fun m hm => ?_⟩
  rcases List.mem_append.1 hm with hm | hm
  · exact hall m hm
  · exact hall' m hm

/-! ## §2. What is decided. -/

/-- Without force a plan keeps or adds. -/
theorem plan_additive {σ β : Type} (store : Store σ β) {mode : Mode} (hforce : mode.force = false)
    (desired : List (String × β)) :
    ∀ (held : NameMap (Remote β)), ∀ d ∈ plan store mode desired held,
      (∃ id, d = .keep id) ∨ ∃ id body, d = .add id body := by
  have hdrift : mode.replacesDrift = false := by simp [Mode.replacesDrift, hforce]
  induction desired with
  | nil =>
      intro held d hd
      obtain ⟨e, -, rfl⟩ := List.mem_map.1 hd
      exact .inl ⟨e.1, by simp [dismissal, hforce]⟩
  | cons e rest ih =>
      intro held d hd
      obtain ⟨name, body⟩ := e
      rcases List.mem_cons.1 hd with rfl | hd
      · cases held.get? (store.identity name body) with
        | none => exact .inr ⟨_, body, rfl⟩
        | some r => exact .inl ⟨_, decision_tolerated hdrift⟩
      · exact ih _ d hd

section Passes

variable {table : List String} {mode : Mode} {c : Config} {t t' : Tenant}

/-- Without force a stage reports nothing as removed or replaced. -/
theorem Stage.not_removed (hforce : mode.force = false) {stage : Stage} {o : Outcome}
    (h : exec (stage.run table mode c) t = (.ok o, t')) :
    ∀ op ∈ o.operations, op.removed = false := by
  cases stage with
  | namespaces =>
      obtain ⟨rfl, -, -⟩ := run_namespaces_ok h
      exact fun op hop => nomatch hop
  | pass p =>
      obtain ⟨held, t₁, -, henact⟩ := Pass.run_ok h
      have hops := enactAll_operations (p.store table) mode
        (plan (p.store table) mode (p.desired c).entries held) t₁
      rw [henact] at hops
      intro op hop
      rw [hops] at hop
      obtain ⟨d, hd, rfl⟩ := List.mem_map.1 hop
      rcases plan_additive (p.store table) hforce _ held d hd with ⟨id, rfl⟩ | ⟨id, body, rfl⟩
      · rfl
      · rfl

/-! ## §3. What a pass does. -/

/-- What is not removed ends as it was, or is added where there was nothing. -/
theorem Ending.additive {β : Type} {direct added failed : Bool} {wanted : Option β}
    {before after : Option (Remote β)} {did : List MutationKind}
    (h : Ending direct wanted added false failed before after did) :
    (∀ element, before = some element → after = some element) ∧ ∀ kind ∈ did, kind = .created := by
  cases h with
  | added hbody => exact ⟨fun _ he => (nomatch he), fun kind hk => List.mem_singleton.1 hk⟩
  | notAdded => exact ⟨fun _ he => (nomatch he), fun kind hk => nomatch hk⟩
  | kept => exact ⟨fun _ he => he, fun kind hk => nomatch hk⟩

/-- A pass over elements held by name keeps what there is. -/
theorem Pass.keeps_elements {p : Pass} {o : Outcome} (hp : p.ByName) (hcovered : p.Covered table c)
    (hforce : mode.force = false) (hdry : mode.dryRun = false) (hshown : t.faults.SettingsShown)
    (h : exec (p.run table mode c) t = (.ok o, t')) :
    OnlyCreated t t' ∧ ∀ name element, p.held t.state name = some element →
      p.held t'.state name = some element := by
  -- what the outcome tells of each element, with removals left out
  obtain ⟨logged, hlog, htold⟩ := told_of_run hp hcovered hdry hshown h
  have hnot := Stage.not_removed hforce
    (show exec (Stage.run table mode c (.pass p)) t = (.ok o, t') from h)
  refine ⟨⟨logged, hlog, fun m hm => ?_⟩, fun name element hin => ?_⟩
  · obtain ⟨-, op, hop, hname⟩ := htold.mutations m hm
    obtain ⟨-, name, hlabel⟩ := htold.operations op hop
    have hending := htold.ending name op hop hlabel
    rw [hnot op hop] at hending
    refine hending.additive.2 m.kind (List.mem_map.2 ⟨m, List.mem_filter.2 ⟨hm, ?_⟩, rfl⟩)
    rw [← hname, hlabel, beq_self_eq_true]
  · by_cases hnamed : ∃ op ∈ o.operations, op.name = p.label name
    · obtain ⟨op, hop, hlabel⟩ := hnamed
      have hending := htold.ending name op hop hlabel
      rw [hnot op hop] at hending
      exact hending.additive.1 element hin
    · rw [htold.unnamed name fun op hop heq => hnamed ⟨op, hop, heq⟩]
      exact hin

/-- What a pass does without force it does by its creating calls. -/
theorem Pass.keeps_of_create (p : Pass) {o : Outcome} {R : Tenant → Tenant → Prop}
    (hrefl : ∀ t, R t t) (htrans : ∀ {t t' t''}, R t t' → R t' t'' → R t t'')
    (hforce : mode.force = false)
    (hcreate : ∀ id body, Keeps R ((p.store table).create id body))
    (h : exec (p.run table mode c) t = (.ok o, t')) :
    ∃ t₁, t₁.state = t.state ∧ t₁.log = t.log ∧ R t₁ t' := by
  obtain ⟨held, t₁, hfetch, henact⟩ := run_ok h
  have hshows := p.shows_fetch table hfetch
  refine ⟨t₁, hshows.state, hshows.log, ?_⟩
  have hcalls : ∀ d ∈ plan (p.store table) mode (p.desired c).entries held,
      Keeps R (d.call (p.store table)) := by
    intro d hd
    rcases plan_additive (p.store table) hforce _ held d hd with ⟨id, rfl⟩ | ⟨id, body, rfl⟩
    · exact Keeps.pure hrefl ()
    · exact hcreate id body
  have hkeeps := enactAll_keeps_calls hrefl htrans mode _ hcalls t₁
  rwa [henact] at hkeeps

/-! ### Subscriptions. -/

/-- From `t` to `t'` there were only subscriptions made. -/
def Subscribed (t t' : Tenant) : Prop :=
  OnlyCreated t t' ∧ ∀ category name, (subscribed t.state category).contains name = true →
    (subscribed t'.state category).contains name = true

theorem subscribed_withSubscription {category name category' name' : String} {s : State}
    (h : (subscribed s category').contains name' = true) :
    (subscribed (withSubscription category name s) category').contains name' = true := by
  unfold subscribed withSubscription at *
  simp only [NameMap.get?_insert]
  by_cases hcategory : category' = category
  · subst hcategory
    rw [if_pos rfl]
    simp only [Option.getD_some, NameMap.contains, NameMap.get?_insert]
    split
    · rfl
    · exact h
  · rw [if_neg hcategory]
    exact h

theorem resources_create_subscribes (id : String) (body : Unit) :
    Keeps Subscribed (Store.resources.create id body) := by
  have hrefl : ∀ t, Subscribed t t := fun t => ⟨.of_log rfl, fun _ _ h => h⟩
  have hsubscribe : ∀ category name, Keeps Subscribed (subscribe category name) := by
    intro category name
    refine keeps_of_changing (exec_subscribe category name) hrefl fun hok => ?_
    cases hok
    refine ⟨⟨_, rfl, fun m hm => ?_⟩, fun _ _ h => subscribed_withSubscription h⟩
    rw [List.mem_singleton.1 hm]
  show Keeps Subscribed (Store.resources.liftExcept (Store.splitResource id) >>=
    fun parts => subscribe parts.1 parts.2)
  cases Store.splitResource id with
  | ok parts => exact hsubscribe parts.1 parts.2
  | error e => exact Keeps.throw hrefl e

/-! ### Installation keys. -/

/-- Keys that are kept twice are kept, as long as the counter does not begin anew on
the way. -/
theorem keysKept_trans {t t' t'' : Tenant} (h : Issues t t') (h' : Issues t' t'')
    (hkept : ∀ n, Numbered n t.state → n + issued t t' < twoTo 64 → KeysKept t.state t'.state)
    (hkept' : ∀ n, Numbered n t'.state → n + issued t' t'' < twoTo 64 →
      KeysKept t'.state t''.state) :
    ∀ n, Numbered n t.state → n + issued t t'' < twoTo 64 → KeysKept t.state t''.state := by
  intro n hn hfew id key hin
  rw [h.issued_trans h'] at hfew
  have hfirst : n + issued t t' < twoTo 64 := by omega
  exact hkept' _ (hn.issues h hfirst) (by omega) id key (hkept n hn hfirst id key hin)

/-- From `t` to `t'` there were only installation keys made, under identifiers that
were not taken. -/
structure KeysMade (t t' : Tenant) : Prop where
  issues : Issues t t'
  created : OnlyCreated t t'
  keys : ∀ n, Numbered n t.state → n + issued t t' < twoTo 64 → KeysKept t.state t'.state

theorem KeysMade.refl (t : Tenant) : KeysMade t t :=
  ⟨.refl t, .of_log rfl, fun _ _ _ _ _ h => h⟩

theorem KeysMade.trans {t t' t'' : Tenant} (h : KeysMade t t') (h' : KeysMade t' t'') :
    KeysMade t t'' where
  issues := h.issues.trans h'.issues
  created := h.created.trans h'.created
  keys := keysKept_trans h.issues h'.issues h.keys h'.keys

theorem installationKeys_create_made (id : String) (body : InstallationKey) :
    Keeps KeysMade (Store.installationKeys.create id body) := by
  have hmake : ∀ key, Keeps KeysMade (createInstallationKey key) := by
    intro key t
    have hissues := issues_call (.createInstallationKey key) t
    rcases hr : exec (createInstallationKey key) t with ⟨r, t'⟩
    rw [hr] at hissues
    rw [exec_createInstallationKey] at hr
    rcases changing_cases hr with ⟨e, -, rfl⟩ | ⟨a, s, m, hok, -, rfl⟩
    · exact ⟨hissues, .of_log rfl, fun _ _ _ _ _ h => h⟩
    · cases hok
      refine ⟨hissues, ⟨_, rfl, fun m hm => by rw [List.mem_singleton.1 hm]⟩, ?_⟩
      intro n hn hfew id key' hin
      have hone : issued t { t.counted ⟨.create, .installationKey⟩ with
          state := (withKey t.now key t.state).2,
          log := t.log ++ [⟨.created, .installationKey, key.desc⟩] } = 1 :=
        (issued_of_log rfl).trans rfl
      rw [hone] at hfew
      -- the new key goes where none was, so `id` is another one
      show (t.state.installationKeys.insert (State.keyId (t.state.idCounter + 1)) _).get? id = _
      rw [NameMap.get?_insert, if_neg]
      · exact hin
      · rintro rfl
        rw [hn.fresh hfew] at hin
        cases hin
  exact Keeps.bind (R := KeysMade) (fun h h' => h.trans h') (hmake _) fun _ => Keeps.pure .refl _

/-! ## §4. What a push does. -/

/-- From `t` to `t'` there were only additions, unless the tenant denied to have a
setting or the counter of identifiers began anew. -/
structure Additive (t t' : Tenant) : Prop where
  issues : Issues t t'
  weaker : t.faults.Weaker t'.faults
  created : t.faults.SettingsShown → OnlyCreated t t'
  grows : t.faults.SettingsShown → Grows t.state t'.state
  keys : ∀ n, Numbered n t.state → n + issued t t' < twoTo 64 → KeysKept t.state t'.state

theorem Additive.refl (t : Tenant) : Additive t t :=
  ⟨.refl t, .refl _, fun _ => .of_log rfl, fun _ => .refl _, fun _ _ _ _ _ h => h⟩

theorem Additive.trans {t t' t'' : Tenant} (h : Additive t t') (h' : Additive t' t'') :
    Additive t t'' where
  issues := h.issues.trans h'.issues
  weaker := h.weaker.trans h'.weaker
  created := fun hshown => (h.created hshown).trans (h'.created (hshown.weaker h.weaker))
  grows := fun hshown => (h.grows hshown).trans (h'.grows (hshown.weaker h.weaker))
  keys := keysKept_trans h.issues h'.issues h.keys h'.keys

/-- A pass that was carried out keeps what there is. -/
theorem Pass.run_grows {p : Pass} {o : Outcome} (hcovered : p.Covered table c)
    (hforce : mode.force = false) (hdry : mode.dryRun = false) (hshown : t.faults.SettingsShown)
    (honly : p.OnlyAt t.state t'.state) (h : exec (p.run table mode c) t = (.ok o, t')) :
    OnlyCreated t t' ∧ Grows t.state t'.state := by
  by_cases hresources : p = .resources
  · subst hresources
    obtain ⟨t₁, hstate, hlog, hcreated, hkept⟩ := keeps_of_create .resources (R := Subscribed)
      (fun t => ⟨.of_log rfl, fun _ _ h => h⟩)
      (fun h h' => ⟨h.1.trans h'.1, fun category name hin => h'.2 _ _ (h.2 category name hin)⟩)
      hforce resources_create_subscribes h
    rw [hstate] at hkept
    exact ⟨(OnlyCreated.of_log hlog).trans hcreated,
      grows_of_onlyAt honly (fun _ => hkept) fun hp => absurd rfl hp.1⟩
  · by_cases hkeys : p = .installationKeys
    · subst hkeys
      obtain ⟨t₁, -, hlog, hmade⟩ := keeps_of_create .installationKeys (R := KeysMade) .refl
        (fun h h' => h.trans h') hforce installationKeys_create_made h
      exact ⟨(OnlyCreated.of_log hlog).trans hmade.created,
        grows_of_onlyAt honly (fun hp => nomatch hp) fun hp => absurd rfl hp.2⟩
    · obtain ⟨hcreated, hkept⟩ := keeps_elements ⟨hresources, hkeys⟩ hcovered hforce hdry hshown h
      exact ⟨hcreated, grows_of_onlyAt honly (fun hp => absurd hp hresources) fun _ => hkept⟩

/-- A pass gives no installation key an identifier that is taken. -/
theorem Pass.run_keys {p : Pass} {o : Outcome} (hforce : mode.force = false)
    (honly : p.OnlyAt t.state t'.state) (h : exec (p.run table mode c) t = (.ok o, t')) :
    ∀ n, Numbered n t.state → n + issued t t' < twoTo 64 → KeysKept t.state t'.state := by
  intro n hn hfew
  by_cases hkeys : p = .installationKeys
  · subst hkeys
    obtain ⟨t₁, hstate, hlog, hmade⟩ := keeps_of_create .installationKeys (R := KeysMade) .refl
      (fun h h' => h.trans h') hforce installationKeys_create_made h
    rw [← hstate] at hn ⊢
    exact hmade.keys n hn (by unfold issued; rwa [hlog])
  · intro id key hin
    have hsame : t'.state.installationKeys = t.state.installationKeys :=
      honly.others .installationKeys (Ne.symm hkeys)
    rwa [hsame]

/-- Without force a stage only adds. -/
theorem Stage.run_additive {stage : Stage} (hcovered : ∀ p, stage = .pass p → p.Covered table c)
    (hforce : mode.force = false) : Keeps Additive (stage.run table mode c) := by
  intro t
  have hissues := stage_keeps_calls .refl (fun h h' => h.trans h') issues_call table mode c stage t
  have hweaker := (stage.run_confined table mode c t).weaker
  rcases h : exec (stage.run table mode c) t with ⟨r, t'⟩
  rw [h] at hissues hweaker
  -- a stage that only listed something changed nothing
  have same (hstate : t'.state = t.state) (hlog : t'.log = t.log) : Additive t t' :=
    ⟨hissues, hweaker, fun _ => .of_log hlog, fun _ => by rw [hstate]; exact .refl _,
      fun _ _ _ _ _ hin => by rwa [hstate]⟩
  rcases r with e | o
  · obtain ⟨-, hstate, hlog⟩ := Stage.run_error h
    exact same hstate hlog
  · cases hdry : mode.dryRun with
    | true =>
        obtain ⟨hstate, hlog, -⟩ := Stage.run_dry hdry h
        exact same hstate hlog
    | false =>
        cases stage with
        | namespaces =>
            obtain ⟨-, hstate, hlog⟩ := run_namespaces_ok h
            exact same hstate hlog
        | pass p =>
            have hwithin := Pass.run_within table mode c p t
            rw [show exec (p.run table mode c) t = (.ok o, t') from h] at hwithin
            have hrun (hshown : t.faults.SettingsShown) :=
              Pass.run_grows (hcovered p rfl) hforce hdry hshown hwithin.state h
            exact ⟨hissues, hweaker, fun hshown => (hrun hshown).1, fun hshown => (hrun hshown).2,
              Pass.run_keys hforce hwithin.state h⟩

end Passes

/-- Without force no visit reports anything as removed or replaced. -/
theorem Ran.not_removed {table : List String} {mode : Mode} {c : Config} {t t' : Tenant}
    {visits : List Visit} (h : Ran table mode c t visits t') (hforce : mode.force = false) :
    ∀ op ∈ operationsOf visits, op.removed = false := by
  induction h with
  | nil => exact fun op hop => nomatch hop
  | cons hrun _ _ ih =>
      intro op hop
      rcases List.mem_append.1 hop with hop | hop
      · exact Stage.not_removed hforce hrun op hop
      · exact ih op hop

theorem push_only_adds (table : List String) {o : Options} (c : Config) (t : Tenant)
    (hforce : o.mode.force = false) : Additive t (exec (pushWith table o c) t).2 :=
  push_keeps .refl (fun h h' => h.trans h') fun hpushable _ hstage =>
    Stage.run_additive (fun p hp => by
      subst hp
      exact covered_of_pushable hpushable (selected_of_mem_schedule hstage)) hforce

/-- **A push without force is safe**, whatever it returns.  Subscriptions, rules,
elements of sections and settings stay as they are; nothing is reported as removed or
replaced, and no deletion is logged.  Of a tenant that began as a new one, installation
keys stay as they are too, if fewer than `2^64` identifiers were given out, those of this
push included. -/
theorem push_additive {t t' : Tenant} (table : List String) (o : Options) (c : Config)
    {r : Except Error (List Operation)} (hforce : o.mode.force = false)
    (hshown : t.faults.SettingsShown) (h : exec (pushWith table o c) t = (r, t')) :
    Grows t.state t'.state
      ∧ (∀ n, Reached n t → n + issued t t' < twoTo 64 → KeysKept t.state t'.state)
      ∧ (∀ operations failures, Reports r operations failures →
          ∀ op ∈ operations, op.removed = false)
      ∧ ∃ logged, t'.log = t.log ++ logged ∧ ∀ m ∈ logged, m.kind ≠ .deleted := by
  have hadditive : Additive t t' := by
    have hpush := push_only_adds table c t hforce
    rwa [h] at hpush
  refine ⟨hadditive.grows hshown, fun n hreached hfew => ?_, ?_, ?_⟩
  · exact hadditive.keys n (hreached.numbered (by omega)) hfew
  · intro operations failures hreports
    obtain ⟨visits, -, hran, -, -, rfl, -⟩ := visits_of_push h hreports
    exact hran.not_removed hforce
  · obtain ⟨logged, hlog, hall⟩ := hadditive.created hshown
    refine ⟨logged, hlog, fun m hm hdeleted => ?_⟩
    rw [hall m hm] at hdeleted
    cases hdeleted

/-- A second installation key is made beside the first one of a new tenant. -/
theorem push_additive_second_key :
    let o : Options := ⟨{ drift := .replace }, fun c => c == .installationKeys⟩
    let c : Config := { installationKeys := NameMap.empty.insert "b" {} }
    let t : Tenant := (exec (createInstallationKey { desc := "a" }) { now := ⟨0, 0⟩ }).2
    let final := exec (pushWith [] o c) t
    final.1 = .ok [.add .installationKey "b", .keep .installationKey "a"]
      ∧ Grows t.state final.2.state ∧ KeysKept t.state final.2.state
      ∧ ∀ op ∈ [Operation.add .installationKey "b", .keep .installationKey "a"],
          op.removed = false := by
  intro o c t final
  have hshown : t.faults.SettingsShown := by
    intro what hwhat
    cases hwhat
  have hreached : Reached (0 + issued { now := ⟨0, 0⟩ } t) t :=
    .called (.new ⟨0, 0⟩) (.createInstallationKey { desc := "a" })
  obtain ⟨hgrows, hkeys, hremoved, -⟩ := push_additive [] o c rfl hshown rfl
  exact ⟨rfl, hgrows, hkeys _ hreached (by decide), hremoved _ [] (.inl ⟨rfl, rfl⟩)⟩

/-! ## §5. When the counter begins anew. -/

/-- A new tenant that was given one installation key, and some false positives; its
counter is at `n`. -/
def withFirstKey (falsePositives : NameMap (Remote FalsePositive)) (log : List Mutation)
    (n : UInt64) : Tenant where
  state := { (withKey ⟨0, 0⟩ { desc := "a" } {}).2 with falsePositives, idCounter := n }
  log := log
  now := ⟨0, 0⟩

/-- The counter gets everywhere by adding one element again and again. -/
theorem reached_withFirstKey (k : Nat) :
    ∃ n falsePositives log, Reached n (withFirstKey falsePositives log (.ofNat (k + 1))) := by
  induction k with
  | zero => exact ⟨_, _, _, .called (.new ⟨0, 0⟩) (.createInstallationKey { desc := "a" })⟩
  | succ k ih =>
      obtain ⟨n, falsePositives, log, h⟩ := ih
      have hnext : UInt64.ofNat (k + 1 + 1) = .ofNat (k + 1) + 1 := UInt64.ofNat_add _ _
      rw [hnext]
      exact ⟨_, _, _, h.called (.add (p := .falsePositives) rfl "f" {})⟩

/-- A tenant to which `2^64` identifiers were given out gives a new installation key the
identifier of the first one, which is lost. -/
theorem push_additive_key_lost :
    ¬ ∀ (n : Nat) (t t' : Tenant) (table : List String) (o : Options) (c : Config)
        (r : Except Error (List Operation)), Reached n t → o.mode.force = false →
      t.faults.SettingsShown → exec (pushWith table o c) t = (r, t') →
      Grows t.state t'.state ∧ KeysKept t.state t'.state
        ∧ (∀ operations failures, Reports r operations failures →
            ∀ op ∈ operations, op.removed = false)
        ∧ ∃ logged, t'.log = t.log ++ logged ∧ ∀ m ∈ logged, m.kind ≠ .deleted := by
  intro hadditive
  obtain ⟨n, falsePositives, log, hreached⟩ := reached_withFirstKey 18446744073709551615
  have hzero : UInt64.ofNat (18446744073709551615 + 1) = 0 := rfl
  rw [hzero] at hreached
  have hkept : KeysKept _ _ := (hadditive n (withFirstKey falsePositives log 0) _ []
    ⟨{}, fun c => c == .installationKeys⟩
    { installationKeys := NameMap.empty.insert "b" {} } _ hreached rfl
    (fun what hwhat => nomatch hwhat) rfl).2.1
  -- both the key that was there and the one that is made have the first identifier
  have hfirst := hkept (State.keyId 1) _ ((NameMap.get?_insert _ _ _ _).trans (if_pos rfl))
  have hmade : ((withKey ⟨0, 0⟩ { desc := "b" }
      (withFirstKey falsePositives log 0).state).2.installationKeys.get? (State.keyId 1)).map
        (fun key => key.body.desc) = some "b" :=
    congrArg (Option.map _) ((NameMap.get?_insert _ _ _ _).trans (if_pos rfl))
  have hdesc := congrArg (Option.map fun key : Remote InstallationKey => key.body.desc) hfirst
  have hsame : some "a" = some "b" := hdesc.symm.trans hmade
  simp at hsame

end TenantSync.Push
