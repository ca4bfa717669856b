/-
  TenantSync.Proofs.Push.Orders
  ─────────────────────────────
  **CATEGORIES MAY BE PUSHED IN ANY ORDER.**

  The push of a category sees and changes nothing of the others, but for the counter of
  identifiers that all share.  On a tenant whose calls do not fail it therefore comes to
  what it would come to alone, from the tenant as it was before the other categories:

      its operations       are those it has alone
      its elements         have the bodies and the authors they have alone
      their stamps, which  depend on when the category had its turn
      are identifiers
      and times

  So every order of the same categories has the same results, category by category, and
  leaves the same bodies under the same names.  Installation keys are held under their
  identifiers and not by name; of these there are the same bodies, each as often.
-/
import TenantSync.Proofs.Push.Additive
import TenantSync.Proofs.Push.Decomposition
import TenantSync.Proofs.Push.Keys
import TenantSync.Proofs.Push.KeysBeside
import TenantSync.Proofs.Push.Scope

namespace TenantSync.Push

open Config Tenant

/-! ## §1. The same but for stamps. -/

/-- Two elements differ at most in their stamps: identifiers and times. -/
def SameButStamps (p : Pass) (r r' : Remote p.Body) : Prop := authored r = authored r'

/-- Two states are the same but for stamps in what a pass is about: under the same names,
or, of installation keys, each as often. -/
def Pass.UpToStamps : Pass → State → State → Prop
  | .installationKeys, s, s' => (authoredKeys s).Perm (authoredKeys s')
  | p, s, s' => p.LikeAt SameButStamps s s'

/-- Two tenants hold the same but for stamps and the counter of identifiers. -/
structure UpToStamps (t u : Tenant) : Prop where
  slices : ∀ p : Pass, p.UpToStamps t.state u.state
  namespaces : u.state.rules.keys = t.state.rules.keys

/-- Of installation keys there are the same. -/
theorem UpToStamps.keys {t u : Tenant} (h : UpToStamps t u) :
    (authoredKeys t.state).Perm (authoredKeys u.state) := h.slices .installationKeys

namespace Pass.UpToStamps

variable {p : Pass} {s s' s'' : State}

/-- All but installation keys are held by name. -/
theorem iff_likeAt (hp : p ≠ .installationKeys) :
    p.UpToStamps s s' ↔ p.LikeAt SameButStamps s s' := by
  cases p with
  | installationKeys => exact absurd rfl hp
  | _ => exact Iff.rfl

theorem symm (h : p.UpToStamps s s') : p.UpToStamps s' s := by
  by_cases hp : p = .installationKeys
  · subst hp
    exact List.Perm.symm h
  · rw [iff_likeAt hp] at h ⊢
    exact h.symm fun hr => Eq.symm hr

theorem trans (h : p.UpToStamps s s') (h' : p.UpToStamps s' s'') : p.UpToStamps s s'' := by
  by_cases hp : p = .installationKeys
  · subst hp
    exact List.Perm.trans h h'
  · rw [iff_likeAt hp] at h h' ⊢
    exact h.trans (fun _ _ _ hr hr' => Eq.trans hr hr') h'

/-- What is the same is the same but for stamps. -/
theorem of_sameAt (h : p.SameAt s s') : p.UpToStamps s s' := by
  by_cases hp : p = .installationKeys
  · subst hp
    show (authoredKeys s).Perm (authoredKeys s')
    unfold authoredKeys
    rw [show s'.installationKeys = s.installationKeys from h]
  · rw [iff_likeAt hp]
    exact (Pass.LikeAt.refl (E := SameButStamps) (fun _ _ => rfl) p s).congr (.refl p s) h

end Pass.UpToStamps

theorem KnownAlike.sameAuthor :
    KnownAlike (fun i i' => i.createdBy = i'.createdBy) (fun _ _ => True) False where
  refl := fun _ => rfl
  stamp := fun _ _ _ => rfl
  id := fun hids _ => hids.elim

theorem MetAlike.quiet : MetAlike (fun f f' => f.Quiet ∧ f'.Quiet) where
  answer := by
    intro f f' h site
    rw [h.1, h.2]
  check := by
    intro f f' h site
    exact ⟨h.1.weaker (Faults.check_weaker f site), h.2.weaker (Faults.check_weaker f' site)⟩

/-- Stamps may differ, of tenants whose calls do not fail. -/
def Tolerance.stamps : Tolerance := .ofBodies .sameAuthor .quiet

/-! ## §2. One category on two tenants. -/

section Category

variable {table : List String} {mode : Mode} {c : Config} {category : Category} {t u : Tenant}

/-- Two tenants are alike to the push of a category, and their calls do not fail. -/
structure AlikeFor (category : Category) (t u : Tenant) : Prop where
  slices : ∀ p : Pass, (Stage.pass p).category = category → p.SameAt t.state u.state
  namespaces : u.state.rules.keys = t.state.rules.keys
  quiet : t.faults.Quiet
  quiet' : u.faults.Quiet

/-- Two tenants are the same but for stamps in a category; of their logs, what came after
two beginnings. -/
structure EndsAlike (category : Category) (before before' : List Mutation) (t u : Tenant) :
    Prop where
  slices : ∀ p : Pass, (Stage.pass p).category = category → p.UpToStamps t.state u.state
  log : ∃ logged, t.log = before ++ logged ∧ u.log = before' ++ logged

/-- From two tenants to others that end alike, as many identifiers were given out. -/
theorem EndsAlike.issued {t' u' : Tenant} (h : EndsAlike category t.log u.log t' u') :
    issued u u' = issued t t' := by
  obtain ⟨logged, ht, hu⟩ := h.log
  rw [issued_of_log ht, issued_of_log hu]

/-- Other categories than installation keys know their elements by names. -/
theorem push_beside_named (hkeys : category ≠ .installationKeys) (h : AlikeFor category t u) :
    (exec (pushWith table (only mode category) c) t).1
        = (exec (pushWith table (only mode category) c) u).1
      ∧ EndsAlike category t.log u.log (exec (pushWith table (only mode category) c) t).2
          (exec (pushWith table (only mode category) c) u).2 := by
  -- the two differ in the counter at most, which is not part of what has to be alike
  have hon : Tolerance.stamps.On (fun stage => stage.category = category) t.log u.log t u :=
    ⟨fun p hp => (Pass.LikeAt.refl (fun _ => Tolerance.element_refl) p t.state).congr
        (.refl p t.state) (h.slices p hp),
      fun _ => h.namespaces, fun hids => hids.elim, ⟨h.quiet, h.quiet'⟩, trivial, [],
      (List.append_nil _).symm, (List.append_nil _).symm⟩
  obtain ⟨hresult, hend⟩ := push_matches table (o := only mode category) (.refl c) rfl
    (fun hselected => absurd (beq_iff_eq.1 hselected).symm hkeys)
    (fun stage hstage => category_of_mem_only hstage) hon
  refine ⟨hresult, fun p hp => ?_, hend.log⟩
  have hnamed : p ≠ .installationKeys := by
    rintro rfl
    exact hkeys hp.symm
  rw [Pass.UpToStamps.iff_likeAt hnamed]
  refine (hend.slices p hp).mono fun {r r'} hr => ?_
  show (r.body, r.info.createdBy) = (r'.body, r'.info.createdBy)
  rw [show r.body = r'.body from hr.1, show r.info.createdBy = r'.info.createdBy from hr.2]

/-- The push of installation keys is one pass, and what is concluded of it. -/
theorem exec_push_keys (hvalid : invalid? table c (only mode .installationKeys) = none)
    (t : Tenant) :
    exec (pushWith table (only mode .installationKeys) c) t
      = match exec (Pass.run table mode c .installationKeys) t with
        | (.ok o, t') => exec (conclude o []) t'
        | (.error e, t') => (.error e, t') := by
  rw [exec_push_only hvalid]
  show exec (runStages table mode c [.pass .installationKeys] []) t = _
  have hstage : Stage.run table mode c (.pass .installationKeys)
      = Pass.run table mode c .installationKeys := rfl
  rw [runStages_cons, exec_bind, hstage]
  rcases exec (Pass.run table mode c .installationKeys) t with ⟨e | o, t'⟩
  · rfl
  · by_cases hnone : o.failures = []
    · simp only [conclude_ok hnone, pure_bind]
      rfl
    · simp only [conclude_failed hnone, throw_bind]

/-- Concluding does not touch a tenant, and looks at the outcome only. -/
theorem exec_conclude (o : Outcome) (operations : List Operation) (t u : Tenant) :
    (exec (conclude o operations) t).2 = t
      ∧ (exec (conclude o operations) t).1 = (exec (conclude o operations) u).1 := by
  by_cases hnone : o.failures = []
  · rw [conclude_ok hnone]
    exact ⟨rfl, rfl⟩
  · rw [conclude_failed hnone]
    exact ⟨rfl, rfl⟩

/-- Installation keys take counters that have room. -/
theorem push_beside_keys {n m : Nat} (hdry : mode.dryRun = false)
    (hvalid : invalid? table c (only mode .installationKeys) = none)
    (hids : t.state.KeysKnowIds) (hn : Numbered n t.state) (hm : Numbered m u.state)
    (hfew : n + (keySteps mode c t.state).countP KeyStep.isMake < twoTo 64)
    (hfew' : m + (keySteps mode c t.state).countP KeyStep.isMake < twoTo 64)
    (h : AlikeFor .installationKeys t u) :
    (exec (pushWith table (only mode .installationKeys) c) t).1
        = (exec (pushWith table (only mode .installationKeys) c) u).1
      ∧ EndsAlike .installationKeys t.log u.log
          (exec (pushWith table (only mode .installationKeys) c) t).2
          (exec (pushWith table (only mode .installationKeys) c) u).2 := by
  have hnodup := Pass.identities_nodup_of_pushable (p := .installationKeys)
    (invalid?_eq_none.1 hvalid) rfl
  obtain ⟨hresult, hend⟩ := Pass.run_keysBeside table hdry hnodup
    (h.slices .installationKeys rfl) hids h.quiet h.quiet' hn hm hfew hfew'
  -- the passes come to one outcome, and so does what is concluded of it
  rw [exec_push_keys hvalid, exec_push_keys hvalid]
  rcases ht : exec (Pass.run table mode c .installationKeys) t with ⟨r, t'⟩
  rcases hu : exec (Pass.run table mode c .installationKeys) u with ⟨r', u'⟩
  rw [ht, hu] at hresult hend
  obtain rfl : r = r' := hresult
  have hends : EndsAlike .installationKeys t.log u.log t' u' := by
    refine ⟨fun p hp => ?_, hend.log⟩
    cases p with
    | installationKeys => exact hend.keys
    | _ => cases hp
  cases r with
  | error e => exact ⟨rfl, hends⟩
  | ok o =>
      refine ⟨(exec_conclude o [] t' u').2, ?_⟩
      show EndsAlike _ _ _ (exec (conclude o []) t').2 (exec (conclude o []) u').2
      rw [(exec_conclude o [] t' u').1, (exec_conclude o [] u' t').1]
      exact hends

/-- A push of installation keys that succeeds has made what its decisions make. -/
theorem makes_of_push {operations : List Operation} (hdry : mode.dryRun = false)
    (h : (exec (pushWith table (only mode .installationKeys) c) t).1 = .ok operations) :
    (keySteps mode c t.state).countP KeyStep.isMake
      = issued t (exec (pushWith table (only mode .installationKeys) c) t).2 := by
  obtain ⟨-, o, hrun, hok, -⟩ := run_of_push (Prod.ext h rfl)
  exact (keysDone_of_run hdry hrun hok).1.issued.symm

/-- A push of a category that succeeds was of a document that can be pushed. -/
theorem valid_of_push {operations : List Operation}
    (h : (exec (pushWith table (only mode category) c) t).1 = .ok operations) :
    invalid? table c (only mode category) = none := by
  rw [exec_pushWith, only_categories] at h
  cases hinvalid : invalid? table c (only mode category) with
  | none => rfl
  | some why =>
      rw [hinvalid] at h
      cases h

/-- The push of a category leaves the others alone. -/
theorem push_leaves {p : Pass} (hp : (Stage.pass p).category ≠ category) :
    p.SameAt t.state (exec (pushWith table (only mode category) c) t).2.state :=
  push_sameAt table fun hmem => hp (category_of_mem_only hmem)

end Category

/-! ## §3. Categories in turn. -/

section Turns

variable (table : List String) (mode : Mode) (c : Config) (t : Tenant)

/-- The push of a category alone. -/
def alone (category : Category) : Except Error (List Operation) × Tenant :=
  exec (pushWith table (only mode category) c) t

/-- How many identifiers a category is given alone. -/
def given (category : Category) : Nat := issued t (alone table mode c t category).2

/-- How many identifiers categories are given, each of them alone. -/
def givenAll : List Category → Nat
  | [] => 0
  | category :: rest => given table mode c t category + givenAll rest

/-- To some categories a tenant is still as it was at the beginning. -/
structure Ahead (categories : List Category) (u : Tenant) : Prop where
  slices : ∀ p : Pass, (Stage.pass p).category ∈ categories → p.SameAt t.state u.state
  namespaces : u.state.rules.keys = t.state.rules.keys
  quiet : u.faults.Quiet
  issues : Issues t u

/-- From `u` to `u'` some categories have come to what they come to alone, and the others
are as they were. -/
structure InTurn (categories : List Category) (u u' : Tenant) : Prop where
  pushed : ∀ p : Pass, (Stage.pass p).category ∈ categories →
    p.UpToStamps (alone table mode c t (Stage.pass p).category).2.state u'.state
  others : ∀ p : Pass, (Stage.pass p).category ∉ categories → p.SameAt u.state u'.state
  namespaces : u'.state.rules.keys = u.state.rules.keys

variable {table mode c t} {category : Category} {rest : List Category} {u : Tenant}

theorem givenAll_perm {categories categories' : List Category}
    (h : categories'.Perm categories) :
    givenAll table mode c t categories' = givenAll table mode c t categories := by
  induction h with
  | nil => rfl
  | cons category _ ih => exact congrArg (given table mode c t category + ·) ih
  | swap _ _ _ => exact Nat.add_left_comm _ _ _
  | trans _ _ ih ih' => exact ih.trans ih'

theorem Ahead.begin (hquiet : t.faults.Quiet) (categories : List Category) :
    Ahead t categories t where
  slices := fun p _ => .refl p t.state
  namespaces := rfl
  quiet := hquiet
  issues := .refl t

theorem Ahead.later {categories : List Category} (h : Ahead t categories u) (now : Timestamp) :
    Ahead t categories { u with now } :=
  ⟨h.slices, h.namespaces, h.quiet, h.issues.log, h.issues.counter, h.issues.keys⟩

theorem Ahead.push (table : List String) (mode : Mode) (c : Config)
    (h : Ahead t (category :: rest) u) (hfirst : category ∉ rest) :
    Ahead t rest (exec (pushWith table (only mode category) c) u).2 where
  slices := by
    intro p hp
    refine (h.slices p (List.mem_cons_of_mem _ hp)).trans (push_leaves ?_)
    rintro rfl
    exact hfirst hp
  namespaces := (push_confined table _ c u).namespaces.trans h.namespaces
  quiet := h.quiet.weaker (push_confined table _ c u).weaker
  issues := h.issues.trans (push_issues table _ c u)

/-- A category is given as many identifiers in its turn as alone. -/
theorem Ahead.issued (h : Ahead t (category :: rest) u)
    (hends : EndsAlike category t.log u.log (alone table mode c t category).2
      (exec (pushWith table (only mode category) c) u).2) :
    issued t (exec (pushWith table (only mode category) c) u).2
      = issued t u + given table mode c t category := by
  rw [h.issues.issued_trans (push_issues table (only mode category) c u), hends.issued]
  rfl

variable {n : Nat} {operations : List Operation} (hdry : mode.dryRun = false)
  (hn : Numbered n t.state) (hids : t.state.KeysKnowIds) (hquiet : t.faults.Quiet)
include hdry hn hids hquiet

/-- A category whose turn it is goes the same way as alone, if there is room for the keys
that are made. -/
theorem push_beside (h : Ahead t (category :: rest) u)
    (hkeys : category = .installationKeys → invalid? table c (only mode category) = none
      ∧ n + issued t u + (keySteps mode c t.state).countP KeyStep.isMake < twoTo 64) :
    (alone table mode c t category).1 = (exec (pushWith table (only mode category) c) u).1
      ∧ EndsAlike category t.log u.log (alone table mode c t category).2
          (exec (pushWith table (only mode category) c) u).2 := by
  have halike : AlikeFor category t u := by
    refine ⟨fun p hp => h.slices p ?_, h.namespaces, hquiet, h.quiet⟩
    rw [hp]
    exact List.mem_cons_self
  by_cases hcategory : category = .installationKeys
  · subst hcategory
    obtain ⟨hvalid, hfew⟩ := hkeys rfl
    have hm : Numbered (n + issued t u) u.state := hn.issues h.issues (by omega)
    exact push_beside_keys hdry hvalid hids hn hm (by omega) hfew halike
  · exact push_beside_named hcategory halike

theorem push_of_alone (h : Ahead t (category :: rest) u)
    (hok : (alone table mode c t category).1 = .ok operations)
    (hfew : n + issued t u + given table mode c t category < twoTo 64) :
    (exec (pushWith table (only mode category) c) u).1 = .ok operations
      ∧ EndsAlike category t.log u.log (alone table mode c t category).2
          (exec (pushWith table (only mode category) c) u).2 := by
  rw [← hok, eq_comm]
  refine push_beside hdry hn hids hquiet h ?_
  rintro rfl
  refine ⟨valid_of_push hok, ?_⟩
  rw [makes_of_push hdry hok]
  exact hfew

theorem alone_of_push (h : Ahead t (category :: rest) u)
    (hok : (exec (pushWith table (only mode category) c) u).1 = .ok operations)
    (hfew : n + issued t (exec (pushWith table (only mode category) c) u).2 < twoTo 64) :
    (alone table mode c t category).1 = .ok operations
      ∧ EndsAlike category t.log u.log (alone table mode c t category).2
          (exec (pushWith table (only mode category) c) u).2 := by
  rw [← hok]
  refine push_beside hdry hn hids hquiet h ?_
  rintro rfl
  refine ⟨valid_of_push hok, ?_⟩
  -- both decide on the same keys
  have hkeys : u.state.installationKeys = t.state.installationKeys :=
    h.slices .installationKeys List.mem_cons_self
  have hsteps : keySteps mode c u.state = keySteps mode c t.state := by
    unfold keySteps keyDecisions listedKeys
    rw [hkeys]
  rw [← hsteps, makes_of_push hdry hok]
  rw [h.issues.issued_trans (push_issues table _ c u)] at hfew
  omega

/-- Categories that succeed alone succeed in turn, and come to the same. -/
theorem pushEach_of_alone (clock : Category → Timestamp) (categories : List Category) :
    ∀ {u : Tenant}, categories.Nodup → Ahead t categories u →
      (∀ category ∈ categories, (alone table mode c t category).1.isOk = true) →
      n + issued t u + givenAll table mode c t categories < twoTo 64 →
        (pushEach table mode c clock categories u).1
            = categories.map (fun category => (category, (alone table mode c t category).1))
          ∧ InTurn table mode c t categories u (pushEach table mode c clock categories u).2 := by
  -- by the categories: to those that are left, the tenant is as it was
  induction categories with
  | nil =>
      intro u _ _ _ _
      exact ⟨rfl, fun p hp => (List.not_mem_nil hp).elim, fun p _ => .refl p u.state, rfl⟩
  | cons category rest ih =>
      intro u hnodup h hall hfew
      obtain ⟨hfirst, hnodup⟩ := List.nodup_cons.1 hnodup
      obtain ⟨hok, hall⟩ := List.forall_mem_cons.1 hall
      change n + issued t u + (given table mode c t category + givenAll table mode c t rest)
        < twoTo 64 at hfew
      let u₁ : Tenant := { u with now := clock category }
      have hahead : Ahead t (category :: rest) u₁ := h.later (clock category)
      have hissued : issued t u₁ = issued t u := rfl
      cases halone : (alone table mode c t category).1 with
      | error e =>
          rw [halone] at hok
          cases hok
      | ok operations =>
          obtain ⟨hpush, hends⟩ := push_of_alone hdry hn hids hquiet hahead halone (by omega)
          have hleft := hahead.push table mode c hfirst
          have hgiven := hahead.issued hends
          have hconfined := push_confined table (only mode category) c u₁
          rcases hrun : exec (pushWith table (only mode category) c) u₁ with ⟨r, u'⟩
          rw [hrun] at hpush hends hleft hgiven hconfined
          obtain rfl : r = .ok operations := hpush
          change issued t u' = issued t u₁ + given table mode c t category at hgiven
          obtain ⟨hresults, hrest⟩ := ih hnodup hleft hall (by
            show n + issued t u' + _ < twoTo 64
            omega)
          rw [pushEach_ok clock hrun]
          refine ⟨?_, fun p hp => ?_, fun p hp => ?_,
            hrest.namespaces.trans hconfined.namespaces⟩
          · rw [List.map_cons, halone, hresults]
          · by_cases hlater : (Stage.pass p).category ∈ rest
            · exact hrest.pushed p hlater
            · -- what has had its turn is left alone by the rest
              have hnow : (Stage.pass p).category = category :=
                (List.mem_cons.1 hp).resolve_right hlater
              rw [hnow]
              exact (hends.slices p hnow).trans (.of_sameAt (hrest.others p hlater))
          · rw [List.mem_cons, not_or] at hp
            have hothers : p.SameAt u.state u'.state :=
              hconfined.others p fun hmem => hp.1 (category_of_mem_only hmem)
            exact hothers.trans (hrest.others p hp.2)

/-- Categories that succeed in turn succeed alone, and are given as many identifiers. -/
theorem alone_of_pushEach (clock : Category → Timestamp) (categories : List Category) :
    ∀ {u : Tenant}, categories.Nodup → Ahead t categories u →
      (∀ result ∈ (pushEach table mode c clock categories u).1, result.2.isOk = true) →
      n + issued t (pushEach table mode c clock categories u).2 < twoTo 64 →
        (∀ category ∈ categories, (alone table mode c t category).1.isOk = true)
          ∧ issued t (pushEach table mode c clock categories u).2
              = issued t u + givenAll table mode c t categories := by
  induction categories with
  | nil =>
      intro u _ _ _ _
      exact ⟨fun category hcategory => (List.not_mem_nil hcategory).elim, rfl⟩
  | cons category rest ih =>
      intro u hnodup h hall hfew
      obtain ⟨hfirst, hnodup⟩ := List.nodup_cons.1 hnodup
      let u₁ : Tenant := { u with now := clock category }
      have hahead : Ahead t (category :: rest) u₁ := h.later (clock category)
      have hissued : issued t u₁ = issued t u := rfl
      have hleft := hahead.push table mode c hfirst
      rcases hrun : exec (pushWith table (only mode category) c) u₁ with ⟨r, u'⟩
      cases r with
      | error e =>
          rw [pushEach_error clock hrun] at hall
          have herror := hall (category, .error e) List.mem_cons_self
          cases herror
      | ok operations =>
          rw [pushEach_ok clock hrun] at hall hfew ⊢
          rw [hrun] at hleft
          change Ahead t rest u' at hleft
          change n + issued t (pushEach table mode c clock rest u').2 < twoTo 64 at hfew
          obtain ⟨hrest, hsum⟩ := ih hnodup hleft (List.forall_mem_cons.1 hall).2 hfew
          -- what the first one was given is part of what all were given
          have hend : n + issued t (exec (pushWith table (only mode category) c) u₁).2
              < twoTo 64 := by
            rw [hrun]
            show n + issued t u' < twoTo 64
            omega
          have hpush : (exec (pushWith table (only mode category) c) u₁).1 = .ok operations := by
            rw [hrun]
          obtain ⟨halone, hends⟩ := alone_of_push hdry hn hids hquiet hahead hpush hend
          have hgiven := hahead.issued hends
          rw [hrun] at hgiven
          change issued t u' = issued t u₁ + given table mode c t category at hgiven
          refine ⟨List.forall_mem_cons.2 ⟨by rw [halone]; rfl, hrest⟩, ?_⟩
          show issued t (pushEach table mode c clock rest u').2
            = issued t u + (given table mode c t category + givenAll table mode c t rest)
          omega

/-- Two orders come to the same, if the first one succeeds and its counter has room. -/
theorem pushEach_perm {categories categories' : List Category} (hnodup : categories.Nodup)
    (hperm : categories'.Perm categories) (clock clock' : Category → Timestamp)
    (hall : ∀ result ∈ (pushEach table mode c clock categories t).1, result.2.isOk = true)
    (hfew : n + issued t (pushEach table mode c clock categories t).2 < twoTo 64) :
    (pushEach table mode c clock' categories' t).1.Perm
        (pushEach table mode c clock categories t).1
      ∧ UpToStamps (pushEach table mode c clock categories t).2
          (pushEach table mode c clock' categories' t).2 := by
  -- what the categories come to alone does not know of an order
  obtain ⟨halone, hsum⟩ := alone_of_pushEach hdry hn hids hquiet clock categories hnodup
    (.begin hquiet categories) hall hfew
  rw [hsum, ← Nat.add_assoc] at hfew
  obtain ⟨hresults, hturns⟩ := pushEach_of_alone hdry hn hids hquiet clock categories hnodup
    (.begin hquiet categories) halone hfew
  obtain ⟨hresults', hturns'⟩ := pushEach_of_alone hdry hn hids hquiet clock' categories'
    (hperm.nodup_iff.2 hnodup) (.begin hquiet categories')
    (fun category hcategory => halone category (hperm.mem_iff.1 hcategory))
    (by rwa [givenAll_perm hperm])
  refine ⟨?_, fun p => ?_, hturns'.namespaces.trans hturns.namespaces.symm⟩
  · rw [hresults, hresults']
    exact hperm.map _
  · by_cases hp : (Stage.pass p).category ∈ categories
    · exact (hturns.pushed p hp).symm.trans (hturns'.pushed p (hperm.mem_iff.2 hp))
    · have hp' : (Stage.pass p).category ∉ categories' := fun hmem => hp (hperm.mem_iff.1 hmem)
      exact .of_sameAt ((hturns.others p hp).symm.trans (hturns'.others p hp'))

end Turns

/-! ## §4. The whole push. -/

/-- **A push decomposes into its categories, in any order.**  Of a tenant that began as a new
one:

  - whichever calls fail, the push is its categories one after the other: there is one result,
    one log, and one state but for times;
  - if no call fails, and the categories succeed in one order, they have the same results in
    every other order, and leave the same state but for stamps, if fewer than `2^64`
    identifiers were given out, those of these pushes included. -/
theorem push_decomposes (table : List String) (o : Options) (c : Config) {n : Nat} {t : Tenant}
    (h : Reached n t) (hselected : o.categories ≠ []) (hvalid : invalid? table c o = none) :
    (∀ clock : Category → Timestamp,
      let each := pushEach table o.mode c clock o.categories t
      let push := exec (pushWith table o c) t
      joined each.1 = push.1 ∧ AlikeUpTo SameButTimes push.2 each.2)
    ∧ (o.mode.dryRun = false → t.faults.Quiet →
      ∀ (order order' : List Category) (clock clock' : Category → Timestamp),
        order.Perm o.categories → order'.Perm o.categories →
        let first := pushEach table o.mode c clock order t
        let second := pushEach table o.mode c clock' order' t
        (∀ result ∈ first.1, result.2.isOk = true) → n + issued t first.2 < twoTo 64 →
          second.1.Perm first.1 ∧ UpToStamps first.2 second.2) := by
  refine ⟨fun clock => push_eq_pushEach hselected hvalid clock t, ?_⟩
  intro hdry hquiet order order' clock clock' hperm hperm' first second hall hfew
  exact pushEach_perm hdry (h.numbered (by omega)) h.keysKnowIds hquiet
    (hperm.nodup_iff.2 (categories_nodup o)) (hperm'.trans hperm.symm) clock clock' hall hfew

/-- An output and an installation key are made in either order, the key under another
identifier. -/
theorem push_decomposes_output_and_key :
    let o : Options := ⟨{ drift := .replace }, [.outputs, .installationKeys].contains⟩
    let c : Config :=
      { outputs := .ofList [("x", {})], installationKeys := .ofList [("b", {})] }
    let t : Tenant := (exec (createInstallationKey { desc := "a" }) { now := ⟨0, 0⟩ }).2
    let clock : Category → Timestamp := fun _ => ⟨1, 0⟩
    let push := exec (pushWith [] o c) t
    let first := pushEach [] o.mode c clock [.outputs, .installationKeys] t
    let second := pushEach [] o.mode c clock [.installationKeys, .outputs] t
    push.1 = .ok [.add .output "x", .add .installationKey "b", .keep .installationKey "a"]
      ∧ joined first.1 = push.1 ∧ AlikeUpTo SameButTimes push.2 first.2
      ∧ first.2.state.installationKeys.keys = ["key-00000001", "key-00000003"]
      ∧ second.2.state.installationKeys.keys = ["key-00000001", "key-00000002"]
      ∧ second.1.Perm first.1 ∧ UpToStamps first.2 second.2 := by
  intro o c t clock push first second
  have hreached : Reached (0 + issued { now := ⟨0, 0⟩ } t) t :=
    .called (.new ⟨0, 0⟩) (.createInstallationKey { desc := "a" })
  have hcategories : o.categories = [.outputs, .installationKeys] := by decide
  have hquiet : t.faults.Quiet := by
    rw [show t.faults = {} by decide +kernel]
    exact Faults.quiet_empty
  have hall : ∀ result ∈ first.1, result.2.isOk = true := by decide +kernel
  obtain ⟨hpush, horders⟩ := push_decomposes [] o c hreached
    (by rw [hcategories]; exact List.cons_ne_nil _ _) (by decide +kernel)
  obtain ⟨hresult, halike⟩ := hpush clock
  rw [hcategories] at hresult halike
  obtain ⟨hperm, hstamps⟩ := horders rfl hquiet [.outputs, .installationKeys]
    [.installationKeys, .outputs] clock clock (by rw [hcategories])
    (by rw [hcategories]; exact .swap _ _ _) hall (by decide +kernel)
  exact ⟨eq_ok_of_toOption (by decide +kernel), hresult, halike, by decide +kernel,
    by decide +kernel, hperm, hstamps⟩

/-- An output and an installation key. -/
def outputAndKey : Config :=
  { outputs := NameMap.empty.insert "x" {}, installationKeys := NameMap.empty.insert "b" {} }

/-- They are pushed, in some order, to a tenant whose counter begins anew. -/
def pushAnew (falsePositives : NameMap (Remote FalsePositive)) (log : List Mutation)
    (order : List Category) : Results × Tenant :=
  pushEach [] { drift := .replace } outputAndKey (fun _ => ⟨0, 0⟩) order
    (withFirstKey falsePositives log 0)

/-- False positives and the log are not looked at. -/
theorem pushAnew_eq (falsePositives : NameMap (Remote FalsePositive)) (log : List Mutation)
    {order : List Category} (horder : .falsePositives ∉ order) :
    (pushAnew falsePositives log order).1 = (pushAnew .empty [] order).1
      ∧ authoredKeys (pushAnew falsePositives log order).2.state
        = authoredKeys (pushAnew .empty [] order).2.state := by
  let P : Stage → Prop := fun stage => stage.category ≠ .falsePositives
  have hslices : ∀ p : Pass, P (.pass p) → p.SameAt (withFirstKey falsePositives log 0).state
      (withFirstKey .empty [] 0).state := by
    intro p hp
    cases p with
    | falsePositives => exact absurd rfl hp
    | _ => rfl
  have hbegin : Tolerance.exact.On P log [] (withFirstKey falsePositives log 0)
      (withFirstKey .empty [] 0) :=
    ⟨fun p hp => Pass.likeAt_exact.2 (hslices p hp), fun _ => rfl, fun _ => rfl, rfl, rfl, [],
      (List.append_nil _).symm, rfl⟩
  have hstages : ∀ stage : Stage, stage.category ∈ order → P stage := by
    intro stage hstage hcategory
    rw [hcategory] at hstage
    exact horder hstage
  obtain ⟨hresults, hend⟩ := pushEach_matches [] { drift := .replace } outputAndKey trivial
    (fun _ => ⟨0, 0⟩) (fun _ => ⟨0, 0⟩) (fun _ => rfl) order hstages hbegin
  have hkeys := Pass.likeAt_exact.1 (hend.slices .installationKeys nofun)
  exact ⟨hresults, congrArg (fun keys => keys.values.map authored) hkeys.symm⟩

/-- A tenant whose counter begins anew gives a new installation key the identifier of the
first one, which is lost.  If an output is pushed before, it is the output that is given
the first number, and both keys are there. -/
theorem push_order_key_lost :
    ¬ ∀ (table : List String) (o : Options) (c : Config) (n : Nat) (t : Tenant), Reached n t →
      o.categories ≠ [] → invalid? table c o = none → o.mode.dryRun = false → t.faults.Quiet →
      ∀ (order order' : List Category) (clock clock' : Category → Timestamp),
        order.Perm o.categories → order'.Perm o.categories →
        let first := pushEach table o.mode c clock order t
        let second := pushEach table o.mode c clock' order' t
        (∀ result ∈ first.1, result.2.isOk = true) →
          second.1.Perm first.1 ∧ UpToStamps first.2 second.2 := by
  intro hanyOrder
  obtain ⟨n, falsePositives, log, hreached⟩ := reached_withFirstKey 18446744073709551615
  have hzero : UInt64.ofNat (18446744073709551615 + 1) = 0 := rfl
  rw [hzero] at hreached
  -- how the counter got there has left false positives and a log that are not known
  obtain ⟨hresults, hkeys⟩ := pushAnew_eq falsePositives log
    (show .falsePositives ∉ [Category.outputs, .installationKeys] by decide)
  obtain ⟨-, hkeys'⟩ := pushAnew_eq falsePositives log
    (show .falsePositives ∉ [Category.installationKeys, .outputs] by decide)
  have hall : ∀ result ∈ (pushAnew falsePositives log [.outputs, .installationKeys]).1,
      result.2.isOk = true := by
    rw [hresults]
    decide +kernel
  have hstamps : UpToStamps (pushAnew falsePositives log [.outputs, .installationKeys]).2
      (pushAnew falsePositives log [.installationKeys, .outputs]).2 :=
    (hanyOrder [] ⟨{ drift := .replace }, [.outputs, .installationKeys].contains⟩ outputAndKey n
      (withFirstKey falsePositives log 0) hreached (by decide) (by decide +kernel) rfl
      Faults.quiet_empty [.outputs, .installationKeys] [.installationKeys, .outputs]
      (fun _ => ⟨0, 0⟩) (fun _ => ⟨0, 0⟩) (.refl _) (.swap _ _ _) hall).2
  have hlength := hstamps.keys.length_eq
  have htwo : (authoredKeys (pushAnew .empty [] [.outputs, .installationKeys]).2.state).length
      = 2 := by decide +kernel
  have hone : (authoredKeys (pushAnew .empty [] [.installationKeys, .outputs]).2.state).length
      = 1 := by decide +kernel
  rw [hkeys, hkeys', htwo, hone] at hlength
  cases hlength

end TenantSync.Push
