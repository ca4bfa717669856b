/-
  TenantSync.Proofs.Push.Sessions
  ───────────────────────────────
  **A TENANT THAT WAS WRITTEN AND READ AGAIN GOES ON AS IT WOULD HAVE.**

  A session is a list of steps, each taken at a time of its own: calls to a
  tenant, pushes, and faults that are attached or taken away.  Before a step the
  tenant may be written to a snapshot and read again.  It then has the state that
  it had, an empty log and no faults:

      one tenant       t  ─ step ─  t₁  ─ write, read ─  t₁'  ─ step ─  t₂
      and another      u  ─ step ─  u₁  ─ faults away ─  u₁'  ─ step ─  u₂

  The two are compared step by step.  They answer alike and come to states that
  are alike, times aside, because no step reads the log, and because both are
  without faults where one was read again.
-/
import TenantSync.Proofs.Push.Decomposition
import TenantSync.Proofs.Push.EveryCall
import TenantSync.Proofs.Tenant.RoundTrip

namespace TenantSync.Push

open Config Tenant

/-! ## §1. Calls side by side. -/

/-- Answers that show elements which are alike. -/
inductive SameAnswer (E : (p : Pass) → Remote p.Body → Remote p.Body → Prop) :
    {α : Type} → α → α → Prop
  | same {α : Type} (a : α) : SameAnswer E a a
  | elements {p : Pass} {m m' : NameMap (Remote p.Body)} (h : NameMap.Related (E p) m m') :
      SameAnswer E m m'
  | keys {l l' : List (Remote InstallationKey)} (h : List.Forall₂ (E .installationKeys) l l') :
      SameAnswer E l l'

section Calls

variable {T : Tolerance} {before before' : List Mutation}

/-- What is done within a pass and answered by one answer is done alike. -/
theorem matches_answer {α : Type} {p : Pass} {x : Tenant.Call α} (hx : Keeps p.Within x)
    (h : Matches (T.At p before before') Eq x x) :
    Matches (T.On (fun _ => True) before before') (SameAnswer T.Element) x x :=
  T.matches_within trivial hx hx (h.imp fun a _ heq => heq ▸ .same a)

/-- **No call tells apart what counts as one**; what it shows counts as one. -/
theorem IsCall.matches (hids : T.ids) {α : Type} {x : Tenant.Call α} (h : IsCall x) :
    Matches (T.On (fun _ => True) before before') (SameAnswer T.Element) x x := by
  cases h with
  | list h =>
      refine T.matches_within trivial (Pass.within_list h) (Pass.within_list h) ?_
      exact Tolerance.matches_reading _ _ (exec_list _) (exec_list _)
        fun hslice => .elements ((Tolerance.like_section h).1 hslice)
  | @add p s h name body =>
      exact matches_answer (Pass.within_add h name body)
        (Tolerance.matches_add h name (T.wanted_refl p body))
  | delete h name =>
      exact matches_answer (Pass.within_delete h name) (Tolerance.matches_delete h name)
  | resources =>
      have hwithin : Keeps (Pass.Within .resources) Tenant.resources :=
        Pass.keeps_reading exec_resources
      refine T.matches_within trivial hwithin hwithin ?_
      refine Tolerance.matches_reading State.resources State.resources exec_resources
        exec_resources fun {s s'} hslice => ?_
      obtain hslice : s'.resources = s.resources := hslice
      rw [hslice]
      exact .same _
  | subscribe category name =>
      exact matches_answer (Pass.within_subscribe category name)
        (Tolerance.matches_subscribe category name)
  | unsubscribe category name =>
      exact matches_answer (Pass.within_unsubscribe category name)
        (Tolerance.matches_unsubscribe category name)
  | ruleNamespaces =>
      intro t u hon
      rw [exec_ruleNamespaces, exec_ruleNamespaces]
      have hcounted : T.On (fun _ => True) before before' (t.counted ⟨.list, .rule⟩)
          (u.counted ⟨.list, .rule⟩) :=
        ⟨hon.slices, hon.namespaces, hon.counter, T.met.check hon.faults _, hon.now, hon.log⟩
      unfold reading
      rw [← T.met.answer hon.faults, hon.namespaces trivial]
      cases t.faults.answer ⟨.list, .rule⟩ with
      | some e => exact ⟨.error e, hcounted⟩
      | none => exact ⟨.ok (.same _), hcounted⟩
  | rules ns =>
      have hwithin : Keeps (Pass.Within (.rules ns)) (Tenant.rules ns) :=
        Pass.keeps_reading (exec_rules ns)
      refine T.matches_within trivial hwithin hwithin ?_
      exact Tolerance.matches_reading _ _ (exec_rules ns) (exec_rules ns)
        fun hslice => .elements (Tolerance.like_rules ns hslice)
  | addRule ns name rule =>
      exact matches_answer (Pass.within_addRule ns name rule)
        (Tolerance.matches_addRule ns name (T.wanted_refl (.rules ns) rule))
  | deleteRule ns name =>
      exact matches_answer (Pass.within_deleteRule ns name) (Tolerance.matches_deleteRule ns name)
  | installationKeys =>
      have hwithin : Keeps (Pass.Within .installationKeys) Tenant.installationKeys :=
        Pass.keeps_reading exec_installationKeys
      refine T.matches_within trivial hwithin hwithin ?_
      exact Tolerance.matches_reading _ _ exec_installationKeys exec_installationKeys
        fun hslice => .keys (NameMap.Related.values hslice)
  | createInstallationKey key =>
      exact matches_answer (Pass.within_createInstallationKey key)
        (Tolerance.matches_createInstallationKey hids key.desc
          (T.wanted_refl .installationKeys key))
  | deleteInstallationKey id =>
      exact matches_answer (Pass.within_deleteInstallationKey id)
        (Tolerance.matches_deleteInstallationKey id)
  | orgValue name =>
      exact matches_answer (Pass.keeps_reading (exec_orgValue name))
        (Tolerance.matches_orgValue name)
  | setOrgValue name value =>
      exact matches_answer (Pass.within_setOrgValue name value)
        (Tolerance.matches_setOrgValue name value)

end Calls

/-! ## §2. Sessions. -/

/-- What is done to a tenant in one step. -/
inductive Step : Type 1
  | call {α : Type} (x : Tenant.Call α) (h : IsCall x)
  | push (table : List String) (o : Options) (c : Config)
  /-- Faults are attached or taken away. -/
  | fault (change : Faults → Faults)

/-- What a step is answered with. -/
inductive Reply : Type 1
  | called {α : Type} (r : Except TenantError α)
  | pushed (r : Except Error (List Operation))
  | silent

/-- Take a step. -/
def Step.run : Step → Tenant → Reply × Tenant
  | .call x _, t => (.called (exec x t).1, (exec x t).2)
  | .push table o c, t => (.pushed (exec (pushWith table o c) t).1, (exec (pushWith table o c) t).2)
  | .fault change, t => (.silent, { t with faults := change t.faults })

/-- A step of a session. -/
structure Turn where
  /-- When it is taken. -/
  now : Timestamp
  /-- Whether the tenant is interrupted before. -/
  interrupted : Bool
  step : Step

/-- A session: before each step the tenant may be interrupted. -/
def session (interrupt : Tenant → Option Tenant) :
    List Turn → Tenant → Option (List Reply × Tenant)
  | [], t => some ([], t)
  | turn :: rest, t =>
      (if turn.interrupted then interrupt t else some t).bind fun t =>
        let (reply, t) := turn.step.run { t with now := turn.now }
        (session interrupt rest t).map fun (replies, t) => (reply :: replies, t)

/-- The tenant is written to a snapshot and read again. -/
def reload (t : Tenant) : Option Tenant :=
  (State.ofSnapshot? t.state.toSnapshot).map fun state => { state, now := t.now }

/-- The faults of the tenant are taken away. -/
def unfault (t : Tenant) : Option Tenant := some { t with faults := {} }

/-- Every state that is written in a session is read as it was written. -/
def AllKept : List Turn → Tenant → Prop
  | [], _ => True
  | turn :: rest, t =>
      if turn.interrupted then
        t.state.Kept ∧ AllKept rest (turn.step.run { state := t.state, now := turn.now }).2
      else AllKept rest (turn.step.run { t with now := turn.now }).2

/-- Replies that show elements which are alike. -/
inductive SameReply (E : (p : Pass) → Remote p.Body → Remote p.Body → Prop) : Reply → Reply → Prop
  | called {α : Type} {r r' : Except TenantError α} (h : Agree (SameAnswer E) r r') :
      SameReply E (.called r) (.called r')
  | pushed (r : Except Error (List Operation)) : SameReply E (.pushed r) (.pushed r)
  | silent : SameReply E .silent .silent

/-! ## §3. Sessions side by side. -/

section SideBySide

/-- The second tenant counts as the first one, but for the beginning of its log. -/
def Twins (t u : Tenant) : Prop :=
  ∃ lost, Tolerance.times.On (fun _ => True) [] lost t u

theorem AlikeUpTo.twins {t u : Tenant} (h : AlikeUpTo SameButTimes t u) : Twins t u :=
  ⟨[], fun p _ => h.elements p, fun _ => h.namespaces, fun _ => h.idCounter, h.faults.symm,
    trivial, t.log, rfl, h.log⟩

theorem Twins.alikeUpTo {t u : Tenant} (h : Twins t u) :
    ∃ lost, AlikeUpTo SameButTimes { t with log := lost ++ t.log } u := by
  obtain ⟨lost, h⟩ := h
  refine ⟨lost, fun p => h.slices p trivial, h.namespaces trivial, h.counter trivial,
    h.faults.symm, ?_⟩
  obtain ⟨logged, ht, hu⟩ := h.log
  show u.log = lost ++ t.log
  rw [ht, hu, List.nil_append]

/-- The time does not matter. -/
theorem Twins.later {t u : Tenant} (h : Twins t u) (now now' : Timestamp) :
    Twins { t with now } { u with now := now' } := by
  obtain ⟨lost, h⟩ := h
  exact ⟨lost, h.slices, h.namespaces, h.counter, h.faults, trivial, h.log⟩

/-- One was read again, the other lost its faults. -/
theorem Twins.reloaded {t u : Tenant} (h : Twins t u) :
    Twins { state := t.state, now := t.now } { u with faults := {} } := by
  obtain ⟨lost, h⟩ := h
  exact ⟨u.log, h.slices, h.namespaces, h.counter, rfl, trivial, [], rfl, (List.append_nil _).symm⟩

/-- Beside a tenant without faults, one may be read again. -/
theorem Twins.of_state {t u : Tenant} (h : Twins t u) (hnone : u.faults = {}) :
    Twins { state := t.state, now := t.now } u := by
  have hreloaded := h.reloaded
  rwa [show ({ u with faults := {} } : Tenant) = u by rw [← hnone]] at hreloaded

/-- A push comes to one result for twins, and leaves twins. -/
theorem Twins.push {t u : Tenant} (h : Twins t u) (table : List String) (o : Options) (c : Config) :
    (exec (pushWith table o c) t).1 = (exec (pushWith table o c) u).1
      ∧ Twins (exec (pushWith table o c) t).2 (exec (pushWith table o c) u).2 := by
  obtain ⟨lost, h⟩ := h
  obtain ⟨hresult, hend⟩ := push_matches table (.refl c) rfl (fun _ => trivial)
    (fun _ _ => trivial) h
  exact ⟨hresult, lost, hend⟩

/-- **A step cannot tell twins apart.** -/
theorem Twins.step {t u : Tenant} (h : Twins t u) (step : Step) :
    SameReply SameButTimes (step.run t).1 (step.run u).1
      ∧ Twins (step.run t).2 (step.run u).2 := by
  cases step with
  | call x hx =>
      obtain ⟨lost, h⟩ := h
      obtain ⟨hanswer, hend⟩ := hx.matches trivial t u h
      exact ⟨.called hanswer, lost, hend⟩
  | push table o c =>
      obtain ⟨hresult, hend⟩ := h.push table o c
      refine ⟨?_, hend⟩
      unfold Step.run
      simp only [hresult]
      exact .pushed _
  | fault change =>
      obtain ⟨lost, h⟩ := h
      exact ⟨.silent, lost, h.slices, h.namespaces, h.counter, congrArg change h.faults,
        trivial, h.log⟩

/-- **Sessions side by side** of a tenant that is read again and of one that is not. -/
theorem session_twins (turns : List Turn) : ∀ {turns' : List Turn} {t u : Tenant},
    turns'.map (fun turn => (turn.interrupted, turn.step))
        = turns.map (fun turn => (turn.interrupted, turn.step)) →
      Twins t u → AllKept turns t →
        ∃ replies t' replies' u', session reload turns t = some (replies, t')
          ∧ session unfault turns' u = some (replies', u')
          ∧ List.Forall₂ (SameReply SameButTimes) replies replies' ∧ Twins t' u' := by
  induction turns with
  | nil =>
      intro turns' t u hsame h _
      obtain rfl : turns' = [] := List.map_eq_nil_iff.1 hsame
      exact ⟨[], t, [], u, rfl, rfl, .nil, h⟩
  | cons turn rest ih =>
      intro turns' t u hsame h hkept
      obtain ⟨turn', rest', rfl, hturn, hrest⟩ := List.map_eq_cons_iff.1 hsame
      obtain ⟨hinterrupted, hstep⟩ := Prod.ext_iff.1 hturn
      -- the two as the step finds them
      obtain ⟨t₁, u₁, ht₁, hu₁, htwins, hkept⟩ : ∃ t₁ u₁,
          (if turn.interrupted then reload t else some t) = some t₁
          ∧ (if turn.interrupted then unfault u else some u) = some u₁
          ∧ Twins t₁ u₁ ∧ AllKept rest (turn.step.run { t₁ with now := turn.now }).2 := by
        unfold AllKept at hkept
        by_cases hint : turn.interrupted = true
        · rw [if_pos hint] at hkept ⊢
          obtain ⟨hstate, hkept⟩ := hkept
          refine ⟨{ state := t.state, now := t.now }, { u with faults := {} }, ?_, if_pos hint,
            h.reloaded, hkept⟩
          unfold reload
          rw [State.ofSnapshot?_self hstate]
          rfl
        · rw [if_neg hint] at hkept
          exact ⟨t, u, if_neg hint, if_neg hint, h, hkept⟩
      obtain ⟨hreply, hnext⟩ := (htwins.later turn.now turn'.now).step turn.step
      obtain ⟨replies, t', replies', u', ht', hu', hreplies, hend⟩ := ih hrest hnext hkept
      refine ⟨_ :: replies, t', _ :: replies', u', ?_, ?_, .cons hreply hreplies, hend⟩
      · unfold session
        rw [ht₁, Option.bind_some]
        simp only [ht', Option.map_some]
      · unfold session
        simp only at hinterrupted hstep
        rw [hinterrupted, hu₁, hstep, Option.bind_some]
        simp only [hu', Option.map_some]

end SideBySide

/-! ## §4. Without faults. -/

/-- Calls attach no faults. -/
theorem faults_call {α : Type} {x : Tenant.Call α} (hx : IsCall x) :
    Keeps (fun t t' => t.faults = {} → t'.faults = {}) x := by
  intro t hnone
  -- what is counted against no faults leaves none
  have hcounted (site : CallSite) : (t.counted site).faults = {} := by
    show (t.faults.check site).2 = {}
    rw [hnone]
    rfl
  rcases hx.does t with ⟨site, hrun⟩ | ⟨site, a, s, m, hrun, -⟩
  · rw [hrun]
    exact hcounted site
  · rw [hrun]
    exact hcounted site

/-- A push attaches no faults. -/
theorem push_faultless (table : List String) (o : Options) (c : Config) {t : Tenant}
    (hnone : t.faults = {}) : (exec (pushWith table o c) t).2.faults = {} :=
  push_keeps_calls (R := fun t t' => t.faults = {} → t'.faults = {}) (fun _ h => h)
    (fun h h' hnone => h' (h hnone)) faults_call table o c t hnone

theorem Step.run_faults {t : Tenant} (hnone : t.faults = {}) {step : Step}
    (hstep : ∀ change, step ≠ .fault change) : (step.run t).2.faults = {} := by
  cases step with
  | call x hx => exact faults_call hx t hnone
  | push table o c => exact push_faultless table o c hnone
  | fault change => exact absurd rfl (hstep change)

/-- Where there are no faults, nothing is to be taken away. -/
theorem session_faultless (turns : List Turn) : ∀ {u : Tenant}, u.faults = {} →
    (∀ turn ∈ turns, ∀ change, turn.step ≠ .fault change) →
      session unfault turns u = session some turns u := by
  induction turns with
  | nil => exact fun _ _ => rfl
  | cons turn rest ih =>
      intro u hnone hsteps
      have hsame : unfault u = some u := by
        unfold unfault
        rw [← hnone]
      have hnext := ih (turn.step.run_faults (t := { u with now := turn.now }) hnone
        (hsteps turn List.mem_cons_self)) fun turn' h => hsteps turn' (List.mem_cons_of_mem _ h)
      unfold session
      rw [hsame, ite_self, Option.bind_some, Option.bind_some]
      simp only [hnext]

/-! ## §5. Snapshots. -/

/-- **A snapshot keeps a tenant.**  Where the text layer gives back what it was given, a
state is read from its snapshot as it was, and a tenant from the file it was written to
with that state, an empty log and no faults.  A session in which the tenant is written
and read again between steps answers like one in which its faults are taken away there,
and comes to a state that is alike, times aside; all that is missing is the beginning of
the log.  Where no faults are attached, that is the session itself. -/
theorem snapshot_roundTrip :
    (∀ s : State, s.Kept → State.ofSnapshot? s.toSnapshot = some s)
    ∧ (∀ {σ : Type} (files : Files (StateM σ)) (path : String) (t : Tenant) (w w' : σ)
        (now : Timestamp), t.state.Kept →
      execState (files.read path) w = (.ok t.state.toSnapshot.toUTF8, w') →
      execState (Tenant.read files now path) w = (.ok { state := t.state, now }, w'))
    ∧ ∀ (turns turns' : List Turn) (t u : Tenant),
      turns'.map (fun turn => (turn.interrupted, turn.step))
        = turns.map (fun turn => (turn.interrupted, turn.step)) →
      AlikeUpTo SameButTimes t u → AllKept turns t →
      ∃ replies t' replies' u' lost, session reload turns t = some (replies, t')
        ∧ session unfault turns' u = some (replies', u')
        ∧ List.Forall₂ (SameReply SameButTimes) replies replies'
        ∧ AlikeUpTo SameButTimes { t' with log := lost ++ t'.log } u'
        ∧ (u.faults = {} → (∀ turn ∈ turns', ∀ change, turn.step ≠ .fault change) →
          session some turns' u = some (replies', u')) := by
  refine ⟨fun s h => State.ofSnapshot?_self h, ?_, ?_⟩
  · exact fun files path t w w' now h hread => Tenant.read_written h hread now
  · intro turns turns' t u hsame halike hkept
    obtain ⟨replies, t', replies', u', ht', hu', hreplies, htwins⟩ :=
      session_twins turns hsame halike.twins hkept
    obtain ⟨lost, hend⟩ := htwins.alikeUpTo
    refine ⟨replies, t', replies', u', lost, ht', hu', hreplies, hend, fun hnone hsteps => ?_⟩
    rw [← session_faultless turns' hnone hsteps]
    exact hu'

/-- A tenant with an output, and without its built-in namespaces, has a setting unset, and is
written and read again before another output is pushed to it. -/
theorem snapshot_roundTrip_push :
    let held : Remote Output :=
      { body := { module := "s3", stream := "event", params := .ofList [("dir", .ofValue (.str "a"))] }
        info := { id := some "output-00000001", createdBy := some "ops",
                  createdAt := some ⟨1700000000, 5⟩ } }
    let t : Tenant :=
      { state := { rules := .empty, outputs := .ofList [("kept", held)], idCounter := 1 }
        now := ⟨0, 0⟩ }
    let o : Options := ⟨{}, fun c => c == .outputs⟩
    let c : Config := { outputs := .ofList [("x", { module := "syslog", stream := "event" })] }
    let unset : Step := .call (setOrgValue "otx" "") (.setOrgValue "otx" "")
    let turns : List Turn := [⟨⟨1, 0⟩, false, unset⟩, ⟨⟨2, 0⟩, true, .push [] o c⟩]
    let turns' : List Turn := [⟨⟨3, 0⟩, false, unset⟩, ⟨⟨4, 0⟩, true, .push [] o c⟩]
    let s := (exec (setOrgValue "otx" "") { t with now := ⟨1, 0⟩ }).2.state
    s.outputs.get? "kept" = some held ∧ State.ofSnapshot? s.toSnapshot = some s
      ∧ ∃ replies t' replies' u' lost, session reload turns t = some (replies, t')
        ∧ session some turns' t = some (replies', u')
        ∧ List.Forall₂ (SameReply SameButTimes) replies replies'
        ∧ AlikeUpTo SameButTimes { t' with log := lost ++ t'.log } u' := by
  intro held t o c unset turns turns' s
  have hheld : s.outputs.get? "kept" = some held := by decide +kernel
  have hstate : s.Kept := by decide +kernel
  have hkept : AllKept turns t := ⟨hstate, trivial⟩
  have halike : AlikeUpTo SameButTimes t t :=
    ⟨fun p => .refl (fun _ _ => ⟨rfl, rfl, rfl⟩) p t.state, rfl, rfl, rfl, rfl⟩
  obtain ⟨hread, -, hsessions⟩ := snapshot_roundTrip
  obtain ⟨replies, t', replies', u', lost, ht', -, hreplies, hend, hplain⟩ :=
    hsessions turns turns' t t rfl halike hkept
  have hsteps : ∀ turn ∈ turns', ∀ change, turn.step ≠ .fault change := by
    intro turn hturn change hfault
    rcases List.mem_cons.1 hturn with rfl | hturn
    · cases hfault
    · rw [List.mem_singleton.1 hturn] at hfault
      cases hfault
  exact ⟨hheld, hread s hstate, replies, t', replies', u', lost, ht', hplain rfl hsteps, hreplies,
    hend⟩

end TenantSync.Push
