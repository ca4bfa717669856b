/-
  TenantSync.Proofs.Command.Refinement
  ────────────────────────────────────
  **A RUN OF THE TOOL IS A CALL OF THE LIBRARY.**

  The tool keeps a tenant in a file: each run reads it, pushes, and writes it
  back or not.  The library keeps one tenant in memory, which each call goes on
  with.  Beside each other, from a file and a tenant of one state:

      file    w ─ run ─  w₁ ─ run ─  w₂ ─ run ─  …
      tenant  u ─ call ─ u₁ ─ call ─ u₂ ─ call ─ …

  What a run says is what the call beside it came to.  After a run that was to
  write, the file is decoded to the state of the tenant; after any other run, the
  files are what they were, because that call did not change the state either.
  States are compared with times aside: a run and a call are made when they are
  made.

  A call pushes what the root document loads to, to whatever depth its includes
  go.  The tool loads it to one depth; this is never used up, so it comes to the
  same.
-/
import TenantSync.Proofs.Config.Depth
import TenantSync.Proofs.Command.Reply
import TenantSync.Proofs.Files
import TenantSync.Proofs.Push.Provenance
import TenantSync.Proofs.Push.Sessions
import TenantSync.Proofs.Settings.Resolution

namespace TenantSync.Command

open Push

variable {σ : Type} {files : Files (StateM σ)} {file : String} {w : σ}

/-! ## §1. State files. -/

/-- A state is decoded from the bytes of a file. -/
def Decodes (files : Files (StateM σ)) (file : String) (w : σ) (s : State) : Prop :=
  ∃ bytes text, (execState (files.read file) w).1 = .ok bytes
    ∧ String.fromUTF8? bytes = some text ∧ State.ofSnapshot? text = some s

/-- A state file holds a state: the one that is decoded from it, or that of a new tenant
where there is no file. -/
inductive Holds (files : Files (StateM σ)) (file : String) (w : σ) : State → Prop
  | missing (h : (execState (files.read file) w).1 = .error .notFound) : Holds files file w {}
  | decoded {s : State} (h : Decodes files file w s) : Holds files file w s

/-- What a file holds depends on what is read from it. -/
theorem Holds.congr {file' : String} {w' : σ} {s : State} (h : Holds files file w s)
    (hread : (execState (files.read file') w').1 = (execState (files.read file) w).1) :
    Holds files file' w' s := by
  cases h with
  | missing h => exact .missing (hread.trans h)
  | decoded h =>
      obtain ⟨bytes, text, hbytes, htext, hstate⟩ := h
      exact .decoded ⟨bytes, text, hread.trans hbytes, htext, hstate⟩

/-- A file holds one state. -/
theorem Holds.unique {s s' : State} (h : Holds files file w s) (h' : Holds files file w s') :
    s' = s := by
  cases h with
  | missing h =>
      cases h' with
      | missing _ => rfl
      | decoded h' =>
          obtain ⟨bytes, text, hbytes, -, -⟩ := h'
          cases h.symm.trans hbytes
  | decoded h =>
      obtain ⟨bytes, text, hbytes, htext, hstate⟩ := h
      cases h' with
      | missing h' => cases hbytes.symm.trans h'
      | decoded h' =>
          obtain ⟨bytes', text', hbytes', htext', hstate'⟩ := h'
          cases hbytes.symm.trans hbytes'
          cases htext.symm.trans htext'
          exact Option.some.inj (hstate'.symm.trans hstate)

/-- The tenant of a state file has the state that the file holds. -/
theorem Holds.read {s : State} (hfiles : files.Lawful) (h : Holds files file w s)
    (now : Timestamp) :
    execState (Tenant.read files now file) w = (.ok { state := s, now }, w) := by
  cases h with
  | missing h =>
      unfold Tenant.read
      rw [execState_bind, (hfiles.read file).exec_eq h]
      rfl
  | decoded h =>
      obtain ⟨bytes, text, hbytes, htext, hstate⟩ := h
      exact Tenant.read_decoded htext hstate ((hfiles.read file).exec_eq hbytes) now

/-- A state that a file holds has no output with a parameter that is called like a field
of its own. -/
theorem Holds.plainOutputs {s : State} (h : Holds files file w s) : s.PlainOutputs := by
  cases h with
  | missing _ => exact fun _ _ hr => nomatch hr
  | decoded h =>
      obtain ⟨bytes, text, -, -, hstate⟩ := h
      exact State.plainOutputs_of_ofSnapshot? hstate

/-- The snapshot of a state can be written to a file, and the text layer gives back what
it was given. -/
structure Storable (files : Files (StateM σ)) (file : String) (w : σ) (s : State) : Prop where
  written : (execState (files.write file s.toSnapshot.toUTF8) w).1 = .ok ()
  text : s.textKept = true
  times : s.TimesKept

/-- What was written to a file is decoded from it. -/
theorem Storable.decodes {s : State} (hfiles : files.Lawful) (h : Storable files file w s)
    (hplain : s.PlainOutputs) :
    ∃ w', execState (files.write file s.toSnapshot.toUTF8) w = (.ok (), w')
      ∧ Decodes files file w' s := by
  have hwrite : execState (files.write file s.toSnapshot.toUTF8) w
      = (.ok (), (execState (files.write file s.toSnapshot.toUTF8) w).2) :=
    Prod.ext h.written rfl
  exact ⟨_, hwrite, _, _, hfiles.written hwrite, Config.fromUTF8?_toUTF8 _,
    State.ofSnapshot?_self ⟨hplain, h.times, h.text⟩⟩

/-! ## §2. Calls of the library. -/

/-- The library's push of what a root document loads to, with resolved settings. -/
def call (loaded : Except Config.Error Config.Effective) (p : PushRequest)
    (s : Settings.Resolved) : Push.Run (List Operation) :=
  pushEffective
    { mode := { dryRun := p.dryRun, force := p.force, drift := s.drift }
      selected := fun c => decide (c ∈ s.categories) } loaded

/-- A call pushes one configuration, or is refused without one. -/
theorem call_cases {loaded : Except Config.Error Config.Effective} {p : PushRequest}
    (hloads : Config.Loads files "." p.root w loaded) (s : Settings.Resolved) :
    (∃ e, (∀ document, e ≠ .tooDeep document) ∧ call loaded p s = throw (.config e))
      ∨ ∃ (o : Options) (c : Config), o.mode.dryRun = p.dryRun ∧ c.PlainOutputs
          ∧ call loaded p s = pushWith Store.supportedOrgValues o c := by
  obtain ⟨depth, hresult, hwhole⟩ := hloads
  cases loaded with
  | error e => exact .inl ⟨e, fun document he => hwhole ⟨document, congrArg _ he⟩, rfl⟩
  | ok effective =>
      have hresolved : exec (Config.resolve (Config.fileLoader files ".") depth [] "" p.root) w
          = (.ok effective, _) := Prod.ext hresult rfl
      exact .inr ⟨_, effective.config, rfl, (Config.resolve_plain_tidy hresolved).1, rfl⟩

/-- Selecting categories selects those and leaves the mode as it is. -/
theorem select_eq (cs : List Category) : ∀ o : Options,
    o.select cs = { mode := o.mode, selected := fun c => o.selected c || decide (c ∈ cs) } := by
  unfold Options.select
  -- by the categories that are left to select, whatever was selected before
  induction cs with
  | nil =>
      intro o
      simp
  | cons d cs ih =>
      intro o
      rw [List.foldl_cons, ih]
      unfold Options.setCategory
      congr 1
      funext c
      by_cases h : c = d
      · simp [h]
      · simp [h]

/-- The tool makes the call of the library. -/
theorem pushEffective_optionsOf (loaded : Except Config.Error Config.Effective) (p : PushRequest)
    (s : Settings.Resolved) : pushEffective (optionsOf s p) loaded = call loaded p s := by
  unfold optionsOf
  simp only [select_eq, Bool.false_or]
  rfl

/-- A push is kept: it is not dry, and was not refused. -/
def Kept (p : PushRequest) (r : Except Push.Error (List Operation)) : Prop :=
  p.dryRun = false ∧ ∀ e, r = .error e → ¬Refused e

theorem kept_iff {p : PushRequest} {r : Except Push.Error (List Operation)} :
    Kept p r ↔ (!p.dryRun && reachedTenant r) = true := by
  unfold Kept
  rw [Bool.and_eq_true, Bool.not_eq_true']
  refine and_congr_right fun _ => ?_
  rw [← Bool.not_eq_false, reachedTenant_eq_false]
  constructor
  · rintro h ⟨e, he, hrefused⟩
    exact h e he hrefused
  · exact fun h e he hrefused => h ⟨e, he, hrefused⟩

section Calls

variable {loaded : Except Config.Error Config.Effective} {p : PushRequest}
  (hloads : Config.Loads files "." p.root w loaded) (s : Settings.Resolved) {t u : Tenant}
include hloads

/-- A call comes to one result for twins, and leaves twins. -/
theorem call_twins (h : Twins t u) :
    (exec (call loaded p s) t).1 = (exec (call loaded p s) u).1
      ∧ Twins (exec (call loaded p s) t).2 (exec (call loaded p s) u).2 := by
  rcases call_cases hloads s with ⟨e, -, hcall⟩ | ⟨o, c, -, -, hcall⟩
  · rw [hcall]
    exact ⟨rfl, h⟩
  · rw [hcall]
    exact h.push _ o c

theorem call_faultless (h : t.faults = {}) : (exec (call loaded p s) t).2.faults = {} := by
  rcases call_cases hloads s with ⟨e, -, hcall⟩ | ⟨o, c, -, -, hcall⟩
  · rw [hcall]
    exact h
  · rw [hcall]
    exact push_faultless _ o c h

/-- Outputs stay plain. -/
theorem call_plainOutputs (hquiet : t.faults.Quiet) (h : t.state.PlainOutputs) :
    (exec (call loaded p s) t).2.state.PlainOutputs := by
  rcases call_cases hloads s with ⟨e, -, hcall⟩ | ⟨o, c, -, hplain, hcall⟩
  · rw [hcall]
    exact h
  · rw [hcall]
    intro name r hr
    -- an output that is there in the end was there, or is one of the document
    have hbyName : Pass.ByName .outputs := ⟨nofun, nofun⟩
    rcases push_sourced Store.supportedOrgValues o c hbyName hquiet.settingsShown name r hr
      with hheld | hdesired
    · exact h name r hheld
    · obtain ⟨body, hbody, hstored⟩ := Option.map_eq_some_iff.1 hdesired
      rw [← hstored]
      exact hplain name body hbody

/-- **Where no call fails, a push ends**: with its operations, with failures among them,
or refused.  One that is not kept leaves the state as it was. -/
theorem call_ended (hquiet : t.faults.Quiet) {r : Except Push.Error (List Operation)}
    {t' : Tenant} (h : exec (call loaded p s) t = (r, t')) :
    Ended r ∧ (¬Kept p r → t'.state = t.state) := by
  rcases call_cases hloads s with ⟨e, hwhole, hcall⟩ | ⟨o, c, hdry, -, hcall⟩
  · rw [hcall] at h
    cases h
    exact ⟨.refused (.config e) fun document he => hwhole document (Error.config.inj he),
      fun _ => rfl⟩
  · rw [hcall] at h
    rcases push_cases h with ⟨-, rfl, rfl⟩ | ⟨-, -, ⟨why, rfl⟩, rfl⟩ | ⟨-, -, hfinish⟩
    · exact ⟨.refused .nothingSelected nofun, fun _ => rfl⟩
    · exact ⟨.refused (.invalid why) nofun, fun _ => rfl⟩
    · have hended : Ended r ∧ ∀ e, r = .error e → ¬Refused e := by
        cases hfinish with
        | completed visits hsts hran hclean => exact ⟨.done _, nofun⟩
        | failed visits last rest hsts hran hclean hfailures hnames =>
            refine ⟨.incomplete hfailures _, ?_⟩
            rintro e ⟨⟩ ⟨⟩
        | unlisted visits stage rest cause hsts hran hclean herror hstate hlog =>
            -- without faults there is no stage that cannot be listed
            obtain ⟨o', t₂, hok⟩ := stage.run_quiet Store.supportedOrgValues o.mode c
              (hquiet.weaker hran.confined.weaker)
            rw [hok] at herror
            cases herror
      refine ⟨hended.1, fun hkept => ?_⟩
      have hrequest : p.dryRun = true :=
        Bool.of_not_eq_false fun hreal => hkept ⟨hreal, hended.2⟩
      exact (hfinish.dry (hdry.trans hrequest)).1

/-- **A call beside another one**: from a state that is alike to that of a tenant without
faults, the call comes to the same result and to a state that is alike again. -/
theorem call_beside {st : State} {now' : Timestamp} (htwins : Twins { state := st, now := now' } u)
    (hnone : u.faults = {}) (hplain : st.PlainOutputs) (now now'' : Timestamp)
    {r : Except Push.Error (List Operation)} {u' : Tenant}
    (h : exec (call loaded p s) { u with now := now'' } = (r, u')) :
    ∃ t', exec (call loaded p s) { state := st, now } = (r, t') ∧ Ended r
      ∧ t'.state.PlainOutputs ∧ (¬Kept p r → t'.state = st)
      ∧ Twins { state := t'.state, now := t'.now } u' ∧ u'.faults = {} := by
  have hquiet : ({ state := st, now } : Tenant).faults.Quiet := Faults.quiet_empty
  obtain ⟨hresult, hend⟩ := call_twins hloads s (htwins.later now now'')
  have hnone' := call_faultless hloads s (t := { u with now := now'' }) hnone
  have hplain' := call_plainOutputs hloads s hquiet hplain
  rcases hcall : exec (call loaded p s) { state := st, now } with ⟨r', t'⟩
  rw [hcall, h] at hresult hend
  rw [hcall] at hplain'
  rw [h] at hnone'
  obtain rfl : r' = r := hresult
  obtain ⟨hended, hsame⟩ := call_ended hloads s hquiet hcall
  exact ⟨t', rfl, hended, hplain', hsame, hend.of_state hnone', hnone'⟩

end Calls

/-! ## §3. What is asked for on the command line. -/

/-- Settings are as a push asks for on the command line, where it does. -/
structure Obeys (p : PushRequest) (s : Settings.Resolved) : Prop where
  stateFile : ∀ path, p.state = some path → s.stateFile = path
  categories : p.only ≠ [] → s.categories = p.only
  drift : ∀ policy, p.drift = some policy → s.drift = policy

theorem canonicalize_categoryNames (cs : List Category) :
    (Settings.categoryNames cs).canonicalize = Settings.categoryNames cs := by
  rw [Settings.categoryNames, Value.canonicalize, canonicalizeItems_eq_map, List.map_map]
  rfl

/-- What a push asks for, by key. -/
def asksFor (p : PushRequest) : List (String × Value) :=
  (if p.only = [] then [] else [("categories", Settings.categoryNames p.only)])
    ++ (p.drift.map fun d => ("drift", Value.str d.name)).toList
    ++ (p.state.map fun path => ("state_file", Value.str path)).toList

theorem keys_asksFor (p : PushRequest) : ((asksFor p).map Prod.fst).Pairwise (· < ·) := by
  have hall : ["categories", "drift", "state_file"].Pairwise (· < ·) := by decide
  have hsublist : ((asksFor p).map Prod.fst).Sublist
      (["categories"] ++ ["drift"] ++ ["state_file"]) := by
    unfold asksFor
    rw [List.map_append, List.map_append]
    refine .append (.append ?_ ?_) ?_
    · split
      · exact List.nil_sublist _
      · exact .refl _
    · cases p.drift with
      | none => exact List.nil_sublist _
      | some d => exact .refl _
    · cases p.state with
      | none => exact List.nil_sublist _
      | some path => exact .refl _
  exact hall.sublist hsublist

/-- The layer of the command line has what is asked for. -/
theorem overridesOf_eq {p : PushRequest} (h : asksFor p ≠ []) :
    (overridesOf p).map Payload.value = some (.obj (asksFor p)) := by
  unfold overridesOf
  dsimp only
  generalize hgiven : (p.state.map fun path => ("state_file", Value.str path)).toList
    ++ (if p.only.isEmpty then [] else [("categories", Settings.categoryNames p.only)])
    ++ (p.drift.map fun d => ("drift", Value.str d.name)).toList = given
  -- nothing in it changes, and the file comes last
  have hperm : (given.map fun e => (e.1, e.2.canonicalize)).Perm (asksFor p) := by
    have hsame : (given.map fun e => (e.1, e.2.canonicalize)) = given := by
      rw [← hgiven]
      cases p.state <;> cases p.only <;> cases p.drift <;>
        simp [Value.canonicalize, canonicalize_categoryNames]
    rw [hsame, ← hgiven, List.append_assoc]
    unfold asksFor
    simp only [List.isEmpty_iff]
    exact List.perm_append_comm
  have hnonempty : given.isEmpty = false := by
    rw [List.isEmpty_eq_false_iff]
    rintro rfl
    exact h (List.nil_perm.1 hperm)
  rw [hnonempty, if_neg Bool.false_ne_true, Option.map_some, Payload.ofValue]
  exact congrArg some (canonicalize_obj hperm (keys_asksFor p))

/-- What is asked for is loaded. -/
theorem get?_of_asksFor {path : Option String} {p : PushRequest} {settings : Settings}
    (h : (execState (Settings.load files path (overridesOf p)) w).1 = .ok settings)
    {key : String} {v : Value} (hv : NameMap.lookupEntry key (asksFor p) = some v)
    (hplain : ¬v.IsObject) : settings.values.value.get? key = some v := by
  have hsome : asksFor p ≠ [] := by
    intro hnil
    rw [hnil] at hv
    cases hv
  obtain ⟨cli, hcli, hvalue⟩ := Option.map_eq_some_iff.1 (overridesOf_eq hsome)
  rw [hcli] at h
  exact Settings.get?_of_load h (hvalue ▸ trivial) (hvalue ▸ hv) hplain

/-- **Settings are what is asked for.** -/
theorem obeys_of_load {path : Option String} {p : PushRequest} {settings : Settings}
    (h : (execState (Settings.load files path (overridesOf p)) w).1 = .ok settings) :
    Obeys p settings.resolved := by
  obtain ⟨-, -, hspelt⟩ := Settings.load_eq_ok h
  refine ⟨fun path hstate => ?_, fun honly => ?_, fun policy hdrift => ?_⟩
  · have hasked : NameMap.lookupEntry "state_file" (asksFor p) = some (.str path) := by
      unfold asksFor
      rw [hstate]
      split <;> cases p.drift <;> rfl
    have hget := get?_of_asksFor h hasked not_false
    exact Value.str.inj (Option.some.inj (hspelt.stateFile.1.symm.trans hget))
  · have hasked : NameMap.lookupEntry "categories" (asksFor p)
        = some (Settings.categoryNames p.only) := by
      unfold asksFor
      rw [if_neg honly]
      rfl
    have hget := get?_of_asksFor h hasked not_false
    have hnames := Settings.categoriesOf_eq_ok.2
      (Option.some.inj (hspelt.categories.symm.trans hget)).symm
    exact Except.ok.inj ((Settings.categoriesOf_eq_ok.2 rfl).symm.trans hnames).symm
  · have hasked : NameMap.lookupEntry "drift" (asksFor p) = some (.str policy.name) := by
      unfold asksFor
      rw [hdrift]
      split <;> rfl
    have hget := get?_of_asksFor h hasked not_false
    have hname := Option.some.inj (hspelt.drift.symm.trans hget)
    have hasName := Settings.driftOf_eq_ok.2 hname
    exact Except.ok.inj (hasName.symm.trans (Settings.driftOf_eq_ok.2 rfl)).symm

/-! ## §4. Runs of the tool. -/

/-- A run of the tool: its arguments, its environment, and when it is made. -/
structure Launch where
  args : List String
  environment : String → Option String
  now : Timestamp

/-- Make a run. -/
def Launch.run (l : Launch) (files : Files (StateM σ)) (w : σ) : Reply × σ :=
  execState (Command.run ⟨files, l.environment, l.now⟩ l.args) w

/-- A run asks for a push of what a root document loads to, with settings that are valid and
lead to a state file. -/
structure Pushes (files : Files (StateM σ)) (file : String) (w : σ) (l : Launch) (p : PushRequest)
    (s : Settings.Resolved) (loaded : Except Config.Error Config.Effective) : Prop where
  asked : ∃ i settings, Invocation.ofArguments l.args = .ok i ∧ i.request = .push p
    ∧ (execState (Settings.load files (i.settings.or (Settings.defaultPath l.environment))
        (overridesOf p)) w).1 = .ok settings
    ∧ settings.resolved = s
  stateFile : files.read s.stateFile = files.read file
  loads : Config.Loads files "." p.root w loaded

section Runs

variable {l : Launch} {p : PushRequest} {s : Settings.Resolved}
  {loaded : Except Config.Error Config.Effective}

theorem Pushes.of_resolved {i : Invocation} (hargs : Invocation.ofArguments l.args = .ok i)
    (hrequest : i.request = .push p)
    (hresolved : (execState (Settings.load files
        (i.settings.or (Settings.defaultPath l.environment)) (overridesOf p)) w).1.toOption.map
          Settings.resolved = some s)
    (hfile : files.read s.stateFile = files.read file)
    (hloads : Config.Loads files "." p.root w loaded) : Pushes files file w l p s loaded := by
  obtain ⟨settings, hload, hs⟩ := Option.map_eq_some_iff.1 hresolved
  exact ⟨⟨i, settings, hargs, hrequest, eq_ok_of_toOption hload, hs⟩, hfile, hloads⟩

/-- Such a run does nothing but push. -/
theorem Pushes.run_eq (hfiles : files.Lawful) (h : Pushes files file w l p s loaded) :
    l.run files w = execState (pushTo ⟨files, l.environment, l.now⟩ s p) w := by
  obtain ⟨i, settings, hargs, hrequest, hload, rfl⟩ := h.asked
  unfold Launch.run Command.run
  rw [hargs]
  show execState (perform _ i) w = _
  unfold perform
  simp only [hrequest]
  rw [execState_bind, (Settings.load_untouched hfiles _ _).exec_eq hload]

/-- **What a push does to files**: a push that is kept is written, any other one leaves
them as they are; its result is what the tenant of the file comes to. -/
theorem pushTo_result (hfiles : files.Lawful) (hlimited : files.Limited)
    (hloads : Config.Loads files "." p.root w loaded) (environment : String → Option String)
    {now : Timestamp} {st : State} (hholds : Holds files s.stateFile w st)
    {r : Except Push.Error (List Operation)} {t' : Tenant}
    (hcall : exec (call loaded p s) { state := st, now } = (r, t')) :
    (Kept p r → ∀ {w'},
      execState (files.write s.stateFile t'.state.toSnapshot.toUTF8) w = (.ok (), w') →
        execState (pushTo ⟨files, environment, now⟩ s p) w = (replyTo p r, w'))
    ∧ (¬Kept p r → execState (pushTo ⟨files, environment, now⟩ s p) w = (replyTo p r, w)) := by
  have hresult : (pushEffective (optionsOf s p) loaded).run.run { state := st, now } = (r, t') := by
    rw [pushEffective_optionsOf]
    exact hcall
  unfold pushTo
  -- up to the decision about writing, nothing was done to files
  rw [execState_bind, hholds.read hfiles]
  simp only
  rw [execState_bind, hloads.exec_loadFile hfiles hlimited]
  simp only [hresult]
  constructor
  · intro hkept w' hwrite
    rw [if_pos (kept_iff.1 hkept), execState_bind]
    unfold Tenant.write
    rw [execState_bind, hwrite]
    rfl
  · intro hkept
    rw [if_neg fun h => hkept (kept_iff.2 h)]
    rfl

/-- Whatever a run is to write can be written, and is read again as it was. -/
def Undisturbed (files : Files (StateM σ)) (w : σ) (l : Launch) (p : PushRequest)
    (s : Settings.Resolved) (loaded : Except Config.Error Config.Effective) : Prop :=
  ∀ st r t', Holds files s.stateFile w st →
    exec (call loaded p s) { state := st, now := l.now } = (r, t') → Kept p r →
      Storable files s.stateFile w t'.state

/-- A dry run writes nothing. -/
theorem Undisturbed.of_dry (h : p.dryRun = true) : Undisturbed files w l p s loaded := by
  intro st r t' _ _ hkept
  cases h.symm.trans hkept.1

/-- There is one state that a run may come to write. -/
theorem Undisturbed.of_storable {st : State} (hholds : Holds files s.stateFile w st)
    (h : Storable files s.stateFile w
      (exec (call loaded p s) { state := st, now := l.now }).2.state) :
    Undisturbed files w l p s loaded := by
  intro st' r t' hholds' hcall _
  obtain rfl := hholds.unique hholds'
  rw [hcall] at h
  exact h

end Runs

/-! ## §5. Runs and calls, beside each other. -/

/-- From a file and a tenant to a file and a tenant runs were made, each with the call of the
library beside it; between them other files may have changed. -/
inductive Beside (files : Files (StateM σ)) (file : String) (w : σ) (u : Tenant) :
    σ → Tenant → Prop
  | start : Beside files file w u w u
  | run {w₁ : σ} {u₁ : Tenant} (h : Beside files file w u w₁ u₁) {l : Launch} {p : PushRequest}
      {s : Settings.Resolved} {loaded : Except Config.Error Config.Effective}
      (hpush : Pushes files file w₁ l p s loaded)
      (hundisturbed : Undisturbed files w₁ l p s loaded) (now : Timestamp) :
      Beside files file w u (l.run files w₁).2 (exec (call loaded p s) { u₁ with now }).2
  | elsewhere {w₁ w₂ : σ} {u₁ : Tenant} (h : Beside files file w u w₁ u₁)
      (hfile : (execState (files.read file) w₂).1 = (execState (files.read file) w₁).1) :
      Beside files file w u w₂ u₁

/-- A file holds the state of a tenant without faults, times aside. -/
structure Mirrors (files : Files (StateM σ)) (file : String) (w : σ) (u : Tenant) : Prop where
  twins : ∃ s now, Holds files file w s ∧ Twins { state := s, now } u
  faultless : u.faults = {}

/-- Twins have states that are alike, times aside. -/
theorem alikeUpTo_of_twins {s : State} {now : Timestamp} {u : Tenant}
    (h : Twins { state := s, now } u) : AlikeUpTo SameButTimes { u with state := s } u := by
  obtain ⟨lost, halike⟩ := h.alikeUpTo
  exact ⟨halike.elements, halike.namespaces, halike.idCounter, rfl, rfl⟩

/-- **One run and the call beside it.** -/
theorem run_mirrors (hfiles : files.Lawful) (hlimited : files.Limited) {u : Tenant}
    (h : Mirrors files file w u) {l : Launch} {p : PushRequest} {s : Settings.Resolved}
    {loaded : Except Config.Error Config.Effective} (hpush : Pushes files file w l p s loaded)
    (hundisturbed : Undisturbed files w l p s loaded) {now : Timestamp} {reply : Reply} {w' : σ}
    (hrun : l.run files w = (reply, w')) {r : Except Push.Error (List Operation)} {u' : Tenant}
    (hcall : exec (call loaded p s) { u with now } = (r, u')) :
    Says p r reply
      ∧ (Kept p r → ∃ st, Decodes files file w' st
          ∧ AlikeUpTo SameButTimes { u' with state := st } u')
      ∧ (¬Kept p r → w' = w)
      ∧ Mirrors files file w' u' := by
  obtain ⟨⟨st, now', hholds, htwins⟩, hfaultless⟩ := h
  have hfile : Holds files s.stateFile w st := hholds.congr (by rw [hpush.stateFile])
  -- the tenant that is read is a twin of the one in memory, and stays one
  obtain ⟨t', hcallt, hended, hplain, hsame, hstate, hnone⟩ := call_beside hpush.loads s htwins
    hfaultless hholds.plainOutputs l.now now hcall
  obtain ⟨hwritten, hleft⟩ := pushTo_result hfiles hlimited hpush.loads l.environment hfile hcallt
  rw [hpush.run_eq hfiles] at hrun
  by_cases hkept : Kept p r
  · obtain ⟨w₁, hwrite, hdecodes⟩ := (hundisturbed st r t' hfile hcallt hkept).decodes hfiles hplain
    rw [hwritten hkept hwrite] at hrun
    cases hrun
    have hdecodes : Decodes files file w' t'.state := by
      unfold Decodes at hdecodes
      rwa [hpush.stateFile] at hdecodes
    exact ⟨says_replyTo p hended, fun _ => ⟨_, hdecodes, alikeUpTo_of_twins hstate⟩,
      fun h => absurd hkept h, ⟨_, _, .decoded hdecodes, hstate⟩, hnone⟩
  · rw [hleft hkept] at hrun
    cases hrun
    rw [hsame hkept] at hstate
    exact ⟨says_replyTo p hended, fun h => absurd h hkept, fun _ => rfl,
      ⟨st, _, hholds, hstate⟩, hnone⟩

/-- Runs and calls beside each other keep file and tenant alike. -/
theorem Beside.mirrors (hfiles : files.Lawful) (hlimited : files.Limited) {u : Tenant}
    (h : Mirrors files file w u) {w' : σ} {u' : Tenant}
    (hbeside : Beside files file w u w' u') : Mirrors files file w' u' := by
  -- by the runs so far: each keeps the two alike, and other files have no say in it
  induction hbeside with
  | start => exact h
  | run _ hpush hundisturbed now ih =>
      exact (run_mirrors hfiles hlimited ih hpush hundisturbed (Prod.eta _).symm
        (Prod.eta _).symm).2.2.2
  | elsewhere _ hfile ih =>
      obtain ⟨⟨s, now, hholds, htwins⟩, hfaultless⟩ := ih
      exact ⟨⟨s, now, hholds.congr hfile, htwins⟩, hfaultless⟩

/-- **The tool refines the library.**  Runs are made on a state file that is missing or is
decoded to a state, and beside each the library's push of what the same root document
loads to, to whatever depth, with the settings of the run, on one tenant in memory.  What
is to be written can be written and is read as it was.  Then the settings are what is
asked for on the command line, where it asks for any, and each run says what the call
beside it came to: its operations in order, their counts and the failures, with code 0, or
3 if there were failures; or why it was refused, with code 1.  After a run that was not
dry and not refused, the file is decoded to the state of the tenant, times aside; any other
run leaves all files as they are. -/
theorem runs_refine (hfiles : files.Lawful) (hlimited : files.Limited) {w₀ : σ} {s₀ : State}
    (hstart : Holds files file w₀ s₀) (now₀ now : Timestamp) {u : Tenant}
    (hbeside : Beside files file w₀ { state := s₀, now := now₀ } w u) {l : Launch}
    {p : PushRequest} {s : Settings.Resolved} {loaded : Except Config.Error Config.Effective}
    (hpush : Pushes files file w l p s loaded)
    (hundisturbed : Undisturbed files w l p s loaded) {reply : Reply} {w' : σ}
    (hrun : l.run files w = (reply, w')) {r : Except Push.Error (List Operation)} {u' : Tenant}
    (hcall : exec (call loaded p s) { u with now } = (r, u')) :
    Obeys p s ∧ Says p r reply
      ∧ (Kept p r → ∃ st, Decodes files file w' st
          ∧ AlikeUpTo SameButTimes { u' with state := st } u')
      ∧ (¬Kept p r → w' = w) := by
  have hsame : Twins { state := s₀, now := now₀ } { state := s₀, now := now₀ } :=
    AlikeUpTo.twins ⟨fun p => .refl (fun _ _ => ⟨rfl, rfl, rfl⟩) p s₀, rfl, rfl, rfl, rfl⟩
  have hmirrors := hbeside.mirrors hfiles hlimited ⟨⟨s₀, now₀, hstart, hsame⟩, rfl⟩
  obtain ⟨hsaid, hdecodes, hleft, -⟩ :=
    run_mirrors hfiles hlimited hmirrors hpush hundisturbed hrun hcall
  obtain ⟨_, settings, _, _, hload, rfl⟩ := hpush.asked
  exact ⟨obeys_of_load hload, hsaid, hdecodes, hleft⟩

/-- Without a state file a setting is pushed, in a dry run first and then for good. -/
theorem runs_refine_after_dry_run :
    let w : FileTree :=
      { entries := [(["home"], .directory),
          (["home", "root"], .file "org-value: {otx: shared}".toUTF8)]
        current := ["home"] }
    let launch (flags : List String) : Launch :=
      ⟨["push", "root", "--state", "s.json", "--only", "org-value"] ++ flags, fun _ => none, ⟨1, 0⟩⟩
    let w₁ := ((launch ["--dry-run"]).run FileTree.files w).2
    let made := (launch []).run FileTree.files w₁
    w₁ = w
      ∧ made.1 = ⟨"+ org_value otx\n\n1 added, 0 removed, 0 replaced, 0 unchanged\n", "", 0⟩
      ∧ ∃ st u', Decodes FileTree.files "s.json" made.2 st
          ∧ AlikeUpTo SameButTimes { u' with state := st } u'
          ∧ u'.state.orgValues.get? "otx" = some "shared" := by
  intro w launch w₁ made
  let p : PushRequest := { root := "root", state := some "s.json", only := [.orgValues] }
  let s : Settings.Resolved :=
    { logLevel := "info", stateFile := "s.json", drift := .keep, categories := [.orgValues] }
  let u : Tenant := { now := ⟨2, 0⟩ }
  let loaded := (execState (Config.loadFile FileTree.files "." "root") w).1
  have hloads : Config.Loads FileTree.files "." "root" w loaded :=
    Config.loads_loadFile FileTree.files_limited "." "root" w
  have hmissing : (execState (FileTree.files.read "s.json") w).1 = .error .notFound := by
    decide +kernel
  have hstart : Holds FileTree.files "s.json" w {} := .missing hmissing
  have hdry : Pushes FileTree.files "s.json" w (launch ["--dry-run"]) { p with dryRun := true } s
      loaded :=
    .of_resolved (i := ⟨.push { p with dryRun := true }, none, false⟩) (by decide +kernel) rfl
      (by decide +kernel) rfl hloads
  have hreal : Pushes FileTree.files "s.json" w (launch []) p s loaded :=
    .of_resolved (i := ⟨.push p, none, false⟩) (by decide +kernel) rfl (by decide +kernel) rfl
      hloads
  have hundisturbed : Undisturbed FileTree.files w (launch []) p s loaded := by
    have hkept : (exec (call loaded p s) { now := (launch []).now }).2.state.Kept := by
      decide +kernel
    have hstorable : Storable FileTree.files s.stateFile w
        (exec (call loaded p s) { now := (launch []).now }).2.state :=
      ⟨by decide +kernel, hkept.text, hkept.times⟩
    exact .of_storable hstart hstorable
  obtain ⟨-, -, -, hleft⟩ := runs_refine FileTree.files_lawful FileTree.files_limited hstart ⟨2, 0⟩
    ⟨3, 0⟩ .start hdry (.of_dry rfl) (Prod.eta _).symm (Prod.eta _).symm
  have hw₁ : w₁ = w := hleft fun hkept => nomatch hkept.1
  -- beside the dry run the library's tenant was called once already
  let u₁ := (exec (call loaded { p with dryRun := true } s) { u with now := ⟨3, 0⟩ }).2
  have hbeside : Beside FileTree.files "s.json" w u w₁ u₁ :=
    .run .start hdry (.of_dry rfl) ⟨3, 0⟩
  rw [hw₁] at hbeside
  obtain ⟨hdone, hotx⟩ :
      (exec (call loaded p s) { u₁ with now := ⟨4, 0⟩ }).1.toOption = some [.add .orgValue "otx"]
        ∧ (exec (call loaded p s) { u₁ with now := ⟨4, 0⟩ }).2.state.orgValues.get? "otx"
          = some "shared" := by
    decide +kernel
  rcases hcall : exec (call loaded p s) { u₁ with now := ⟨4, 0⟩ } with ⟨r, u'⟩
  rw [hcall] at hdone hotx
  obtain rfl : r = _ := eq_ok_of_toOption hdone
  have hmade : made = (launch []).run FileTree.files w := congrArg _ hw₁
  rcases hrun : (launch []).run FileTree.files w with ⟨reply, w'⟩
  obtain ⟨-, hsaid, hdecodes, -⟩ := runs_refine FileTree.files_lawful FileTree.files_limited hstart
    ⟨2, 0⟩ ⟨4, 0⟩ hbeside hreal hundisturbed hrun hcall
  obtain ⟨st, hst, halike⟩ := hdecodes ⟨rfl, nofun⟩
  rw [hmade, hrun]
  refine ⟨hw₁, ?_, st, u', hst, halike, hotx⟩
  -- one operation can be listed in one way only
  cases hsaid with
  | done h =>
      obtain ⟨listed, hlists, rfl⟩ := h
      obtain rfl := List.perm_singleton.1 hlists.1
      dsimp only
      decide +kernel

end TenantSync.Command
