/-
  TenantSync.Proofs.Push.Ending
  ─────────────────────────────
  **WHAT A PASS REPORTS IS WHAT BECAME OF ITS ELEMENTS.**

  Calls fail in any order and number while a plan is enacted, and a replacement
  may stop half way.  `Ending` lists all that may have become of one element, by
  what is reported of it and by whether a failure is noted under its name:

      reported    failure    before → after            logged
      added       no         absent → desired body     created
      added       yes        absent → absent
      removed     no         held   → absent           deleted
      removed     yes        held   → held
      replaced    no         held   → desired body     deleted, created
      replaced    yes        held   → held
      replaced    yes        held   → absent           deleted
      kept                   as it was

  A store is lawful if each of its calls acts on the element it is made for and
  on no other one.  Of a lawful store it is enough to look at one decision; the
  decisions of a plan do not meet, because each identity is decided about once.
-/
import TenantSync.Proofs.Push.Plan
import TenantSync.Tenant.Basic

namespace TenantSync.Push

variable {β : Type}

/-! ## §1. What may become of an element. -/

/-- Whether a failure is noted under a name. -/
def Outcome.failed (o : Outcome) (name : String) : Bool := o.failures.any fun f => f.name == name

/-- What was done to the element of a name, according to a log. -/
def didTo (name : String) (logged : List Mutation) : List MutationKind :=
  (logged.filter fun m => m.name == name).map Mutation.kind

/-- What may become of an element: by what is reported of it, whether a failure
is noted, and the body that is `wanted` of it.  A store is `direct` if it
replaces an element in one call. -/
inductive Ending (direct : Bool) (wanted : Option β) : (added removed failed : Bool) →
    (before after : Option (Remote β)) → List MutationKind → Prop where
  | added {body : β} {info : Meta} (h : wanted = some body) :
      Ending direct wanted true false false none (some ⟨body, info⟩) [.created]
  | notAdded : Ending direct wanted true false true none none []
  | removed {held : Remote β} :
      Ending direct wanted false true false (some held) none [.deleted]
  | notRemoved {held : Remote β} :
      Ending direct wanted false true true (some held) (some held) []
  | replaced {held : Remote β} {body : β} {info : Meta} (h : wanted = some body) :
      Ending direct wanted true true false (some held) (some ⟨body, info⟩)
        (if direct then [.created] else [.deleted, .created])
  | notReplaced {held : Remote β} :
      Ending direct wanted true true true (some held) (some held) []
  /-- It was deleted, and then not created again. -/
  | lost {held : Remote β} (h : direct = false) :
      Ending direct wanted true true true (some held) none [.deleted]
  | kept {before : Option (Remote β)} :
      Ending direct wanted false false false before before []

namespace Ending

variable {direct removed failed : Bool} {wanted : Option β} {before after : Option (Remote β)}
  {did : List MutationKind}

/-- What is added or replaced without a failure holds the body that is wanted. -/
theorem holds_wanted (h : Ending direct wanted true removed false before after did) :
    ∃ body info, wanted = some body ∧ after = some ⟨body, info⟩ := by
  cases h with
  | added hbody => exact ⟨_, _, hbody, rfl⟩
  | replaced hbody => exact ⟨_, _, hbody, rfl⟩

/-- What is removed without a failure is gone. -/
theorem gone (h : Ending direct wanted false true false before after did) : after = none := by
  cases h
  rfl

/-- What is kept is as it was. -/
theorem unchanged (h : Ending direct wanted false false failed before after did) :
    after = before := by
  cases h
  rfl

end Ending

/-! ## §2. Lawful stores. -/

/-- How the elements of a kind are seen in a state, by identity. -/
abbrev View (β : Type) := State → String → Option (Remote β)

/-- From `t` to `t'` something was done to one element, which became `after`. -/
structure Acted (view : View β) (element : ElementType) (id : String) (t t' : Tenant)
    (after : Option (Remote β)) (did : List MutationKind) : Prop where
  here : view t'.state id = after
  elsewhere : ∀ i, i ≠ id → view t'.state i = view t.state i
  log : t'.log = t.log ++ did.map fun kind => ⟨kind, element, id⟩

/-- Every call of a store acts on the element it is made for, or fails.  The body
that is `stored` of a desired one may depend on its identity; only bodies that
the store `admits` can be created. -/
structure Lawful (store : Store Tenant β) (view : View β) (stored : String → β → β)
    (admits : β → Prop) (direct : Bool) : Prop where
  create : ∀ {id body t t' r}, view t.state id = none → admits body →
    exec (store.create id body) t = (r, t') →
      (r = .ok () ∧ ∃ info,
        Acted view store.element id t t' (some ⟨stored id body, info⟩) [.created])
      ∨ (∃ e, r = .error e) ∧ Acted view store.element id t t' none []
  delete : ∀ {id held t t' r}, view t.state id = some held →
    exec (store.delete id held) t = (r, t') →
      (r = .ok () ∧ Acted view store.element id t t' none [.deleted])
      ∨ (∃ e, r = .error e) ∧ Acted view store.element id t t' (some held) []
  replace : ∀ {id body held t t' r}, view t.state id = some held → admits body →
    exec (store.replace id body held) t = (r, t') →
      (r = .ok () ∧ ∃ info,
        Acted view store.element id t t' (some ⟨stored id body, info⟩)
          (if direct then [.created] else [.deleted, .created]))
      ∨ (∃ e, r = .error e) ∧
        (Acted view store.element id t t' (some held) []
          ∨ direct = false ∧ Acted view store.element id t t' none [.deleted])

section Acting

variable {view : View β} {element : ElementType} {id : String} {t t' t'' : Tenant}

/-- Nothing was done where only the faults and their counts differ. -/
theorem Acted.nothing (hstate : t'.state = t.state) (hlog : t'.log = t.log) :
    Acted view element id t t' (view t.state id) [] where
  here := by rw [hstate]
  elsewhere := fun i _ => by rw [hstate]
  log := by rw [hlog, List.map_nil, List.append_nil]

theorem Acted.trans {after after' : Option (Remote β)} {did did' : List MutationKind}
    (h : Acted view element id t t' after did) (h' : Acted view element id t' t'' after' did') :
    Acted view element id t t'' after' (did ++ did') where
  here := h'.here
  elsewhere := fun i hi => (h'.elsewhere i hi).trans (h.elsewhere i hi)
  log := by rw [h'.log, h.log, List.map_append, List.append_assoc]

/-- **A store that replaces by deleting and creating** is lawful if it deletes and
creates lawfully; what it deleted is lost if it cannot create. -/
theorem Lawful.ofDefault {store : Store Tenant β} {stored : String → β → β} {admits : β → Prop}
    (hreplace : ∀ id body held,
      store.replace id body held = (do store.delete id held; store.create id body))
    (hcreate : ∀ {id body t t' r}, view t.state id = none → admits body →
      exec (store.create id body) t = (r, t') →
        (r = .ok () ∧ ∃ info,
          Acted view store.element id t t' (some ⟨stored id body, info⟩) [.created])
        ∨ (∃ e, r = .error e) ∧ Acted view store.element id t t' none [])
    (hdelete : ∀ {id held t t' r}, view t.state id = some held →
      exec (store.delete id held) t = (r, t') →
        (r = .ok () ∧ Acted view store.element id t t' none [.deleted])
        ∨ (∃ e, r = .error e) ∧ Acted view store.element id t t' (some held) []) :
    Lawful store view stored admits false where
  create := hcreate
  delete := hdelete
  replace := by
    intro id body held t t' r hview hadmits hexec
    -- the creation begins where the deletion ended, with nothing held
    rw [hreplace, exec_bind] at hexec
    rcases hdel : exec (store.delete id held) t with ⟨e | _, t₁⟩
    · rw [hdel] at hexec
      cases hexec
      rcases hdelete hview hdel with ⟨hr, _⟩ | ⟨_, hacted⟩
      · cases hr
      · exact .inr ⟨⟨e, rfl⟩, .inl hacted⟩
    · rw [hdel] at hexec
      rcases hdelete hview hdel with ⟨_, hgone⟩ | ⟨⟨e, hr⟩, _⟩
      · rcases hcreate hgone.here hadmits hexec with ⟨hr, info, hmade⟩ | ⟨hr, hnot⟩
        · exact .inl ⟨hr, info, hgone.trans hmade⟩
        · exact .inr ⟨hr, .inr ⟨rfl, hgone.trans hnot⟩⟩
      · cases hr

end Acting

/-! ## §3. One decision. -/

namespace Decision

/-- A decision fits what is held when it is acted on. -/
def Fits (view : View β) (admits : β → Prop) (s : State) : Decision β → Prop
  | .add id body => view s id = none ∧ admits body
  | .keep _ => True
  | .replace id body held => view s id = some held ∧ admits body
  | .remove id held => view s id = some held

/-- The body that a decision puts into the store. -/
def body? : Decision β → Option β
  | .add _ body | .replace _ body _ => some body
  | .keep _ | .remove .. => none

/-- Whether a decision fits depends on its own element only. -/
theorem Fits.congr {view : View β} {admits : β → Prop} {s s' : State} {d : Decision β}
    (h : view s' d.id = view s d.id) (hfits : d.Fits view admits s) : d.Fits view admits s' := by
  cases d with
  | add id body => exact ⟨h.trans hfits.1, hfits.2⟩
  | keep id => exact True.intro
  | replace id body held => exact ⟨h.trans hfits.1, hfits.2⟩
  | remove id held => exact h.trans hfits

end Decision

section Lawfulness

variable {store : Store Tenant β} {view : View β} {stored : String → β → β}
  {admits : β → Prop} {direct : Bool} {mode : Mode}

/-- One decision that is acted on comes to one of the endings. -/
theorem enact_ending (hlaw : Lawful store view stored admits direct)
    (hdry : mode.dryRun = false) {d : Decision β} {t t' : Tenant} {o : Outcome}
    (hfits : d.Fits view admits t.state) (h : execState (d.enact store mode) t = (o, t'))
    {wanted : Option β} (hwanted : ∀ body, d.body? = some body → wanted = some (stored d.id body)) :
    ∃ did, Acted view store.element d.id t t' (view t'.state d.id) did
      ∧ Ending direct wanted (d.operation store.element).added (d.operation store.element).removed
          (o.failed d.id) (view t.state d.id) (view t'.state d.id) did := by
  rw [execState_enact, hdry] at h
  rcases hcall : exec (d.call store) t with ⟨r, t₁⟩
  -- a failure is noted exactly if the call fails
  have hend : t' = t₁ ∧ (r = .ok () → o.failed d.id = false)
      ∧ ∀ e, r = .error e → o.failed d.id = true := by
    rw [hcall] at h
    rcases r with e | _ <;> cases h
    · refine ⟨rfl, fun hr => ?_, fun _ _ => by simp [Outcome.failed]⟩
      cases hr
    · refine ⟨rfl, fun _ => rfl, fun e hr => ?_⟩
      cases hr
  obtain ⟨rfl, hok, hfail⟩ := hend
  suffices hcases : ∃ before after failed did, view t.state d.id = before
      ∧ o.failed d.id = failed ∧ Acted view store.element d.id t t' after did
      ∧ Ending direct wanted (d.operation store.element).added (d.operation store.element).removed
          failed before after did by
    obtain ⟨before, after, failed, did, rfl, rfl, hacted, hending⟩ := hcases
    exact ⟨did, hacted.here ▸ hacted, hacted.here ▸ hending⟩
  cases d with
  | add id body =>
      rcases hlaw.create hfits.1 hfits.2 hcall with ⟨hr, info, hacted⟩ | ⟨⟨e, hr⟩, hacted⟩
      · exact ⟨_, _, _, _, hfits.1, (hok hr), hacted, (.added (hwanted body rfl))⟩
      · exact ⟨_, _, _, _, hfits.1, (hfail e hr), hacted, .notAdded⟩
  | keep id =>
      cases hcall
      exact ⟨_, _, _, _, rfl, (hok rfl), (.nothing rfl rfl), .kept⟩
  | replace id body held =>
      rcases hlaw.replace hfits.1 hfits.2 hcall with ⟨hr, info, hacted⟩ | ⟨⟨e, hr⟩, hacted⟩
      · exact ⟨_, _, _, _, hfits.1, (hok hr), hacted, (.replaced (hwanted body rfl))⟩
      · rcases hacted with hacted | ⟨hdirect, hacted⟩
        · exact ⟨_, _, _, _, hfits.1, (hfail e hr), hacted, .notReplaced⟩
        · exact ⟨_, _, _, _, hfits.1, (hfail e hr), hacted, (.lost hdirect)⟩
  | remove id held =>
      rcases hlaw.delete hfits hcall with ⟨hr, hacted⟩ | ⟨⟨e, hr⟩, hacted⟩
      · exact ⟨_, _, _, _, hfits, (hok hr), hacted, .removed⟩
      · exact ⟨_, _, _, _, hfits, (hfail e hr), hacted, .notRemoved⟩

/-- Whatever body is wanted of it, a decision acts on its own element. -/
theorem enact_acted (hlaw : Lawful store view stored admits direct) (hdry : mode.dryRun = false)
    {d : Decision β} {t t' : Tenant} {o : Outcome} (hfits : d.Fits view admits t.state)
    (h : execState (d.enact store mode) t = (o, t')) :
    ∃ did, Acted view store.element d.id t t' (view t'.state d.id) did := by
  have hsome : ∀ body, d.body? = some body →
      d.body?.map (stored d.id) = some (stored d.id body) := by
    intro body hbody
    rw [hbody, Option.map_some]
  obtain ⟨did, hacted, -⟩ := enact_ending hlaw hdry hfits h hsome
  exact ⟨did, hacted⟩

/-! ## §4. A plan. -/

theorem failed_append (a b : Outcome) (name : String) :
    (a ++ b).failed name = (a.failed name || b.failed name) := by
  unfold Outcome.failed
  rw [append_failures, List.any_append]

theorem failed_eq_false {o : Outcome} {name : String} (h : ∀ f ∈ o.failures, f.name ≠ name) :
    o.failed name = false := by
  unfold Outcome.failed
  rw [List.any_eq_false]
  intro f hf
  simpa using h f hf

theorem didTo_append (name : String) (a b : List Mutation) :
    didTo name (a ++ b) = didTo name a ++ didTo name b := by
  unfold didTo
  rw [List.filter_append, List.map_append]

theorem didTo_eq_nil {name : String} {logged : List Mutation} (h : ∀ m ∈ logged, m.name ≠ name) :
    didTo name logged = [] := by
  unfold didTo
  rw [List.filter_eq_nil_iff.2 (by intro m hm; simpa using h m hm), List.map_nil]

theorem didTo_self (element : ElementType) (name : String) (did : List MutationKind) :
    didTo name (did.map fun kind => ⟨kind, element, name⟩) = did := by
  unfold didTo
  rw [List.filter_eq_self.2 (by simp), List.map_map]
  exact List.map_id did

/-- A decision notes a failure under no other name than its own. -/
theorem failed_enact_of_ne {d : Decision β} {t t' : Tenant} {o : Outcome}
    (h : execState (d.enact store mode) t = (o, t')) {name : String} (hne : name ≠ d.id) :
    o.failed name = false := by
  have honly : (execState (enactAll store mode [d]) t).1 = o := by
    rw [execState_enactAll_cons, h]
    exact append_empty o
  have hnames := enactAll_failures store mode [d] t
  rw [honly] at hnames
  refine failed_eq_false fun f hf heq => hne ?_
  rw [← heq]
  exact List.mem_singleton.1 (hnames f hf).2

/-- What a plan has come to: nothing happened to elements that it does not name,
and each of its decisions came to one of the endings. -/
structure Enacted (store : Store Tenant β) (view : View β) (stored : String → β → β)
    (direct : Bool) (ds : List (Decision β)) (o : Outcome) (logged : List Mutation)
    (t t' : Tenant) : Prop where
  others : ∀ i, i ∉ ds.map Decision.id → view t'.state i = view t.state i
  log : t'.log = t.log ++ logged
  mutations : ∀ m ∈ logged, m.element = store.element ∧ m.name ∈ ds.map Decision.id
  ending : ∀ d ∈ ds, ∀ wanted : Option β,
    (∀ body, d.body? = some body → wanted = some (stored d.id body)) →
    Ending direct wanted (d.operation store.element).added (d.operation store.element).removed
      (o.failed d.id) (view t.state d.id) (view t'.state d.id) (didTo d.id logged)

/-- One more decision in front, about an element that the plan does not name. -/
theorem Enacted.cons (hlaw : Lawful store view stored admits direct)
    (hdry : mode.dryRun = false) {d : Decision β} {ds : List (Decision β)} {o o' : Outcome}
    {logged : List Mutation} {t t₁ t' : Tenant} (hfits : d.Fits view admits t.state)
    (hnot : d.id ∉ ds.map Decision.id) (hone : execState (d.enact store mode) t = (o, t₁))
    (hfailures : ∀ f ∈ o'.failures, f.name ∈ ds.map Decision.id)
    (h : Enacted store view stored direct ds o' logged t₁ t') :
    ∃ logged', Enacted store view stored direct (d :: ds) (o ++ o') logged' t t' := by
  obtain ⟨did, hacted⟩ := enact_acted hlaw hdry hfits hone
  refine ⟨did.map (fun kind => ⟨kind, store.element, d.id⟩) ++ logged, ?_, ?_, ?_, ?_⟩
  · intro i hi
    rw [List.map_cons, List.mem_cons, not_or] at hi
    rw [h.others i hi.2, hacted.elsewhere i hi.1]
  · rw [h.log, hacted.log, List.append_assoc]
  · intro m hm
    rcases List.mem_append.1 hm with hm | hm
    · obtain ⟨kind, -, rfl⟩ := List.mem_map.1 hm
      exact ⟨rfl, List.mem_cons_self⟩
    · exact ⟨(h.mutations m hm).1, List.mem_cons_of_mem _ (h.mutations m hm).2⟩
  · intro d' hd' wanted hwanted
    rcases List.mem_cons.1 hd' with rfl | hmem
    · -- the first decision: nothing was noted or logged of its element afterwards, and
      -- its mutations do not depend on the body that is wanted
      have hfailed : o'.failed d'.id = false :=
        failed_eq_false fun f hf heq => hnot (heq ▸ hfailures f hf)
      have hlater : didTo d'.id logged = [] :=
        didTo_eq_nil fun m hm heq => hnot (heq ▸ (h.mutations m hm).2)
      obtain ⟨did', hacted', hending⟩ := enact_ending hlaw hdry hfits hone hwanted
      have hdid : did' = did := by
        rw [← didTo_self store.element d'.id did', ← didTo_self store.element d'.id did,
          List.append_cancel_left (hacted'.log.symm.trans hacted.log)]
      rw [failed_append, hfailed, Bool.or_false, didTo_append, didTo_self, hlater,
        List.append_nil, h.others d'.id hnot, ← hdid]
      exact hending
    · -- a later decision: nothing was noted or logged of its element before
      have hne : d'.id ≠ d.id := fun heq => hnot (List.mem_map.2 ⟨d', hmem, heq⟩)
      have hending := h.ending d' hmem wanted hwanted
      rw [hacted.elsewhere _ hne] at hending
      rw [failed_append, failed_enact_of_ne hone hne, Bool.false_or, didTo_append, didTo_eq_nil,
        List.nil_append]
      · exact hending
      · intro m hm heq
        obtain ⟨kind, -, rfl⟩ := List.mem_map.1 hm
        exact hne heq.symm

/-- **Every decision of a plan comes to one of the endings**, whichever calls of
the plan fail, and nothing is done to elements that the plan does not name. -/
theorem enacted_of_enactAll (hlaw : Lawful store view stored admits direct)
    (hdry : mode.dryRun = false) (ds : List (Decision β)) :
    ∀ {t t' : Tenant} {o : Outcome}, (ds.map Decision.id).Nodup →
      (∀ d ∈ ds, d.Fits view admits t.state) →
      execState (enactAll store mode ds) t = (o, t') →
      ∃ logged, Enacted store view stored direct ds o logged t t' := by
  induction ds with
  | nil =>
      intro t t' o _ _ h
      cases h
      refine ⟨[], fun _ _ => rfl, (List.append_nil _).symm, fun m hm => ?_, fun d hd => ?_⟩
      · cases hm
      · cases hd
  | cons d ds ih =>
      intro t t' o hnodup hfits h
      obtain ⟨hnot, hnodup⟩ := List.nodup_cons.1 hnodup
      rcases hone : execState (d.enact store mode) t with ⟨o₁, t₁⟩
      rcases hall : execState (enactAll store mode ds) t₁ with ⟨o₂, t₂⟩
      rw [execState_enactAll_cons, hone, hall] at h
      cases h
      have hfailures : ∀ f ∈ o₂.failures, f.name ∈ ds.map Decision.id := by
        have hnames := enactAll_failures store mode ds t₁
        rw [hall] at hnames
        exact fun f hf => (hnames f hf).2
      -- the rest is about other elements, so it fits what the first decision left
      have hfits₁ : ∀ d' ∈ ds, d'.Fits view admits t₁.state := by
        intro d' hd'
        have hne : d'.id ≠ d.id := fun heq => hnot (List.mem_map.2 ⟨d', hd', heq⟩)
        obtain ⟨did, hacted⟩ := enact_acted hlaw hdry (hfits d List.mem_cons_self) hone
        exact (hfits d' (List.mem_cons_of_mem _ hd')).congr (hacted.elsewhere _ hne)
      obtain ⟨logged, hrest⟩ := ih hnodup hfits₁ hall
      exact hrest.cons hlaw hdry (hfits d List.mem_cons_self) hnot hone hfailures

end Lawfulness

end TenantSync.Push
