/-
  TenantSync.Proofs.Push.SideBySide
  ─────────────────────────────────
  **TWO PASSES THAT GO THE SAME WAY.**

  Two passes over one store are run side by side, from states that are related and
  for desired elements that are.  If the calls of the store cannot tell the one from
  the other (`StoreMatches`), neither can the passes: they list related elements,
  decide the same about each identity, and every call fails in both or in neither.
  So they come to one outcome, and to states that are related again
  (`reconcile_matches`).

  Decisions are the same when they differ at most in bodies and held elements that
  count as one; the outcome of a decision names neither.
-/
import TenantSync.Proofs.Push.Plan
import TenantSync.Proofs.Related

namespace TenantSync.Push

variable {σ β : Type}

/-! ## §1. Calls that cannot tell bodies apart. -/

/-- The calls of a store cannot tell related states, desired bodies and held elements apart. -/
structure StoreMatches (R : σ → σ → Prop) (W : β → β → Prop) (H : Remote β → Remote β → Prop)
    (store : Store σ β) : Prop where
  fetch : Matches R (NameMap.Related H) store.fetch store.fetch
  create : ∀ {b b' : β} (id : String), W b b' →
    Matches R Eq (store.create id b) (store.create id b')
  delete : ∀ {r r' : Remote β} (id : String), H r r' →
    Matches R Eq (store.delete id r) (store.delete id r')
  replace : ∀ {b b' : β} {r r' : Remote β} (id : String), W b b' → H r r' →
    Matches R Eq (store.replace id b r) (store.replace id b' r')
  same : ∀ {b b' : β} {r r' : Remote β}, W b b' → H r r' →
    store.same b r.body = store.same b' r'.body

section Stores

variable {R : σ → σ → Prop} {W : β → β → Prop} {H : Remote β → Remote β → Prop}
  {store : Store σ β}

/-- A store that replaces by deleting and creating matches in this as well. -/
theorem StoreMatches.ofDefault
    (hreplace : ∀ id body held,
      store.replace id body held = (do store.delete id held; store.create id body))
    (hfetch : Matches R (NameMap.Related H) store.fetch store.fetch)
    (hcreate : ∀ {b b' : β} (id : String), W b b' →
      Matches R Eq (store.create id b) (store.create id b'))
    (hdelete : ∀ {r r' : Remote β} (id : String), H r r' →
      Matches R Eq (store.delete id r) (store.delete id r'))
    (hsame : ∀ {b b' : β} {r r' : Remote β}, W b b' → H r r' →
      store.same b r.body = store.same b' r'.body) : StoreMatches R W H store where
  fetch := hfetch
  create := hcreate
  delete := hdelete
  replace := by
    intro b b' r r' id hb hr
    rw [hreplace, hreplace]
    exact (hdelete id hr).bind fun _ _ _ => hcreate id hb
  same := hsame

/-! ## §2. Decisions that are the same. -/

/-- Two decisions are the same about bodies and held elements that count as one. -/
inductive Decision.Like (W : β → β → Prop) (H : Remote β → Remote β → Prop) :
    Decision β → Decision β → Prop
  | add (id : String) {b b' : β} (hb : W b b') : Like W H (.add id b) (.add id b')
  | keep (id : String) : Like W H (.keep id) (.keep id)
  | replace (id : String) {b b' : β} {r r' : Remote β} (hb : W b b') (hr : H r r') :
      Like W H (.replace id b r) (.replace id b' r')
  | remove (id : String) {r r' : Remote β} (hr : H r r') : Like W H (.remove id r) (.remove id r')

theorem decision_like (hstore : StoreMatches R W H store) (mode : Mode) (id : String) {b b' : β}
    (hb : W b b') {held held' : Option (Remote β)} (hheld : Option.Rel H held held') :
    (decision store mode id b held).Like W H (decision store mode id b' held') := by
  cases hheld with
  | none => exact .add id hb
  | some hr =>
      unfold decision
      simp only
      -- both see the same drift
      rw [hstore.same hb hr]
      split
      · exact .replace id hb hr
      · exact .keep id

theorem dismissal_like (mode : Mode) (id : String) {r r' : Remote β} (hr : H r r') :
    (dismissal mode id r).Like W H (dismissal mode id r') := by
  unfold dismissal
  split
  · exact .remove id hr
  · exact .keep id

/-- Desired elements beside each other: one name, one identity, and bodies that count as one. -/
def Beside (W : β → β → Prop) (store : Store σ β) (e f : String × β) : Prop :=
  e.1 = f.1 ∧ W e.2 f.2 ∧ store.identity e.1 e.2 = store.identity f.1 f.2

/-- **Both passes plan the same.** -/
theorem plan_like (hstore : StoreMatches R W H store) (mode : Mode)
    {desired desired' : List (String × β)}
    (hdesired : List.Forall₂ (Beside W store) desired desired') :
    ∀ {held held' : NameMap (Remote β)}, NameMap.Related H held held' →
      List.Forall₂ (Decision.Like W H) (plan store mode desired held)
        (plan store mode desired' held') := by
  -- by the desired elements, each of which takes one identity out of what is held
  induction hdesired with
  | nil =>
      intro held held' hheld
      unfold plan
      rw [List.forall₂_map_left_iff, List.forall₂_map_right_iff]
      refine hheld.entries.imp fun e f hef => ?_
      rw [hef.1]
      exact dismissal_like mode f.1 hef.2
  | @cons e f desired desired' hef _ ih =>
      intro held held' hheld
      obtain ⟨-, hbody, hidentity⟩ := hef
      unfold plan
      simp only
      rw [← hidentity]
      refine .cons ?_ (ih (hheld.erase _))
      exact decision_like hstore mode _ hbody (hheld _)

/-! ## §3. Outcomes that are the same. -/

/-- A decision and its like come to one outcome. -/
theorem enact_matches (hstore : StoreMatches R W H store) (mode : Mode) {d d' : Decision β}
    (hd : d.Like W H d') {s u : σ} (hsu : R s u) :
    (execState (d.enact store mode) s).1 = (execState (d'.enact store mode) u).1
      ∧ R (execState (d.enact store mode) s).2 (execState (d'.enact store mode) u).2 := by
  have hcall : Matches R Eq (d.call store) (d'.call store) := by
    cases hd with
    | add id hb => exact hstore.create id hb
    | keep id => exact .pure rfl
    | replace id hb hr => exact hstore.replace id hb hr
    | remove id hr => exact hstore.delete id hr
  have hreported : d.operation store.element = d'.operation store.element ∧ d.id = d'.id
      ∧ d.action = d'.action := by
    cases hd <;> exact ⟨rfl, rfl, rfl⟩
  obtain ⟨hoperation, hid, haction⟩ := hreported
  rw [execState_enact, execState_enact]
  cases mode.dryRun with
  | true =>
      simp only [if_true]
      rw [hoperation]
      exact ⟨rfl, hsu⟩
  | false =>
      simp only [Bool.false_eq_true, if_false]
      obtain ⟨hresult, hstate⟩ := hcall s u hsu
      rcases hs : exec (d.call store) s with ⟨r, s'⟩
      rcases hu : exec (d'.call store) u with ⟨r', u'⟩
      rw [hs, hu] at hresult hstate
      obtain rfl : r = r' := hresult.eq
      cases r with
      | ok a =>
          simp only
          rw [hoperation]
          exact ⟨rfl, hstate⟩
      | error e =>
          simp only
          rw [hoperation, hid, haction]
          exact ⟨rfl, hstate⟩

theorem enactAll_matches (hstore : StoreMatches R W H store) (mode : Mode)
    {ds ds' : List (Decision β)} (hds : List.Forall₂ (Decision.Like W H) ds ds') :
    ∀ {s u : σ}, R s u →
      (execState (enactAll store mode ds) s).1 = (execState (enactAll store mode ds') u).1
        ∧ R (execState (enactAll store mode ds) s).2 (execState (enactAll store mode ds') u).2 := by
  induction hds with
  | nil =>
      intro s u hsu
      exact ⟨rfl, hsu⟩
  | cons hd _ ih =>
      intro s u hsu
      obtain ⟨hfirst, hstate⟩ := enact_matches hstore mode hd hsu
      obtain ⟨hrest, hend⟩ := ih hstate
      rw [execState_enactAll_cons, execState_enactAll_cons]
      simp only
      rw [hfirst, hrest]
      exact ⟨rfl, hend⟩

/-- **Passes side by side** come to one result, and to states that are related. -/
theorem reconcile_matches (hstore : StoreMatches R W H store) (mode : Mode)
    {desired desired' : NameMap β} (hdesired : NameMap.Related W desired desired')
    (hidentity : ∀ name b b', desired.get? name = some b → desired'.get? name = some b' →
      store.identity name b = store.identity name b') :
    Matches R Eq (reconcile store mode desired) (reconcile store mode desired') := by
  intro s u hsu
  have hbeside : List.Forall₂ (Beside W store) desired.entries desired'.entries := by
    refine hdesired.entries_held.imp fun e f hef => ?_
    obtain ⟨hname, hbody, he, hf⟩ := hef
    refine ⟨hname, hbody, ?_⟩
    rw [← hname]
    exact hidentity e.1 e.2 f.2 he hf
  obtain ⟨hlisted, hstate⟩ := hstore.fetch s u hsu
  rw [exec_reconcile, exec_reconcile]
  rcases hs : exec store.fetch s with ⟨r, s'⟩
  rcases hu : exec store.fetch u with ⟨r', u'⟩
  rw [hs, hu] at hlisted hstate
  simp only at hlisted hstate
  cases hlisted with
  | error cause => exact ⟨.error _, hstate⟩
  | ok hheld =>
      obtain ⟨houtcome, hend⟩ := enactAll_matches hstore mode
        (plan_like hstore mode hbeside hheld) hstate
      exact ⟨.ok houtcome, hend⟩

end Stores

end TenantSync.Push
