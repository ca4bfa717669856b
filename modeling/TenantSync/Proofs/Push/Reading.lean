/-
  TenantSync.Proofs.Push.Reading
  ──────────────────────────────
  **NO PASS READS WHAT ANOTHER ONE IS ABOUT.**

  Two tenants are alike to a pass if they agree on its slice, on the number of
  identifiers given out, on faults, log and time; whatever else they hold may
  differ.  Run on tenants that are alike to it, a pass comes to one outcome and
  leaves tenants that are alike to it again (`Pass.run_respects`): what it sees
  and what it makes of its slice depends on nothing else.

  The stages of a push read no more than that together.  A push on tenants that
  are alike to all its stages is one push (`push_respects`): what lies outside
  its schedule has no influence on it.  Both are the two runs of one document that
  are side by side under the tolerance of no difference at all.
-/
import TenantSync.Proofs.Push.Simulation

namespace TenantSync.Push

open Config Tenant

/-! ## §1. No difference. -/

theorem KnownAlike.eq : KnownAlike Eq Eq True where
  refl := fun _ => rfl
  stamp := by
    rintro τ _ n n' kind rfl hcounter
    rw [hcounter trivial]
  id := fun _ h => congrArg Meta.id h

/-- The tolerance of no difference at all. -/
def Tolerance.exact : Tolerance := .ofBodies .eq .eq

namespace Pass

theorem likeAt_exact {p : Pass} {s s' : State} :
    p.LikeAt Tolerance.exact.Element s s' ↔ p.SameAt s s' := by
  have helement : ∀ {q : Pass} {r r' : Remote q.Body},
      Tolerance.exact.Element q r r' → r' = r := by
    rintro q ⟨body, info⟩ ⟨_, _⟩ ⟨rfl, rfl⟩
    rfl
  have heq : ∀ {q : Pass} {m n : NameMap (Remote q.Body)},
      NameMap.Related (Tolerance.exact.Element q) m n → n = m := by
    intro q m n h
    exact (h.symm (Q := Eq) helement).eq
  constructor
  · intro h
    cases p with
    | resources => exact h
    | orgValues => exact h
    | rules ns =>
        show s'.rules.get? ns = s.rules.get? ns
        rcases h.rules with ⟨hs, hs'⟩ | ⟨rules, rules', hs, hs', hrelated⟩
        · rw [hs, hs']
        · rw [hs, hs', heq (q := .rules ns) hrelated]
    | _ => exact heq h
  · intro h
    exact (LikeAt.refl (fun _ r => Tolerance.element_refl r) p s).congr (.refl p s) h

/-! ## §2. Tenants alike to a pass. -/

/-- Two tenants are alike to a pass. -/
structure Alike (p : Pass) (t u : Tenant) : Prop where
  slice : p.SameAt t.state u.state
  idCounter : u.state.idCounter = t.state.idCounter
  faults : u.faults = t.faults
  log : u.log = t.log
  now : u.now = t.now

/-- **A pass reads its own slice only.** -/
theorem run_respects (table : List String) (mode : Mode) (c : Config) (p : Pass) :
    Respects p.Alike (p.run table mode c) := by
  intro t u h
  have hat : Tolerance.exact.At p t.log t.log t u :=
    ⟨likeAt_exact.2 h.slice, fun _ => h.idCounter, h.faults.symm, h.now.symm, [],
      (List.append_nil _).symm, by rw [h.log, List.append_nil]⟩
  obtain ⟨hresult, hend⟩ := run_matches table mode (.refl c) (fun _ => trivial)
    t.log t.log t u hat
  obtain ⟨logged, ht, hu⟩ := hend.log
  exact ⟨hresult.eq.symm, likeAt_exact.1 hend.slice, hend.counter trivial, hend.faults.symm,
    hu.trans ht.symm, hend.now.symm⟩

end Pass

/-! ## §3. Tenants alike to stages. -/

/-- Two tenants are alike to all of some stages. -/
structure AlikeTo (sts : List Stage) (t u : Tenant) : Prop where
  slices : ∀ p, .pass p ∈ sts → p.SameAt t.state u.state
  namespaces : .namespaces ∈ sts → u.state.rules.keys = t.state.rules.keys
  idCounter : u.state.idCounter = t.state.idCounter
  faults : u.faults = t.faults
  log : u.log = t.log
  now : u.now = t.now

/-- **A push reads nothing outside its schedule.**  On tenants that are alike to all of
its stages, it comes to the same result and leaves tenants that are alike again. -/
theorem push_respects {table : List String} {c : Config} {o : Options} {t u : Tenant}
    (h : AlikeTo (schedule o c t.state) t u) :
    (exec (pushWith table o c) u).1 = (exec (pushWith table o c) t).1
      ∧ AlikeTo (schedule o c t.state) (exec (pushWith table o c) t).2
          (exec (pushWith table o c) u).2 := by
  have hon : Tolerance.exact.On (· ∈ schedule o c t.state) t.log t.log t u :=
    ⟨fun p hp => Pass.likeAt_exact.2 (h.slices p hp), h.namespaces, fun _ => h.idCounter,
      h.faults.symm, h.now.symm, [], (List.append_nil _).symm, by rw [h.log, List.append_nil]⟩
  obtain ⟨hresult, hend⟩ := push_matches table (.refl c) rfl (fun _ => trivial)
    (fun _ hstage => hstage) hon
  obtain ⟨logged, ht, hu⟩ := hend.log
  exact ⟨hresult.symm, fun p hp => Pass.likeAt_exact.1 (hend.slices p hp), hend.namespaces,
    hend.counter trivial, hend.faults.symm, hu.trans ht.symm, hend.now.symm⟩

end TenantSync.Push
