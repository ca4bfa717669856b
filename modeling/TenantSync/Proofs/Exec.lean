/-
  TenantSync.Proofs.Exec
  ──────────────────────
  **RUNNING A COMPUTATION FROM A STATE.**

  Calls to a tenant and passes over a store are computations that may fail and
  that act on a state which survives the failure.  `exec` runs one and gives the
  result together with the state it leaves; each way of putting computations
  together has one lemma about `exec`, so that a definition is opened once and
  read as a function from states to results afterwards:

      exec (x >>= f) s  =  run x from s, then f on its answer from where x stopped

  `Keeps R x` says that `x`, whether it fails or not, leads from a state only to
  states related to it by `R`; for a preorder `R` that passes through every
  composition.  `Respects R x` is about two runs: from related states `x` comes to
  the same result and to related states, so it reads nothing but what `R` relates.
  `Matches R Q x y` is about two runs of two computations: from related states both
  fail alike, or both have an answer, and the answers are related by `Q`.
-/
import TenantSync.Push.Reconcile

namespace TenantSync

variable {σ ε α β : Type}

/-! ## §1. Results and the states they leave. -/

/-- Run a computation from a state: its result, and the state it leaves. -/
def exec (x : ExceptT ε (StateM σ) α) (s : σ) : Except ε α × σ := x.run s

/-- Run a computation that cannot fail. -/
def execState (x : StateM σ α) (s : σ) : α × σ := x s

/-- A result that has an answer is the answer. -/
theorem eq_ok_of_toOption {r : Except ε α} {a : α} (h : r.toOption = some a) : r = .ok a := by
  cases r with
  | error e => cases h
  | ok b =>
      cases h
      rfl

/-- What follows a result needs its answer. -/
theorem bind_eq_ok {x : Except ε α} {f : α → Except ε β} {b : β} :
    x >>= f = .ok b ↔ ∃ a, x = .ok a ∧ f a = .ok b := by
  cases x with
  | error e => exact ⟨nofun, fun ⟨_, h, _⟩ => nomatch h⟩
  | ok a =>
      constructor
      · exact fun h => ⟨a, rfl, h⟩
      · rintro ⟨_, hx, h⟩
        cases hx
        exact h

/-- To put a failure differently does not change an answer. -/
theorem mapError_eq_ok {ε' : Type} {x : Except ε α} {f : ε → ε'} {a : α} :
    x.mapError f = .ok a ↔ x = .ok a := by
  cases x with
  | error e => exact ⟨nofun, nofun⟩
  | ok b => exact ⟨fun h => congrArg _ (Except.ok.inj h), fun h => congrArg _ (Except.ok.inj h)⟩

theorem exec_throw (e : ε) (s : σ) :
    exec (throw e : ExceptT ε (StateM σ) α) s = (.error e, s) := rfl

theorem exec_get (s : σ) : exec (get : ExceptT ε (StateM σ) σ) s = (.ok s, s) := rfl

theorem exec_set (s s' : σ) :
    exec (set s' : ExceptT ε (StateM σ) PUnit) s = (.ok ⟨⟩, s') := rfl

theorem exec_modify (f : σ → σ) (s : σ) :
    exec (modify f : ExceptT ε (StateM σ) PUnit) s = (.ok ⟨⟩, f s) := rfl

/-- What follows runs on the answer, from the state that was left. -/
theorem exec_bind (x : ExceptT ε (StateM σ) α) (f : α → ExceptT ε (StateM σ) β) (s : σ) :
    exec (x >>= f) s = match exec x s with
      | (.ok a, s') => exec (f a) s'
      | (.error e, s') => (.error e, s') := by
  show (match exec x s with | (r, s') => ExceptT.bindCont f r s') = _
  rcases exec x s with ⟨_ | _, _⟩ <;> rfl

/-- A failure is handled from the state that was left. -/
theorem exec_tryCatch (x : ExceptT ε (StateM σ) α) (f : ε → ExceptT ε (StateM σ) α) (s : σ) :
    exec (tryCatch x f) s = match exec x s with
      | (.ok a, s') => (.ok a, s')
      | (.error e, s') => exec (f e) s' := by
  show (match exec x s with
    | (r, s') => (match r with
      | .ok a => ExceptT.run (pure a)
      | .error e => ExceptT.run (f e)) s') = _
  rcases exec x s with ⟨_ | _, _⟩ <;> rfl

/-- A computation that cannot fail, made part of one that may. -/
theorem exec_lift (x : StateM σ α) (s : σ) :
    exec (liftM x : ExceptT ε (StateM σ) α) s
      = (.ok (execState x s).1, (execState x s).2) := rfl

theorem execState_run (x : ExceptT ε (StateM σ) α) (s : σ) : execState x.run s = exec x s := rfl

theorem execState_bind (x : StateM σ α) (f : α → StateM σ β) (s : σ) :
    execState (x >>= f) s = execState (f (execState x s).1) (execState x s).2 := rfl

/-! ## §2. What a computation keeps. -/

/-- Wherever the computation is run, the state it leaves is related to the one it found. -/
def Keeps (R : σ → σ → Prop) (x : ExceptT ε (StateM σ) α) : Prop := ∀ s, R s (exec x s).2

section Preorder

variable {R : σ → σ → Prop}

theorem Keeps.pure (hrefl : ∀ s, R s s) (a : α) :
    Keeps R (Pure.pure a : ExceptT ε (StateM σ) α) := fun s => hrefl s

theorem Keeps.throw (hrefl : ∀ s, R s s) (e : ε) :
    Keeps R (throw e : ExceptT ε (StateM σ) α) := fun s => hrefl s

theorem Keeps.bind (htrans : ∀ {a b c}, R a b → R b c → R a c)
    {x : ExceptT ε (StateM σ) α} {f : α → ExceptT ε (StateM σ) β}
    (hx : Keeps R x) (hf : ∀ a, Keeps R (f a)) : Keeps R (x >>= f) := by
  intro s
  have h := hx s
  rw [exec_bind]
  rcases hex : exec x s with ⟨_ | a, s'⟩ <;> rw [hex] at h
  · exact h
  · exact htrans h (hf a s')

theorem Keeps.tryCatch (htrans : ∀ {a b c}, R a b → R b c → R a c)
    {x : ExceptT ε (StateM σ) α} {f : ε → ExceptT ε (StateM σ) α}
    (hx : Keeps R x) (hf : ∀ e, Keeps R (f e)) : Keeps R (tryCatch x f) := by
  intro s
  have h := hx s
  rw [exec_tryCatch]
  rcases hex : exec x s with ⟨e | _, s'⟩ <;> rw [hex] at h
  · exact htrans h (hf e s')
  · exact h

theorem Keeps.foldlM (hrefl : ∀ s, R s s) (htrans : ∀ {a b c}, R a b → R b c → R a c)
    {f : β → α → ExceptT ε (StateM σ) β} (hf : ∀ b a, Keeps R (f b a)) (l : List α) :
    ∀ b, Keeps R (l.foldlM f b) := by
  induction l with
  | nil => exact fun b => .pure hrefl b
  | cons a l ih =>
      intro b
      rw [List.foldlM_cons]
      exact Keeps.bind (R := R) htrans (hf b a) ih

end Preorder

/-! ## §3. What a computation reads. -/

/-- From related states the computation comes to one result, and to related states. -/
def Respects (R : σ → σ → Prop) (x : ExceptT ε (StateM σ) α) : Prop :=
  ∀ s u, R s u → (exec x u).1 = (exec x s).1 ∧ R (exec x s).2 (exec x u).2

/-! ## §4. Two computations side by side. -/

/-- Two results agree: they are one failure, or answers that are related. -/
inductive Agree (Q : α → β → Prop) : Except ε α → Except ε β → Prop
  | ok {a : α} {b : β} (h : Q a b) : Agree Q (.ok a) (.ok b)
  | error (e : ε) : Agree Q (.error e) (.error e)

/-- Results that agree up to equality are equal. -/
theorem Agree.eq {r r' : Except ε α} (h : Agree Eq r r') : r = r' := by
  cases h with
  | ok h => rw [h]
  | error e => rfl

theorem Agree.imp {Q Q' : α → β → Prop} {r : Except ε α} {r' : Except ε β} (h : Agree Q r r')
    (hQ : ∀ a b, Q a b → Q' a b) : Agree Q' r r' := by
  cases h with
  | ok h => exact .ok (hQ _ _ h)
  | error e => exact .error e

/-- From related states two computations come to results that agree, and to related states. -/
def Matches (R : σ → σ → Prop) (Q : α → β → Prop) (x : ExceptT ε (StateM σ) α)
    (y : ExceptT ε (StateM σ) β) : Prop :=
  ∀ s u, R s u → Agree Q (exec x s).1 (exec y u).1 ∧ R (exec x s).2 (exec y u).2

section SideBySide

variable {R : σ → σ → Prop} {γ δ : Type} {Q : α → β → Prop} {P : γ → δ → Prop}
  {x : ExceptT ε (StateM σ) α} {y : ExceptT ε (StateM σ) β}

theorem Matches.pure {a : α} {b : β} (h : Q a b) :
    Matches R Q (Pure.pure a : ExceptT ε (StateM σ) α) (Pure.pure b) := by
  intro s u hsu
  exact ⟨.ok h, hsu⟩

theorem Matches.throw (e : ε) :
    Matches R Q (throw e : ExceptT ε (StateM σ) α) (throw e) := by
  intro s u hsu
  exact ⟨.error e, hsu⟩

/-- Answers that are related are related more loosely. -/
theorem Matches.imp {Q' : α → β → Prop} (h : Matches R Q x y) (hQ : ∀ a b, Q a b → Q' a b) :
    Matches R Q' x y := by
  intro s u hsu
  obtain ⟨hresult, hstate⟩ := h s u hsu
  exact ⟨hresult.imp hQ, hstate⟩

/-- What follows runs on answers that are related, from states that are. -/
theorem Matches.bind {f : α → ExceptT ε (StateM σ) γ} {g : β → ExceptT ε (StateM σ) δ}
    (hxy : Matches R Q x y) (hfg : ∀ a b, Q a b → Matches R P (f a) (g b)) :
    Matches R P (x >>= f) (y >>= g) := by
  intro s u hsu
  obtain ⟨hresult, hstate⟩ := hxy s u hsu
  rw [exec_bind, exec_bind]
  rcases hs : exec x s with ⟨r, s'⟩
  rcases hu : exec y u with ⟨r', u'⟩
  rw [hs, hu] at hresult hstate
  simp only at hresult hstate
  cases hresult with
  | error e => exact ⟨.error e, hstate⟩
  | ok hab => exact hfg _ _ hab s' u' hstate

/-- One failure is handled alike. -/
theorem Matches.tryCatch {f : ε → ExceptT ε (StateM σ) α} {g : ε → ExceptT ε (StateM σ) β}
    (hxy : Matches R Q x y) (hfg : ∀ e, Matches R Q (f e) (g e)) :
    Matches R Q (tryCatch x f) (tryCatch y g) := by
  intro s u hsu
  obtain ⟨hresult, hstate⟩ := hxy s u hsu
  rw [exec_tryCatch, exec_tryCatch]
  rcases hs : exec x s with ⟨r, s'⟩
  rcases hu : exec y u with ⟨r', u'⟩
  rw [hs, hu] at hresult hstate
  simp only at hresult hstate
  cases hresult with
  | error e => exact hfg e s' u' hstate
  | ok hab => exact ⟨.ok hab, hstate⟩

end SideBySide

end TenantSync
