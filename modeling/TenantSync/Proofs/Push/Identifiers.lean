/-
  TenantSync.Proofs.Push.Identifiers
  ──────────────────────────────────
  **HOW IDENTIFIERS ARE GIVEN OUT.**

  Every element that is added and stamped takes the next number of a counter of
  64 bits, and the log has one entry for it.  So from any state of a tenant to
  a later one, whichever calls were made in between (`Issues`):

      the counter has moved by the number of stamped entries logged,
      each installation key was there before, or has the identifier of one of
      the numbers given out in between.

  Numbers below `2^64` make different identifiers.
-/
import TenantSync.Number.Numeral
import TenantSync.Proofs.Push.EveryCall

namespace TenantSync

open Config Tenant

/-! ## §1. Identifiers of different numbers. -/

namespace State

/-- The number that hexadecimal digits stand for. -/
def hexValue (cs : List Char) : Nat :=
  cs.foldl (fun n c => 16 * n + (Numeral.digit? 16 c).getD 0) 0

theorem hexValue_digit {d : Nat} (h : d < 16) : (Numeral.digit? 16 d.digitChar).getD 0 = d := by
  have all : ∀ d : Fin 16, (Numeral.digit? 16 d.val.digitChar).getD 0 = d.val := by decide
  exact all ⟨d, h⟩

theorem hexValue_toDigits (n : Nat) : hexValue (Nat.toDigits 16 n) = n := by
  induction n using Nat.strongRecOn with
  | ind n ih =>
      by_cases h : n < 16
      · rw [Nat.toDigits_of_lt_base h]
        simp [hexValue, hexValue_digit h]
      · -- the last digit is the remainder, and those in front are of the quotient
        have hquotient := ih (n / 16) (by omega)
        unfold hexValue at hquotient ⊢
        rw [Nat.toDigits_of_base_le (by decide) (by omega), List.foldl_append, hquotient]
        have hdigit := hexValue_digit (Nat.mod_lt n (show 0 < 16 by decide))
        simp only [List.foldl_cons, List.foldl_nil, hdigit]
        omega

theorem hexValue_zeros (k : Nat) (cs : List Char) :
    hexValue (List.replicate k '0' ++ cs) = hexValue cs := by
  induction k with
  | zero => rfl
  | succ k ih => rw [List.replicate_succ, List.cons_append]; exact ih

/-- Identifiers tell their numbers apart. -/
theorem hex8_injective : Function.Injective hex8 := by
  intro a b h
  have hvalue (n : UInt64) : hexValue (hex8 n).toList = n.toNat := by
    rw [hex8, String.toList_ofList, hexValue_zeros, hexValue_toDigits]
  rw [← UInt64.toNat_inj, ← hvalue a, ← hvalue b, h]

/-- Numbers are given out in turn until there are no more. -/
theorem toNat_succ {n : UInt64} (h : n.toNat + 1 < twoTo 64) : (n + 1).toNat = n.toNat + 1 := by
  rw [UInt64.toNat_add]
  exact Nat.mod_eq_of_lt h

/-- The identifier of the installation key that is made as number `n`. -/
def keyId (n : UInt64) : String := "key-" ++ hex8 n

theorem keyId_injective : Function.Injective keyId := by
  intro a b h
  refine hex8_injective (String.toList_inj.1 ?_)
  have hlist := congrArg String.toList h
  simp only [keyId, String.toList_append] at hlist
  exact List.append_cancel_left hlist

/-- Only digits occur in a number. -/
theorem not_mem_toDigits {c : Char} (hc : ∀ d : Fin 16, c ≠ d.val.digitChar) (n : Nat) :
    c ∉ Nat.toDigits 16 n := by
  induction n using Nat.strongRecOn with
  | ind n ih =>
      by_cases h : n < 16
      · rw [Nat.toDigits_of_lt_base h, List.mem_singleton]
        exact hc ⟨n, h⟩
      · rw [Nat.toDigits_of_base_le (by decide) (by omega), List.mem_append, List.mem_singleton]
        rintro (hmem | hlast)
        · exact ih (n / 16) (by omega) hmem
        · exact hc ⟨n % 16, Nat.mod_lt n (by decide)⟩ hlast

/-- Hexadecimal digits are not the mark. -/
theorem mark_not_mem_toDigits (n : Nat) : '#' ∉ Nat.toDigits 16 n :=
  not_mem_toDigits (by decide) n

/-- An identifier can be told from what stands in front of a mark. -/
theorem mark_not_mem_keyId (n : UInt64) : '#' ∉ (keyId n).toList := by
  simp [keyId, hex8, List.mem_replicate, mark_not_mem_toDigits]

end State

/-! ## §2. The numbers given out between two tenants. -/

/-- Whether a mutation has given out an identifier. -/
def Mutation.stamps (m : Mutation) : Bool :=
  m.kind == .created && m.element != .resource && m.element != .orgValue

namespace Push

/-- How many identifiers were given out from `t` to `t'`. -/
def issued (t t' : Tenant) : Nat := (t'.log.drop t.log.length).countP Mutation.stamps

theorem issued_of_log {t t' : Tenant} {logged : List Mutation} (h : t'.log = t.log ++ logged) :
    issued t t' = logged.countP Mutation.stamps := by
  rw [issued, h, List.drop_left]

/-- From `t` to `t'` identifiers were given out in turn. -/
structure Issues (t t' : Tenant) : Prop where
  log : ∃ logged, t'.log = t.log ++ logged
  counter : t'.state.idCounter = t.state.idCounter + .ofNat (issued t t')
  keys : ∀ id ∈ t'.state.installationKeys.keys, id ∈ t.state.installationKeys.keys
    ∨ ∃ j, 0 < j ∧ j ≤ issued t t' ∧ id = State.keyId (t.state.idCounter + .ofNat j)

/-- The numbers given out add up. -/
theorem Issues.issued_trans {t t' t'' : Tenant} (h : Issues t t') (h' : Issues t' t'') :
    issued t t'' = issued t t' + issued t' t'' := by
  obtain ⟨logged, hlog⟩ := h.log
  obtain ⟨logged', hlog'⟩ := h'.log
  rw [issued_of_log hlog, issued_of_log hlog', ← List.countP_append,
    issued_of_log (show t''.log = t.log ++ (logged ++ logged') by
      rw [hlog', hlog, List.append_assoc])]

theorem Issues.refl (t : Tenant) : Issues t t where
  log := ⟨[], (List.append_nil _).symm⟩
  counter := by
    rw [issued_of_log (List.append_nil _).symm]
    exact (UInt64.add_zero _).symm
  keys := fun _ h => .inl h

theorem Issues.trans {t t' t'' : Tenant} (h : Issues t t') (h' : Issues t' t'') :
    Issues t t'' where
  log := by
    obtain ⟨logged, hlog⟩ := h.log
    obtain ⟨logged', hlog'⟩ := h'.log
    exact ⟨logged ++ logged', by rw [hlog', hlog, List.append_assoc]⟩
  counter := by
    rw [h'.counter, h.counter, h.issued_trans h', UInt64.ofNat_add, UInt64.add_assoc]
  keys := by
    intro id hid
    rw [h.issued_trans h']
    rcases h'.keys id hid with hid | ⟨j, hpos, hle, rfl⟩
    · rcases h.keys id hid with hid | ⟨j, hpos, hle, rfl⟩
      · exact .inl hid
      · exact .inr ⟨j, hpos, by omega, rfl⟩
    · refine .inr ⟨issued t t' + j, by omega, by omega, ?_⟩
      rw [h.counter, UInt64.ofNat_add, UInt64.add_assoc]

/-! ## §3. What one call does. -/

/-- What a change does to the counter and to the installation keys. -/
inductive Effect (now : Timestamp) (s : State) : State → Mutation → Prop
  /-- No key is touched, and an identifier is given out if the mutation says so. -/
  | apart {s' : State} {m : Mutation}
      (hcounter : s'.idCounter = if m.stamps then s.idCounter + 1 else s.idCounter)
      (hkeys : s'.installationKeys = s.installationKeys) : Effect now s s' m
  /-- A key is made under the next identifier. -/
  | made {m : Mutation} (key : InstallationKey) (hm : m.stamps = true) :
      Effect now s (withKey now key s).2 m
  /-- The key of an identifier is dropped. -/
  | dropped {m : Mutation} (id : String) (hm : m.stamps = false) :
      Effect now s { s with installationKeys := s.installationKeys.erase id } m

/-- A new key is held under the next identifier. -/
theorem get?_withKey (now : Timestamp) (key : InstallationKey) (s : State) (id : String) :
    (withKey now key s).2.installationKeys.get? id
      = if id = State.keyId (s.idCounter + 1) then some (s.stamp now "key" key).1
        else s.installationKeys.get? id :=
  NameMap.get?_insert s.installationKeys (State.keyId (s.idCounter + 1)) id _

section Plain

variable {p : Pass} {sec : Section p.Body}

theorem stamps_section (h : p.section? = some sec) (name : String) :
    (Mutation.mk .created sec.element name).stamps = true := by
  cases p <;> cases h <;> rfl

end Plain

/-- **What every change does** to the counter and to the keys. -/
theorem Change.effect {now : Timestamp} {s s' : State} {m : Mutation} (h : Change now s s' m) :
    Effect now s s' m := by
  cases h with
  | added h name body =>
      refine .apart ?_ (Pass.section_put_apart h _ _).2
      rw [stamps_section h name]
      exact (Pass.section_put_apart h _ _).1
  | deleted h hheld =>
      exact .apart (Pass.section_put_apart h _ _).1 (Pass.section_put_apart h _ _).2
  | keyMade key => exact .made key rfl
  | keyDropped h => exact .dropped _ rfl
  | settingSet name value =>
      refine .apart ?_ rfl
      cases value.isEmpty <;> rfl
  | _ => exact .apart rfl rfl

/-- What is so of a call that only counted and of every effect is so of every call. -/
theorem keeps_of_effects {R : Tenant → Tenant → Prop} (hcounted : ∀ t site, R t (t.counted site))
    (hmade : ∀ {t : Tenant} {site : CallSite} {s : State} {m : Mutation},
      Effect t.now t.state s m → R t { t.counted site with state := s, log := t.log ++ [m] })
    {α : Type} {x : Tenant.Call α} (h : IsCall x) : Keeps R x :=
  keeps_of_changes hcounted (fun hchange => hmade hchange.effect) h

/-! ## §4. What every call gives out. -/

/-- A change moves the counter exactly if its mutation says so. -/
theorem Effect.counter {now : Timestamp} {s s' : State} {m : Mutation} (h : Effect now s s' m) :
    s'.idCounter = if m.stamps then s.idCounter + 1 else s.idCounter := by
  cases h with
  | apart hcounter hkeys => exact hcounter
  | made key hm => rw [hm]; rfl
  | dropped id hm => rw [hm]; rfl

/-- A key that was not there before has the identifier that was given out. -/
theorem Effect.keys {now : Timestamp} {s s' : State} {m : Mutation} (h : Effect now s s' m) :
    ∀ id ∈ s'.installationKeys.keys, id ∈ s.installationKeys.keys
      ∨ m.stamps = true ∧ id = State.keyId (s.idCounter + 1) := by
  intro id hid
  cases h with
  | apart hcounter hkeys => exact .inl (hkeys ▸ hid)
  | made key hm =>
      obtain ⟨v, hv⟩ := NameMap.mem_keys.1 hid
      rw [get?_withKey] at hv
      by_cases heq : id = State.keyId (s.idCounter + 1)
      · exact .inr ⟨hm, heq⟩
      · rw [if_neg heq] at hv
        exact .inl (NameMap.mem_keys.2 ⟨v, hv⟩)
  | dropped id' hm =>
      obtain ⟨v, hv⟩ := NameMap.mem_keys.1 hid
      rw [NameMap.get?_erase] at hv
      split at hv
      · cases hv
      · exact .inl (NameMap.mem_keys.2 ⟨v, hv⟩)

theorem issues_counted (t : Tenant) (site : CallSite) : Issues t (t.counted site) :=
  ⟨(Issues.refl t).log, (Issues.refl t).counter, (Issues.refl t).keys⟩

theorem issues_effect {t : Tenant} {site : CallSite} {s : State} {m : Mutation}
    (h : Effect t.now t.state s m) :
    Issues t { t.counted site with state := s, log := t.log ++ [m] } := by
  -- the log grows by the one mutation, which decides what was given out
  have hissued : issued t { t.counted site with state := s, log := t.log ++ [m] }
      = [m].countP Mutation.stamps := issued_of_log rfl
  have hcounter := h.counter
  rw [List.countP_singleton] at hissued
  cases hm : m.stamps with
  | false =>
      rw [hm] at hissued hcounter
      refine ⟨⟨[m], rfl⟩, ?_, fun id hid => .inl ((h.keys id hid).resolve_right (by simp [hm]))⟩
      rw [hissued]
      exact hcounter.trans (UInt64.add_zero _).symm
  | true =>
      rw [hm] at hissued hcounter
      refine ⟨⟨[m], rfl⟩, ?_, fun id hid => ?_⟩
      · rw [hissued]
        exact hcounter
      · rcases h.keys id hid with hid | ⟨-, rfl⟩
        · exact .inl hid
        · exact .inr ⟨1, by decide, by rw [hissued]; decide, rfl⟩

/-- Every call gives out identifiers in turn, if any. -/
theorem issues_call {α : Type} {x : Tenant.Call α} (h : IsCall x) : Keeps Issues x :=
  keeps_of_effects issues_counted issues_effect h

/-- A push gives out identifiers in turn. -/
theorem push_issues (table : List String) (o : Options) (c : Config) :
    Keeps Issues (pushWith table o c) :=
  push_keeps_calls .refl (fun h h' => h.trans h') issues_call table o c

end Push

end TenantSync
