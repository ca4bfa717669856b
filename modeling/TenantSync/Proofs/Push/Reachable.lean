/-
  TenantSync.Proofs.Push.Reachable
  ────────────────────────────────
  **THE IDENTIFIERS OF A TENANT THAT BEGAN AS A NEW ONE.**

  A tenant begins without elements and goes through calls and pushes, in any
  order and under any faults; its state may be written to a snapshot and read
  again.  `Reached n t` counts the identifiers that were given out on the way.
  As long as they are fewer than `2^64`, the counter is that number, and every
  installation key has the identifier of a number up to it (`Numbered`), so the
  next identifier is not taken.

  After `2^64` identifiers the counter begins anew, and no such thing holds.  What
  holds at any time is that a key knows the identifier it is held under.
-/
import TenantSync.Proofs.Push.Identifiers
import TenantSync.Proofs.Tenant.Snapshot

namespace TenantSync.Push

open Config Tenant

/-! ## §1. What a tenant goes through. -/

/-- A tenant that began as a new one, and how many identifiers were given out since. -/
inductive Reached : Nat → Tenant → Prop
  | new (now : Timestamp) : Reached 0 { now }
  /-- A call was made. -/
  | called {n : Nat} {t : Tenant} {α : Type} {x : Tenant.Call α} (h : Reached n t)
      (hx : IsCall x) : Reached (n + issued t (exec x t).2) (exec x t).2
  /-- A document was pushed. -/
  | pushed {n : Nat} {t : Tenant} (h : Reached n t) (table : List String) (o : Options)
      (c : Config) : Reached (n + issued t (exec (pushWith table o c) t).2)
        (exec (pushWith table o c) t).2
  /-- Other faults were attached. -/
  | faulted {n : Nat} {t : Tenant} (h : Reached n t) (faults : Faults) :
      Reached n { t with faults }
  /-- Time went by. -/
  | later {n : Nat} {t : Tenant} (h : Reached n t) (now : Timestamp) : Reached n { t with now }
  /-- The state was written to a snapshot and read again. -/
  | reloaded {n : Nat} {t : Tenant} {s : State} (h : Reached n t)
      (hs : State.ofSnapshot? t.state.toSnapshot = some s) (now : Timestamp) :
      Reached n { state := s, now }

/-! ## §2. The numbers of its identifiers. -/

/-- The counter of a state is at `n`, and its installation keys have identifiers of
numbers up to that. -/
structure Numbered (n : Nat) (s : State) : Prop where
  counter : s.idCounter.toNat = n
  keys : ∀ id ∈ s.installationKeys.keys, ∃ k, k ≤ n ∧ id = State.keyId (.ofNat k)

theorem Numbered.idCounter {n : Nat} {s : State} (h : Numbered n s) :
    s.idCounter = .ofNat n := by
  rw [← h.counter, UInt64.ofNat_toNat]

theorem Numbered.issues {n : Nat} {t t' : Tenant} (h : Numbered n t.state) (hi : Issues t t')
    (hfew : n + issued t t' < twoTo 64) : Numbered (n + issued t t') t'.state where
  counter := by
    rw [hi.counter, h.idCounter, ← UInt64.ofNat_add, UInt64.toNat_ofNat_of_lt' hfew]
  keys := by
    intro id hid
    rcases hi.keys id hid with hid | ⟨j, -, hle, rfl⟩
    · obtain ⟨k, hk, rfl⟩ := h.keys id hid
      exact ⟨k, by omega, rfl⟩
    · exact ⟨n + j, by omega, by rw [h.idCounter, UInt64.ofNat_add]⟩

/-- The next identifier is not taken. -/
theorem Numbered.fresh {n : Nat} {s : State} (h : Numbered n s) (hfew : n + 1 < twoTo 64) :
    s.installationKeys.get? (State.keyId (s.idCounter + 1)) = none := by
  rw [NameMap.get?_eq_none_iff]
  intro hmem
  obtain ⟨k, hk, heq⟩ := h.keys _ hmem
  have hnumber : s.idCounter + 1 = .ofNat k := State.keyId_injective heq
  have hnext : s.idCounter + 1 = .ofNat (n + 1) := by
    rw [h.idCounter, UInt64.ofNat_add]
    rfl
  rw [hnext, ← UInt64.toNat_inj, UInt64.toNat_ofNat_of_lt' hfew,
    UInt64.toNat_ofNat_of_lt' (show k < _ from Nat.lt_of_le_of_lt (by omega) hfew)] at hnumber
  omega

/-- **The identifiers of a tenant are those that were given out**, unless they were so
many that the counter began anew. -/
theorem Reached.numbered {n : Nat} {t : Tenant} (h : Reached n t) (hfew : n < twoTo 64) :
    Numbered n t.state := by
  induction h with
  | new now => exact ⟨rfl, fun id hid => nomatch hid⟩
  | called h hx ih => exact (ih (by omega)).issues (issues_call hx _) hfew
  | pushed h table o c ih => exact (ih (by omega)).issues (push_issues table o c _) hfew
  | faulted h faults ih => exact ih hfew
  | later h now ih => exact ih hfew
  | reloaded h hs now ih =>
      obtain ⟨hcounter, hkeys, -⟩ := State.ofSnapshot?_toSnapshot hs
      obtain ⟨hn, hids⟩ := ih hfew
      exact ⟨by rw [← hn, ← hcounter], fun id hid => hids id (hkeys ▸ hid)⟩

/-! ## §3. Keys that know their identifiers. -/

/-- From `t` to `t'` no key was made that does not know its identifier. -/
def KeepsIds (t t' : Tenant) : Prop := t.state.KeysKnowIds → t'.state.KeysKnowIds

/-- A key that is made is given the identifier it is held under. -/
theorem Effect.keepsIds {now : Timestamp} {s s' : State} {m : Mutation} (h : Effect now s s' m)
    (hids : s.KeysKnowIds) : s'.KeysKnowIds := by
  intro id held hget
  cases h with
  | apart hcounter hkeys =>
      rw [hkeys] at hget
      exact hids id held hget
  | made key hm =>
      rw [get?_withKey] at hget
      split at hget
      next hid =>
        cases hget
        rw [hid]
        rfl
      next => exact hids id held hget
  | dropped id' hm =>
      rw [NameMap.get?_erase] at hget
      split at hget
      · cases hget
      · exact hids id held hget

theorem keepsIds_call {α : Type} {x : Tenant.Call α} (h : IsCall x) : Keeps KeepsIds x :=
  keeps_of_effects (R := KeepsIds) (fun _ _ hids => hids) (fun heffect => heffect.keepsIds) h

/-- **Keys always know their identifiers**, however many were given out. -/
theorem Reached.keysKnowIds {n : Nat} {t : Tenant} (h : Reached n t) : t.state.KeysKnowIds := by
  induction h with
  | new now => exact fun id key hget => nomatch hget
  | called h hx ih => exact keepsIds_call hx _ ih
  | pushed h table o c ih =>
      exact push_keeps_calls (R := KeepsIds) (fun _ hids => hids) (fun h h' hids => h' (h hids))
        keepsIds_call table o c _ ih
  | faulted h faults ih => exact ih
  | later h now ih => exact ih
  | reloaded h hs now ih => exact (State.ofSnapshot?_toSnapshot hs).2.2 ih

end TenantSync.Push
