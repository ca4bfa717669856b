/-
  TenantSync.Proofs.Push.KeyCreation
  ──────────────────────────────────
  **WHETHER A KEY THAT IS MADE IS ONE MORE.**

  A key is made under the next identifier, and nobody looks whether one is held there:

      nothing is held there     there is one key more, and the others stay
      a key is held there       the new key is in its place

  The next identifier comes of the counter alone.  It is free if the keys of a state
  were counted (`KeysCounted`): every key that has an identifier of a number has that of a
  number up to the counter.  A tenant that began as a new one has counted its keys, and
  whatever it does keeps it so until the counter begins anew (`keysCounted_of_issues`).  Of a
  state that is read from a snapshot nothing of the kind can be said: a snapshot
  may have keys and no counter.
-/
import TenantSync.Proofs.Push.Reachable

namespace TenantSync

open Config Tenant

/-! ## §1. Keys that were counted. -/

namespace State

/-- The keys that have an identifier of a number have those of numbers up to the counter. -/
def KeysCounted (s : State) : Prop :=
  ∀ k : UInt64, keyId k ∈ s.installationKeys.keys → k.toNat ≤ s.idCounter.toNat

/-- A state has one key more, under an identifier that was free, and has the others still. -/
structure OneMoreKey (s s' : State) (id : String) : Prop where
  free : s.installationKeys.get? id = none
  made : (s'.installationKeys.get? id).isSome = true
  kept : ∀ id held, s.installationKeys.get? id = some held →
    s'.installationKeys.get? id = some held

/-- Where the keys were counted, the next identifier is free. -/
theorem KeysCounted.fresh {s : State} (h : s.KeysCounted)
    (hroom : s.idCounter.toNat + 1 < twoTo 64) :
    s.installationKeys.get? (keyId (s.idCounter + 1)) = none := by
  rw [NameMap.get?_eq_none_iff]
  intro hmem
  have hle := h (s.idCounter + 1) hmem
  rw [toNat_succ hroom] at hle
  omega

end State

namespace Push

/-- **Keys are counted whatever a tenant does**, as long as the counter does not begin anew. -/
theorem keysCounted_of_issues {t t' : Tenant} (h : t.state.KeysCounted) (hi : Issues t t')
    (hroom : t.state.idCounter.toNat + issued t t' < twoTo 64) : t'.state.KeysCounted := by
  have hnumber : ∀ j ≤ issued t t',
      (t.state.idCounter + .ofNat j).toNat = t.state.idCounter.toNat + j := by
    intro j hj
    rw [UInt64.toNat_add, UInt64.toNat_ofNat_of_lt' (Nat.lt_of_le_of_lt (by omega) hroom)]
    exact Nat.mod_eq_of_lt (Nat.lt_of_le_of_lt (by omega) hroom)
  intro k hk
  rw [hi.counter, hnumber _ (Nat.le_refl _)]
  rcases hi.keys _ hk with hold | ⟨j, -, hle, heq⟩
  · exact Nat.le_trans (h k hold) (Nat.le_add_right _ _)
  · rw [State.keyId_injective heq, hnumber j hle]
    omega

/-- A tenant that began as a new one has counted its keys. -/
theorem Numbered.keysCounted {n : Nat} {s : State} (h : Numbered n s) (hfew : n < twoTo 64) :
    s.KeysCounted := by
  intro k hk
  obtain ⟨j, hj, heq⟩ := h.keys _ hk
  rw [h.counter, State.keyId_injective heq, UInt64.toNat_ofNat_of_lt' (Nat.lt_of_le_of_lt hj hfew)]
  exact hj

/-! ## §2. One more key. -/

/-- What comes of making a key, unless the call fails. -/
theorem exec_createInstallationKey_ok {t : Tenant} (body : InstallationKey)
    (hfault : t.faults.answer ⟨.create, .installationKey⟩ = none) :
    exec (createInstallationKey body) t = (.ok (State.keyId (t.state.idCounter + 1)),
      { t.counted ⟨.create, .installationKey⟩ with
        state := (withKey t.now body t.state).2
        log := t.log ++ [⟨.created, .installationKey, body.desc⟩] }) := by
  rw [exec_createInstallationKey]
  unfold changing
  rw [hfault]
  rfl

/-- A key that is made is one more exactly if its identifier was free. -/
theorem oneMoreKey_iff (now : Timestamp) (body : InstallationKey) (s : State) :
    s.OneMoreKey (withKey now body s).2 (State.keyId (s.idCounter + 1))
      ↔ s.installationKeys.get? (State.keyId (s.idCounter + 1)) = none := by
  constructor
  · exact fun h => h.free
  · intro hfree
    refine ⟨hfree, ?_, fun id held hheld => ?_⟩
    · rw [get?_withKey, if_pos rfl]
      rfl
    · rw [get?_withKey, if_neg]
      · exact hheld
      · rintro rfl
        rw [hfree] at hheld
        cases hheld

/-- **What making a key does**, in any state.  Unless the call fails, the answer is the next
identifier, the new key is held under it, and what was held under any other stays.  There is
one key more exactly if the identifier was free; otherwise the key that was held
there is gone.  The number of the identifier is the next one exactly if the counter does not
begin anew.  If the keys of the state were counted, and the counter does not begin
anew, the identifier is free, and the keys are counted afterwards; this is so of every
tenant that began as a new one, as long as fewer than `2^64` identifiers were given out. -/
theorem createInstallationKey_adds (t : Tenant) (body : InstallationKey)
    (hfault : t.faults.answer ⟨.create, .installationKey⟩ = none) :
    let id := State.keyId (t.state.idCounter + 1)
    let made := exec (createInstallationKey body) t
    made.1 = .ok id
    ∧ (∀ other, made.2.state.installationKeys.get? other
        = if other = id then some (t.state.stamp t.now "key" body).1
          else t.state.installationKeys.get? other)
    ∧ (t.state.OneMoreKey made.2.state id ↔ t.state.installationKeys.get? id = none)
    ∧ (made.2.state.idCounter.toNat = t.state.idCounter.toNat + 1
        ↔ t.state.idCounter.toNat + 1 < twoTo 64)
    ∧ (t.state.KeysCounted → t.state.idCounter.toNat + 1 < twoTo 64 →
        t.state.OneMoreKey made.2.state id ∧ made.2.state.KeysCounted)
    ∧ ∀ n, Reached n t → n + 1 < twoTo 64 →
        t.state.KeysCounted ∧ t.state.idCounter.toNat + 1 < twoTo 64 := by
  intro id made
  have hmade : made = (.ok id, { t.counted ⟨.create, .installationKey⟩ with
      state := (withKey t.now body t.state).2
      log := t.log ++ [⟨.created, .installationKey, body.desc⟩] }) :=
    exec_createInstallationKey_ok body hfault
  have hstate : made.2.state = (withKey t.now body t.state).2 := by rw [hmade]
  have hcounter : made.2.state.idCounter = t.state.idCounter + 1 := by
    rw [hstate]
    rfl
  refine ⟨by rw [hmade], fun other => ?_, ?_, ?_, fun hcounted hroom => ?_,
    fun n hreached hfew => ?_⟩
  · rw [hstate]
    exact get?_withKey t.now body t.state other
  · rw [hstate]
    exact oneMoreKey_iff t.now body t.state
  · rw [hcounter]
    refine ⟨fun h => ?_, State.toNat_succ⟩
    rw [← h]
    exact UInt64.toNat_lt _
  · have hfree : t.state.installationKeys.get? id = none := hcounted.fresh hroom
    -- of the identifiers that are held now, only the new one was not counted before
    have hissues : Issues t made.2 := issues_call (.createInstallationKey body) t
    have hlog : made.2.log = t.log ++ [⟨.created, .installationKey, body.desc⟩] := by rw [hmade]
    have hissued : issued t made.2 = 1 := issued_of_log hlog
    refine ⟨?_, keysCounted_of_issues hcounted hissues (by rw [hissued]; exact hroom)⟩
    rw [hstate]
    exact (oneMoreKey_iff t.now body t.state).2 hfree
  · have hnumbered := hreached.numbered (Nat.lt_of_succ_lt hfew)
    rw [hnumbered.counter]
    exact ⟨hnumbered.keysCounted (Nat.lt_of_succ_lt hfew), hfew⟩

/-- A snapshot that counts its key has one more afterwards, and that key as it was. -/
theorem createInstallationKey_adds_second :
    let text := "\x7b\"installation_keys\": \x7b\"key-00000001\": "
      ++ "\x7b\"body\": \x7b\"desc\": \"a\"\x7d, \"meta\": "
      ++ "\x7b\"id\": \"key-00000001\"\x7d\x7d\x7d, \"id_counter\": 1\x7d"
    ∃ s held, State.ofSnapshot? text = some s
      ∧ s.installationKeys.get? "key-00000001" = some held
      ∧ let made := exec (createInstallationKey { desc := "b" }) { state := s, now := ⟨0, 0⟩ }
        made.1 = .ok "key-00000002"
        ∧ made.2.state.installationKeys.get? "key-00000001" = some held
        ∧ s.OneMoreKey made.2.state "key-00000002" := by
  intro text
  have hread : (State.ofSnapshot? text).map (fun s => (s.installationKeys.keys, s.idCounter))
      = some (["key-00000001"], 1) := by
    decide +kernel
  obtain ⟨s, hs, hparts⟩ := Option.map_eq_some_iff.1 hread
  obtain ⟨hkeys, hcounter⟩ := Prod.mk.inj hparts
  obtain ⟨held, hheld⟩ := NameMap.mem_keys.1
    (show "key-00000001" ∈ s.installationKeys.keys by rw [hkeys]; exact List.mem_cons_self)
  have hcounted : s.KeysCounted := by
    intro k hk
    rw [hkeys, List.mem_singleton] at hk
    have hfirst : k = 1 := State.keyId_injective (hk.trans (by decide +kernel))
    have hsame : k.toNat = s.idCounter.toNat := by rw [hfirst, hcounter]
    exact Nat.le_of_eq hsame
  have hone : (1 : UInt64).toNat + 1 < twoTo 64 := by decide
  have hroom : s.idCounter.toNat + 1 < twoTo 64 := hcounter ▸ hone
  have hid : State.keyId (s.idCounter + 1) = "key-00000002" := by
    rw [hcounter]
    decide +kernel
  obtain ⟨hanswer, -, -, -, hadds, -⟩ :=
    createInstallationKey_adds { state := s, now := ⟨0, 0⟩ } { desc := "b" } rfl
  obtain ⟨hmore, -⟩ := hadds hcounted hroom
  rw [hid] at hanswer hmore
  exact ⟨s, held, hs, hheld, hanswer, hmore.kept _ held hheld, hmore⟩

/-- **A key can be replaced.**  A snapshot that has a key and leaves out the counter can be
read; the next key that is made is given the identifier of the one that is there, which is
gone. -/
theorem uncounted_key_replaced :
    let text := "\x7b\"installation_keys\": \x7b\"key-00000001\": "
      ++ "\x7b\"body\": \x7b\"desc\": \"a\"\x7d, \"meta\": "
      ++ "\x7b\"id\": \"key-00000001\"\x7d\x7d\x7d\x7d"
    ∃ s, State.ofSnapshot? text = some s
      ∧ (s.installationKeys.get? "key-00000001").map (·.body.desc) = some "a"
      ∧ let made := exec (createInstallationKey { desc := "b" }) { state := s, now := ⟨0, 0⟩ }
        made.1 = .ok "key-00000001"
        ∧ made.2.state.installationKeys.entries.map (fun e => (e.1, e.2.body.desc))
          = [("key-00000001", "b")] := by
  intro text
  have hread : (State.ofSnapshot? text).map (fun s =>
      let made := exec (createInstallationKey { desc := "b" }) { state := s, now := ⟨0, 0⟩ }
      ((s.installationKeys.get? "key-00000001").map (·.body.desc), made.1.toOption,
        made.2.state.installationKeys.entries.map fun e => (e.1, e.2.body.desc)))
      = some (some "a", some "key-00000001", [("key-00000001", "b")]) := by
    decide +kernel
  obtain ⟨s, hs, hparts⟩ := Option.map_eq_some_iff.1 hread
  simp only [Prod.mk.injEq] at hparts
  exact ⟨s, hs, hparts.1, eq_ok_of_toOption hparts.2.1, hparts.2.2⟩

/-- The last number there is does not stop the counter, which begins anew. -/
example :
    let t : Tenant := { state := { idCounter := 18446744073709551615 }, now := ⟨0, 0⟩ }
    (exec (createInstallationKey {}) t).1.toOption = some "key-00000000" := by
  decide +kernel

end Push

end TenantSync
