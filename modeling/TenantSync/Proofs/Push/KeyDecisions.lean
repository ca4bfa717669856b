/-
  TenantSync.Proofs.Push.KeyDecisions
  ───────────────────────────────────
  **WHAT A PASS OVER INSTALLATION KEYS DECIDES.**

  A key is desired under an identity, and looked for under the name it is listed by:

      desired, not listed   it is made under the identity
      desired, listed       it is kept, or replaced by one that is made
      listed, not desired   it is dropped under force, else kept

  so a key is dropped only where it was listed, and made only where it was desired.
  A listing is unambiguous if it shows every key, and a configured identity stands for
  a key with this identity.  That is so if no text `identity#identifier` of a key is
  configured or is the identity of a key (`unambiguous_of_free`).
-/
import Mathlib.Data.List.Nodup
import TenantSync.Proofs.Push.KeyListing
import TenantSync.Proofs.Push.KeySteps

namespace TenantSync.Push

open Config Tenant

/-! ## §1. What is desired and what is listed. -/

/-- A body is desired under an identity. -/
def KeyDesired (c : Config) (i : String) (body : InstallationKey) : Prop :=
  ∃ name, c.installationKeys.get? name = some body ∧ i = Store.keyIdentity name body

/-- A configured key has neither a description nor a name. -/
def Nameless (c : Config) : Prop := ∃ body, KeyDesired c "" body

/-- The keys of a state by the names they are listed under. -/
def listedKeys (s : State) : NameMap (Remote InstallationKey) :=
  Store.keyElements s.installationKeys.values

/-- No key of a state hides another one. -/
def KeysShown (s : State) : Prop := (listedKeys s).size = s.installationKeys.size

/-- Every key is listed, and under a configured identity only a key with this identity. -/
structure Unambiguous (c : Config) (s : State) : Prop where
  shown : KeysShown s
  own : ∀ {i body held}, KeyDesired c i body → (listedKeys s).get? i = some held →
    Store.ownIdentity held = some i

theorem mem_keyIdentities {c : Config} {i : String} :
    i ∈ identities Store.installationKeys c.installationKeys.entries
      ↔ ∃ body, KeyDesired c i body := by
  unfold identities
  rw [List.mem_map]
  constructor
  · rintro ⟨e, he, rfl⟩
    exact ⟨e.2, e.1, NameMap.get?_eq_some_iff.2 he, rfl⟩
  · rintro ⟨body, name, hname, rfl⟩
    exact ⟨(name, body), NameMap.get?_eq_some_iff.1 hname, rfl⟩

/-- An identity is desired of one body, if no two keys share it. -/
theorem keyDesired_unique {c : Config} {i : String} {body body' : InstallationKey}
    (hnodup : (identities Store.installationKeys c.installationKeys.entries).Nodup)
    (h : KeyDesired c i body) (h' : KeyDesired c i body') : body = body' := by
  obtain ⟨name, hname, rfl⟩ := h
  obtain ⟨name', hname', heq⟩ := h'
  have hentry := List.inj_on_of_nodup_map hnodup (NameMap.get?_eq_some_iff.1 hname)
    (NameMap.get?_eq_some_iff.1 hname') heq
  exact congrArg Prod.snd hentry

section Listed

variable {s : State} {i j id : String} {key : Remote InstallationKey}

theorem values_have_ids (hids : s.KeysKnowIds) :
    ∀ key ∈ s.installationKeys.values, key.info.id ≠ none := by
  intro key hkey
  obtain ⟨id, hget⟩ := NameMap.mem_values.1 hkey
  rw [hids id key hget]
  exact Option.some_ne_none id

/-- Keys that know the identifiers they are held under can be told apart by them. -/
theorem values_identified (hids : s.KeysKnowIds) :
    Store.Identified s.installationKeys.values where
  known := values_have_ids hids
  distinct := by
    refine NameMap.values_pairwise fun {id id' key key'} hget hget' hne heq => hne ?_
    rw [hids id key hget, hids id' key' hget'] at heq
    exact Option.some.inj heq

/-- A key that is listed is held under the identifier it knows. -/
theorem held_of_listed (hids : s.KeysKnowIds) (h : (listedKeys s).get? i = some key)
    (hid : key.info.id = some id) : s.installationKeys.get? id = some key := by
  obtain ⟨id', hget⟩ := NameMap.mem_values.1
    (Store.mem_of_get?_keyElements (values_have_ids hids) h)
  cases Option.some.inj (hid.symm.trans (hids id' key hget))
  exact hget

theorem listed_injective (hids : s.KeysKnowIds) (hi : (listedKeys s).get? i = some key)
    (hj : (listedKeys s).get? j = some key) : i = j :=
  Store.keyElements_injective (values_have_ids hids) (values_identified hids).nodup hi hj

/-- If as many keys are listed as there are, all of them are. -/
theorem listed_of_held (hids : s.KeysKnowIds) (hshown : KeysShown s)
    (h : s.installationKeys.get? id = some key) : ∃ i, (listedKeys s).get? i = some key := by
  have hsize : (listedKeys s).size = s.installationKeys.values.length := by
    rw [NameMap.values, List.length_map]
    exact hshown
  exact (Store.all_listed_iff (values_identified hids)).2 hsize key (NameMap.mem_values.2 ⟨id, h⟩)

/-- **Nothing is ambiguous** if the text `identity#identifier` of a key is neither configured
as an identity nor the identity of another key. -/
theorem unambiguous_of_free {n : Nat} {c : Config} (hn : Numbered n s) (hids : s.KeysKnowIds)
    (hfree : ∀ id key i, s.installationKeys.get? id = some key →
      Store.ownIdentity key = some i → (∀ body, ¬KeyDesired c (Store.secondName i id) body)
        ∧ ∀ id' key', s.installationKeys.get? id' = some key' →
          Store.ownIdentity key' ≠ some (Store.secondName i id)) : Unambiguous c s where
  shown := by
    have hsize : (listedKeys s).size = s.installationKeys.values.length := by
      refine Store.size_keyElements (fun key hkey => ?_) ?_
        fun key hkey i id hown hid key' hkey' => ?_
      · obtain ⟨id, hget⟩ := NameMap.mem_values.1 hkey
        obtain ⟨k, -, rfl⟩ := hn.keys id (NameMap.mem_keys.2 ⟨key, hget⟩)
        exact ⟨_, hids _ key hget, State.mark_not_mem_keyId _⟩
      · exact (values_identified hids).distinct
      · obtain ⟨id', hget⟩ := NameMap.mem_values.1 hkey
        cases Option.some.inj (hid.symm.trans (hids id' key hget))
        obtain ⟨id'', hget'⟩ := NameMap.mem_values.1 hkey'
        exact (hfree _ key i hget hown).2 id'' key' hget'
    unfold KeysShown
    rw [hsize, NameMap.values, List.length_map]
    rfl
  own := by
    intro i body held hbody hheld
    rcases Store.name_of_listed (values_have_ids hids) hheld with hown | ⟨i', id, hown, hid, rfl⟩
    · exact hown
    · exact absurd hbody ((hfree id held i' (held_of_listed hids hheld hid) hown).1 body)

end Listed

/-! ## §2. What is decided. -/

/-- The decisions of a pass over installation keys that begins in a state. -/
def keyDecisions (mode : Mode) (c : Config) (s : State) : List (Decision InstallationKey) :=
  plan Store.installationKeys mode c.installationKeys.entries (listedKeys s)

/-- The steps that these come to. -/
def keySteps (mode : Mode) (c : Config) (s : State) : List KeyStep :=
  (keyDecisions mode c s).flatMap Decision.keySteps

/-- The decisions that there may be. -/
inductive KeyDecided (mode : Mode) (c : Config) (s : State) : Decision InstallationKey → Prop
  | added {i : String} {body : InstallationKey} (hbody : KeyDesired c i body)
      (hnone : (listedKeys s).get? i = none) : KeyDecided mode c s (.add i body)
  | kept {i : String} {body : InstallationKey} {held : Remote InstallationKey}
      (hbody : KeyDesired c i body) (hheld : (listedKeys s).get? i = some held)
      (hsame : mode.replacesDrift = true → body.sameContent held.body = true) :
      KeyDecided mode c s (.keep i)
  | replaced {i : String} {body : InstallationKey} {held : Remote InstallationKey}
      (hbody : KeyDesired c i body) (hheld : (listedKeys s).get? i = some held)
      (hmode : mode.replacesDrift = true) (hdrift : body.sameContent held.body = false) :
      KeyDecided mode c s (.replace i body held)
  | removed {i : String} {held : Remote InstallationKey} (hforce : mode.force = true)
      (hheld : (listedKeys s).get? i = some held) (hnot : ∀ body, ¬KeyDesired c i body) :
      KeyDecided mode c s (.remove i held)
  | left {i : String} {held : Remote InstallationKey} (hforce : mode.force = false)
      (hheld : (listedKeys s).get? i = some held) (hnot : ∀ body, ¬KeyDesired c i body) :
      KeyDecided mode c s (.keep i)

section Decisions

variable {mode : Mode} {c : Config} {s : State} {i id : String} {d d' : Decision InstallationKey}

/-- Something is decided about whatever is desired or listed. -/
theorem exists_keyDecision (mode : Mode) (c : Config) (s : State)
    (h : (∃ body, KeyDesired c i body) ∨ ∃ held, (listedKeys s).get? i = some held) :
    ∃ d ∈ keyDecisions mode c s, d.id = i := by
  refine List.mem_map.1 ((mem_plan_ids _ _ _ _ _).2 ?_)
  rw [mem_keyIdentities, NameMap.mem_keys]
  exact h

variable (hnodup : (identities Store.installationKeys c.installationKeys.entries).Nodup)

include hnodup

/-- There is one decision about an identity. -/
theorem keyDecision_unique (hd : d ∈ keyDecisions mode c s) (hd' : d' ∈ keyDecisions mode c s)
    (heq : d.id = d'.id) : d = d' :=
  List.inj_on_of_nodup_map (plan_ids_nodup _ _ _ _ hnodup) hd hd' heq

theorem keyDecided_of_mem (hd : d ∈ keyDecisions mode c s) : KeyDecided mode c s d := by
  rcases (mem_plan _ _ _ _ hnodup _).1 hd with ⟨name, body, hmem, rfl⟩ | ⟨i, held, hheld, hnot, rfl⟩
  · have hbody : KeyDesired c (Store.keyIdentity name body) body :=
      ⟨name, NameMap.get?_eq_some_iff.2 hmem, rfl⟩
    cases hlisted : (listedKeys s).get? (Store.installationKeys.identity name body) with
    | none => exact .added hbody hlisted
    | some held =>
        rcases decision_cases Store.installationKeys mode
          (Store.installationKeys.identity name body) body held with
          ⟨hkeep, hsame⟩ | ⟨hreplace, hmode, hdrift⟩
        · rw [hkeep]
          exact .kept hbody hlisted hsame
        · rw [hreplace]
          exact .replaced hbody hlisted hmode hdrift
  · rw [mem_keyIdentities, not_exists] at hnot
    unfold dismissal
    cases hforce : mode.force with
    | true => exact .removed hforce hheld hnot
    | false => exact .left hforce hheld hnot

/-- What is dropped was listed under the identity that is decided about. -/
theorem listed_of_drop (hd : d ∈ keyDecisions mode c s) (hdrop : .drop id ∈ d.keySteps) :
    ∃ held, (listedKeys s).get? d.id = some held ∧ held.info.id = some id ∧ d ≠ .keep d.id := by
  cases keyDecided_of_mem hnodup hd with
  | replaced _ hheld _ _ => exact ⟨_, hheld, by simpa [Decision.keySteps] using hdrop, by simp⟩
  | removed _ hheld _ => exact ⟨_, hheld, by simpa [Decision.keySteps] using hdrop, by simp⟩
  | added hbody hnone => simp [Decision.keySteps] at hdrop
  | kept hbody hheld hsame => cases hdrop
  | left hforce hheld hnot => cases hdrop

/-- What is made was desired under the identity that is decided about. -/
theorem desired_of_make {key : InstallationKey} (hd : d ∈ keyDecisions mode c s)
    (hmake : .make key ∈ d.keySteps) :
    ∃ body, KeyDesired c d.id body ∧ key = { body with desc := d.id } ∧ d ≠ .keep d.id := by
  cases keyDecided_of_mem hnodup hd with
  | added hbody _ | replaced hbody _ _ _ =>
      exact ⟨_, hbody, by simpa [Decision.keySteps, Decision.id] using hmake, by simp⟩
  | removed hforce hheld hnot => simp [Decision.keySteps] at hmake
  | kept hbody hheld hsame => cases hmake
  | left hforce hheld hnot => cases hmake

end Decisions

/-- The keys that decisions make are described by the identities that are decided about. -/
theorem descs_sublist_ids (ds : List (Decision InstallationKey)) :
    ((ds.flatMap Decision.keySteps).filterMap KeyStep.desc?).Sublist (ds.map Decision.id) := by
  have hdrops : ∀ id : Option String,
      (id.toList.map KeyStep.drop).filterMap KeyStep.desc? = [] := by
    rintro (_ | id) <;> rfl
  have hone : ∀ d : Decision InstallationKey,
      (d.keySteps.filterMap KeyStep.desc?).Sublist [d.id] := by
    rintro (⟨id, body⟩ | id | ⟨id, body, held⟩ | ⟨id, held⟩)
    · exact .refl _
    · exact List.nil_sublist _
    · unfold Decision.keySteps
      rw [List.filterMap_append, hdrops]
      exact .refl _
    · unfold Decision.keySteps
      rw [hdrops]
      exact List.nil_sublist _
  induction ds with
  | nil => exact .slnil
  | cons d ds ih =>
      rw [List.flatMap_cons, List.filterMap_append]
      exact (hone d).append ih

end TenantSync.Push
