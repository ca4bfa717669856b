/-
  TenantSync.Proofs.Push.Invariant
  ────────────────────────────────
  **WHAT ALWAYS HOLDS OF A TENANT THAT IS SERVED BY CALLS.**

  A tenant begins as a new one and answers calls, any number of them, in any
  order, with any faults attached at any time (`Served`).  Of its state holds at
  all times (`served_invariant`)

      keys          every installation key is held under its own identifier
      identifiers   no two elements have one, and none is given out again
      resources     no category is without a name
      rules         there are the built-in namespaces and no others, and a rule
                    has the name and the namespace it is held under

  and a call that fails has left state and log as they were.  Each part is kept by
  every change a call can make (`Change`); the run is an induction over the calls.

  Identifiers are apart because an identifier tells its number, whatever its kind
  is: the number is what stands behind the last dash.  Numbers are given out in
  turn until there are `2^64` of them and the counter begins anew.
-/
import TenantSync.Proofs.Push.Reachable

namespace TenantSync

open Config Tenant

/-! ## §1. The number of an identifier. -/

namespace State

/-- The identifier that is made of a kind and a number. -/
def identifier (kind : String) (n : UInt64) : String := s!"{kind}-{hex8 n}"

theorem nextId_fst (kind : String) (s : State) :
    (s.nextId kind).1 = identifier kind (s.idCounter + 1) := rfl

/-- What stands behind the last `c` of a text is determined by the text. -/
theorem eq_behind_last {c : Char} {as bs xs ys : List Char} (hxs : c ∉ xs) (hys : c ∉ ys)
    (h : as ++ c :: xs = bs ++ c :: ys) : xs = ys := by
  rcases List.append_eq_append_iff.1 h with ⟨es, -, htail⟩ | ⟨es, -, htail⟩
  · -- what is in front of the last `c` on the left reaches as far on the right
    cases es with
    | nil =>
        simp at htail
        exact htail
    | cons e es =>
        simp only [List.cons_append, List.cons.injEq] at htail
        have hmem : c ∈ xs := by
          rw [htail.2]
          simp
        exact absurd hmem hxs
  · cases es with
    | nil =>
        simp at htail
        exact htail.symm
    | cons e es =>
        simp only [List.cons_append, List.cons.injEq] at htail
        have hmem : c ∈ ys := by
          rw [htail.2]
          simp
        exact absurd hmem hys

theorem dash_not_mem_hex8 (n : UInt64) : '-' ∉ (hex8 n).toList := by
  have hdigits : '-' ∉ Nat.toDigits 16 n.toNat := not_mem_toDigits (by decide) n.toNat
  simp [hex8, List.mem_replicate, hdigits]

/-- **An identifier tells its number**, whichever kinds there are. -/
theorem identifier_number {kind kind' : String} {n n' : UInt64}
    (h : identifier kind n = identifier kind' n') : n = n' := by
  have hlist : kind.toList ++ '-' :: (hex8 n).toList = kind'.toList ++ '-' :: (hex8 n').toList := by
    have hdash (kind : String) (n : UInt64) :
        (identifier kind n).toList = kind.toList ++ '-' :: (hex8 n).toList := by
      show (kind ++ "-" ++ hex8 n).toList = _
      simp
    rw [← hdash, ← hdash, h]
  have hhex : (hex8 n).toList = (hex8 n').toList :=
    eq_behind_last (dash_not_mem_hex8 n) (dash_not_mem_hex8 n') hlist
  exact hex8_injective (String.toList_inj.1 hhex)

/-- The identifiers that a state can still give out before its counter begins anew. -/
inductive Issuable : State → String → Prop
  | next {s : State} (kind : String) (hroom : s.idCounter.toNat + 1 < twoTo 64) :
      Issuable s (s.nextId kind).1
  | later {s : State} {id : String} (kind : String) (hroom : s.idCounter.toNat + 1 < twoTo 64)
      (h : Issuable (s.nextId kind).2 id) : Issuable s id

/-- An identifier that is still to be given out has a number above the counter. -/
theorem Issuable.number {s : State} {id : String} (h : Issuable s id) :
    ∃ kind n, id = identifier kind n ∧ s.idCounter.toNat < n.toNat := by
  induction h with
  | @next s kind hroom =>
      refine ⟨kind, s.idCounter + 1, rfl, ?_⟩
      rw [toNat_succ hroom]
      omega
  | @later s id kind hroom h ih =>
      obtain ⟨kind', n, hid, hn⟩ := ih
      have hcounter : ((s.nextId kind).2.idCounter).toNat = s.idCounter.toNat + 1 :=
        toNat_succ hroom
      exact ⟨kind', n, hid, by omega⟩

end State

/-! ## §2. What a state knows about its elements. -/

namespace Push

namespace Pass

/-- What a state knows about the elements of a pass, by the name they are held under. -/
def infos : Pass → State → NameMap Meta
  | .resources, _ | .orgValues, _ => .empty
  | .rules ns, s => ((s.rules.get? ns).getD .empty).map Remote.info
  | .falsePositives, s => s.falsePositives.map Remote.info
  | .outputs, s => s.outputs.map Remote.info
  | .integrity, s => s.integrity.map Remote.info
  | .exfilWatches, s => s.exfilWatches.map Remote.info
  | .exfilEvents, s => s.exfilEvents.map Remote.info
  | .artifacts, s => s.artifacts.map Remote.info
  | .yaraSources, s => s.yaraSources.map Remote.info
  | .yaraRules, s => s.yaraRules.map Remote.info
  | .installationKeys, s => s.installationKeys.map Remote.info

theorem infos_section {p : Pass} {sec : Section p.Body} (h : p.section? = some sec) (s : State) :
    p.infos s = (sec.get s).map Remote.info := by
  cases p <;> cases h <;> rfl

/-- What is known about the elements of a pass is part of its slice. -/
theorem SameAt.infos {p : Pass} {s s' : State} (h : p.SameAt s s') : p.infos s' = p.infos s := by
  cases p with
  | resources => rfl
  | orgValues => rfl
  | _ =>
      simp only [SameAt] at h
      simp only [Pass.infos, h]

end Pass

/-- The passes over what a state holds with an identifier. -/
def slots (s : State) : List Pass :=
  s.rules.keys.map .rules
    ++ [.falsePositives, .outputs, .integrity, .exfilWatches, .exfilEvents, .artifacts,
      .yaraSources, .yaraRules, .installationKeys]

/-- What a state knows about all of its elements. -/
def knownOf (s : State) : List Meta := (slots s).flatMap fun p => (p.infos s).values

/-- All identifiers in a state, over all sections. -/
def idsOf (s : State) : List String := (knownOf s).filterMap Meta.id

theorem slots_nodup (s : State) : (slots s).Nodup := by
  unfold slots
  rw [List.nodup_append]
  refine ⟨?_, by decide, ?_⟩
  · rw [List.nodup_iff_pairwise_ne, List.pairwise_map]
    refine List.Pairwise.imp ?_ (NameMap.keys_nodup s.rules)
    intro ns ns' hne heq
    cases heq
    exact hne rfl
  · intro p hp q hq
    obtain ⟨ns, -, rfl⟩ := List.mem_map.1 hp
    intro heq
    subst heq
    simp at hq

/-! ## §3. What a change does to identifiers. -/

/-- How what is known about elements moves on with a change: nothing is added to it, or the
next identifier is given to one element. -/
inductive Moves (s s' : State) (m : Mutation) : Prop
  | kept (hcounter : s'.idCounter = s.idCounter)
      (hinfos : ∀ (q : Pass) (n : String) (info : Meta), (q.infos s').get? n = some info →
        (q.infos s).get? n = some info)
  | gave (p : Pass) (name kind : String) (hm : m.stamps = true)
      (hcounter : s'.idCounter = s.idCounter + 1)
      (hhere : ∀ info, (p.infos s').get? name = some info →
        info.id = some (s.nextId kind).1)
      (hinfos : ∀ (q : Pass) (n : String) (info : Meta), (q, n) ≠ (p, name) →
        (q.infos s').get? n = some info → (q.infos s).get? n = some info)

section Moves

variable {p : Pass} {s s' : State} {m : Mutation}

/-- A change within a pass that adds nothing to what is known there. -/
theorem moves_of_subset (honly : p.OnlyAt s s') (hcounter : s'.idCounter = s.idCounter)
    (hp : ∀ n info, (p.infos s').get? n = some info → (p.infos s).get? n = some info) :
    Moves s s' m := by
  refine .kept hcounter fun q n info hinfo => ?_
  by_cases hq : q = p
  · subst hq
    exact hp n info hinfo
  · rwa [(honly.others q hq).infos] at hinfo

/-- A change within a pass that stamps the element of a name. -/
theorem moves_of_insert (name kind : String) (info : Meta) (honly : p.OnlyAt s s')
    (hm : m.stamps = true) (hcounter : s'.idCounter = s.idCounter + 1)
    (hid : info.id = some (s.nextId kind).1)
    (hp : ∀ n, (p.infos s').get? n = if n = name then some info else (p.infos s).get? n) :
    Moves s s' m := by
  refine .gave p name kind hm hcounter (fun info' hinfo => ?_) fun q n info' hne hinfo => ?_
  · rw [hp, if_pos rfl] at hinfo
    cases hinfo
    exact hid
  · by_cases hq : q = p
    · subst hq
      -- in the pass itself all names but the one are as they were
      have hn : n ≠ name := by
        intro heq
        exact hne (by rw [heq])
      rwa [hp, if_neg hn] at hinfo
    · rwa [(honly.others q hq).infos] at hinfo

/-- What is left of a map when a name is erased was there before. -/
theorem get?_map_erase {α : Type} {held : NameMap (Remote α)} {name n : String} {info : Meta}
    (h : ((held.erase name).map Remote.info).get? n = some info) :
    (held.map Remote.info).get? n = some info := by
  rw [NameMap.get?_map, NameMap.get?_erase] at h
  rw [NameMap.get?_map]
  by_cases hn : n = name
  · rw [if_pos hn] at h
    cases h
  · rwa [if_neg hn] at h

theorem get?_map_insert {α : Type} (held : NameMap (Remote α)) (name n : String)
    (remote : Remote α) : ((held.insert name remote).map Remote.info).get? n
      = if n = name then some remote.info else (held.map Remote.info).get? n := by
  rw [NameMap.get?_map, NameMap.get?_map, NameMap.get?_insert]
  by_cases hn : n = name
  · rw [if_pos hn, if_pos hn]
    rfl
  · rw [if_neg hn, if_neg hn]

/-- **What every change does to identifiers.** -/
theorem Change.moves {now : Timestamp} (h : Change now s s' m) : Moves s s' m := by
  cases h with
  | @added p sec h name body =>
      have honly : p.OnlyAt s (sec.added now name body s) :=
        (Pass.onlyAt_idCounter p _ _).trans (Pass.onlyAt_section h _ _)
      refine moves_of_insert name sec.element.name
        (s.stamp now sec.element.name body).1.info honly (stamps_section h name)
        (Pass.section_put_apart h _ _).1 rfl fun n => ?_
      show (p.infos (sec.put _ { s with idCounter := s.idCounter + 1 })).get? n = _
      rw [Pass.infos_section h, Pass.infos_section h, Pass.section_get_put h,
        Pass.section_get_idCounter h]
      exact get?_map_insert _ _ _ _
  | @deleted p sec h name hheld =>
      refine moves_of_subset (Pass.onlyAt_section h _ _) (Pass.section_put_apart h _ _).1
        fun n info hinfo => ?_
      rw [Pass.infos_section h, Pass.section_get_put h] at hinfo
      rw [Pass.infos_section h]
      exact get?_map_erase hinfo
  | subscribed category name =>
      exact moves_of_subset (Pass.onlyAt_resources _ _) rfl fun _ _ hinfo => hinfo
  | unsubscribed h hheld =>
      exact moves_of_subset (Pass.onlyAt_resources _ _) rfl fun _ _ hinfo => hinfo
  | @ruleAdded ns name rule rules h =>
      refine moves_of_insert (p := .rules ns) name ElementType.rule.name
        (s.stamp now ElementType.rule.name rule).1.info
        ((Pass.onlyAt_idCounter _ _ _).trans (Pass.onlyAt_rules h)) rfl rfl rfl fun n => ?_
      show (NameMap.map Remote.info (((s.rules.insert ns _).get? ns).getD .empty)).get? n
        = if n = name then _ else (NameMap.map Remote.info ((s.rules.get? ns).getD .empty)).get? n
      rw [NameMap.get?_insert, if_pos rfl, h]
      exact get?_map_insert _ _ _ _
  | @ruleDeleted ns name rules h hheld =>
      refine moves_of_subset (Pass.onlyAt_rules h) rfl fun n info hinfo => ?_
      change (NameMap.map Remote.info (((s.rules.insert ns _).get? ns).getD .empty)).get? n = _
        at hinfo
      rw [NameMap.get?_insert, if_pos rfl] at hinfo
      show (NameMap.map Remote.info ((s.rules.get? ns).getD .empty)).get? n = _
      rw [h]
      exact get?_map_erase hinfo
  | keyMade key =>
      refine moves_of_insert (p := .installationKeys) (s.nextId "key").1 "key"
        (s.stamp now "key" key).1.info
        ((Pass.onlyAt_idCounter _ _ _).trans (Pass.onlyAt_installationKeys _ _)) rfl rfl rfl
        fun n => ?_
      exact get?_map_insert _ _ _ _
  | keyDropped h =>
      exact moves_of_subset (Pass.onlyAt_installationKeys _ _) rfl fun _ _ hinfo =>
        get?_map_erase hinfo
  | settingSet name value =>
      exact moves_of_subset (Pass.onlyAt_orgValues _ _) rfl fun _ _ hinfo => hinfo

end Moves

/-! ## §4. Identifiers stay apart. -/

/-- Every element has an identifier of a number up to the counter, and no two have one. -/
structure Stamped (s : State) : Prop where
  numbered : ∀ (p : Pass) (name : String) (info : Meta), (p.infos s).get? name = some info →
    ∃ kind n, info.id = some (State.identifier kind n) ∧ n.toNat ≤ s.idCounter.toNat
  apart : ∀ (p : Pass) (name : String) (info : Meta) (q : Pass) (name' : String) (info' : Meta),
    (p.infos s).get? name = some info → (q.infos s).get? name' = some info' →
      (p, name) ≠ (q, name') → info.id ≠ info'.id

theorem Stamped.moves {s s' : State} {m : Mutation} (h : Stamped s) (hm : Moves s s' m)
    (hroom : m.stamps = true → s.idCounter.toNat + 1 < twoTo 64) : Stamped s' := by
  cases hm with
  | kept hcounter hinfos =>
      refine ⟨fun p name info hinfo => ?_, fun p name info q name' info' hinfo hinfo' hne => ?_⟩
      · rw [hcounter]
        exact h.numbered p name info (hinfos p name info hinfo)
      · exact h.apart p name info q name' info' (hinfos p name info hinfo)
          (hinfos q name' info' hinfo') hne
  | gave p₀ name₀ kind hm hcounter hhere hinfos =>
      have hnext : (s.idCounter + 1).toNat = s.idCounter.toNat + 1 := State.toNat_succ (hroom hm)
      -- the new identifier has a number that no element had before
      have hnew : ∀ (p : Pass) (name : String) (info : Meta), (p, name) ≠ (p₀, name₀) →
          (p.infos s').get? name = some info → info.id ≠ some (s.nextId kind).1 := by
        intro p name info hne hinfo heq
        obtain ⟨kind', n, hid, hn⟩ := h.numbered p name info (hinfos p name info hne hinfo)
        rw [hid, State.nextId_fst] at heq
        have hnumber : n = s.idCounter + 1 := State.identifier_number (Option.some.inj heq)
        subst hnumber
        omega
      constructor
      · intro p name info hinfo
        by_cases hplace : (p, name) = (p₀, name₀)
        · cases hplace
          exact ⟨kind, s.idCounter + 1, hhere info hinfo, Nat.le_of_eq (by rw [hcounter])⟩
        · obtain ⟨kind', n, hid, hn⟩ := h.numbered p name info (hinfos p name info hplace hinfo)
          refine ⟨kind', n, hid, ?_⟩
          rw [hcounter]
          omega
      · intro p name info q name' info' hinfo hinfo' hne
        by_cases hplace : (p, name) = (p₀, name₀)
        · cases hplace
          rw [hhere info hinfo]
          exact fun heq => hnew q name' info' (fun hsame => hne hsame.symm) hinfo' heq.symm
        · by_cases hplace' : (q, name') = (p₀, name₀)
          · cases hplace'
            rw [hhere info' hinfo']
            exact hnew p name info hplace hinfo
          · exact h.apart p name info q name' info' (hinfos p name info hplace hinfo)
              (hinfos q name' info' hplace' hinfo') hne

/-- What is known about elements, is known of one that is held. -/
theorem mem_knownOf {s : State} {info : Meta} (h : info ∈ knownOf s) :
    ∃ (p : Pass) (name : String), (p.infos s).get? name = some info := by
  obtain ⟨p, -, hvalue⟩ := List.mem_flatMap.1 h
  obtain ⟨name, hname⟩ := NameMap.mem_values.1 hvalue
  exact ⟨p, name, hname⟩

theorem mem_idsOf {s : State} {id : String} (h : id ∈ idsOf s) :
    ∃ (p : Pass) (name : String) (info : Meta),
      (p.infos s).get? name = some info ∧ info.id = some id := by
  obtain ⟨info, hinfo, hid⟩ := List.mem_filterMap.1 h
  obtain ⟨p, name, hname⟩ := mem_knownOf hinfo
  exact ⟨p, name, info, hname, hid⟩

theorem Stamped.idsOf_nodup {s : State} (h : Stamped s) : (idsOf s).Nodup := by
  have hknown : (knownOf s).Pairwise fun a b => a.id ≠ b.id := by
    unfold knownOf
    rw [List.pairwise_flatMap]
    constructor
    · -- within one section, names differ
      intro p _
      refine NameMap.values_pairwise fun {name name' info info'} hinfo hinfo' hne => ?_
      exact h.apart p name info p name' info' hinfo hinfo' fun heq => hne (congrArg Prod.snd heq)
    · -- over two sections, the sections differ
      refine List.Pairwise.imp ?_ (slots_nodup s)
      intro p q hne info hinfo info' hinfo'
      obtain ⟨name, hname⟩ := NameMap.mem_values.1 hinfo
      obtain ⟨name', hname'⟩ := NameMap.mem_values.1 hinfo'
      exact h.apart p name info q name' info' hname hname' fun heq => hne (congrArg Prod.fst heq)
  unfold idsOf
  rw [List.nodup_iff_pairwise_ne, List.pairwise_filterMap]
  refine hknown.imp ?_
  intro info info' hne id hid id' hid' heq
  rw [hid, hid', heq] at hne
  exact hne rfl

/-- No identifier that is there is given out again. -/
theorem Stamped.not_issuable {s : State} (h : Stamped s) {id : String} (hid : id ∈ idsOf s) :
    ¬ s.Issuable id := by
  intro hissuable
  obtain ⟨p, name, info, hinfo, hinfoId⟩ := mem_idsOf hid
  obtain ⟨kind, n, hn, hle⟩ := h.numbered p name info hinfo
  obtain ⟨kind', n', hn', hlt⟩ := hissuable.number
  have hsame : State.identifier kind n = State.identifier kind' n' := by
    rw [← hn', ← Option.some.injEq, ← hn, hinfoId]
  have hnumber : n = n' := State.identifier_number hsame
  subst hnumber
  omega

/-! ## §5. Categories, namespaces and rules. -/

/-- A state in which nothing is held in a way that no call would leave it. -/
structure Orderly (s : State) : Prop where
  keys : s.KeysKnowIds
  categories : ∀ category names, s.resources.get? category = some names → names.isEmpty = false
  namespaces : s.rules.keys = builtinNamespaces
  rules : ∀ ns rules name held, s.rules.get? ns = some rules → rules.get? name = some held →
    held.body.name = name ∧ held.body.ruleNamespace = ns

theorem orderly_new : Orderly {} where
  keys := fun id key hget => nomatch hget
  categories := fun category names hget => nomatch hget
  namespaces := by decide
  rules := by
    intro ns rules name held hrules hheld
    -- the namespaces of a new tenant are without rules
    have hempty : ∀ e ∈ ({} : State).rules.entries, e.2 = .empty := by decide
    have hnone : rules = .empty := hempty (ns, rules) (NameMap.get?_eq_some_iff.1 hrules)
    subst hnone
    cases hheld

section Orderly

variable {now : Timestamp} {s s' : State} {m : Mutation}

/-- A map with an entry is not empty. -/
theorem isEmpty_of_get? {α : Type} {held : NameMap α} {name : String} {v : α}
    (h : held.get? name = some v) : held.isEmpty = false := by
  cases hempty : held.isEmpty with
  | false => rfl
  | true =>
      rw [NameMap.eq_empty_of_isEmpty hempty] at h
      cases h

/-- A change of a plain section leaves the slices of all other passes alone. -/
theorem sameAt_of_section {p q : Pass} {sec : Section p.Body} (h : p.section? = some sec)
    (hq : q.section? = none) (held : NameMap (Remote p.Body)) (s : State) (n : UInt64) :
    q.SameAt s (sec.put held { s with idCounter := n }) := by
  have honly := (Pass.onlyAt_idCounter p s n).trans (Pass.onlyAt_section h held _)
  refine honly.others q ?_
  intro heq
  subst heq
  rw [h] at hq
  cases hq

theorem Change.categories (h : Change now s s' m)
    (hs : ∀ category names, s.resources.get? category = some names → names.isEmpty = false) :
    ∀ category names, s'.resources.get? category = some names → names.isEmpty = false := by
  cases h with
  | @added p sec h name body =>
      have hsame : (sec.added now name body s).resources = s.resources :=
        sameAt_of_section (q := .resources) h rfl _ s _
      rw [hsame]
      exact hs
  | @deleted p sec h name hheld =>
      have hsame : (sec.put ((sec.get s).erase name) s).resources = s.resources :=
        sameAt_of_section (q := .resources) h rfl _ s s.idCounter
      rw [hsame]
      exact hs
  | subscribed category name =>
      intro category' names hnames
      change (s.resources.insert category _).get? category' = some names at hnames
      rw [NameMap.get?_insert] at hnames
      by_cases hcategory : category' = category
      · -- the category has at least the new name
        rw [if_pos hcategory] at hnames
        cases hnames
        have hhere : ((Tenant.subscribed s category).insert name ()).get? name = some () := by
          rw [NameMap.get?_insert, if_pos rfl]
        exact isEmpty_of_get? hhere
      · rw [if_neg hcategory] at hnames
        exact hs category' names hnames
  | @unsubscribed category name held h hheld =>
      intro category' names hnames
      cases hempty : (held.erase name).isEmpty with
      | true =>
          simp only [hempty, if_true] at hnames
          rw [NameMap.get?_erase] at hnames
          split at hnames
          · cases hnames
          · exact hs category' names hnames
      | false =>
          simp only [hempty, Bool.false_eq_true, if_false] at hnames
          rw [NameMap.get?_insert] at hnames
          split at hnames
          · cases hnames
            exact hempty
          · exact hs category' names hnames
  | _ => exact hs

/-- No namespace of rules comes or goes. -/
theorem Change.namespaces (h : Change now s s' m) : s'.rules.keys = s.rules.keys := by
  cases h with
  | added h name body =>
      exact ((Pass.onlyAt_idCounter _ s _).trans (Pass.onlyAt_section h _ _)).namespaces
  | deleted h hheld => exact (Pass.onlyAt_section h _ s).namespaces
  | ruleAdded rule h => exact NameMap.keys_insert h
  | ruleDeleted h hheld => exact NameMap.keys_insert h
  | _ => rfl

theorem Change.rules (h : Change now s s' m)
    (hs : ∀ ns rules name held, s.rules.get? ns = some rules → rules.get? name = some held →
      held.body.name = name ∧ held.body.ruleNamespace = ns) :
    ∀ ns rules name held, s'.rules.get? ns = some rules → rules.get? name = some held →
      held.body.name = name ∧ held.body.ruleNamespace = ns := by
  cases h with
  | @added p sec h name body =>
      intro ns rules name' held hrules
      have hsame : (sec.added now name body s).rules.get? ns = s.rules.get? ns :=
        sameAt_of_section (q := .rules ns) h rfl _ s _
      rw [hsame] at hrules
      exact hs ns rules name' held hrules
  | @deleted p sec h name hheld =>
      intro ns rules name' held hrules
      have hsame : (sec.put ((sec.get s).erase name) s).rules.get? ns = s.rules.get? ns :=
        sameAt_of_section (q := .rules ns) h rfl _ s s.idCounter
      rw [hsame] at hrules
      exact hs ns rules name' held hrules
  | @ruleAdded ns name rule rules h =>
      intro ns' rules' name' held hrules' hheld
      rw [NameMap.get?_insert] at hrules'
      by_cases hns : ns' = ns
      · rw [if_pos hns] at hrules'
        cases hrules'
        rw [NameMap.get?_insert] at hheld
        by_cases hname : name' = name
        · -- the rule itself was given both
          rw [if_pos hname] at hheld
          cases hheld
          exact ⟨hname.symm, hns.symm⟩
        · rw [if_neg hname] at hheld
          exact hs ns' rules name' held (hns ▸ h) hheld
      · rw [if_neg hns] at hrules'
        exact hs ns' rules' name' held hrules' hheld
  | @ruleDeleted ns name rules h hheld =>
      intro ns' rules' name' held hrules' hget
      rw [NameMap.get?_insert] at hrules'
      by_cases hns : ns' = ns
      · rw [if_pos hns] at hrules'
        cases hrules'
        rw [NameMap.get?_erase] at hget
        split at hget
        · cases hget
        · exact hs ns' rules name' held (hns ▸ h) hget
      · rw [if_neg hns] at hrules'
        exact hs ns' rules' name' held hrules' hget
  | _ => exact hs

/-- **Every change leaves an orderly state orderly.** -/
theorem Change.orderly (h : Change now s s' m) (hs : Orderly s) : Orderly s' where
  keys := h.effect.keepsIds hs.keys
  categories := h.categories hs.categories
  namespaces := h.namespaces.trans hs.namespaces
  rules := h.rules hs.rules

end Orderly

/-! ## §6. Tenants served by calls. -/

/-- A tenant that began as a new one and has only been called since, under any faults. -/
inductive Served : Tenant → Prop
  | new (now : Timestamp) : Served { now }
  /-- A call was made, and has succeeded or failed. -/
  | called {t : Tenant} {α : Type} {x : Tenant.Call α} (h : Served t) (hx : IsCall x) :
      Served (exec x t).2
  /-- Other faults were attached, or all taken away. -/
  | faulted {t : Tenant} (h : Served t) (faults : Faults) : Served { t with faults }
  /-- Time went by. -/
  | later {t : Tenant} (h : Served t) (now : Timestamp) : Served { t with now }

/-- How many identifiers a tenant has given out, by its log. -/
def stampsOf (t : Tenant) : Nat := t.log.countP Mutation.stamps

theorem Served.orderly {t : Tenant} (h : Served t) : Orderly t.state := by
  induction h with
  | new now => exact orderly_new
  | @called t α x h hx ih =>
      rcases hx.does t with ⟨site, hrun⟩ | ⟨site, a, s, m, hrun, hchange⟩
      · rw [hrun]
        exact ih
      · rw [hrun]
        exact hchange.orderly ih
  | faulted h faults ih => exact ih
  | later h now ih => exact ih

/-- The counter is at the number of stamps, and the identifiers are apart. -/
theorem Served.stamped {t : Tenant} (h : Served t) (hfew : stampsOf t < twoTo 64) :
    t.state.idCounter.toNat = stampsOf t ∧ Stamped t.state := by
  induction h with
  | new now =>
      have hnone : ∀ (p : Pass) (name : String) (info : Meta),
          (p.infos {}).get? name = some info → False := by
        intro p name info hinfo
        cases p with
        | rules ns =>
            cases hrules : ({} : State).rules.get? ns with
            | none =>
                simp only [Pass.infos, hrules] at hinfo
                cases hinfo
            | some rules =>
                have hempty : ∀ e ∈ ({} : State).rules.entries, e.2 = .empty := by decide
                have hnone : rules = .empty :=
                  hempty (ns, rules) (NameMap.get?_eq_some_iff.1 hrules)
                simp only [Pass.infos, hrules] at hinfo
                subst hnone
                cases hinfo
        | _ => cases hinfo
      exact ⟨rfl, ⟨fun p name info hinfo => (hnone p name info hinfo).elim,
        fun p name info _ _ _ hinfo => (hnone p name info hinfo).elim⟩⟩
  | @called t α x h hx ih =>
      rcases hx.does t with ⟨site, hrun⟩ | ⟨site, a, s, m, hrun, hchange⟩
      · rw [hrun] at hfew ⊢
        exact ih hfew
      · rw [hrun] at hfew ⊢
        -- the log has one mutation more, which says whether an identifier was given out
        have hcount : stampsOf { t.counted site with state := s, log := t.log ++ [m] }
            = stampsOf t + if m.stamps then 1 else 0 := by
          unfold stampsOf
          rw [List.countP_append, List.countP_singleton]
        rw [hcount] at hfew
        obtain ⟨hcounter, hstamped⟩ := ih (by omega)
        have hroom : m.stamps = true → t.state.idCounter.toNat + 1 < twoTo 64 := by
          intro hm
          rw [hm] at hfew
          simp at hfew
          omega
        refine ⟨?_, hstamped.moves hchange.moves hroom⟩
        show s.idCounter.toNat = _
        rw [hcount, hchange.effect.counter]
        cases hm : m.stamps with
        | false =>
            simp
            exact hcounter
        | true =>
            simp only [if_true]
            rw [State.toNat_succ (hroom hm), hcounter]
  | faulted h faults ih => exact ih hfew
  | later h now ih => exact ih hfew

/-- A call that fails leaves state and log as they were. -/
theorem failed_call_keeps {α : Type} {x : Tenant.Call α} (hx : IsCall x) {t : Tenant}
    {e : TenantError} (h : (exec x t).1 = .error e) :
    (exec x t).2.state = t.state ∧ (exec x t).2.log = t.log := by
  rcases hx.does t with ⟨site, hrun⟩ | ⟨site, a, s, m, hrun, hchange⟩
  · rw [hrun]
    exact ⟨rfl, rfl⟩
  · rw [hrun] at h
    cases h

/-- **The invariant of a tenant.**  As long as fewer than `2^64` identifiers were given out:

  - the counter is at their number;
  - every installation key is held under its own identifier;
  - all elements have identifiers, which are pairwise different, and none of which is given
    out again;
  - no category of resources is without a name;
  - the namespaces of rules are the built-in ones, and a rule has the name and the namespace
    it is held under;
  - a call that fails leaves state and log as they were. -/
theorem served_invariant {t : Tenant} (h : Served t) (hfew : stampsOf t < twoTo 64) :
    t.state.idCounter.toNat = stampsOf t ∧ t.state.KeysKnowIds
      ∧ ((∀ info ∈ knownOf t.state, info.id.isSome) ∧ (idsOf t.state).Nodup
        ∧ ∀ id ∈ idsOf t.state, ¬ t.state.Issuable id)
      ∧ (∀ category names, t.state.resources.get? category = some names → names.isEmpty = false)
      ∧ t.state.rules.keys = builtinNamespaces
      ∧ (∀ ns rules name held, t.state.rules.get? ns = some rules → rules.get? name = some held →
          held.body.name = name ∧ held.body.ruleNamespace = ns)
      ∧ ∀ {α : Type} {x : Tenant.Call α} {e : TenantError}, IsCall x → (exec x t).1 = .error e →
          (exec x t).2.state = t.state ∧ (exec x t).2.log = t.log := by
  obtain ⟨hcounter, hstamped⟩ := h.stamped hfew
  have horderly := h.orderly
  have hsome : ∀ info ∈ knownOf t.state, info.id.isSome := by
    intro info hinfo
    obtain ⟨p, name, hname⟩ := mem_knownOf hinfo
    obtain ⟨kind, n, hid, -⟩ := hstamped.numbered p name info hname
    rw [hid]
    rfl
  refine ⟨hcounter, horderly.keys, ⟨hsome, hstamped.idsOf_nodup,
    fun id hid => hstamped.not_issuable hid⟩, horderly.categories, horderly.namespaces,
    horderly.rules, ?_⟩
  intro α x e hx hfailed
  exact failed_call_keeps hx hfailed

/-- A tenant that was given a filter and an installation key, and from which a key it does not
have was to be deleted: both are held, each under an identifier of its own. -/
theorem served_invariant_two_elements :
    let t : Tenant := (exec (createInstallationKey { desc := "a" })
      (exec (Section.falsePositives.add "f" {}) { now := ⟨0, 0⟩ }).2).2
    idsOf t.state = ["fp_rule-00000001", "key-00000002"] ∧ (idsOf t.state).Nodup
      ∧ ¬ t.state.Issuable "key-00000002" ∧ t.state.KeysKnowIds
      ∧ t.state.rules.keys = builtinNamespaces
      ∧ (exec (deleteInstallationKey "key-00000003") t).1
          = .error (.notFound "installation key 'key-00000003'")
      ∧ (exec (deleteInstallationKey "key-00000003") t).2.log = t.log := by
  intro t
  have hserved : Served t :=
    .called (.called (.new ⟨0, 0⟩) (.add (p := .falsePositives) rfl "f" {}))
      (.createInstallationKey { desc := "a" })
  have hfew : stampsOf t < twoTo 64 := by decide
  have hids : idsOf t.state = ["fp_rule-00000001", "key-00000002"] := by decide
  obtain ⟨-, hkeys, ⟨-, hnodup, hissuable⟩, -, hnamespaces, -, hfailed⟩ :=
    served_invariant hserved hfew
  have hthere : "key-00000002" ∈ idsOf t.state := by
    rw [hids]
    simp
  exact ⟨hids, hnodup, hissuable _ hthere, hkeys, hnamespaces, rfl,
    (hfailed (.deleteInstallationKey "key-00000003") rfl).2⟩

end Push

end TenantSync
