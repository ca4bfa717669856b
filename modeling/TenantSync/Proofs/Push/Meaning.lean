/-
  TenantSync.Proofs.Push.Meaning
  ──────────────────────────────
  **ONLY WHAT A DOCUMENT MEANS COUNTS.**

  Two documents mean the same if their sections have the same names, with elements
  of the same content under each, and

      a rule               lives in one namespace in both
      an installation key  has one identity in both
      settings             are equal
      resources            are listed as the same pairs, in whatever order

  Pushed to one tenant, documents that mean the same are one push: one result, one
  log, the same faults met, and two states whose elements have the same content and
  the same identifiers (`push_same_meaning`).
-/
import TenantSync.Proofs.Push.Simulation

namespace TenantSync.Push

open Config Tenant

/-! ## §1. Documents that mean the same. -/

/-- Two documents mean the same. -/
structure SameMeaning (c c' : Config) : Prop where
  resources : ∀ pair, pair ∈ c.resourcePairs ↔ pair ∈ c'.resourcePairs
  rules : NameMap.Related (fun r r' => r.sameContent r' = true
    ∧ r.effectiveNamespace = r'.effectiveNamespace) c.rules c'.rules
  falsePositives : NameMap.Related (fun e e' => e.sameContent e' = true) c.falsePositives
    c'.falsePositives
  outputs : NameMap.Related (fun e e' => e.sameContent e' = true) c.outputs c'.outputs
  integrity : NameMap.Related (fun e e' => e.sameContent e' = true) c.integrity c'.integrity
  exfilWatches : NameMap.Related (fun e e' => e.sameContent e' = true) c.exfil.watches
    c'.exfil.watches
  exfilEvents : NameMap.Related (fun e e' => e.sameContent e' = true) c.exfil.events
    c'.exfil.events
  artifacts : NameMap.Related (fun e e' => e.sameContent e' = true) c.artifacts c'.artifacts
  yaraSources : NameMap.Related (fun e e' => e.sameContent e' = true) c.yara.sources
    c'.yara.sources
  yaraRules : NameMap.Related (fun e e' => e.sameContent e' = true) c.yara.rules c'.yara.rules
  installationKeys : NameMap.Related (fun k k' => k.sameContent k' = true) c.installationKeys
    c'.installationKeys
  identity : ∀ name k k', c.installationKeys.get? name = some k →
    c'.installationKeys.get? name = some k' → Store.keyIdentity name k = Store.keyIdentity name k'
  orgValues : c'.orgValues = c.orgValues

/-- Two bodies count as one: they have the same content, and installation keys are
found by the same description. -/
def Pass.SameBody : (p : Pass) → p.Body → p.Body → Prop
  | .installationKeys, k, k' => k.sameContent k' = true ∧ k.desc = k'.desc
  | p, b, b' => (p.store []).same b b' = true

/-- Two elements differ at most in how their content is put down and in their times. -/
def SameElement (p : Pass) (r r' : Remote p.Body) : Prop :=
  p.SameBody r.body r'.body ∧ r.info.id = r'.info.id ∧ r.info.createdBy = r'.info.createdBy

/-! ## §2. The tolerance of documents that mean the same. -/

theorem Pass.store_same (table : List String) (p : Pass) :
    (p.store table).same = (p.store []).same := by
  cases p <;> rfl

namespace Pass.SameBody

variable {p : Pass} {b b' : p.Body}

theorem same (h : p.SameBody b b') : (p.store []).same b b' = true := by
  cases p with
  | installationKeys => exact h.1
  | _ => exact h

theorem refl (p : Pass) (b : p.Body) : p.SameBody b b := by
  cases p with
  | installationKeys => exact ⟨InstallationKey.compares.refl b, rfl⟩
  | _ => exact (Pass.store_compares [] _).refl b

/-- Outside of installation keys, bodies of the same content count as one. -/
theorem of_same (hp : p ≠ .installationKeys) (h : (p.store []).same b b' = true) :
    p.SameBody b b' := by
  cases p with
  | installationKeys => exact absurd rfl hp
  | _ => exact h

end Pass.SameBody

/-- Contents may be put down in different ways, and times may differ. -/
def Tolerance.contents : Tolerance where
  wanted := fun p b b' => (p.store []).same b b' = true
  held := Pass.SameBody
  info := SameSource
  now := fun _ _ => True
  faults := Eq
  ids := True
  wanted_refl := fun p b => (Pass.store_compares [] p).refl b
  held_refl := Pass.SameBody.refl
  same := by
    intro table p a a' b b' ha hb
    rw [Pass.store_same table]
    exact (Pass.store_compares [] p).congr ha hb.same
  plain := by
    intro p sec b b' hsec h
    refine .of_same ?_ h
    rintro rfl
    cases hsec
  rule := fun _ _ _ _ h => h
  key := fun _ _ _ h => ⟨h, rfl⟩
  desc := fun h => h.2
  setting := fun h => beq_iff_eq.1 h
  known := .sameSource
  met := .eq

/-! ## §3. They are desired alike, and invalid alike. -/

section SameMeaning

variable {c c' : Config} (h : SameMeaning c c')
include h

theorem SameMeaning.desiredResources : desiredResources c' = desiredResources c := by
  unfold Push.desiredResources
  refine NameMap.set_ofList_congr fun id => ?_
  -- the names of the pairs are those of the same pairs
  rw [List.mem_map, List.mem_map]
  exact exists_congr fun pair => and_congr_left' (h.resources pair).symm

theorem SameMeaning.desired (p : Pass) :
    NameMap.Related (Tolerance.contents.wanted p) (p.desired c) (p.desired c') := by
  cases p with
  | resources =>
      show NameMap.Related _ (Push.desiredResources c) (Push.desiredResources c')
      rw [h.desiredResources]
      exact .refl (Tolerance.contents.wanted_refl .resources) _
  | rules ns =>
      refine (h.rules.filter fun hr => ?_).mono fun hr => hr.1
      rw [hr.2]
  | falsePositives => exact h.falsePositives
  | outputs => exact h.outputs
  | integrity => exact h.integrity
  | exfilWatches => exact h.exfilWatches
  | exfilEvents => exact h.exfilEvents
  | artifacts => exact h.artifacts
  | yaraSources => exact h.yaraSources
  | yaraRules => exact h.yaraRules
  | installationKeys => exact h.installationKeys
  | orgValues =>
      show NameMap.Related _ (desiredOrgValues c) (desiredOrgValues c')
      unfold desiredOrgValues
      rw [h.orgValues]
      exact .refl (Tolerance.contents.wanted_refl .orgValues) _

theorem SameMeaning.asks : Tolerance.contents.Asks c c' where
  desired := h.desired
  identity := h.identity
  rules := h.rules.isEmpty.symm
  namespaces := by
    have hvalues : List.Forall₂ Eq (c.rules.values.map Rule.effectiveNamespace)
        (c'.rules.values.map Rule.effectiveNamespace) := by
      rw [List.forall₂_map_left_iff, List.forall₂_map_right_iff]
      exact h.rules.values.imp fun _ _ hr => hr.2
    rw [List.forall₂_eq_eq_eq] at hvalues
    unfold Config.ruleNamespaces
    rw [hvalues]

omit h in
/-- The search for a shared identity sees names and identities only. -/
theorem sharedDescription?_go_congr {l l' : List (String × InstallationKey)}
    (hl : List.Forall₂ (fun e f => e.1 = f.1
      ∧ Store.keyIdentity e.1 e.2 = Store.keyIdentity f.1 f.2) l l') :
    ∀ seen, sharedDescription?.go seen l = sharedDescription?.go seen l' := by
  induction hl with
  | nil => exact fun _ => rfl
  | @cons e f l l' hef _ ih =>
      intro seen
      obtain ⟨hname, hidentity⟩ := hef
      unfold sharedDescription?.go
      simp only
      rw [hidentity, hname]
      cases seen.get? (Store.keyIdentity f.1 f.2) with
      | some first => rfl
      | none => exact ih _

theorem SameMeaning.invalid? (table : List String) (o : Options) :
    invalid? table c' o = invalid? table c o := by
  have hshared : sharedDescription? c' = sharedDescription? c := by
    unfold sharedDescription?
    refine (sharedDescription?_go_congr ?_ _).symm
    refine h.installationKeys.entries_held.imp fun e f hef => ?_
    obtain ⟨hname, -, he, hf⟩ := hef
    refine ⟨hname, ?_⟩
    rw [← hname]
    exact h.identity e.1 e.2 f.2 he hf
  unfold Push.invalid? unknownOrgValues
  rw [h.orgValues, hshared]

end SameMeaning

/-! ## §4. The push. -/

/-- **Only what a document means counts.**  Whatever a tenant holds and whichever calls
fail, documents that mean the same are pushed to it with one result: refused for one
reason, failed at one listing, or with the same operations and failures.  The same
mutations are logged, and the states that are left hold, under the same names, elements
of the same content and identifiers; so it is if the second push is made at another time. -/
theorem push_same_meaning (table : List String) (o : Options) {c c' : Config}
    (h : SameMeaning c c') (t : Tenant) (later : Timestamp) :
    (exec (pushWith table o c') { t with now := later }).1 = (exec (pushWith table o c) t).1
    ∧ AlikeUpTo SameElement (exec (pushWith table o c) t).2
        (exec (pushWith table o c') { t with now := later }).2 := by
  obtain ⟨hresult, hend⟩ := push_matches table h.asks (h.invalid? table o) (fun _ => trivial)
    (fun _ _ => trivial) (Tolerance.On.later rfl trivial)
  exact ⟨hresult.symm, hend.alikeUpTo trivial Eq.symm⟩

/-- A rule that is enabled without saying so, patterns in another order and a key that is
described by its own name are no news: the two documents differ in all three, and are
pushed to one result. -/
theorem push_same_meaning_reordered :
    let o : Options := ⟨{}, fun c => c == .rules || c == .integrity || c == .installationKeys⟩
    let c : Config :=
      { rules := .ofList [("r", { enabled? := some true })]
        integrity := .ofList [("i", { patterns := ["x", "y"] })]
        installationKeys := .ofList [("k", { desc := "k" })] }
    let c' : Config :=
      { rules := .ofList [("r", { ruleNamespace := "general" })]
        integrity := .ofList [("i", { patterns := ["y", "x", "y"] })]
        installationKeys := .ofList [("k", {})] }
    let t : Tenant := { now := ⟨0, 0⟩ }
    SameMeaning c c'
      ∧ (exec (pushWith [] o c) t).1 = .ok [.add .rule "general/r", .add .integrity "i",
          .add .installationKey "k"]
      ∧ (exec (pushWith [] o c') { t with now := ⟨1, 0⟩ }).1 = (exec (pushWith [] o c) t).1
      ∧ AlikeUpTo SameElement (exec (pushWith [] o c) t).2
          (exec (pushWith [] o c') { t with now := ⟨1, 0⟩ }).2 := by
  intro o c c' t
  have hsame : SameMeaning c c' :=
    { resources := fun _ => Iff.rfl
      rules := .ofList (.cons ⟨rfl, by decide⟩ .nil)
      falsePositives := .empty
      outputs := .empty
      integrity := .ofList (.cons ⟨rfl, by decide⟩ .nil)
      exfilWatches := .empty
      exfilEvents := .empty
      artifacts := .empty
      yaraSources := .empty
      yaraRules := .empty
      installationKeys := .ofList (.cons ⟨rfl, by decide⟩ .nil)
      identity := by
        intro name k k' hk hk'
        obtain ⟨rfl, rfl⟩ : name = "k" ∧ k = { desc := "k" } := by
          simpa [c, NameMap.ofList, NameMap.insertAll, NameMap.get?_insert, eq_comm] using hk
        obtain rfl : k' = {} := by
          simpa [c', NameMap.ofList, NameMap.insertAll, NameMap.get?_insert, eq_comm] using hk'
        decide
      orgValues := rfl }
  exact ⟨hsame, by decide +kernel, push_same_meaning [] o hsame t ⟨1, 0⟩⟩

end TenantSync.Push
