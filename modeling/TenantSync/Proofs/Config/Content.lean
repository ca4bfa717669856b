/-
  TenantSync.Proofs.Config.Content
  ────────────────────────────────
  **CONTENTS ARE COMPARED BY WHAT THEY ARE.**

  The comparison of every kind of element is an equivalence, because it is put
  together from comparisons that are:

      equality, lists as sets, free-form data up to the sign of zero
      one comparison and another one
      a comparison of parts

  So an element has its own content, and whether two have one content does not
  depend on which elements stand for the contents (`Compares.congr`).  For rules it
  has to be said a little more, because a rule is stored with the name and the
  namespace it is stored under, neither of which is content.
-/
import TenantSync.Config.Element

namespace TenantSync.Config

/-! ## §1. Comparisons and how they are put together. -/

/-- The comparison is an equivalence. -/
def Compares {α : Type} (same : α → α → Bool) : Prop := Equivalence fun a b => same a b = true

namespace Compares

variable {α β : Type} {same same' : α → α → Bool}

theorem beq [BEq α] [LawfulBEq α] : Compares fun a b : α => a == b where
  refl := fun a => beq_self_eq_true a
  symm := by
    intro a b h
    rw [beq_iff_eq] at h ⊢
    exact h.symm
  trans := by
    intro a b c h h'
    rw [beq_iff_eq] at h h' ⊢
    exact h.trans h'

theorem and (h : Compares same) (h' : Compares same') :
    Compares fun a b => same a b && same' a b where
  refl := by
    intro a
    show (same a a && same' a a) = true
    rw [h.refl a, h'.refl a, Bool.and_self]
  symm := by
    intro a b hab
    rw [Bool.and_eq_true] at hab ⊢
    exact ⟨h.symm hab.1, h'.symm hab.2⟩
  trans := by
    intro a b c hab hbc
    rw [Bool.and_eq_true] at hab hbc ⊢
    exact ⟨h.trans hab.1 hbc.1, h'.trans hab.2 hbc.2⟩

/-- Things may be compared by a part of them. -/
theorem on (h : Compares same) (part : β → α) : Compares fun a b => same (part a) (part b) where
  refl := fun a => h.refl (part a)
  symm := fun hab => h.symm hab
  trans := fun hab hbc => h.trans hab hbc

/-- **What is compared may be exchanged** for something of the same content, on both sides. -/
theorem congr (h : Compares same) {a a' b b' : α} (ha : same a a' = true) (hb : same b b' = true) :
    same a b = same a' b' := by
  rw [Bool.eq_iff_iff]
  constructor
  · intro hab
    exact h.trans (h.symm ha) (h.trans hab hb)
  · intro hab
    exact h.trans ha (h.trans hab (h.symm hb))

end Compares

/-- Lists are the same set if they have the same members. -/
theorem sameSet_iff {a b : List String} : sameSet a b = true ↔ ∀ name, name ∈ a ↔ name ∈ b := by
  unfold sameSet
  simp only [Bool.and_eq_true, List.all_eq_true, List.contains_iff_mem]
  constructor
  · intro h name
    exact ⟨h.1 name, h.2 name⟩
  · intro h
    exact ⟨fun name => (h name).1, fun name => (h name).2⟩

theorem compares_sameSet : Compares sameSet where
  refl := fun a => sameSet_iff.2 fun _ => Iff.rfl
  symm := by
    intro a b h
    rw [sameSet_iff] at h ⊢
    exact fun name => (h name).symm
  trans := by
    intro a b c h h'
    rw [sameSet_iff] at h h' ⊢
    exact fun name => (h name).trans (h' name)

/-- Free-form data are compared without the signs of their zeros. -/
theorem compares_payload : Compares Payload.same := by
  have hsame : Payload.same = fun a b => decide (a.value.clearZeroSigns = b.value.clearZeroSigns) :=
    rfl
  rw [hsame]
  exact (Compares.beq (α := Value)).on fun a : Payload => a.value.clearZeroSigns

/-! ## §2. The kinds of elements. -/

theorem Rule.compares : Compares Rule.sameContent :=
  ((compares_payload.on Rule.detect).and (compares_payload.on Rule.respond)).and
    (Compares.beq.on Rule.enabled)

/-- Names and namespaces are not content. -/
theorem Rule.sameContent_renamed (r : Rule) (name ns : String) :
    r.sameContent { r with name, ruleNamespace := ns } = true :=
  Rule.compares.refl r

theorem FalsePositive.compares : Compares FalsePositive.sameContent :=
  compares_payload.on FalsePositive.data

theorem Output.compares : Compares Output.sameContent :=
  ((Compares.beq.on Output.module).and (Compares.beq.on Output.stream)).and
    (Compares.beq.on fun o : Output => o.params.map (·.value.clearZeroSigns))

theorem IntegrityRule.compares : Compares IntegrityRule.sameContent :=
  ((compares_sameSet.on IntegrityRule.patterns).and (compares_sameSet.on IntegrityRule.tags)).and
    (compares_sameSet.on IntegrityRule.platforms)

theorem ExfilWatch.compares : Compares ExfilWatch.sameContent :=
  (((((Compares.beq.on ExfilWatch.event).and (Compares.beq.on ExfilWatch.operator)).and
    (Compares.beq.on ExfilWatch.value)).and (Compares.beq.on ExfilWatch.path)).and
    (compares_sameSet.on ExfilWatch.tags)).and (compares_sameSet.on ExfilWatch.platforms)

theorem Filters.compares : Compares Filters.sameContent :=
  (compares_sameSet.on Filters.tags).and (compares_sameSet.on Filters.platforms)

theorem ExfilEvent.compares : Compares ExfilEvent.sameContent :=
  (compares_sameSet.on ExfilEvent.events).and (Filters.compares.on ExfilEvent.filters)

theorem ArtifactRule.compares : Compares ArtifactRule.sameContent :=
  (((((Compares.beq.on ArtifactRule.ignoreCert).and (Compares.beq.on ArtifactRule.deleteAfter)).and
    (Compares.beq.on ArtifactRule.daysRetention)).and
    (compares_sameSet.on ArtifactRule.patterns)).and (compares_sameSet.on ArtifactRule.tags)).and
    (compares_sameSet.on ArtifactRule.platforms)

theorem YaraRule.compares : Compares YaraRule.sameContent :=
  (compares_sameSet.on YaraRule.sources).and (Filters.compares.on YaraRule.filters)

theorem YaraSource.compares : Compares YaraSource.sameContent :=
  Compares.beq.on YaraSource.source

theorem InstallationKey.compares : Compares InstallationKey.sameContent :=
  (compares_sameSet.on InstallationKey.tags).and (Compares.beq.on InstallationKey.usePublicRootCa)

end TenantSync.Config
