/-
  TenantSync.Proofs.Config.Reference
  ──────────────────────────────────
  **WHERE A REFERENCE LEADS.**

  The lexical normal form of a path is what its components simplify to:

      a // b   ↦  a / b        nothing between two slashes
      a / . / b   ↦  a / b     the place itself
      a / .. / b  ↦  b         into a directory and out again
      / .. / b    ↦  / b       out of the root

  Whatever is simplified first, one path comes out in the end, and it is the one that
  `normalize` makes (`isNormalForm_iff`): a simplification does not change the stack of
  a path, and a path simplifies to its stack.

  A reference is to be taken from the directory of the document it stands in.  So it is,
  unless this directory is the root (`reference_leads`): what stands before the only
  slash of `/org.yaml` is as empty as what stands before the slashes of `org.yaml`, and
  a reference in either of them becomes a relative identifier.
-/
import Mathlib.Logic.Relation
import TenantSync.Files.Basic
import TenantSync.Proofs.Config.Path

namespace TenantSync.Config.Path

open Relation

/-! ## §1. Simplification. -/

/-- A component that leads into something, and not nowhere or out. -/
def LeadsIn (part : List Char) : Prop := part ≠ [] ∧ part ≠ ['.'] ∧ part ≠ up

/-- One simplification of the components of a path. -/
inductive Simplifies (absolute : Bool) : List (List Char) → List (List Char) → Prop
  /-- Nothing between two slashes. -/
  | blank (before after : List (List Char)) :
      Simplifies absolute (before ++ [] :: after) (before ++ after)
  /-- The place itself. -/
  | here (before after : List (List Char)) :
      Simplifies absolute (before ++ ['.'] :: after) (before ++ after)
  /-- Into something and out again. -/
  | back (before after : List (List Char)) {part : List Char} (h : LeadsIn part) :
      Simplifies absolute (before ++ part :: up :: after) (before ++ after)
  /-- Out of the root. -/
  | top (after : List (List Char)) (h : absolute = true) : Simplifies absolute (up :: after) after

/-- A path is the lexical normal form of another: the components of that one simplify to
its own, which simplify no further. -/
def IsNormalForm (path form : String) : Prop :=
  ∃ parts, ReflTransGen (Simplifies (isAbsolute path.toList)) (components path.toList) parts
    ∧ (∀ parts', ¬Simplifies (isAbsolute path.toList) parts parts')
    ∧ form.toList = (if isAbsolute path.toList then ['/'] else []) ++ join parts

section Stack

variable {absolute : Bool} {stack parts parts' : List (List Char)} {part : List Char}

/-- What a component does: nothing, or it leads out, or it leads in. -/
theorem part_cases (part : List Char) : part = [] ∨ part = ['.'] ∨ part = up ∨ LeadsIn part := by
  by_cases hblank : part = []
  · exact .inl hblank
  by_cases hhere : part = ['.']
  · exact .inr (.inl hhere)
  by_cases hup : part = up
  · exact .inr (.inr (.inl hup))
  · exact .inr (.inr (.inr ⟨hblank, hhere, hup⟩))

/-- What is on a stack and does not lead out leads in. -/
theorem Canonical.leadsIn (h : Canonical absolute stack) (hpart : part ∈ stack) (hup : part ≠ up) :
    LeadsIn part := by
  obtain ⟨hne, hhere, -⟩ := h.proper part hpart
  exact ⟨hne, hhere, hup⟩

theorem push_blank (absolute : Bool) (stack : List (List Char)) : push absolute stack [] = stack :=
  rfl

theorem push_here (absolute : Bool) (stack : List (List Char)) :
    push absolute stack ['.'] = stack := rfl

theorem push_leadsIn (h : LeadsIn part) : push absolute stack part = part :: stack := by
  unfold push
  have hup : part ≠ ['.', '.'] := h.2.2
  simp only [h.1, h.2.1, hup, decide_false, Bool.or_self, Bool.false_eq_true, if_false]

theorem push_up_leadsIn (h : LeadsIn part) : push absolute (part :: stack) up = stack := by
  have hup : part ≠ ['.', '.'] := h.2.2
  simp [push, up, hup]

/-- **A simplification does not change the stack.** -/
theorem Simplifies.foldl_push (h : Simplifies absolute parts parts') :
    parts.foldl (push absolute) [] = parts'.foldl (push absolute) [] := by
  cases h with
  | blank before after => rw [List.foldl_append, List.foldl_cons, push_blank, List.foldl_append]
  | here before after => rw [List.foldl_append, List.foldl_cons, push_here, List.foldl_append]
  | back before after hpart =>
      rw [List.foldl_append, List.foldl_cons, List.foldl_cons, push_leadsIn hpart,
        push_up_leadsIn hpart, List.foldl_append]
  | top _ habsolute => subst habsolute; rfl

theorem Simplifies.sublist (h : Simplifies absolute parts parts') : parts'.Sublist parts := by
  cases h with
  | blank before after => exact (List.sublist_cons_self _ _).append_left _
  | here before after => exact (List.sublist_cons_self _ _).append_left _
  | back before after _ =>
      exact ((List.sublist_cons_self _ _).trans (List.sublist_cons_self _ _)).append_left _
  | top => exact List.sublist_cons_self _ _

/-- A component that is put on the stack is a simplification, or none. -/
theorem Canonical.simplifies_push (h : Canonical absolute stack) (after : List (List Char)) :
    ReflTransGen (Simplifies absolute) (stack.reverse ++ part :: after)
      ((Path.push absolute stack part).reverse ++ after) := by
  rcases part_cases part with rfl | rfl | rfl | hin
  · exact .single (.blank _ _)
  · exact .single (.here _ _)
  · cases stack with
    | nil =>
        -- there is no way out of the root, and none back from the beginning of a relative path
        cases absolute with
        | true => exact .single (.top _ rfl)
        | false => exact .refl
    | cons last below =>
        by_cases hlast : last = up
        · -- what leads out of a relative path stays
          subst hlast
          cases absolute with
          | true => exact absurd List.mem_cons_self (h.bounded rfl)
          | false =>
              have hpush : (Path.push false (up :: below) up).reverse
                  = (up :: below).reverse ++ [up] := List.reverse_cons
              rw [hpush, List.append_assoc]
              exact .refl
        · have hin : LeadsIn last := h.leadsIn List.mem_cons_self hlast
          rw [push_up_leadsIn hin, List.reverse_cons, List.append_assoc]
          exact .single (.back _ _ hin)
  · rw [push_leadsIn hin, List.reverse_cons, List.append_assoc]
    exact .refl

/-- **Components simplify to the stack they come to.** -/
theorem Canonical.simplifies_foldl (h : Canonical absolute stack)
    (hslash : ∀ part ∈ parts, '/' ∉ part) :
    ReflTransGen (Simplifies absolute) (stack.reverse ++ parts)
      (parts.foldl (Path.push absolute) stack).reverse := by
  induction parts generalizing stack with
  | nil =>
      rw [List.append_nil]
      exact .refl
  | cons part parts ih =>
      obtain ⟨hpart, hparts⟩ := List.forall_mem_cons.1 hslash
      exact (h.simplifies_push parts).trans (ih (h.push hpart) hparts)

/-- A stack simplifies no further. -/
theorem Canonical.not_simplifies (h : Canonical absolute stack) :
    ¬Simplifies absolute stack.reverse parts := by
  intro hsimplifies
  -- what would be simplified away is on the stack
  have hmem : ∀ {part}, part ∈ stack.reverse → part ∈ stack := List.mem_reverse.1
  generalize hreverse : stack.reverse = components at hsimplifies hmem
  cases hsimplifies with
  | blank before after =>
      exact (h.proper [] (hmem (List.mem_append_right _ List.mem_cons_self))).1 rfl
  | here before after =>
      exact (h.proper ['.'] (hmem (List.mem_append_right _ List.mem_cons_self))).2.1 rfl
  | @back before after part hpart =>
      -- below a component that leads out there is no other
      have hstack : stack = after.reverse ++ up :: part :: before.reverse := by
        rw [← List.reverse_reverse stack, hreverse]
        simp
      have hclimbs := h.climbs
      rw [hstack, List.pairwise_append, List.pairwise_cons] at hclimbs
      exact hpart.2.2 (hclimbs.2.1.1 part List.mem_cons_self rfl)
  | top _ habsolute => exact h.bounded habsolute (hmem List.mem_cons_self)

end Stack

/-- The identifier of a path from the root of all documents, by the stack of the path. -/
theorem toList_includeId_root (path : String) :
    (includeId "" path).toList
      = (if isAbsolute path.toList then ['/'] else []) ++ join (stackOf path.toList).reverse := by
  rw [includeId_root, String.toList_ofList, normalize_eq]

/-- What components come to by simplifications has the same stack, and nothing new. -/
theorem simplified {absolute : Bool} {parts parts' : List (List Char)}
    (h : ReflTransGen (Simplifies absolute) parts parts') :
    parts.foldl (push absolute) [] = parts'.foldl (push absolute) [] ∧ parts'.Sublist parts := by
  induction h with
  | refl => exact ⟨rfl, .refl _⟩
  | tail _ hstep ih => exact ⟨ih.1.trans hstep.foldl_push, hstep.sublist.trans ih.2⟩

/-- **Every path has one lexical normal form**, the one it is normalised to. -/
theorem isNormalForm_iff {path form : String} :
    IsNormalForm path form ↔ form = includeId "" path := by
  have hslash := slash_not_mem_components path.toList
  constructor
  · rintro ⟨parts, hreach, hirreducible, hform⟩
    obtain ⟨hstack, hsublist⟩ := simplified hreach
    -- the components that are left simplify to the stack of the path, so they are it
    have hparts := (Canonical.nil (isAbsolute path.toList)).simplifies_foldl
      fun part hpart => hslash part (hsublist.subset hpart)
    rw [← hstack] at hparts
    have heq : parts = (stackOf path.toList).reverse := by
      rcases hparts.cases_head with heq | ⟨next, hstep, -⟩
      · exact heq
      · exact absurd hstep (hirreducible next)
    refine String.toList_inj.1 ?_
    rw [hform, toList_includeId_root, heq]
  · rintro rfl
    exact ⟨(stackOf path.toList).reverse, (Canonical.nil _).simplifies_foldl hslash,
      fun _ => (canonical_stackOf _).not_simplifies, toList_includeId_root path⟩

/-- A path and its normal form are both absolute, or both relative. -/
theorem isAbsolute_includeId_root (path : String) :
    isAbsolute (includeId "" path).toList = isAbsolute path.toList := by
  rw [includeId_root, String.toList_ofList]
  cases habsolute : isAbsolute path.toList with
  | false => exact isAbsolute_normalize habsolute
  | true =>
      rw [normalize_eq, habsolute]
      rfl

/-! ## §2. The directory of a document. -/

/-- The directory of a path: the text before the last slash, where the one before the
slash that a path begins with is the root. -/
inductive DirectoryOf : String → String → Prop
  | here {name : String} (hname : '/' ∉ name.toList) : DirectoryOf name ""
  | top {name : String} (hname : '/' ∉ name.toList) : DirectoryOf (under "" name) "/"
  | below {dir name : String} (hdir : dir ≠ "") (hname : '/' ∉ name.toList) :
      DirectoryOf (under dir name) dir

/-- A path without a slash but the one it begins with. -/
def AtTop (path : String) : Prop := ∃ name : String, '/' ∉ name.toList ∧ path = under "" name

theorem beforeLastSlash?_of_no_slash {path : List Char} (h : '/' ∉ path) :
    beforeLastSlash? path = none := by
  cases hbefore : beforeLastSlash? path with
  | none => rfl
  | some before =>
      obtain ⟨rest, rfl⟩ := eq_append_of_beforeLastSlash? hbefore
      exact absurd (List.mem_append_right _ List.mem_cons_self) h

/-- Before a name there is its directory. -/
theorem beforeLastSlash?_under (dir : String) {name : String} (hname : '/' ∉ name.toList) :
    beforeLastSlash? (under dir name).toList = some dir.toList := by
  rw [toList_under, beforeLastSlash?_append, beforeLastSlash?_of_no_slash hname]

/-- The text before the last slash of a path tells what its directory is. -/
theorem DirectoryOf.eq {path dir : String} (h : DirectoryOf path dir) :
    dir = match beforeLastSlash? path.toList with
      | none => ""
      | some [] => "/"
      | some (c :: before) => String.ofList (c :: before) := by
  cases h with
  | here hname => rw [beforeLastSlash?_of_no_slash hname]
  | top hname => rw [beforeLastSlash?_under "" hname]; rfl
  | below hdir hname =>
      rw [beforeLastSlash?_under dir hname]
      cases hlist : dir.toList with
      | nil => exact absurd (String.toList_inj.1 hlist) hdir
      | cons c before => exact (hlist ▸ String.ofList_toList).symm

theorem DirectoryOf.unique {path dir dir' : String} (h : DirectoryOf path dir)
    (h' : DirectoryOf path dir') : dir' = dir := h'.eq.trans h.eq.symm

/-- Every path has a directory. -/
theorem exists_directoryOf (path : String) : ∃ dir, DirectoryOf path dir := by
  by_cases hslash : '/' ∈ path.toList
  · -- the last slash is the first one from the end
    obtain ⟨after, before, hsplit, hafter⟩ :=
      List.eq_append_cons_of_mem (List.mem_reverse.2 hslash)
    have hpath : path = under (String.ofList before.reverse) (String.ofList after.reverse) := by
      refine String.toList_inj.1 ?_
      rw [toList_under, String.toList_ofList, String.toList_ofList,
        ← List.reverse_reverse path.toList, hsplit]
      simp
    have hname : '/' ∉ (String.ofList after.reverse).toList := by
      rw [String.toList_ofList, List.mem_reverse]
      exact hafter
    rw [hpath]
    by_cases hbefore : String.ofList before.reverse = ""
    · rw [hbefore]
      exact ⟨"/", .top hname⟩
    · exact ⟨_, .below hbefore hname⟩
  · exact ⟨"", .here hslash⟩

/-- Nothing stands before the last slash of a path at the top. -/
theorem AtTop.beforeLastSlash? {path : String} (h : AtTop path) :
    Path.beforeLastSlash? path.toList = some [] := by
  obtain ⟨name, hname, rfl⟩ := h
  exact beforeLastSlash?_under "" hname

/-! ## §3. References. -/

/-- Two slashes are as good as one. -/
theorem normalize_slash_slash (before rest : List Char) :
    normalize (before ++ '/' :: '/' :: rest) = normalize (before ++ '/' :: rest) := by
  have habsolute : isAbsolute (before ++ '/' :: '/' :: rest)
      = isAbsolute (before ++ '/' :: rest) := by
    cases before <;> rfl
  have hstack : stackOf (before ++ '/' :: '/' :: rest) = stackOf (before ++ '/' :: rest) := by
    unfold stackOf
    rw [habsolute, components_append, components_append, components_slash, List.foldl_append,
      List.foldl_cons, push_blank, List.foldl_append]
  rw [normalize_eq, normalize_eq, habsolute, hstack]

/-- Where nothing stands before the last slash, a reference is taken as it is written. -/
theorem includeId_of_empty {parent : String} (reference : String)
    (hparent : (beforeLastSlash? parent.toList).getD [] = []) :
    includeId parent reference = includeId "" reference := by
  rw [includeId_root]
  unfold includeId
  simp only [hparent, List.isEmpty_nil, Bool.or_true, if_true]

theorem AtTop.includeId {parent : String} (h : AtTop parent) (reference : String) :
    Path.includeId parent reference = Path.includeId "" reference :=
  includeId_of_empty reference (by rw [h.beforeLastSlash?]; rfl)

/-- A path and its directory are both absolute, or both relative. -/
theorem DirectoryOf.isAbsolute_eq {path dir : String} (h : DirectoryOf path dir) :
    isAbsolute path.toList = isAbsolute dir.toList := by
  cases h with
  | here hname =>
      cases hlist : path.toList with
      | nil => rfl
      | cons c rest =>
          rw [hlist] at hname
          have hc : c ≠ '/' := fun heq => hname (heq ▸ List.mem_cons_self)
          exact beq_false_of_ne fun heq => hc (Option.some.inj heq)
  | top => rw [toList_under]; rfl
  | below hdir =>
      rw [toList_under]
      cases hlist : dir.toList with
      | nil => exact absurd (String.toList_inj.1 hlist) hdir
      | cons c rest => rfl

theorem join_empty (reference : String) : Files.join "" reference = reference := by
  unfold Files.join
  rw [if_pos]
  exact Bool.or_true _

section Relative

variable {reference : String} (hreference : isAbsolute reference.toList = false)
include hreference

/-- A reference joined to a directory has the normal form of both with a slash between them. -/
theorem includeId_join {dir : String} (hdir : dir ≠ "") :
    includeId "" (Files.join dir reference) = includeId "" (under dir reference) := by
  have hhead : (reference.toList.head? == some '/' || dir.isEmpty) = false := by
    have hempty : dir.isEmpty = false := by simpa using hdir
    rw [hempty, Bool.or_false]
    exact hreference
  unfold Files.join
  rw [hhead, if_neg Bool.false_ne_true]
  by_cases hlast : dir.toList.getLast? = some '/'
  · -- the slash that the directory ends with is not written twice
    obtain ⟨before, hbefore⟩ := List.getLast?_eq_some_iff.1 hlast
    rw [if_pos (beq_iff_eq.2 hlast), includeId_root, includeId_root, toList_under,
      String.toList_append, hbefore, List.append_assoc, List.append_assoc]
    exact congrArg String.ofList (normalize_slash_slash before reference.toList).symm
  · rw [if_neg fun h => hlast (beq_iff_eq.1 h)]
    rfl

/-- A reference joined to a directory is absolute where the directory is. -/
theorem isAbsolute_includeId_join (dir : String) :
    isAbsolute (includeId "" (Files.join dir reference)).toList = isAbsolute dir.toList := by
  by_cases hdir : dir = ""
  · subst hdir
    rw [isAbsolute_includeId_root, join_empty]
    exact hreference
  · rw [includeId_join hreference hdir, isAbsolute_includeId_root, toList_under]
    cases hlist : dir.toList with
    | nil => exact absurd (String.toList_inj.1 hlist) hdir
    | cons c rest => rfl

/-- **Below the top, a reference is taken from the directory of its document.** -/
theorem DirectoryOf.includeId {parent dir : String} (h : DirectoryOf parent dir)
    (htop : ¬AtTop parent) :
    Path.includeId parent reference = Path.includeId "" (Files.join dir reference) := by
  cases h with
  | here hname =>
      rw [join_empty]
      exact includeId_of_empty reference (by rw [beforeLastSlash?_of_no_slash hname]; rfl)
  | top hname => exact absurd ⟨_, hname, rfl⟩ htop
  | below hdir hname =>
      have hempty : dir.toList.isEmpty = false := by simpa using hdir
      rw [includeId_join hreference hdir, includeId_root, toList_under]
      unfold Path.includeId
      simp only [beforeLastSlash?_under dir hname, Option.getD_some, hreference, hempty,
        Bool.or_self, Bool.false_eq_true, if_false]

end Relative

/-- **A reference leads from the directory of the document it stands in**, and from an
absolute document to an absolute one, unless the document stands at the top: there the
reference is taken as it is written, and leads to a relative identifier. -/
theorem reference_leads (parent reference : String)
    (hreference : isAbsolute reference.toList = false) :
    ∃ dir, DirectoryOf parent dir ∧ (∀ dir', DirectoryOf parent dir' → dir' = dir)
      ∧ (IsNormalForm (Files.join dir reference) (includeId parent reference) ↔ ¬AtTop parent)
      ∧ (AtTop parent → IsNormalForm reference (includeId parent reference))
      ∧ (isAbsolute parent.toList = true →
          (isAbsolute (includeId parent reference).toList = true ↔ ¬AtTop parent)) := by
  obtain ⟨dir, hdir⟩ := exists_directoryOf parent
  have hjoined := isAbsolute_includeId_join hreference dir
  have hbelow := hdir.includeId hreference
  have hat : AtTop parent → isAbsolute (includeId parent reference).toList = false := by
    intro htop
    rw [htop.includeId, isAbsolute_includeId_root]
    exact hreference
  simp only [isNormalForm_iff]
  refine ⟨dir, hdir, fun _ hdir' => hdir.unique hdir', ⟨?_, hbelow⟩, fun h => h.includeId reference,
    fun habsolute => ⟨?_, ?_⟩⟩
  · -- at the top the directory is the root, and the reference does not lead from there
    rintro hform ⟨name, hname, rfl⟩
    have hroot : dir = "/" := (DirectoryOf.top hname).unique hdir
    rw [← hform, hat ⟨name, hname, rfl⟩, hroot] at hjoined
    cases hjoined
  · intro hid htop
    rw [hat htop] at hid
    cases hid
  · intro htop
    rw [hbelow htop, hjoined, ← hdir.isAbsolute_eq]
    exact habsolute

/-- From a document two directories below the root, up one and down another. -/
theorem reference_leads_up :
    DirectoryOf "/org//main/a.yaml" "/org//main"
      ∧ IsNormalForm (Files.join "/org//main" "../shared/./b.yaml") "/org/shared/b.yaml"
      ∧ includeId "/org//main/a.yaml" "../shared/./b.yaml" = "/org/shared/b.yaml" := by
  have hdir : DirectoryOf "/org//main/a.yaml" "/org//main" :=
    @DirectoryOf.below "/org//main" "a.yaml" (by decide) (by decide)
  have htop : ¬AtTop "/org//main/a.yaml" := fun h => by
    have hbefore := h.beforeLastSlash?
    revert hbefore
    decide +kernel
  have hid : includeId "/org//main/a.yaml" "../shared/./b.yaml" = "/org/shared/b.yaml" := by
    decide +kernel
  obtain ⟨dir, -, hunique, hform, -⟩ :=
    reference_leads "/org//main/a.yaml" "../shared/./b.yaml" (by decide)
  refine ⟨hdir, ?_, hid⟩
  rw [hunique _ hdir, ← hid]
  exact hform.2 htop

/-- What stands at the top refers to something below the root, and leads elsewhere: the
identifier is relative. -/
theorem top_leads_astray :
    DirectoryOf "/org.yaml" "/" ∧ IsNormalForm (Files.join "/" "shared.yaml") "/shared.yaml"
      ∧ includeId "/org.yaml" "shared.yaml" = "shared.yaml"
      ∧ ¬IsNormalForm (Files.join "/" "shared.yaml") (includeId "/org.yaml" "shared.yaml") := by
  rw [isNormalForm_iff, isNormalForm_iff]
  exact ⟨@DirectoryOf.top "org.yaml" (by decide), by decide +kernel, by decide +kernel,
    by decide +kernel⟩

end TenantSync.Config.Path
