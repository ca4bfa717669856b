/-
  TenantSync.Proofs.Config.Path
  ─────────────────────────────
  **WHAT A PATH IN NORMAL FORM LOOKS LIKE.**

  A path is normalised by putting its components on a stack one after the other.
  Whatever they are, the stack stays `Canonical`:

      every component is a name or `..`, and has no slash
      below a `..` there are only `..`
      on an absolute path there is none

  A `..` that has come to the stack never leaves it.  So where the stack of a relative
  path ends up without one, no component of the path ever reached below the place
  where it began, and what lies there makes no difference (`foldl_push_append`).
  Hence the normal form of a path in a directory is the normal form of the path, in
  that directory (`normalize_under`).
-/
import TenantSync.Config.Path

namespace TenantSync.Config.Path

/-! ## §1. Components. -/

/-- The component that leads out of a directory. -/
def up : List Char := ['.', '.']

theorem components_ne_nil (path : List Char) : components path ≠ [] := by
  cases path with
  | nil => exact List.cons_ne_nil _ _
  | cons c rest =>
      unfold components
      split
      · exact List.cons_ne_nil _ _
      · split <;> exact List.cons_ne_nil _ _

theorem components_slash (rest : List Char) :
    components ('/' :: rest) = [] :: components rest := by
  rw [components, if_pos rfl]

/-- The components of two paths with a slash between them. -/
theorem components_append (path rest : List Char) :
    components (path ++ '/' :: rest) = components path ++ components rest := by
  induction path with
  | nil => exact components_slash rest
  | cons c path ih =>
      show components (c :: (path ++ '/' :: rest)) = _
      rw [components, components, ih]
      by_cases hc : c = '/'
      · rw [if_pos hc, if_pos hc]
        rfl
      · rw [if_neg hc, if_neg hc]
        -- the first component of `path` goes on with `c` on both sides
        cases hpath : components path with
        | nil => exact absurd hpath (components_ne_nil path)
        | cons head tail => rfl

theorem slash_not_mem_components (path : List Char) : ∀ part ∈ components path, '/' ∉ part := by
  induction path with
  | nil =>
      intro part hpart
      rw [List.mem_singleton.1 hpart]
      exact List.not_mem_nil
  | cons c path ih =>
      intro part hpart
      rw [components] at hpart
      by_cases hc : c = '/'
      · rw [if_pos hc] at hpart
        rcases List.mem_cons.1 hpart with rfl | hpart
        · exact List.not_mem_nil
        · exact ih part hpart
      · rw [if_neg hc] at hpart
        cases hpath : components path with
        | nil => exact absurd hpath (components_ne_nil path)
        | cons head tail =>
            rw [hpath] at hpart ih
            rcases List.mem_cons.1 hpart with rfl | hpart
            · intro hslash
              rcases List.mem_cons.1 hslash with heq | hslash
              · exact hc heq.symm
              · exact ih head List.mem_cons_self hslash
            · exact ih part (List.mem_cons_of_mem _ hpart)

theorem components_of_no_slash {part : List Char} (h : '/' ∉ part) : components part = [part] := by
  induction part with
  | nil => rfl
  | cons c part ih =>
      rw [List.mem_cons, not_or] at h
      rw [components, if_neg (Ne.symm h.1), ih h.2]

theorem join_append {parts parts' : List (List Char)} (h : parts ≠ []) (h' : parts' ≠ []) :
    join (parts ++ parts') = join parts ++ '/' :: join parts' := by
  induction parts with
  | nil => exact absurd rfl h
  | cons part rest ih =>
      cases rest with
      | nil =>
          cases parts' with
          | nil => exact absurd rfl h'
          | cons next parts' => rfl
      | cons next rest =>
          show part ++ '/' :: join (next :: rest ++ parts')
            = (part ++ '/' :: join (next :: rest)) ++ _
          rw [ih (List.cons_ne_nil _ _), List.append_assoc]
          rfl

/-- What was joined is taken apart again. -/
theorem components_join {parts : List (List Char)} (h : parts ≠ [])
    (hslash : ∀ part ∈ parts, '/' ∉ part) : components (join parts) = parts := by
  induction parts with
  | nil => exact absurd rfl h
  | cons part rest ih =>
      obtain ⟨hpart, hrest⟩ := List.forall_mem_cons.1 hslash
      cases rest with
      | nil => exact components_of_no_slash hpart
      | cons next rest =>
          show components (part ++ '/' :: join (next :: rest)) = _
          rw [components_append, components_of_no_slash hpart, ih (List.cons_ne_nil _ _) hrest]
          rfl

/-! ## §2. The stack. -/

/-- What the stack of a path looks like, the last component first. -/
structure Canonical (absolute : Bool) (stack : List (List Char)) : Prop where
  proper : ∀ part ∈ stack, part ≠ [] ∧ part ≠ ['.'] ∧ '/' ∉ part
  /-- Below a component that leads out there are only such. -/
  climbs : stack.Pairwise fun part below => part = up → below = up
  /-- There is nothing outside of the root. -/
  bounded : absolute = true → up ∉ stack

namespace Canonical

variable {absolute : Bool} {stack : List (List Char)} {part : List Char}

theorem nil (absolute : Bool) : Canonical absolute [] where
  proper := fun _ h => nomatch h
  climbs := .nil
  bounded := fun _ => List.not_mem_nil

theorem pop (h : Canonical absolute (part :: stack)) : Canonical absolute stack where
  proper := fun part' hpart' => h.proper part' (List.mem_cons_of_mem _ hpart')
  climbs := (List.pairwise_cons.1 h.climbs).2
  bounded := fun habsolute hup => h.bounded habsolute (List.mem_cons_of_mem _ hup)

/-- One component more, unless it leads out of something. -/
theorem cons (h : Canonical absolute stack) (hproper : part ≠ [] ∧ part ≠ ['.'] ∧ '/' ∉ part)
    (hup : part = up → absolute = false ∧ ∀ below ∈ stack, below = up) :
    Canonical absolute (part :: stack) where
  proper := List.forall_mem_cons.2 ⟨hproper, h.proper⟩
  climbs := List.pairwise_cons.2 ⟨fun below hbelow heq => (hup heq).2 below hbelow, h.climbs⟩
  bounded := by
    intro habsolute hmem
    rcases List.mem_cons.1 hmem with heq | hmem
    · rw [(hup heq.symm).1] at habsolute
      cases habsolute
    · exact h.bounded habsolute hmem

/-- **Whatever component comes**, the stack stays as it should. -/
theorem push (h : Canonical absolute stack) (hslash : '/' ∉ part) :
    Canonical absolute (push absolute stack part) := by
  have hup : up ≠ [] ∧ up ≠ ['.'] ∧ '/' ∉ up := by decide
  unfold Path.push
  by_cases hnone : (part = [] || part = ['.']) = true
  · rw [if_pos hnone]
    exact h
  · rw [if_neg hnone]
    simp only [Bool.or_eq_true, decide_eq_true_eq, not_or] at hnone
    by_cases hpart : part = ['.', '.']
    · rw [if_pos hpart]
      subst hpart
      cases stack with
      | nil =>
          cases absolute with
          | true => exact h
          | false => exact h.cons hup fun _ => ⟨rfl, fun _ hbelow => nomatch hbelow⟩
      | cons last below =>
          by_cases hlast : last = ['.', '.']
          · cases absolute with
            | true => exact absurd (hlast ▸ List.mem_cons_self) (h.bounded rfl)
            | false =>
                simp only [if_pos hlast]
                refine h.cons hup fun _ => ⟨rfl, ?_⟩
                intro part' hpart'
                rcases List.mem_cons.1 hpart' with rfl | hpart'
                · exact hlast
                · exact (List.pairwise_cons.1 h.climbs).1 part' hpart' hlast
          · simp only [if_neg hlast]
            exact h.pop
    · rw [if_neg hpart]
      exact h.cons ⟨hnone.1, hnone.2, hslash⟩ fun heq => absurd heq hpart

/-- So it is after any number of components. -/
theorem foldl {parts : List (List Char)} (h : Canonical absolute stack)
    (hslash : ∀ part ∈ parts, '/' ∉ part) :
    Canonical absolute (parts.foldl (Path.push absolute) stack) := by
  induction parts generalizing stack with
  | nil => exact h
  | cons part parts ih =>
      obtain ⟨hpart, hparts⟩ := List.forall_mem_cons.1 hslash
      exact ih (h.push hpart) hparts

/-- A stack with a component that leads out has one at its bottom. -/
theorem bottom (h : Canonical absolute stack) (hup : up ∈ stack) : stack.getLast? = some up := by
  induction stack with
  | nil => cases hup
  | cons part below ih =>
      cases below with
      | nil => rw [List.mem_singleton.1 hup]; rfl
      | cons next below =>
          rw [List.getLast?_cons_cons]
          rcases List.mem_cons.1 hup with heq | hup
          · exact ih h.pop ((List.pairwise_cons.1 h.climbs).1 next List.mem_cons_self heq.symm
              ▸ List.mem_cons_self)
          · exact ih h.pop hup

end Canonical

/-- A component that leads out of a relative path stays on its stack. -/
theorem up_mem_push {stack : List (List Char)} (part : List Char) (h : up ∈ stack) :
    up ∈ push false stack part := by
  unfold push
  split
  · exact h
  · split
    · cases stack with
      | nil => cases h
      | cons last below =>
          by_cases hlast : last = ['.', '.']
          · simp only [if_pos hlast]
            exact List.mem_cons_of_mem _ h
          · simp only [if_neg hlast]
            exact (List.mem_cons.1 h).resolve_left fun heq => hlast heq.symm
    · exact List.mem_cons_of_mem _ h

theorem up_mem_foldl {stack : List (List Char)} (parts : List (List Char)) (h : up ∈ stack) :
    up ∈ parts.foldl (push false) stack := by
  induction parts generalizing stack with
  | nil => exact h
  | cons part parts ih => exact ih (up_mem_push part h)

/-- A component that does not lead out does the same on top of anything. -/
theorem push_append (absolute : Bool) {stack below : List (List Char)} {part : List Char}
    (h : up ∉ push false stack part) :
    push absolute (stack ++ below) part = push false stack part ++ below := by
  unfold push at h ⊢
  by_cases hnone : (part = [] || part = ['.']) = true
  · rw [if_pos hnone, if_pos hnone]
  · rw [if_neg hnone] at h ⊢
    rw [if_neg hnone]
    by_cases hpart : part = ['.', '.']
    · rw [if_pos hpart] at h ⊢
      rw [if_pos hpart]
      subst hpart
      cases stack with
      | nil => exact absurd List.mem_cons_self h
      | cons last rest =>
          by_cases hlast : last = ['.', '.']
          · simp only [if_pos hlast] at h
            exact absurd List.mem_cons_self h
          · simp only [List.cons_append, if_neg hlast]
    · rw [if_neg hpart, if_neg hpart]
      rfl

/-- **Components that never lead out do the same on top of anything.** -/
theorem foldl_push_append (absolute : Bool) {stack below parts : List (List Char)}
    (h : up ∉ parts.foldl (push false) stack) :
    parts.foldl (push absolute) (stack ++ below) = parts.foldl (push false) stack ++ below := by
  induction parts generalizing stack with
  | nil => rfl
  | cons part parts ih =>
      have hpart : up ∉ push false stack part := fun hup => h (up_mem_foldl parts hup)
      show parts.foldl (push absolute) (push absolute (stack ++ below) part) = _
      rw [push_append absolute hpart, ih h]
      rfl

/-! ## §3. Normal forms. -/

/-- The components of the normal form of a path, the last one first. -/
def stackOf (path : List Char) : List (List Char) :=
  (components path).foldl (push (isAbsolute path)) []

theorem canonical_stackOf (path : List Char) : Canonical (isAbsolute path) (stackOf path) :=
  (Canonical.nil _).foldl (slash_not_mem_components path)

theorem normalize_eq (path : List Char) :
    normalize path = (if isAbsolute path then ['/'] else []) ++ join (stackOf path).reverse := by
  unfold normalize stackOf
  cases isAbsolute path <;> rfl

theorem normalize_relative {path : List Char} (h : isAbsolute path = false) :
    normalize path = join (stackOf path).reverse := by
  rw [normalize_eq, h]
  rfl

/-- A path that is put together from components is relative. -/
theorem isAbsolute_join {parts : List (List Char)} (h : ∀ part ∈ parts, part ≠ [] ∧ '/' ∉ part) :
    isAbsolute (join parts) = false := by
  cases parts with
  | nil => rfl
  | cons part rest =>
      obtain ⟨hne, hslash⟩ := h part List.mem_cons_self
      -- it begins with the first character of its first component
      cases part with
      | nil => exact absurd rfl hne
      | cons c part =>
          have hc : c ≠ '/' := fun heq => hslash (heq ▸ List.mem_cons_self)
          cases rest with
          | nil => simp [join, isAbsolute, hc]
          | cons next rest => simp [join, isAbsolute, hc]

/-- The normal form of a relative path is relative. -/
theorem isAbsolute_normalize {path : List Char} (h : isAbsolute path = false) :
    isAbsolute (normalize path) = false := by
  rw [normalize_relative h]
  refine isAbsolute_join fun part hpart => ?_
  obtain ⟨hne, -, hslash⟩ := (canonical_stackOf path).proper part (List.mem_reverse.1 hpart)
  exact ⟨hne, hslash⟩

/-- A path that leads out of the place where it begins. -/
def Climbs (path : List Char) : Prop := (components path).head? = some up

/-- A relative path that leads out has a component that does so on its stack. -/
theorem up_not_mem_stackOf {path : List Char} (hrelative : isAbsolute path = false)
    (h : ¬Climbs (normalize path)) : up ∉ stackOf path := by
  intro hup
  have hcanonical := canonical_stackOf path
  have hne : (stackOf path).reverse ≠ [] := by
    intro hnil
    rw [List.reverse_eq_nil_iff.1 hnil] at hup
    cases hup
  refine h ?_
  unfold Climbs
  rw [normalize_relative hrelative, components_join hne fun part hpart =>
    (hcanonical.proper part (List.mem_reverse.1 hpart)).2.2, List.head?_reverse]
  exact hcanonical.bottom hup

/-- **The normal form of a path in a directory** is the normal form of the path, in that
directory, if it does not lead out of it and is not the directory itself. -/
theorem normalize_under {dir path : List Char} (hdir : normalize dir = dir) (hempty : dir ≠ [])
    (htop : dir ≠ ['/']) (hrelative : isAbsolute path = false) (hself : normalize path ≠ [])
    (hinside : ¬Climbs (normalize path)) :
    normalize (dir ++ '/' :: path) = dir ++ '/' :: normalize path := by
  have habsolute : isAbsolute (dir ++ '/' :: path) = isAbsolute dir := by
    cases dir with
    | nil => exact absurd rfl hempty
    | cons c dir => rfl
  -- the components of `path` are put on top of the stack of `dir`
  have hstack : stackOf (dir ++ '/' :: path) = stackOf path ++ stackOf dir := by
    have hup := up_not_mem_stackOf hrelative hinside
    unfold stackOf at hup ⊢
    rw [hrelative] at hup ⊢
    rw [habsolute, components_append, List.foldl_append]
    exact @foldl_push_append (isAbsolute dir) [] _ _ hup
  have hpath : (stackOf path).reverse ≠ [] := by
    intro hnil
    rw [normalize_relative hrelative, hnil] at hself
    exact hself rfl
  have hparts : (stackOf dir).reverse ≠ [] := by
    intro hnil
    rw [normalize_eq, hnil] at hdir
    cases h : isAbsolute dir with
    | true => rw [h] at hdir; exact htop hdir.symm
    | false => rw [h] at hdir; exact hempty hdir.symm
  rw [normalize_eq, habsolute, hstack, List.reverse_append, join_append hparts hpath,
    ← List.append_assoc, ← normalize_eq, hdir, normalize_relative hrelative]

/-! ## §4. The directory of a path. -/

/-- What comes before the last slash is a beginning of the path. -/
theorem eq_append_of_beforeLastSlash? {path before : List Char}
    (h : beforeLastSlash? path = some before) : ∃ rest, path = before ++ '/' :: rest := by
  unfold beforeLastSlash? at h
  cases hdrop : path.reverse.dropWhile (· != '/') with
  | nil =>
      rw [hdrop] at h
      cases h
  | cons c rest =>
      rw [hdrop] at h
      cases h
      have hc : c = '/' := by
        have hhead := List.head?_dropWhile_not (· != '/') path.reverse
        rw [hdrop] at hhead
        simpa using hhead
      refine ⟨(path.reverse.takeWhile (· != '/')).reverse, ?_⟩
      have hall := List.takeWhile_append_dropWhile (p := (· != '/')) (l := path.reverse)
      rw [hdrop, hc] at hall
      have hreverse := congrArg List.reverse hall
      rw [List.reverse_reverse] at hreverse
      exact hreverse.symm.trans (by simp)

/-- Behind a slash the directory is sought in what follows, and else is all before it. -/
theorem beforeLastSlash?_append (dir path : List Char) :
    beforeLastSlash? (dir ++ '/' :: path)
      = some (match beforeLastSlash? path with
          | none => dir
          | some before => dir ++ '/' :: before) := by
  unfold beforeLastSlash?
  rw [List.reverse_append, List.reverse_cons, List.append_assoc, List.dropWhile_append]
  cases path.reverse.dropWhile (· != '/') with
  | nil => simp
  | cons c rest => simp

/-! ## §5. Identifiers. -/

/-- A path in a directory. -/
def under (dir path : String) : String := dir ++ "/" ++ path

theorem toList_under (dir path : String) :
    (under dir path).toList = dir.toList ++ '/' :: path.toList := by
  simp [under]

theorem under_injective (dir : String) : Function.Injective (under dir) := by
  intro path path' h
  have hlist := congrArg String.toList h
  rw [toList_under, toList_under] at hlist
  exact String.toList_inj.1 (List.cons.inj (List.append_cancel_left hlist)).2

/-- The identifier of a root is its normal form. -/
theorem includeId_root (root : String) :
    includeId "" root = String.ofList (normalize root.toList) := by
  unfold includeId
  simp [beforeLastSlash?]

/-- A directory by its normal form, neither the one that a path begins in nor the root. -/
structure IsDirectory (dir : String) : Prop where
  normal : includeId "" dir = dir
  nonempty : dir ≠ ""
  not_root : dir ≠ "/"

section Inside

variable {dir : String} (hdir : IsDirectory dir)
include hdir

/-- The normal form of a path in a directory, as a text. -/
theorem IsDirectory.normalize_under {path : List Char} (hrelative : isAbsolute path = false)
    (hself : normalize path ≠ []) (hinside : ¬Climbs (normalize path)) :
    String.ofList (normalize (dir.toList ++ '/' :: path))
      = under dir (String.ofList (normalize path)) := by
  have hnormal : normalize dir.toList = dir.toList := by
    have h := congrArg String.toList hdir.normal
    rwa [includeId_root, String.toList_ofList] at h
  have hempty : dir.toList ≠ [] := fun h => hdir.nonempty (String.toList_inj.1 h)
  have hroot : dir.toList ≠ ['/'] := fun h => hdir.not_root (String.toList_inj.1 h)
  refine String.toList_inj.1 ?_
  rw [toList_under, String.toList_ofList, String.toList_ofList,
    Path.normalize_under hnormal hempty hroot hrelative hself hinside]

/-- **Identifiers move with their documents.**  A relative reference that does not lead out
of a directory leads, from a document that was moved into it, to where the document was
moved that it led to. -/
theorem IsDirectory.includeId_under {parent reference : String}
    (hparent : isAbsolute parent.toList = false)
    (hreference : isAbsolute reference.toList = false) (hself : includeId parent reference ≠ "")
    (hinside : ¬Climbs (includeId parent reference).toList) :
    includeId (under dir parent) reference = under dir (includeId parent reference) := by
  -- the two identifiers are normal forms of one path, once in the directory
  suffices hpath : ∃ path, isAbsolute path = false
      ∧ includeId parent reference = String.ofList (normalize path)
      ∧ includeId (under dir parent) reference
        = String.ofList (normalize (dir.toList ++ '/' :: path)) by
    obtain ⟨path, hrelative, hid, hmoved⟩ := hpath
    rw [hid] at hself hinside
    rw [String.toList_ofList] at hinside
    have hpath : normalize path ≠ [] := by
      intro hnil
      rw [hnil] at hself
      exact hself rfl
    rw [hmoved, hid, hdir.normalize_under hrelative hpath hinside]
  have hempty : dir.toList ≠ [] := fun h => hdir.nonempty (String.toList_inj.1 h)
  unfold includeId
  simp only [hreference, Bool.false_or, toList_under, beforeLastSlash?_append, Option.getD_some]
  cases hbefore : beforeLastSlash? parent.toList with
  | none => exact ⟨reference.toList, hreference, by simp, by simp [hempty]⟩
  | some before =>
      obtain ⟨rest, hrest⟩ := eq_append_of_beforeLastSlash? hbefore
      -- the directory of a relative path is not the root, and relative itself
      cases before with
      | nil =>
          rw [hrest] at hparent
          cases hparent
      | cons c before =>
          rw [hrest] at hparent
          exact ⟨c :: before ++ '/' :: reference.toList, hparent, by simp, by simp⟩

end Inside

/-- What is included from a relative path by a relative reference is relative. -/
theorem isAbsolute_includeId {parent reference : String}
    (hparent : isAbsolute parent.toList = false)
    (hreference : isAbsolute reference.toList = false) :
    isAbsolute (includeId parent reference).toList = false := by
  unfold includeId
  simp only [hreference, Bool.false_or]
  cases hbefore : beforeLastSlash? parent.toList with
  | none =>
      simp only [Option.getD_none, List.isEmpty_nil, if_true, String.toList_ofList]
      exact isAbsolute_normalize hreference
  | some before =>
      obtain ⟨rest, hrest⟩ := eq_append_of_beforeLastSlash? hbefore
      cases before with
      | nil =>
          rw [hrest] at hparent
          cases hparent
      | cons c before =>
          rw [hrest] at hparent
          simp only [Option.getD_some, List.isEmpty_cons, Bool.false_eq_true, if_false,
            String.toList_ofList]
          have hpath : isAbsolute (c :: before ++ '/' :: reference.toList) = false := hparent
          exact isAbsolute_normalize hpath

end TenantSync.Config.Path
