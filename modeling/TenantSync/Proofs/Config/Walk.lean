/-
  TenantSync.Proofs.Config.Walk
  ─────────────────────────────
  **TWO PATHS HAVE ONE IDENTIFIER WHERE THEY LEAD TO ONE PLACE.**

  A path is walked from a directory component by component: up for a `..`, and down into
  what any other component names.  What the stack of a path holds is where the path leads:

      from the top          the stack of an absolute path is the directory itself
                            (`walk_absolute`)
      from a directory      the stack of a relative path has a `..` for every directory to
                            go up, and above them the names to go down (`walk_relative`)

  So paths of one identifier lead to one place.  The other way round, one directory does
  not tell relative paths apart: from `x`, both `../x` and `.` lead to `x`.  But in a
  directory whose names are not in either path, what was gone down can be told from what
  was there before, and there is one at every depth (`append_drop_injective`).
-/
import TenantSync.Proofs.Config.Reference

namespace TenantSync.Config.Path

/-! ## §1. The components of an identifier. -/

/-- The components of a path: those between slashes, but none before the slash that an
absolute path begins with, and none where nothing is left. -/
def steps (path : List Char) : List (List Char) :=
  let relative := if isAbsolute path then path.tail else path
  if relative = [] then [] else components relative

/-- What takes no notice of empty components comes to the same over all components of a path
as over its steps. -/
theorem foldl_steps {α : Type} {f : α → List Char → α} (h : ∀ a, f a [] = a) (path : List Char)
    (a : α) : (steps path).foldl f a = (components path).foldl f a := by
  have hrelative : ∀ rest : List Char,
      (if rest = [] then [] else components rest).foldl f a = (components rest).foldl f a := by
    intro rest
    by_cases hrest : rest = []
    · rw [if_pos hrest, hrest]
      exact (h a).symm
    · rw [if_neg hrest]
  cases habsolute : isAbsolute path with
  | false =>
      unfold steps
      rw [habsolute]
      exact hrelative path
  | true =>
      obtain ⟨rest, rfl⟩ := List.head?_eq_some_iff.1 (beq_iff_eq.1 habsolute)
      rw [components_slash, List.foldl_cons, h]
      exact hrelative rest

theorem foldl_push_steps (path : List Char) :
    (steps path).foldl (push (isAbsolute path)) [] = stackOf path :=
  foldl_steps (push_blank (isAbsolute path)) path []

/-- A path that is put together from components has these. -/
theorem steps_join (absolute : Bool) {parts : List (List Char)}
    (h : ∀ part ∈ parts, part ≠ [] ∧ '/' ∉ part) :
    steps ((if absolute then ['/'] else []) ++ join parts) = parts := by
  have hjoin : (if join parts = [] then [] else components (join parts)) = parts := by
    cases parts with
    | nil => rfl
    | cons part rest =>
        have hne : join (part :: rest) ≠ [] := by
          cases rest with
          | nil => exact (h part List.mem_cons_self).1
          | cons next rest => exact List.append_ne_nil_of_right_ne_nil _ (List.cons_ne_nil _ _)
        rw [if_neg hne, components_join (List.cons_ne_nil _ _) fun part hpart => (h part hpart).2]
  cases absolute with
  | true => exact hjoin
  | false =>
      show steps (join parts) = parts
      unfold steps
      rw [isAbsolute_join h]
      exact hjoin

theorem steps_includeId_root (path : String) :
    steps (includeId "" path).toList = (stackOf path.toList).reverse := by
  rw [toList_includeId_root]
  refine steps_join _ fun part hpart => ?_
  obtain ⟨hne, -, hslash⟩ := (canonical_stackOf path.toList).proper part (List.mem_reverse.1 hpart)
  exact ⟨hne, hslash⟩

/-- Every identifier is the one of some path from the root of all documents. -/
theorem exists_includeId_root (parent reference : String) :
    ∃ path, includeId parent reference = includeId "" path := by
  simp only [includeId_root]
  unfold includeId
  simp only
  split
  · exact ⟨reference, rfl⟩
  · refine ⟨String.ofList ((beforeLastSlash? parent.toList).getD [] ++ '/' :: reference.toList), ?_⟩
    rw [String.toList_ofList]

/-- **An identifier tells of a path whether it is absolute, and its stack**, and no more. -/
theorem includeId_root_eq_iff {p q : String} :
    includeId "" p = includeId "" q
      ↔ isAbsolute p.toList = isAbsolute q.toList ∧ stackOf p.toList = stackOf q.toList := by
  constructor
  · intro h
    constructor
    · rw [← isAbsolute_includeId_root p, h, isAbsolute_includeId_root]
    · rw [← List.reverse_inj, ← steps_includeId_root, h, steps_includeId_root]
  · rintro ⟨habsolute, hstack⟩
    refine String.toList_inj.1 ?_
    rw [toList_includeId_root, toList_includeId_root, habsolute, hstack]

/-! ## §2. Stacks. -/

/-- The name of a directory. -/
def IsName (part : List Char) : Prop := LeadsIn part ∧ '/' ∉ part

section Stack

variable {absolute : Bool} {stack : List (List Char)}

/-- A stack is made by its own components. -/
theorem Canonical.foldl_reverse (h : Canonical absolute stack) :
    stack.reverse.foldl (Path.push absolute) [] = stack := by
  have hslash : ∀ part ∈ stack.reverse, '/' ∉ part := fun part hpart =>
    (h.proper part (List.mem_reverse.1 hpart)).2.2
  -- its components simplify to the stack they make, and simplify no further
  rcases ((Canonical.nil absolute).simplifies_foldl hslash).cases_head with heq | ⟨next, hstep, -⟩
  · exact (List.reverse_inj.1 heq).symm
  · exact absurd hstep h.not_simplifies

/-- What one component makes of something that is read off a stack, any components do. -/
theorem Canonical.read_foldl {α : Type} (h : Canonical absolute stack)
    (read : List (List Char) → α) (f : α → List Char → α)
    (hpush : ∀ {stack}, Canonical absolute stack → ∀ part,
      read (Path.push absolute stack part) = f (read stack) part)
    {parts : List (List Char)} (hslash : ∀ part ∈ parts, '/' ∉ part) :
    read (parts.foldl (Path.push absolute) stack) = parts.foldl f (read stack) := by
  induction parts generalizing stack with
  | nil => rfl
  | cons part parts ih =>
      obtain ⟨hpart, hparts⟩ := List.forall_mem_cons.1 hslash
      rw [List.foldl_cons, List.foldl_cons, ih (h.push hpart) hparts, hpush h]

/-- **What is on a stack**: names, and what leads out below them. -/
theorem Canonical.split (h : Canonical absolute stack) :
    ∃ names n, stack = names ++ List.replicate n up ∧ ∀ name ∈ names, IsName name := by
  induction stack with
  | nil => exact ⟨[], 0, rfl, fun _ hname => nomatch hname⟩
  | cons part below ih =>
      by_cases hup : part = up
      · have hbelow : below = List.replicate below.length up :=
          List.eq_replicate_of_mem fun b hb => (List.pairwise_cons.1 h.climbs).1 b hb hup
        refine ⟨[], below.length + 1, ?_, fun _ hname => nomatch hname⟩
        rw [hup, List.replicate_succ, ← hbelow]
        rfl
      · obtain ⟨names, n, hbelow, hnames⟩ := ih h.pop
        obtain ⟨hne, hhere, hslash⟩ := h.proper part List.mem_cons_self
        exact ⟨part :: names, n, by rw [hbelow]; rfl,
          List.forall_mem_cons.2 ⟨⟨⟨hne, hhere, hup⟩, hslash⟩, hnames⟩⟩

end Stack

/-! ## §3. Walking. -/

/-- Where one component leads to from a directory, which is given by the names on the way to
it from the top, the last one first.  The top is where `..` leads to from the top. -/
def move (dir : List (List Char)) (part : List Char) : List (List Char) :=
  if part = [] ∨ part = ['.'] then dir else if part = up then dir.tail else part :: dir

/-- Where a path leads to from a directory. -/
def walk (dir : List (List Char)) (path : List Char) : List (List Char) :=
  (steps path).foldl move dir

/-- Where what is on a stack leads to from a directory. -/
def walkStack (stack dir : List (List Char)) : List (List Char) :=
  stack.foldr (fun part dir => move dir part) dir

theorem move_blank (dir : List (List Char)) : move dir [] = dir := rfl

theorem move_up (dir : List (List Char)) : move dir up = dir.tail := rfl

theorem move_leadsIn {part : List Char} (h : LeadsIn part) (dir : List (List Char)) :
    move dir part = part :: dir := by
  unfold move
  rw [if_neg (not_or.2 ⟨h.1, h.2.1⟩), if_neg h.2.2]

section Walk

variable {stack : List (List Char)} {path : List Char}

/-- Nothing is taken off the stack of a relative path but a name that was gone down and is
left by the same way. -/
theorem Canonical.walkStack_push (h : Canonical false stack) (part : List Char)
    (dir : List (List Char)) :
    walkStack (Path.push false stack part) dir = move (walkStack stack dir) part := by
  rcases part_cases part with rfl | rfl | rfl | hin
  · rfl
  · rfl
  · cases stack with
    | nil => rfl
    | cons last below =>
        by_cases hlast : last = up
        · subst hlast
          rfl
        · have hin : LeadsIn last := h.leadsIn List.mem_cons_self hlast
          rw [push_up_leadsIn hin, move_up]
          show walkStack below dir = (move (walkStack below dir) last).tail
          rw [move_leadsIn hin, List.tail_cons]
  · rw [push_leadsIn hin]
    rfl

/-- **A relative path leads where its stack leads.** -/
theorem walk_relative (h : isAbsolute path = false) (dir : List (List Char)) :
    walk dir path = walkStack (stackOf path) dir := by
  unfold walk stackOf
  rw [h, foldl_steps move_blank]
  exact ((Canonical.nil false).read_foldl (walkStack · dir) move
    (fun hstack part => hstack.walkStack_push part dir) (slash_not_mem_components path)).symm

/-- What is on a stack leads up and then down. -/
theorem walkStack_split {names : List (List Char)} (h : ∀ name ∈ names, IsName name) (n : Nat)
    (dir : List (List Char)) :
    walkStack (names ++ List.replicate n up) dir = names ++ dir.drop n := by
  induction names with
  | nil =>
      induction n with
      | zero => rfl
      | succ n ih =>
          show move (walkStack (List.replicate n up) dir) up = dir.drop (n + 1)
          rw [move_up, ← List.tail_drop]
          exact congrArg List.tail ih
  | cons name names ih =>
      obtain ⟨hname, hnames⟩ := List.forall_mem_cons.1 h
      show move (walkStack (names ++ List.replicate n up) dir) name = _
      rw [ih hnames, move_leadsIn hname.1, List.cons_append]

/-- The stack of an absolute path is a directory, from which a component leads on. -/
theorem Canonical.push_eq_move (h : Canonical true stack) (part : List Char) :
    Path.push true stack part = move stack part := by
  rcases part_cases part with rfl | rfl | rfl | hin
  · rfl
  · rfl
  · cases stack with
    | nil => rfl
    | cons last below =>
        have hlast : last ≠ up := fun heq => h.bounded rfl (heq ▸ List.mem_cons_self)
        rw [push_up_leadsIn (h.leadsIn List.mem_cons_self hlast), move_up, List.tail_cons]
  · rw [push_leadsIn hin, move_leadsIn hin]

/-- **An absolute path leads from the top to its stack.** -/
theorem walk_absolute (h : isAbsolute path = true) : walk [] path = stackOf path := by
  unfold walk stackOf
  rw [h, foldl_steps move_blank]
  exact ((Canonical.nil true).read_foldl id move Canonical.push_eq_move
    (slash_not_mem_components path)).symm

end Walk

/-! ## §4. Places. -/

/-- There is a name that is not among some others: a long one. -/
theorem exists_isName_not_mem (names : List (List Char)) : ∃ name, IsName name ∧ name ∉ names := by
  have hlength : ∀ name ∈ names, name.length ≤ names.flatten.length := fun name hname =>
    (List.sublist_flatten_of_mem hname).length_le
  refine ⟨List.replicate (names.flatten.length + 1) 'x', ⟨⟨?_, ?_, ?_⟩, ?_⟩, ?_⟩
  · exact List.cons_ne_nil _ _
  · exact fun heq => absurd (List.cons.inj heq).1 (by decide)
  · exact fun heq => absurd (List.cons.inj heq).1 (by decide)
  · exact fun hslash => absurd (List.eq_of_mem_replicate hslash) (by decide)
  · intro hmem
    have hle := hlength _ hmem
    rw [List.length_replicate] at hle
    omega

theorem filter_append_replicate {names : List (List Char)} {other : List Char}
    (h : other ∉ names) (k : Nat) :
    (names ++ List.replicate k other).filter (· != other) = names := by
  have hnames : names.filter (· != other) = names :=
    List.filter_eq_self.2 fun name hname => bne_iff_ne.2 fun heq => h (heq ▸ hname)
  have hothers : (List.replicate k other).filter (· != other) = [] :=
    List.filter_eq_nil_iff.2 fun name hname => by simp [List.eq_of_mem_replicate hname]
  rw [List.filter_append, hnames, hothers, List.append_nil]

/-- **From directories deep enough it can be told how far a path goes up, and what it goes
down**: in one that has only names that the path has not. -/
theorem append_drop_injective {names names' : List (List Char)} {n n' depth : Nat}
    (h : ∀ dir : List (List Char), (∀ name ∈ dir, IsName name) → depth ≤ dir.length →
      names ++ dir.drop n = names' ++ dir.drop n') : names = names' ∧ n = n' := by
  obtain ⟨other, hother, hnew⟩ := exists_isName_not_mem (names ++ names')
  rw [List.mem_append, not_or] at hnew
  have hdir := h (List.replicate (depth + n + n') other)
    (fun name hname => (List.eq_of_mem_replicate hname).symm ▸ hother)
    (by rw [List.length_replicate]; omega)
  rw [List.drop_replicate, List.drop_replicate] at hdir
  have hnames : names = names' := by
    -- what is not the new name was gone down
    rw [← filter_append_replicate hnew.1 (depth + n + n' - n), hdir,
      filter_append_replicate hnew.2]
  subst hnames
  refine ⟨rfl, ?_⟩
  have hlength := congrArg List.length (List.append_cancel_left hdir)
  rw [List.length_replicate, List.length_replicate] at hlength
  omega

/-- Two paths lead to one place: from the top where they are absolute, and where they are
relative from every directory that is deep enough. -/
def SamePlace (p q : List Char) : Prop :=
  (isAbsolute p = true ∧ isAbsolute q = true ∧ walk [] p = walk [] q)
    ∨ (isAbsolute p = false ∧ isAbsolute q = false
      ∧ ∃ depth, ∀ dir : List (List Char), (∀ name ∈ dir, IsName name) → depth ≤ dir.length →
        walk dir p = walk dir q)

/-- **Paths that lead to one place have one stack.** -/
theorem samePlace_iff {p q : List Char} :
    SamePlace p q ↔ isAbsolute p = isAbsolute q ∧ stackOf p = stackOf q := by
  constructor
  · rintro (⟨hp, hq, hwalk⟩ | ⟨hp, hq, depth, hwalk⟩)
    · rw [walk_absolute hp, walk_absolute hq] at hwalk
      exact ⟨hp.trans hq.symm, hwalk⟩
    · obtain ⟨names, n, hstack, hnames⟩ := (canonical_stackOf p).split
      obtain ⟨names', n', hstack', hnames'⟩ := (canonical_stackOf q).split
      have hleads : ∀ dir : List (List Char), (∀ name ∈ dir, IsName name) →
          depth ≤ dir.length → names ++ dir.drop n = names' ++ dir.drop n' := by
        intro dir hdir hdepth
        rw [← walkStack_split hnames, ← hstack, ← walk_relative hp, hwalk dir hdir hdepth,
          walk_relative hq, hstack', walkStack_split hnames']
      obtain ⟨rfl, rfl⟩ := append_drop_injective hleads
      exact ⟨hp.trans hq.symm, hstack.trans hstack'.symm⟩
  · rintro ⟨habsolute, hstack⟩
    cases hq : isAbsolute q with
    | true =>
        have hp := habsolute.trans hq
        exact .inl ⟨hp, hq, by rw [walk_absolute hp, walk_absolute hq, hstack]⟩
    | false =>
        have hp := habsolute.trans hq
        refine .inr ⟨hp, hq, 0, fun dir _ _ => ?_⟩
        rw [walk_relative hp, walk_relative hq, hstack]

/-! ## §5. Identifiers. -/

/-- What the components of an identifier are: none is empty or `.`, and those that lead out
come first in a relative one, and are not in an absolute one. -/
structure IsCanonical (path : List Char) : Prop where
  proper : ∀ part ∈ steps path, part ≠ [] ∧ part ≠ ['.']
  leading : ∃ n names, steps path = List.replicate n up ++ names ∧ up ∉ names
  bounded : isAbsolute path = true → up ∉ steps path

theorem isCanonical_includeId_root (path : String) : IsCanonical (includeId "" path).toList where
  proper := by
    intro part hpart
    rw [steps_includeId_root, List.mem_reverse] at hpart
    obtain ⟨hne, hhere, -⟩ := (canonical_stackOf path.toList).proper part hpart
    exact ⟨hne, hhere⟩
  leading := by
    obtain ⟨names, n, hstack, hnames⟩ := (canonical_stackOf path.toList).split
    refine ⟨n, names.reverse, ?_, fun hup => (hnames up (List.mem_reverse.1 hup)).1.2.2 rfl⟩
    rw [steps_includeId_root, hstack, List.reverse_append, List.reverse_replicate]
  bounded := by
    intro habsolute
    rw [isAbsolute_includeId_root] at habsolute
    rw [steps_includeId_root, List.mem_reverse]
    exact (canonical_stackOf path.toList).bounded habsolute

/-- An identifier is its own. -/
theorem includeId_root_includeId_root (path : String) :
    includeId "" (includeId "" path) = includeId "" path := by
  rw [includeId_root_eq_iff]
  refine ⟨isAbsolute_includeId_root path, ?_⟩
  rw [← foldl_push_steps, steps_includeId_root, isAbsolute_includeId_root,
    (canonical_stackOf path.toList).foldl_reverse]

/-- **Identifiers are canonical.**  Whatever refers to whatever, the components of the
identifier are in order and it is its own identifier from the root of all documents; and two
paths have one identifier from there if and only if they lead to one place. -/
theorem includeId_canonical :
    (∀ parent reference, IsCanonical (includeId parent reference).toList
        ∧ includeId "" (includeId parent reference) = includeId parent reference)
      ∧ ∀ p q, includeId "" p = includeId "" q ↔ SamePlace p.toList q.toList := by
  constructor
  · intro parent reference
    obtain ⟨path, hpath⟩ := exists_includeId_root parent reference
    rw [hpath]
    exact ⟨isCanonical_includeId_root path, includeId_root_includeId_root path⟩
  · intro p q
    rw [includeId_root_eq_iff, samePlace_iff]

/-- One directory does not tell paths apart. -/
example : walk [['x']] "../x".toList = walk [['x']] ".".toList
    ∧ includeId "" "../x" ≠ includeId "" "." := by
  decide +kernel

end TenantSync.Config.Path
