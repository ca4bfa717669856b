/-
  TenantSync.Proofs.Files
  ───────────────────────
  **WHAT PROGRAMS MAY RELY ON ABOUT FILES.**

  Two laws are asked of access to files (`Files.Lawful`): reading leaves
  everything as it is, and a file that was written holds what was written to it.
  So settings and configurations are loaded without any effect, from whichever
  files.  That names have a bounded length is a law of its own (`Files.Limited`);
  only how deep includes can go rests on it.

  A tree of files is lawful.  A name is followed through directories only, so
  that a file put at its end changes nothing on the way to it.
-/
import TenantSync.Config.Directory
import TenantSync.Files.Tree
import TenantSync.Proofs.Config.IncludeTree
import TenantSync.Proofs.NameMap
import TenantSync.Settings.Load

namespace TenantSync

variable {σ α β : Type}

/-! ## §1. The laws. -/

/-- A computation leaves the state it runs on as it is. -/
def Untouched (x : StateM σ α) : Prop := ∀ w, (execState x w).2 = w

theorem Untouched.pure (a : α) : Untouched (Pure.pure a : StateM σ α) := fun _ => rfl

theorem Untouched.bind {x : StateM σ α} {f : α → StateM σ β} (hx : Untouched x)
    (hf : ∀ a, Untouched (f a)) : Untouched (x >>= f) := by
  intro w
  rw [execState_bind, hf, hx]

/-- The outcome of a computation that leaves the state as it is. -/
theorem Untouched.exec_eq {x : StateM σ α} (hx : Untouched x) {w : σ} {a : α}
    (h : (execState x w).1 = a) : execState x w = (a, w) := Prod.ext h (hx w)

/-- What may be relied on about access to files. -/
structure Files.Lawful (files : Files (StateM σ)) : Prop where
  read : ∀ path, Untouched (files.read path)
  present : ∀ path, Untouched (files.present path)
  /-- A file that was written holds what was written. -/
  written : ∀ {path bytes w w'}, execState (files.write path bytes) w = (.ok (), w') →
    (execState (files.read path) w').1 = .ok bytes

/-- Files have names of bounded length. -/
def Files.Limited (files : Files (StateM σ)) : Prop :=
  ∀ {path bytes w}, (execState (files.read path) w).1 = .ok bytes →
    path.utf8ByteSize ≤ Files.maxName

/-! ## §2. Programs that only read. -/

namespace Config

theorem resolve_untouched {loader : Loader (StateM σ)}
    (hloader : ∀ parent reference, Untouched (loader parent reference)) (depth : Nat) :
    ∀ opened parent reference,
      Keeps (fun w w' => w' = w) (resolve loader depth opened parent reference) := by
  let R : σ → σ → Prop := fun w w' => w' = w
  have hrefl : ∀ w, R w w := fun _ => rfl
  have htrans : ∀ {a b c}, R a b → R b c → R a c := fun h h' => h'.trans h
  have hfetch : ∀ parent reference id, Keeps R (fetch loader parent reference id) := by
    intro parent reference id
    have hload : Keeps R (liftM (loader parent reference) : ExceptT Error (StateM σ) _) :=
      hloader parent reference
    refine Keeps.bind (R := R) htrans hload fun loaded => ?_
    split
    · exact .throw hrefl _
    · split
      · exact .throw hrefl _
      · exact .pure hrefl _
  -- by the levels that are left: what is included is resolved with one less
  induction depth with
  | zero => exact fun _ _ _ => .throw hrefl _
  | succ depth ih =>
      intro opened parent reference
      rw [resolve_succ]
      split
      · exact .throw hrefl _
      · refine Keeps.bind (R := R) htrans (hfetch _ _ _) fun fetched => ?_
        refine Keeps.bind (R := R) htrans ?_ fun acc => .pure hrefl _
        refine Keeps.foldlM (R := R) hrefl htrans (fun acc reference => ?_) _ _
        exact Keeps.bind (R := R) htrans (ih _ _ reference) fun e => .pure hrefl _

/-- Loading a configuration from files leaves them as they are. -/
theorem loadFile_untouched {files : Files (StateM σ)} (hfiles : files.Lawful)
    (directory root : String) : Untouched (loadFile files directory root) := by
  refine resolve_untouched (fun parent reference => ?_) fileDepth [] "" root
  refine (hfiles.read _).bind fun bytes => ?_
  split <;> exact .pure _

end Config

/-- Loading settings leaves the files as they are. -/
theorem Settings.load_untouched {files : Files (StateM σ)} (hfiles : files.Lawful)
    (path : Option String) (cli : Option Payload) : Untouched (Settings.load files path cli) := by
  have hlayer : Untouched (Settings.readLayer files path) := by
    cases path with
    | none => exact .pure _
    | some path =>
        refine (hfiles.present path).bind fun present => ?_
        cases present with
        | false => exact .pure _
        | true =>
            refine (hfiles.read path).bind fun bytes => ?_
            split <;> exact .pure _
  refine hlayer.bind fun user => ?_
  split <;> exact .pure _

/-! ## §3. Trees of files. -/

namespace FileTree

variable {t : FileTree} {name here : List String}

/-- Putting an entry under a name leaves what is under other names. -/
theorem at?_put_of_ne {e : FileEntry} (h : here ≠ name) :
    (t.put name e).at? here = t.at? here := by
  unfold at? put
  by_cases hroot : here.isEmpty = true
  · rw [if_pos hroot, if_pos hroot]
  · rw [if_neg hroot, if_neg hroot, List.lookup_cons, beq_false_of_ne h]
    exact NameMap.lookup_filter_of_ne h t.entries

theorem at?_put_self {e : FileEntry} (h : name ≠ []) : (t.put name e).at? name = some e := by
  unfold at? put
  rw [if_neg (by simpa using h), List.lookup_cons, beq_self_eq_true]

/-- Where one component leads from a directory. -/
def stepTo (here : List String) (part : String) : Except FileFault (List String) :=
  if part == "" || part == "." then .ok here
  else if part == ".." then .ok here.dropLast
  else if maxComponent < part.utf8ByteSize then .error .nameTooLong
  else .ok (here ++ [part])

/-- A way is one step from a directory, and the way from there. -/
theorem walk_cons_eq_ok {part : String} {rest : List String} :
    t.walk here (part :: rest) = .ok name
      ↔ t.at? here = some .directory
        ∧ ∃ next, stepTo here part = .ok next ∧ t.walk next rest = .ok name := by
  rw [walk]
  unfold stepTo
  cases t.at? here with
  | none => simp
  | some entry =>
      cases entry with
      | file bytes => simp
      | directory =>
          simp only [true_and]
          split
          · simp
          · split
            · simp
            · split <;> simp

/-- A way passes through directories only, so it does not pass a name that is none. -/
theorem walk_put {e : FileEntry} (hname : t.at? name ≠ some .directory) (parts : List String) :
    ∀ {here}, t.walk here parts = .ok name → (t.put name e).walk here parts = .ok name := by
  induction parts with
  | nil => exact fun h => h
  | cons part rest ih =>
      intro here h
      obtain ⟨hhere, next, hnext, hrest⟩ := walk_cons_eq_ok.1 h
      have hne : here ≠ name := by
        rintro rfl
        exact hname hhere
      exact walk_cons_eq_ok.2 ⟨(at?_put_of_ne hne).trans hhere, next, hnext, ih hrest⟩

/-- A way whose last step stays where it is ends in a directory. -/
theorem at?_of_walk_stay (parts : List String) :
    ∀ {here}, t.walk here (parts ++ ["."]) = .ok name → t.at? name = some .directory := by
  induction parts with
  | nil =>
      intro here h
      obtain ⟨hhere, next, hnext, hrest⟩ := walk_cons_eq_ok.1 h
      cases hnext
      cases hrest
      exact hhere
  | cons part rest ih =>
      intro here h
      obtain ⟨-, next, -, hrest⟩ := walk_cons_eq_ok.1 h
      exact ih hrest

/-- What is followed to make a file are the components of the path, or a way that stays
in the end. -/
theorem partsToMake_cases (path : String) :
    partsToMake path = partsOf path ∨ ∃ parts, partsToMake path = parts ++ ["."] := by
  unfold partsToMake
  simp only
  split
  · split
    · exact .inr ⟨_, rfl⟩
    · exact .inl rfl
  · exact .inl rfl

/-- A path that is followed is well formed, and leads on a way from where it starts. -/
theorem follow_eq_ok {path : String} {parts : List String} :
    t.follow path parts = .ok name
      ↔ (path.toList.contains '\x00' = false ∧ path.isEmpty = false
          ∧ path.utf8ByteSize ≤ Files.maxName)
        ∧ t.walk (if path.toList.head? == some '/' then [] else t.current) parts = .ok name := by
  unfold follow
  by_cases hnul : path.toList.contains '\x00' = true
  · rw [if_pos hnul, hnul]
    simp
  · by_cases hempty : path.isEmpty = true
    · rw [if_neg hnul, if_pos hempty, hempty]
      simp
    · by_cases hlong : Files.maxName < path.utf8ByteSize
      · rw [if_neg hnul, if_neg hempty, if_pos hlong]
        simp [Nat.not_le.2 hlong]
      · rw [if_neg hnul, if_neg hempty, if_neg hlong]
        have hok := And.intro (Bool.eq_false_iff.2 hnul)
          (And.intro (Bool.eq_false_iff.2 hempty) (Nat.le_of_not_lt hlong))
        exact (and_iff_right hok).symm

/-- A file is put under the name that its path leads to, where there is no directory. -/
theorem write_ok {t' : FileTree} {path : String} {bytes : ByteArray}
    (h : t.write path bytes = .ok t') :
    ∃ name, t.follow path (partsToMake path) = .ok name ∧ t.at? name ≠ some .directory
      ∧ t' = t.put name (.file bytes) := by
  unfold write at h
  simp only [bind, Except.bind] at h
  split at h
  · cases h
  · next name hfollow =>
      split at h
      · cases h
      · next hname =>
          cases h
          exact ⟨name, hfollow, hname, rfl⟩

/-- **A file that was written holds what was written.** -/
theorem read_write {t' : FileTree} {path : String} {bytes : ByteArray}
    (h : t.write path bytes = .ok t') : t'.read path = .ok bytes := by
  obtain ⟨name, hfollow, hname, rfl⟩ := write_ok h
  obtain ⟨hpath, hwalk⟩ := follow_eq_ok.1 hfollow
  have hparts : partsToMake path = partsOf path := by
    rcases partsToMake_cases path with hparts | ⟨parts, hparts⟩
    · exact hparts
    · rw [hparts] at hwalk
      exact absurd (at?_of_walk_stay parts hwalk) hname
  have hlocate : (t.put name (.file bytes)).locate path = .ok name := by
    rw [hparts] at hwalk
    exact follow_eq_ok.2 ⟨hpath, walk_put hname _ hwalk⟩
  have hnonempty : name ≠ [] := by
    rintro rfl
    exact hname rfl
  unfold read
  rw [hlocate]
  simp only [bind, Except.bind, at?_put_self hnonempty]
  rfl

/-- Trees of files are lawful. -/
theorem files_lawful : files.Lawful where
  read := fun _ _ => rfl
  present := fun _ _ => rfl
  written := by
    intro path bytes t t' h
    show t'.read path = .ok bytes
    refine read_write (t := t) ?_
    unfold files at h
    rw [execState_bind, show execState get t = (t, t) from rfl] at h
    cases hwrite : t.write path bytes with
    | error fault =>
        simp only [hwrite] at h
        cases h
    | ok written =>
        simp only [hwrite] at h
        cases h
        rfl

/-- Trees of files have names of bounded length. -/
theorem files_limited : files.Limited := by
  intro path bytes t h
  have hread : t.read path = .ok bytes := h
  unfold read at hread
  obtain ⟨name, hlocate, -⟩ := bind_eq_ok.1 hread
  exact (follow_eq_ok.1 hlocate).1.2.2

end FileTree

end TenantSync
