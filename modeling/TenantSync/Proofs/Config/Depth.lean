/-
  TenantSync.Proofs.Config.Depth
  ──────────────────────────────
  **FILES ARE RESOLVED HOWEVER DEEP THEY INCLUDE EACH OTHER.**

  Resolution to a depth gives up when the depth is used up.  A result that was
  not cut short is the same to every greater depth (`resolve_mono`), so what a
  root document in files loads to can be said without a depth: it is what comes
  of any depth that is deep enough (`Loads`).

  One depth is always deep enough.  The documents that are open at one time have
  distinct identifiers, and each was read as a file under a name at least as
  long.  A name is a number in base 257, its digits the bytes, each one more so
  that none is zero:

      names of at most `n` bytes   ↪   numbers below 257 ^ n

  Where files have names of bounded length, loading a file therefore gives what
  it loads to without any bound on the depth (`loads_loadFile`).
-/
import Mathlib.Data.List.Perm.Subperm
import Mathlib.Data.Nat.Digits.Lemmas
import TenantSync.Proofs.Config.IncludeTree
import TenantSync.Proofs.Files

namespace TenantSync.Config

variable {σ α β : Type}

/-! ## §1. Results that were not cut short. -/

/-- A result was cut short: the depth was used up. -/
def CutShort (r : Except Error α) : Prop := ∃ document, r = .error (.tooDeep document)

/-- A computation comes to what another one does, wherever that is not cut short. -/
def Extends (x y : ExceptT Error (StateM σ) α) : Prop :=
  ∀ s, CutShort (exec y s).1 ∨ exec x s = exec y s

theorem Extends.refl (x : ExceptT Error (StateM σ) α) : Extends x x := fun _ => .inr rfl

theorem Extends.trans {x y z : ExceptT Error (StateM σ) α} (h : Extends x y) (h' : Extends y z) :
    Extends x z := by
  intro s
  rcases h' s with hcut | heq
  · exact .inl hcut
  · rw [← heq]
    exact h s

theorem Extends.bind {x y : ExceptT Error (StateM σ) α} {f g : α → ExceptT Error (StateM σ) β}
    (h : Extends x y) (hfg : ∀ a, Extends (f a) (g a)) : Extends (x >>= f) (y >>= g) := by
  intro s
  rw [exec_bind, exec_bind]
  rcases h s with ⟨document, hcut⟩ | heq
  · rcases hy : exec y s with ⟨r, s'⟩
    rw [hy] at hcut
    subst hcut
    exact .inl ⟨document, rfl⟩
  · rw [heq]
    rcases exec y s with ⟨_ | a, s'⟩
    · exact .inr rfl
    · exact hfg a s'

theorem Extends.foldlM {f g : β → α → ExceptT Error (StateM σ) β}
    (h : ∀ b a, Extends (f b a) (g b a)) (l : List α) :
    ∀ b, Extends (l.foldlM f b) (l.foldlM g b) := by
  induction l with
  | nil => exact fun b => .refl _
  | cons a l ih =>
      intro b
      rw [List.foldlM_cons, List.foldlM_cons]
      exact (h b a).bind ih

/-- To one more level, resolution comes to what it came to. -/
theorem resolve_deeper (loader : Loader (StateM σ)) (depth : Nat) :
    ∀ opened parent reference, Extends (resolve loader (depth + 1) opened parent reference)
      (resolve loader depth opened parent reference) := by
  induction depth with
  | zero => exact fun _ _ _ _ => .inl ⟨_, rfl⟩
  | succ depth ih =>
      intro opened parent reference
      rw [resolve_succ, resolve_succ depth]
      split
      · exact .refl _
      · refine .bind (.refl _) fun fetched => .bind (.foldlM (fun acc reference => ?_) _ _)
          fun acc => .refl _
        exact (ih _ _ reference).bind fun e => .refl _

/-- **A result that was not cut short is the same to every greater depth.** -/
theorem resolve_mono (loader : Loader (StateM σ)) {depth depth' : Nat} (h : depth ≤ depth')
    (opened : List String) (parent reference : String) :
    Extends (resolve loader depth' opened parent reference)
      (resolve loader depth opened parent reference) := by
  induction h with
  | refl => exact .refl _
  | step _ ih => exact (resolve_deeper loader _ opened parent reference).trans ih

/-! ## §2. What a root document loads to. -/

/-- What a root document in files below a directory loads to, to any depth that is deep
enough. -/
def Loads (files : Files (StateM σ)) (directory root : String) (w : σ)
    (r : Except Error Effective) : Prop :=
  ∃ depth, (exec (resolve (fileLoader files directory) depth [] "" root) w).1 = r ∧ ¬CutShort r

/-- A root document loads to one result. -/
theorem Loads.unique {files : Files (StateM σ)} {directory root : String} {w : σ}
    {r r' : Except Error Effective} (h : Loads files directory root w r)
    (h' : Loads files directory root w r') : r' = r := by
  obtain ⟨depth, rfl, hwhole⟩ := h
  obtain ⟨depth', rfl, hwhole'⟩ := h'
  -- the lesser of the two depths is deep enough, so the greater one changes nothing
  rcases Nat.le_total depth depth' with hle | hle
  · exact congrArg Prod.fst ((resolve_mono _ hle [] "" root w).resolve_left hwhole)
  · exact congrArg Prod.fst ((resolve_mono _ hle [] "" root w).resolve_left hwhole').symm

/-! ## §3. Depths that are never used up. -/

/-- A computation is never cut short. -/
def Whole (x : ExceptT Error (StateM σ) α) : Prop := ∀ s, ¬CutShort (exec x s).1

theorem Whole.pure (a : α) : Whole (Pure.pure a : ExceptT Error (StateM σ) α) := by
  rintro s ⟨document, h⟩
  cases h

theorem Whole.throw {e : Error} (he : ∀ document, e ≠ .tooDeep document) :
    Whole (throw e : ExceptT Error (StateM σ) α) := by
  rintro s ⟨document, h⟩
  exact he document (Except.error.inj h)

/-- What follows only has to be whole for answers that there are. -/
theorem Whole.bind {x : ExceptT Error (StateM σ) α} {f : α → ExceptT Error (StateM σ) β}
    (hx : Whole x) (hf : ∀ a s s', exec x s = (.ok a, s') → Whole (f a)) : Whole (x >>= f) := by
  intro s hcut
  rw [exec_bind] at hcut
  have hwhole := hx s
  rcases hexec : exec x s with ⟨e | a, s'⟩
  · rw [hexec] at hcut hwhole
    obtain ⟨document, h⟩ := hcut
    cases h
    exact hwhole ⟨document, rfl⟩
  · rw [hexec] at hcut
    exact hf a s s' hexec s' hcut

theorem Whole.foldlM {f : β → α → ExceptT Error (StateM σ) β} (h : ∀ b a, Whole (f b a))
    (l : List α) : ∀ b, Whole (l.foldlM f b) := by
  induction l with
  | nil => exact .pure
  | cons a l ih =>
      intro b
      rw [List.foldlM_cons]
      exact (h b a).bind fun b' _ _ _ => ih b'

/-- A document that cannot be fetched is told from one that lies too deep. -/
theorem fetch_whole (loader : Loader (StateM σ)) (parent reference id : String) :
    Whole (fetch loader parent reference id) := by
  have hload : Whole (liftM (loader parent reference) : ExceptT Error (StateM σ) _) := by
    rintro s ⟨document, h⟩
    cases h
  refine hload.bind fun loaded _ _ _ => ?_
  split
  · exact .throw fun _ => nofun
  · split
    · exact .throw fun _ => nofun
    · exact .pure _

/-- **A depth that the open documents cannot outgrow is never used up.**  Their
identifiers are distinct and have a property that only so many identifiers have. -/
theorem resolve_whole {loader : Loader (StateM σ)} {P : String → Prop} {n : Nat}
    (hfew : ∀ ids : List String, ids.Nodup → (∀ id ∈ ids, P id) → ids.length ≤ n)
    (hloader : ∀ {parent reference s bytes s'},
      execState (loader parent reference) s = (.ok bytes, s') → P (Path.includeId parent reference))
    (depth : Nat) : ∀ {opened : List String}, opened.Nodup → (∀ id ∈ opened, P id) →
      n < depth + opened.length →
        ∀ parent reference, Whole (resolve loader depth opened parent reference) := by
  induction depth with
  | zero =>
      intro opened hnodup hopened hdepth
      have hle := hfew opened hnodup hopened
      omega
  | succ depth ih =>
      intro opened hnodup hopened hdepth parent reference
      rw [resolve_succ]
      split
      · exact .throw fun _ => nofun
      · next hnew =>
        refine (fetch_whole loader _ _ _).bind fun fetched s s' hfetch => ?_
        have hid : P (Path.includeId parent reference) := hloader (fetch_ok hfetch).1
        -- what is opened is another document, which has the property as well
        have hnodup' : (opened ++ [Path.includeId parent reference]).Nodup := by
          refine List.nodup_append.2 ⟨hnodup, List.pairwise_singleton _ _, ?_⟩
          rintro a ha b hb rfl
          exact hnew (List.contains_iff_mem.2 (List.mem_singleton.1 hb ▸ ha))
        have hopened' : ∀ id ∈ opened ++ [Path.includeId parent reference], P id := by
          intro id hmem
          rcases List.mem_append.1 hmem with hmem | hmem
          · exact hopened id hmem
          · exact List.mem_singleton.1 hmem ▸ hid
        have hrest := ih hnodup' hopened' (by rw [List.length_append, List.length_singleton]; omega)
        refine Whole.bind (.foldlM (fun acc reference => ?_) _ _) fun acc _ _ _ => .pure _
        exact (hrest _ reference).bind fun e _ _ _ => .pure _

/-- More levels than there can be documents are never used up. -/
theorem resolve_root_whole {loader : Loader (StateM σ)} {P : String → Prop} {n depth : Nat}
    (hfew : ∀ ids : List String, ids.Nodup → (∀ id ∈ ids, P id) → ids.length ≤ n)
    (hloader : ∀ {parent reference s bytes s'},
      execState (loader parent reference) s = (.ok bytes, s') → P (Path.includeId parent reference))
    (hdepth : n < depth) (root : String) : Whole (resolve loader depth [] "" root) :=
  resolve_whole hfew hloader depth List.nodup_nil (fun _ h => nomatch h) hdepth "" root

/-! ## §4. Names of bounded length. -/

/-- The digits of a name: its bytes, each one more. -/
def nameDigits (name : String) : List Nat := name.toByteArray.data.toList.map fun b => b.toNat + 1

theorem length_nameDigits (name : String) : (nameDigits name).length = name.utf8ByteSize := by
  rw [nameDigits, List.length_map]
  exact String.size_toByteArray

/-- A digit is less than 257, and not zero. -/
theorem mem_nameDigits {name : String} {d : Nat} (h : d ∈ nameDigits name) : d < 257 ∧ d ≠ 0 := by
  obtain ⟨b, -, rfl⟩ := List.mem_map.1 h
  have hb : b.toNat < 256 := b.toNat_lt
  omega

theorem nameDigits_injective : Function.Injective nameDigits := by
  have hdigit : Function.Injective fun b : UInt8 => b.toNat + 1 :=
    fun _ _ h => UInt8.toNat_inj.1 (Nat.succ.inj h)
  intro name name' h
  have hbytes := List.map_injective_iff.2 hdigit h
  exact String.toByteArray_inj.1 (ByteArray.ext (Array.toList_inj.1 hbytes))

/-- A name as a number. -/
def nameNumber (name : String) : Nat := Nat.ofDigits 257 (nameDigits name)

/-- Without zeros, no two rows of digits are one number. -/
theorem nameNumber_injective : Function.Injective nameNumber := by
  have hdigits : ∀ name, Nat.digits 257 (nameNumber name) = nameDigits name := by
    intro name
    refine Nat.digits_ofDigits 257 (by decide) _ (fun d hd => (mem_nameDigits hd).1) fun hne => ?_
    exact (mem_nameDigits (List.getLast_mem hne)).2
  intro name name' h
  exact nameDigits_injective ((hdigits name).symm.trans ((congrArg _ h).trans (hdigits name')))

theorem nameNumber_lt {name : String} {n : Nat} (h : name.utf8ByteSize ≤ n) :
    nameNumber name < 257 ^ n :=
  calc nameNumber name
      < 257 ^ (nameDigits name).length :=
        Nat.ofDigits_lt_base_pow_length (by decide) fun _ hd => (mem_nameDigits hd).1
    _ ≤ 257 ^ n := Nat.pow_le_pow_right (by decide) (length_nameDigits name ▸ h)

/-- **There are only so many names of bounded length.** -/
theorem length_names_le {n : Nat} {names : List String} (hnodup : names.Nodup)
    (h : ∀ name ∈ names, name.utf8ByteSize ≤ n) : names.length ≤ 257 ^ n := by
  have hsubset : names.map nameNumber ⊆ List.range (257 ^ n) := by
    intro number hmem
    obtain ⟨name, hname, rfl⟩ := List.mem_map.1 hmem
    exact List.mem_range.2 (nameNumber_lt (h name hname))
  have hle := (List.subperm_of_subset (hnodup.map nameNumber_injective) hsubset).length_le
  rwa [List.length_map, List.length_range] at hle

/-! ## §5. Documents in files. -/

/-- The path of a document is at least as long as its identifier. -/
theorem utf8ByteSize_le_join (directory id : String) :
    id.utf8ByteSize ≤ (Files.join directory id).utf8ByteSize := by
  unfold Files.join
  split
  · exact Nat.le_refl _
  · split <;> simp only [String.utf8ByteSize_append] <;> omega

/-- A document is read from the file at its path. -/
theorem fileLoader_ok {files : Files (StateM σ)} {directory parent reference : String} {w w' : σ}
    {bytes : ByteArray}
    (h : execState (fileLoader files directory parent reference) w = (.ok bytes, w')) :
    (execState (files.read (Files.join directory (Path.includeId parent reference))) w).1
      = .ok bytes := by
  unfold fileLoader at h
  dsimp only at h
  rw [execState_bind] at h
  split at h
  next hread =>
    cases h
    exact hread
  next => cases h
  next => cases h

/-- There are more levels than names of files. -/
theorem names_lt_fileDepth : 257 ^ Files.maxName < fileDepth := by
  unfold fileDepth
  -- the number itself is of no concern, and too long to be worked out
  generalize Files.maxName = n
  exact Nat.lt_succ_self _

/-- **Loading a file gives what the file loads to**, however deep files include each other. -/
theorem loads_loadFile {files : Files (StateM σ)} (hfiles : files.Limited) (directory root : String)
    (w : σ) : Loads files directory root w (execState (loadFile files directory root) w).1 := by
  have hloader : ∀ {parent reference s bytes s'},
      execState (fileLoader files directory parent reference) s = (.ok bytes, s') →
        (Path.includeId parent reference).utf8ByteSize ≤ Files.maxName := by
    intro parent reference s bytes s' h
    exact Nat.le_trans (utf8ByteSize_le_join directory _) (hfiles (fileLoader_ok h))
  exact ⟨fileDepth, rfl,
    resolve_root_whole (fun _ => length_names_le) hloader names_lt_fileDepth root w⟩

/-- Loading a file comes to what the file loads to, and leaves all files as they are. -/
theorem Loads.exec_loadFile {files : Files (StateM σ)} (hfiles : files.Lawful)
    (hlimited : files.Limited) {directory root : String} {w : σ} {r : Except Error Effective}
    (h : Loads files directory root w r) : execState (loadFile files directory root) w = (r, w) :=
  (loadFile_untouched hfiles directory root).exec_eq
    (h.unique (loads_loadFile hlimited directory root w))

end TenantSync.Config
