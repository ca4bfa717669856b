/-
  TenantSync.Proofs.Config.IncludeTree
  ────────────────────────────────────
  **RESOLVING INCLUDES LAYS A TREE OF DOCUMENTS OVER EACH OTHER IN POST-ORDER.**

  The documents that go into a configuration form a tree: under each document
  stand, in the order listed, the documents it refers to.  One that is reached
  twice stands there twice, each time with the bytes it was loaded with then.

      post-order    every document behind all it includes    the stack
      pre-order     every document in front of them          the sources

  A loader may answer differently each time it is asked, so it acts on a state,
  and `Loaded` says which tree it gives from which state.  A configuration that
  was resolved is the stack of that one tree (`resolve_postOrder`): resolution
  lays a fresh stack at every level, and a stack of stacks is one stack.
-/
import TenantSync.Config.Include
import TenantSync.Proofs.Config.Overlay
import TenantSync.Proofs.Exec

namespace TenantSync.Config

/-! ## §1. Trees of documents. -/

/-- A document as it was loaded, and the documents it includes. -/
inductive IncludeTree where
  | node (id : String) (bytes : ByteArray) (document : Config) (included : List IncludeTree)

namespace IncludeTree

/-- The document at the root. -/
def document : IncludeTree → Config
  | node _ _ d _ => d

/-- The trees of the documents that the one at the root includes, in order. -/
def included : IncludeTree → List IncludeTree
  | node _ _ _ ts => ts

mutual

/-- The documents, each behind all it includes. -/
def postOrder : IncludeTree → List Config
  | node _ _ d ts => postOrderAll ts ++ [d]

/-- The documents of trees in turn. -/
def postOrderAll : List IncludeTree → List Config
  | [] => []
  | t :: ts => postOrder t ++ postOrderAll ts

end

mutual

/-- Identifier and digest of the documents, each in front of all it includes. -/
def preOrder : IncludeTree → List Source
  | node id bytes _ ts => ⟨id, Digest.hexOf bytes⟩ :: preOrderAll ts

/-- Identifiers and digests of trees in turn. -/
def preOrderAll : List IncludeTree → List Source
  | [] => []
  | t :: ts => preOrder t ++ preOrderAll ts

end

/-- A tree stands somewhere in another one, at any depth. -/
inductive In : IncludeTree → IncludeTree → Prop where
  | root {t : IncludeTree} : In t t
  | deeper {t u : IncludeTree} {id : String} {bytes : ByteArray} {d : Config}
      {ts : List IncludeTree} (hmem : u ∈ ts) (hin : In t u) : In t (node id bytes d ts)

theorem postOrderAll_append (ts us : List IncludeTree) :
    postOrderAll (ts ++ us) = postOrderAll ts ++ postOrderAll us := by
  induction ts with
  | nil => rfl
  | cons t ts ih => rw [List.cons_append, postOrderAll, postOrderAll, ih, List.append_assoc]

/-- A tree in another one is a block of its post-order: nothing from elsewhere comes
between a document and what it includes, nor between two of its includes. -/
theorem postOrder_of_in {t u : IncludeTree} (h : t.In u) :
    ∃ before after, u.postOrder = before ++ (postOrderAll t.included ++ [t.document]) ++ after := by
  induction h with
  | root =>
      obtain ⟨id, bytes, d, ts⟩ := t
      exact ⟨[], [], by simp [postOrder, included, document]⟩
  | @deeper _ _ _ d _ hmem _ ih =>
      obtain ⟨before, after, hu⟩ := ih
      obtain ⟨first, rest, rfl⟩ := List.append_of_mem hmem
      refine ⟨postOrderAll first ++ before, after ++ postOrderAll rest ++ [d], ?_⟩
      rw [postOrder, postOrderAll_append, postOrderAll, hu]
      simp only [List.append_assoc]

end IncludeTree

/-! ## §2. What a loader gives. -/

section Loading

variable {σ : Type} (loader : Loader (StateM σ))

mutual

/-- From a state, the loader gives a tree for a reference: the bytes it answers
with, the document they hold, and the trees of that document's references. -/
inductive Loaded : σ → (parent reference : String) → IncludeTree → σ → Prop
  | node {s s₁ s' : σ} {parent reference : String} {bytes : ByteArray} {document : Config}
      {included : List IncludeTree}
      (hload : execState (loader parent reference) s = (.ok bytes, s₁))
      (hdocument : ofBytes? bytes = some document)
      (hincluded : LoadedAll s₁ (Path.includeId parent reference) document.includes included s') :
      Loaded s parent reference
        (.node (Path.includeId parent reference) bytes document included) s'

/-- The loader gives trees for references in turn. -/
inductive LoadedAll : σ → (parent : String) → List String → List IncludeTree → σ → Prop
  | nil {s : σ} {parent : String} : LoadedAll s parent [] [] s
  | cons {s s₁ s' : σ} {parent reference : String} {references : List String}
      {tree : IncludeTree} {trees : List IncludeTree}
      (htree : Loaded s parent reference tree s₁)
      (htrees : LoadedAll s₁ parent references trees s') :
      LoadedAll s parent (reference :: references) (tree :: trees) s'

end

variable {loader}

mutual

/-- A loader gives one tree only. -/
theorem Loaded.unique {s s' s'' : σ} {parent reference : String} {tree other : IncludeTree}
    (h : Loaded loader s parent reference tree s')
    (h' : Loaded loader s parent reference other s'') : other = tree ∧ s'' = s' := by
  cases h with
  | node hload hdocument hincluded =>
      cases h' with
      | node hload' hdocument' hincluded' =>
          rw [hload] at hload'
          cases hload'
          rw [hdocument] at hdocument'
          cases hdocument'
          obtain ⟨rfl, rfl⟩ := LoadedAll.unique hincluded hincluded'
          exact ⟨rfl, rfl⟩

theorem LoadedAll.unique {s s' s'' : σ} {parent : String} {references : List String}
    {trees others : List IncludeTree} (h : LoadedAll loader s parent references trees s')
    (h' : LoadedAll loader s parent references others s'') : others = trees ∧ s'' = s' := by
  cases h with
  | nil =>
      cases h'
      exact ⟨rfl, rfl⟩
  | cons htree htrees =>
      cases h' with
      | cons htree' htrees' =>
          obtain ⟨rfl, rfl⟩ := Loaded.unique htree htree'
          obtain ⟨rfl, rfl⟩ := LoadedAll.unique htrees htrees'
          exact ⟨rfl, rfl⟩

end

/-! ## §3. What is resolved. -/

/-- A document is fetched by loading and decoding it. -/
theorem fetch_ok {parent reference id : String} {s s' : σ} {bytes : ByteArray} {document : Config}
    (h : exec (fetch loader parent reference id) s = (.ok (bytes, document), s')) :
    execState (loader parent reference) s = (.ok bytes, s') ∧ ofBytes? bytes = some document := by
  unfold fetch at h
  rw [exec_bind, exec_lift] at h
  rcases hload : execState (loader parent reference) s with ⟨fault | bytes', s₁⟩
  · rw [hload] at h
    cases h
  · rw [hload] at h
    simp only at h
    cases hdocument : ofBytes? bytes' with
    | none =>
        rw [hdocument] at h
        cases h
    | some document' =>
        rw [hdocument] at h
        cases h
        exact ⟨rfl, hdocument⟩

/-- A configuration is the stack of a tree, its sources those of the tree. -/
def Effective.Of (e : Effective) (tree : IncludeTree) : Prop :=
  e.config = overlayAll tree.postOrder ∧ e.sources = tree.preOrder

/-- Lay the configurations of references over what was laid so far. -/
def resolveAll (loader : Loader (StateM σ)) (depth : Nat) (opened : List String)
    (parent : String) (references : List String) (acc : Effective) :
    ExceptT Error (StateM σ) Effective :=
  references.foldlM (fun acc reference => do
    let e ← resolve loader depth opened parent reference
    return ⟨acc.config.overlay e.config, acc.sources ++ e.sources⟩) acc

/-- One level of resolution. -/
theorem resolve_succ (depth : Nat) (opened : List String) (parent reference : String) :
    resolve loader (depth + 1) opened parent reference
      = if opened.contains (Path.includeId parent reference) then
          throw (.cycle (opened ++ [Path.includeId parent reference]))
        else do
          let (bytes, document) ← fetch loader parent reference (Path.includeId parent reference)
          let acc ← resolveAll loader depth (opened ++ [Path.includeId parent reference])
            (Path.includeId parent reference) document.includes ⟨{}, []⟩
          return ⟨acc.config.overlay document,
            ⟨Path.includeId parent reference, Digest.hexOf bytes⟩ :: acc.sources⟩ := by
  rw [resolve]
  dsimp only
  split <;> rfl

/-- References in turn give trees in turn, if each gives one. -/
theorem resolveAll_ok {depth : Nat} {opened : List String} {parent : String}
    (hone : ∀ {reference : String} {s s' : σ} {e : Effective},
      exec (resolve loader depth opened parent reference) s = (.ok e, s') →
        ∃ tree, Loaded loader s parent reference tree s' ∧ e.Of tree)
    (references : List String) :
    ∀ {s s' : σ} {acc e : Effective}, acc.config.includes = [] →
      exec (resolveAll loader depth opened parent references acc) s = (.ok e, s') →
        ∃ trees, LoadedAll loader s parent references trees s'
          ∧ e.config = acc.config.overlay (overlayAll (IncludeTree.postOrderAll trees))
          ∧ e.sources = acc.sources ++ IncludeTree.preOrderAll trees := by
  induction references with
  | nil =>
      intro s s' acc e hacc h
      cases h
      exact ⟨[], .nil, (overlay_empty_of_includes hacc).symm, (List.append_nil _).symm⟩
  | cons reference references ih =>
      intro s s' acc e hacc h
      unfold resolveAll at h
      rw [List.foldlM_cons, bind_assoc, exec_bind] at h
      rcases hfirst : exec (resolve loader depth opened parent reference) s with ⟨_ | e₁, s₁⟩
      · rw [hfirst] at h
        cases h
      · rw [hfirst] at h
        simp only [pure_bind] at h
        obtain ⟨tree, htree, hconfig, hsources⟩ := hone hfirst
        -- the rest is laid over what the first reference gave, as `acc` was
        obtain ⟨trees, htrees, hconfig', hsources'⟩ := ih rfl h
        refine ⟨tree :: trees, .cons htree htrees, ?_, ?_⟩
        · rw [hconfig', hconfig, overlay_assoc, ← overlayAll_append]
          rfl
        · rw [hsources', hsources, List.append_assoc]
          rfl

/-- **Every level of resolution gives the stack of a tree.** -/
theorem resolve_ok (depth : Nat) :
    ∀ {opened : List String} {parent reference : String} {s s' : σ} {e : Effective},
      exec (resolve loader depth opened parent reference) s = (.ok e, s') →
        ∃ tree, Loaded loader s parent reference tree s' ∧ e.Of tree := by
  induction depth with
  | zero =>
      intro opened parent reference s s' e h
      cases h
  | succ depth ih =>
      intro opened parent reference s s' e h
      rw [resolve_succ] at h
      split at h
      · cases h
      · rw [exec_bind] at h
        rcases hfetch : exec (fetch loader parent reference (Path.includeId parent reference)) s
          with ⟨_ | ⟨bytes, document⟩, s₁⟩
        · rw [hfetch] at h
          cases h
        · rw [hfetch] at h
          simp only at h
          rw [exec_bind] at h
          rcases hall : exec (resolveAll loader depth (opened ++ [Path.includeId parent reference])
            (Path.includeId parent reference) document.includes ⟨{}, []⟩) s₁ with ⟨_ | acc, s₂⟩
          · rw [hall] at h
            cases h
          · rw [hall] at h
            cases h
            obtain ⟨hload, hdocument⟩ := fetch_ok hfetch
            obtain ⟨trees, htrees, hconfig, hsources⟩ := resolveAll_ok ih _ rfl hall
            refine ⟨_, .node hload hdocument htrees, ?_, ?_⟩
            · -- the stack that was begun afresh is the one of the trees alone
              show acc.config.overlay document = _
              rw [hconfig, IncludeTree.postOrder, overlayAll_concat]
              exact congrArg (overlay · document) (overlayAll_append [] _).symm
            · show _ :: acc.sources = _
              rw [hsources, IncludeTree.preOrder]
              rfl

/-- **Include resolution is a fold in post-order.**  A configuration that was resolved
is the stack of the documents of the one tree that the loader gives for the root, its
sources are those documents as they were loaded.  Every element is that of the last
document in post-order which has it; and at any depth a document comes directly behind
the trees of what it includes, in turn. -/
theorem resolve_postOrder (loader : Loader (StateM σ)) (depth : Nat) (root : String) {s s' : σ}
    {e : Effective} (h : exec (resolve loader depth [] "" root) s = (.ok e, s')) :
    ∃ tree, Loaded loader s "" root tree s'
      ∧ (∀ other s'', Loaded loader s "" root other s'' → other = tree)
      ∧ e.config = overlayAll tree.postOrder
      ∧ e.sources = tree.preOrder
      ∧ (∀ (k : Keyed) name, (k.of e.config).get? name
          = (tree.postOrder.filterMap fun d => (k.of d).get? name).getLast?)
      ∧ ∀ t : IncludeTree, t.In tree → ∃ before after, tree.postOrder
          = before ++ (IncludeTree.postOrderAll t.included ++ [t.document]) ++ after := by
  obtain ⟨tree, hloaded, hconfig, hsources⟩ := resolve_ok depth h
  refine ⟨tree, hloaded, fun other s'' hother => (hloaded.unique hother).1, hconfig, hsources,
    fun k name => ?_, fun t ht => IncludeTree.postOrder_of_in ht⟩
  rw [hconfig]
  exact k.get?_overlayAll tree.postOrder name

/-- A document that is reached twice stands in the tree twice, and counts the second
time as well: what lies over it the first time does not override it the second. -/
theorem resolve_postOrder_twice :
    let loader : Loader (StateM Nat) := fun _ reference => do
      modify (· + 1)
      return .ok (match reference with
        | "root" => "include: [a, b]".toUTF8
        | "a" => "include: [b]\norg-value: {otx: middle}".toUTF8
        | _ => "org-value: {otx: shared}".toUTF8)
    let sources : List Source :=
      [⟨"root", "de5b5159f62291b2648a0e22f16070fbf905f11f064a04bb8583d8977a8dadef"⟩,
        ⟨"a", "e2571038601c75041aa296d48abe7ce7154ef21a9c54c182b33c48a6762eb9ec"⟩,
        ⟨"b", "1aed5e64f4353be3d886086ce258d4efa95d714ed24161575adb4779d2f32f06"⟩,
        ⟨"b", "1aed5e64f4353be3d886086ce258d4efa95d714ed24161575adb4779d2f32f06"⟩]
    ∃ e tree, exec (resolve loader 3 [] "" "root") 0 = (.ok e, 4)
      ∧ Loaded loader 0 "" "root" tree 4
      ∧ e.config = overlayAll tree.postOrder ∧ e.sources = tree.preOrder
      ∧ e.sources = sources
      ∧ e.config.orgValues.get? "otx" = some "shared" := by
  intro loader sources
  have hsome : (match exec (resolve loader 3 [] "" "root") 0 with
      | (.ok e, n) => n == 4 && e.sources == sources
          && e.config.orgValues.get? "otx" == some "shared"
      | (.error _, _) => false) = true := by
    decide +kernel
  rcases hresolve : exec (resolve loader 3 [] "" "root") 0 with ⟨_ | e, n⟩
  · rw [hresolve] at hsome
    cases hsome
  rw [hresolve] at hsome
  simp only [Bool.and_eq_true, beq_iff_eq] at hsome
  obtain ⟨⟨rfl, hloadedFrom⟩, hvalue⟩ := hsome
  obtain ⟨tree, hloaded, -, hconfig, hsources, -⟩ := resolve_postOrder loader 3 "root" hresolve
  exact ⟨e, tree, rfl, hloaded, hconfig, hsources, hloadedFrom, hvalue⟩

end Loading

end TenantSync.Config
