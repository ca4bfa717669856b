/-
  TenantSync.Proofs.Config.Relocation
  ───────────────────────────────────
  **DOCUMENTS CAN BE MOVED TOGETHER.**

  References are relative to the document they stand in, so documents that refer only
  to each other do not know where they all are.  When every document is moved into a
  directory, resolution goes the same way there as before:

      an identifier            moves     (`IsDirectory.includeId_under`)
      what comes of opening    moves     (`opening_moved`)
      one level of references  moves     (`layAll_moved`)
      the whole resolution     moves     (`resolve_moved`)

  The exceptions are references that say where they lead: an absolute one, and one that
  leads out of the place where the documents were.  Where neither can be reached from
  the root, the configuration is the same, and identifiers in its sources, or in the
  error, are those of the moved documents (`load_moved`).
-/
import TenantSync.Proofs.Config.IncludeGraph
import TenantSync.Proofs.Config.Path

namespace TenantSync.Config

open Relation (ReflTransGen)

/-! ## §1. What is moved. -/

/-- Documents moved into a directory. -/
def Documents.moved (dir : String) (docs : Documents) : Documents :=
  NameMap.ofList (docs.entries.map fun e => (Path.under dir e.1, e.2))

/-- The fault of a document that was moved. -/
def LoadFault.moved (dir : String) : LoadFault → LoadFault
  | .notFound name => .notFound (Path.under dir name)
  | .unreadable path message => .unreadable (Path.under dir path) message

/-- The error of documents that were moved. -/
def Error.moved (dir : String) : Error → Error
  | .malformed document => .malformed (Path.under dir document)
  | .unavailable document fault => .unavailable (Path.under dir document) (fault.moved dir)
  | .cycle chain => .cycle (chain.map (Path.under dir))
  | .tooDeep document => .tooDeep (Path.under dir document)

/-- A source that was moved. -/
def Source.moved (dir : String) (source : Source) : Source :=
  { source with id := Path.under dir source.id }

/-- The configuration does not know where the documents were. -/
def Effective.moved (dir : String) (e : Effective) : Effective :=
  { e with sources := e.sources.map (Source.moved dir) }

/-- What comes of resolving documents that were moved. -/
def movedOutcome (dir : String) : Except Error Effective → Except Error Effective
  | .ok e => .ok (e.moved dir)
  | .error e => .error (e.moved dir)

/-! ## §2. Resolution moves. -/

section Moved

variable {docs : Documents} {dir : String}

/-- A document is found where it was moved to. -/
theorem get?_moved (docs : Documents) (dir id : String) :
    (docs.moved dir).get? (Path.under dir id) = docs.get? id :=
  NameMap.get?_rename (Path.under_injective dir) docs id

/-- Opening a document comes to the same where it was moved to. -/
theorem opening_moved (opened : List String) (id : String) :
    (docs.moved dir).opening (opened.map (Path.under dir)) (Path.under dir id)
      = (docs.opening opened id).mapError (Error.moved dir) := by
  unfold Documents.opening
  rw [get?_moved]
  by_cases hopen : id ∈ opened
  · rw [if_pos hopen, if_pos (List.mem_map_of_mem hopen)]
    show Except.error (Error.cycle _) = Except.error (Error.cycle _)
    rw [List.map_append]
    rfl
  · have hnew : Path.under dir id ∉ opened.map (Path.under dir) := by
      rw [List.mem_map_of_injective (Path.under_injective dir)]
      exact hopen
    rw [if_neg hopen, if_neg hnew]
    cases docs.get? id with
    | none => rfl
    | some bytes =>
        dsimp only
        cases ofBytes? bytes <;> rfl

/-- References are resolved one after the other. -/
theorem layAll_cons (one : String → ExceptT Error Id Effective) (reference : String)
    (references : List String) (acc : Effective) :
    layAll one (reference :: references) acc = (do
      let e ← one reference
      layAll one references ⟨acc.config.overlay e.config, acc.sources ++ e.sources⟩) := by
  unfold layAll
  rw [List.foldlM_cons, bind_assoc]
  rfl

/-- References that come to the same where they were moved to are laid over each other
alike. -/
theorem layAll_moved {one one' : String → ExceptT Error Id Effective} (references : List String)
    (hone : ∀ reference ∈ references,
      (one' reference).run = movedOutcome dir (one reference).run) (acc : Effective) :
    (layAll one' references (acc.moved dir)).run
      = movedOutcome dir (layAll one references acc).run := by
  induction references generalizing acc with
  | nil => rfl
  | cons reference references ih =>
      obtain ⟨hfirst, hrest⟩ := List.forall_mem_cons.1 hone
      rw [layAll_cons, layAll_cons, ExceptT.run_bind, ExceptT.run_bind, hfirst]
      cases (one reference).run with
      | error e => rfl
      | ok e =>
          -- what was laid over so far is the same configuration, of sources that were moved
          have hacc : Effective.moved dir ⟨acc.config.overlay e.config, acc.sources ++ e.sources⟩
              = ⟨(acc.moved dir).config.overlay (e.moved dir).config,
                (acc.moved dir).sources ++ (e.moved dir).sources⟩ := by
            unfold Effective.moved
            rw [List.map_append]
          have hall := ih hrest ⟨acc.config.overlay e.config, acc.sources ++ e.sources⟩
          rw [hacc] at hall
          exact hall

/-- From here documents can be moved: the identifier stays inside, and is that of no document
with an absolute reference. -/
structure Movable (docs : Documents) (id : String) : Prop where
  nonempty : id ≠ ""
  inside : ¬Path.Climbs id.toList
  references : ∀ document, docs.document? id = some document →
    ∀ reference ∈ document.includes, Path.isAbsolute reference.toList = false

variable {root : String} (hdir : Path.IsDirectory dir)
  (hrelative : Path.isAbsolute root.toList = false)
  (hmovable : ∀ id, ReflTransGen docs.Includes root id → Movable docs id)

include hrelative hmovable in
/-- Only relative identifiers can be reached. -/
theorem isAbsolute_of_reached {id : String} (h : ReflTransGen docs.Includes root id) :
    Path.isAbsolute id.toList = false := by
  induction h with
  | refl => exact hrelative
  | tail hreached hedge ih =>
      obtain ⟨document, hdocument, reference, hreference, rfl⟩ := hedge
      exact Path.isAbsolute_includeId ih
        ((hmovable _ hreached).references document hdocument reference hreference)

include hdir hrelative hmovable in
/-- **Resolution moves with the documents**, at any depth and whatever documents are open. -/
theorem resolve_moved (depth : Nat) :
    ∀ (opened : List String) (parent reference parent' reference' : String),
      ReflTransGen docs.Includes root (Path.includeId parent reference) →
      Path.includeId parent' reference' = Path.under dir (Path.includeId parent reference) →
      (resolve (docs.moved dir).loader depth (opened.map (Path.under dir)) parent' reference').run
        = movedOutcome dir (resolve docs.loader depth opened parent reference).run := by
  induction depth with
  | zero =>
      intro opened parent reference parent' reference' hreached hid
      rw [resolve, resolve, hid]
      rfl
  | succ depth ih =>
      intro opened parent reference parent' reference' hreached hid
      rw [resolve_documents, resolve_documents, hid, opening_moved]
      cases hopening : docs.opening opened (Path.includeId parent reference) with
      | error e => rfl
      | ok x =>
          obtain ⟨bytes, document⟩ := x
          obtain ⟨-, -, hdocument⟩ := Documents.opening_ok hopening
          -- each reference leads to a document that was moved as well
          have hone : ∀ reference' ∈ document.includes,
              (resolve (docs.moved dir).loader depth
                (opened.map (Path.under dir) ++ [Path.under dir (Path.includeId parent reference)])
                (Path.under dir (Path.includeId parent reference)) reference').run
              = movedOutcome dir (resolve docs.loader depth
                (opened ++ [Path.includeId parent reference])
                (Path.includeId parent reference) reference').run := by
            intro reference' hreference'
            have hnext : ReflTransGen docs.Includes root
                (Path.includeId (Path.includeId parent reference) reference') :=
              hreached.tail ⟨document, hdocument, reference', hreference', rfl⟩
            have hinside := hmovable _ hnext
            have hunder := ih (opened ++ [Path.includeId parent reference]) _ _ _ _ hnext
              (hdir.includeId_under (isAbsolute_of_reached hrelative hmovable hreached)
                ((hmovable _ hreached).references document hdocument reference' hreference')
                hinside.nonempty hinside.inside)
            rw [List.map_append] at hunder
            exact hunder
          have hall := layAll_moved document.includes hone ⟨{}, []⟩
          show (ExceptT.run (layAll _ document.includes _ >>= _)) = movedOutcome dir
            (ExceptT.run (layAll _ document.includes _ >>= _))
          rw [ExceptT.run_bind, ExceptT.run_bind]
          change (layAll _ document.includes ⟨{}, []⟩).run = _ at hall
          rw [hall]
          cases (layAll (resolve docs.loader depth (opened ++ [Path.includeId parent reference])
            (Path.includeId parent reference)) document.includes ⟨{}, []⟩).run <;> rfl

end Moved

/-! ## §3. Loading. -/

/-- **Trees of documents are relocatable.**  If from a root, given by its normal form, no
document with an absolute reference can be reached, and no identifier that is empty or
leads out of the place where the documents are, then loading the root comes to the same
after all documents were moved into a directory: to the same configuration, from the same
bytes in the same order, or to the same kind of error, with every identifier moved. -/
theorem load_moved (docs : Documents) {dir root : String} (hdir : Path.IsDirectory dir)
    (hroot : Path.includeId "" root = root) (hrelative : Path.isAbsolute root.toList = false)
    (hmovable : ∀ id, ReflTransGen docs.Includes root id → Movable docs id) :
    load (docs.moved dir) (Path.under dir root) = movedOutcome dir (load docs root) := by
  have hid : Path.includeId "" (Path.under dir root) = Path.under dir (Path.includeId "" root) := by
    have hmove := hmovable root .refl
    have hnormal : Path.normalize root.toList = root.toList := by
      have h := congrArg String.toList hroot
      rwa [Path.includeId_root, String.toList_ofList] at h
    rw [Path.includeId_root, Path.includeId_root, Path.toList_under]
    refine hdir.normalize_under hrelative ?_ ?_
    · rw [hnormal]
      exact fun hnil => hmove.nonempty (String.toList_inj.1 hnil)
    · rw [hnormal]
      exact hmove.inside
  have hreached : ReflTransGen docs.Includes root (Path.includeId "" root) := by
    rw [hroot]
  -- a depth that neither map of documents can outgrow
  have hdocs := load_eq_resolveOn docs root
    (show docs.size < docs.size + (docs.moved dir).size + 1 by omega)
  have hmoved := load_eq_resolveOn (docs.moved dir) (Path.under dir root)
    (show (docs.moved dir).size < docs.size + (docs.moved dir).size + 1 by omega)
  have hload : ∀ (docs : Documents) (root : String),
      load docs root = (resolveOn docs .empty "" root).run :=
    fun docs root => load_eq_resolveOn docs root (Nat.lt_succ_self docs.size)
  rw [hload, hload, ← hdocs, ← hmoved]
  exact resolve_moved hdir hrelative hmovable _ [] "" root "" (Path.under dir root) hreached hid

/-- Documents that lead to each other up a directory and down again, in different spellings. -/
def crossing : Documents :=
  .ofList [("x/a", "include: [./b, ../y//c/../d]".toUTF8), ("x/b", "include: [../y/./d]".toUTF8),
    ("y/d", "org-value: {otx: shared}".toUTF8)]

/-- From here they can be moved. -/
theorem movable_crossing {id : String} (h : ReflTransGen crossing.Includes "x/a" id) :
    Movable crossing id := by
  -- the identifiers that can be reached are among these
  have hclosed : ∀ id ∈ ["x/a", "x/b", "y/d"], ((crossing.document? id).all fun document =>
      document.includes.all fun reference => !Path.isAbsolute reference.toList
        && ["x/a", "x/b", "y/d"].contains (Path.includeId id reference)) = true := by
    decide +kernel
  have hreferences : ∀ id ∈ ["x/a", "x/b", "y/d"], ∀ document,
      crossing.document? id = some document → ∀ reference ∈ document.includes,
        Path.isAbsolute reference.toList = false
          ∧ Path.includeId id reference ∈ ["x/a", "x/b", "y/d"] := by
    intro id hid document hdocument reference hreference
    have hall := hclosed id hid
    rw [hdocument, Option.all_some, List.all_eq_true] at hall
    have hboth := hall reference hreference
    rw [Bool.and_eq_true, Bool.not_eq_true', List.contains_iff_mem] at hboth
    exact hboth
  have hid : id ∈ ["x/a", "x/b", "y/d"] := by
    induction h with
    | refl => decide
    | tail _ hedge ih =>
        obtain ⟨document, hdocument, reference, hreference, rfl⟩ := hedge
        exact (hreferences _ ih document hdocument reference hreference).2
  have hinside : ∀ id ∈ ["x/a", "x/b", "y/d"], id ≠ "" ∧ ¬Path.Climbs id.toList := by
    unfold Path.Climbs
    decide +kernel
  exact ⟨(hinside id hid).1, (hinside id hid).2, fun document hdocument reference hreference =>
    (hreferences id hid document hdocument reference hreference).1⟩

/-- They can be moved up and into another directory, and are included from there in the same
order and with the same bytes. -/
theorem load_moved_crossing :
    ∃ e e', load crossing "x/a" = .ok e ∧ load (crossing.moved "../org") "../org/x/a" = .ok e'
      ∧ e'.config = e.config ∧ e'.sources.map (·.digest) = e.sources.map (·.digest)
      ∧ e.sources.map (·.id) = ["x/a", "x/b", "y/d", "y/d"]
      ∧ e'.sources.map (·.id)
          = ["../org/x/a", "../org/x/b", "../org/y/d", "../org/y/d"] := by
  have hload : (match load crossing "x/a" with
      | .ok e => e.sources.map (·.id) == ["x/a", "x/b", "y/d", "y/d"]
      | .error _ => false) = true := by
    decide +kernel
  have hdir : Path.IsDirectory "../org" := ⟨by decide +kernel, by decide, by decide⟩
  have hroot : Path.includeId "" "x/a" = "x/a" := by decide +kernel
  have hmoved := load_moved crossing hdir hroot (by decide +kernel) fun id => movable_crossing
  cases hloaded : load crossing "x/a" with
  | error _ =>
      rw [hloaded] at hload
      cases hload
  | ok e =>
      rw [hloaded] at hload hmoved
      have hids : e.sources.map (·.id) = ["x/a", "x/b", "y/d", "y/d"] := eq_of_beq hload
      refine ⟨e, e.moved "../org", rfl, hmoved, rfl, ?_, hids, ?_⟩
      · show (e.sources.map (Source.moved "../org")).map (·.digest) = _
        rw [List.map_map]
        rfl
      · show (e.sources.map (Source.moved "../org")).map (·.id) = _
        have hmap : (e.sources.map (Source.moved "../org")).map (·.id)
            = (e.sources.map (·.id)).map (Path.under "../org") := by
          rw [List.map_map, List.map_map]
          rfl
        rw [hmap, hids]
        rfl

end TenantSync.Config
