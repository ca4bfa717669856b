/-
  TenantSync.Proofs.Config.IncludeGraph
  ─────────────────────────────────────
  **RESOLVING DOCUMENTS IN A MAP IS A DEPTH-FIRST WALK, AND ENDS.**

  The documents of a map are the nodes of a graph, an edge for each reference.
  The resolver walks it from the root, references in the order listed, through
  any document again that is referred to again.  What it finds depends on the
  graph alone:

      it resolves   every document that can be reached is there and can be read,
                    and no cycle can be reached
      it fails      with what stands in the way at the first place of the walk,
                    in pre-order, where anything does

  Nothing gets smaller from a document to the one it includes.  The walk ends
  since the open documents are distinct and all of them in the map: `Stack` is
  the type of such lists, and the resolver that goes by it needs no depth.
-/
import Mathlib.Data.List.Chain
import Mathlib.Data.List.Perm.Subperm
import Mathlib.Logic.Relation
import TenantSync.Config.Include
import TenantSync.Proofs.NameMap

namespace TenantSync.Config

open Relation (ReflTransGen TransGen)

/-! ## §1. The graph of a map of documents. -/

namespace Documents

variable (docs : Documents)

/-- The document under an identifier, if there is one and it can be read. -/
def document? (id : String) : Option Config := (docs.get? id).bind ofBytes?

/-- One document refers to another. -/
def Includes (id id' : String) : Prop :=
  ∃ document, docs.document? id = some document
    ∧ ∃ reference ∈ document.includes, id' = Path.includeId id reference

/-- What comes of opening a document while others are open: its bytes and content, or
what stands in the way. -/
def opening (opened : List String) (id : String) : Except Error (ByteArray × Config) :=
  if id ∈ opened then .error (.cycle (opened ++ [id]))
  else
    match docs.get? id with
    | none => .error (.unavailable id (.notFound id))
    | some bytes =>
        match ofBytes? bytes with
        | none => .error (.malformed id)
        | some document => .ok (bytes, document)

variable {docs}

/-- A document that is opened is another one than those that are open, and can be read. -/
theorem opening_ok {opened : List String} {id : String} {bytes : ByteArray} {document : Config}
    (h : docs.opening opened id = .ok (bytes, document)) :
    id ∉ opened ∧ docs.get? id = some bytes ∧ docs.document? id = some document := by
  unfold opening at h
  split at h
  · cases h
  next hnew =>
    split at h
    · cases h
    next hget =>
      split at h
      · cases h
      next hread =>
        cases h
        exact ⟨hnew, hget, by rw [document?, hget, Option.bind_some, hread]⟩

/-- A document that is open cannot be opened. -/
theorem opening_of_mem {opened : List String} {id : String} (h : id ∈ opened) :
    docs.opening opened id = .error (.cycle (opened ++ [id])) := if_pos h

end Documents

/-! ## §2. Open documents. -/

/-- Documents of a map that are open at one time, the root first. -/
structure Stack (docs : Documents) where
  ids : List String
  /-- None is open twice. -/
  nodup : ids.Nodup
  /-- Each is in the map. -/
  held : ids ⊆ docs.keys

namespace Stack

variable {docs : Documents}

/-- No document is open. -/
def empty : Stack docs := ⟨[], List.nodup_nil, List.nil_subset _⟩

/-- One more document is open. -/
def push (stack : Stack docs) (id : String) {bytes : ByteArray} {document : Config}
    (h : docs.opening stack.ids id = .ok (bytes, document)) : Stack docs where
  ids := stack.ids ++ [id]
  nodup := by
    refine List.nodup_append.2 ⟨stack.nodup, List.pairwise_singleton _ id, ?_⟩
    rintro a ha b hb rfl
    exact (Documents.opening_ok h).1 (List.mem_singleton.1 hb ▸ ha)
  held := by
    have hheld : id ∈ docs.keys := NameMap.mem_keys.2 ⟨bytes, (Documents.opening_ok h).2.1⟩
    exact List.append_subset.2 ⟨stack.held, List.cons_subset.2 ⟨hheld, List.nil_subset _⟩⟩

/-- No more documents are open than there are. -/
theorem length_le (stack : Stack docs) : stack.ids.length ≤ docs.size := by
  have hkeys : docs.keys.length = docs.size := List.length_map _
  rw [← hkeys]
  exact (List.subperm_of_subset stack.nodup stack.held).length_le

/-- Opening a document leaves room for fewer. -/
theorem room_push (stack : Stack docs) {id : String} {bytes : ByteArray} {document : Config}
    (h : docs.opening stack.ids id = .ok (bytes, document)) :
    docs.size - (stack.push id h).ids.length < docs.size - stack.ids.length := by
  have hle := (stack.push id h).length_le
  have hlength : (stack.push id h).ids.length = stack.ids.length + 1 := List.length_append
  omega

end Stack

/-! ## §3. Resolution without a depth. -/

/-- What references resolve to, laid over each other in turn. -/
def layAll (one : String → ExceptT Error Id Effective) (references : List String)
    (acc : Effective) : ExceptT Error Id Effective :=
  references.foldlM (fun acc reference => do
    let e ← one reference
    return ⟨acc.config.overlay e.config, acc.sources ++ e.sources⟩) acc

/-- A document laid over what it includes. -/
def Effective.closedBy (included : Effective) (id : String) (bytes : ByteArray)
    (document : Config) : Effective :=
  ⟨included.config.overlay { document with includes := [] },
    ⟨id, Digest.hexOf bytes⟩ :: included.sources⟩

/-- The configuration of a document and of all it includes.  Each document that is
opened takes one of the finitely many places on the stack, so no depth is given. -/
def resolveOn (docs : Documents) (stack : Stack docs) (parent reference : String) :
    ExceptT Error Id Effective :=
  match hopening : docs.opening stack.ids (Path.includeId parent reference) with
  | .error e => throw e
  | .ok (bytes, document) => do
      let included ← layAll
        (resolveOn docs (stack.push (Path.includeId parent reference) hopening)
          (Path.includeId parent reference))
        document.includes ⟨{}, []⟩
      return included.closedBy (Path.includeId parent reference) bytes document
termination_by docs.size - stack.ids.length
decreasing_by exact stack.room_push hopening

section Levels

variable {docs : Documents}

/-- What is fetched from documents in a map is what comes of opening them. -/
theorem fetch_documents {opened : List String} {parent reference : String}
    (hnew : Path.includeId parent reference ∉ opened) :
    fetch docs.loader parent reference (Path.includeId parent reference)
      = ExceptT.mk (m := Id) (docs.opening opened (Path.includeId parent reference)) := by
  unfold fetch Documents.opening Documents.loader
  rw [if_neg hnew]
  dsimp only
  cases docs.get? (Path.includeId parent reference) with
  | none => rfl
  | some bytes =>
      show (match ofBytes? bytes with
        | none => throw (.malformed _)
        | some document => pure (bytes, document) : ExceptT Error Id _) = _
      dsimp only
      cases ofBytes? bytes <;> rfl

/-- One level of resolution, to a depth. -/
theorem resolve_documents (depth : Nat) (opened : List String) (parent reference : String) :
    resolve docs.loader (depth + 1) opened parent reference
      = match docs.opening opened (Path.includeId parent reference) with
        | .error e => throw e
        | .ok (bytes, document) => do
            let included ← layAll (resolve docs.loader depth
                (opened ++ [Path.includeId parent reference]) (Path.includeId parent reference))
              document.includes ⟨{}, []⟩
            return included.closedBy (Path.includeId parent reference) bytes document := by
  rw [resolve]
  dsimp only
  by_cases hopened : Path.includeId parent reference ∈ opened
  · rw [if_pos (List.contains_iff_mem.2 hopened), Documents.opening_of_mem hopened]
    rfl
  · rw [if_neg (mt List.contains_iff_mem.1 hopened), fetch_documents hopened]
    cases docs.opening opened (Path.includeId parent reference) <;> rfl

/-- A document that cannot be opened does not resolve. -/
theorem resolveOn_error {stack : Stack docs} {parent reference : String} {e : Error}
    (h : docs.opening stack.ids (Path.includeId parent reference) = .error e) :
    resolveOn docs stack parent reference = throw e := by
  rw [resolveOn]
  split
  next e' h' =>
    cases h.symm.trans h'
    rfl
  next h' => cases h.symm.trans h'

/-- A document that is opened resolves as what it includes does. -/
theorem resolveOn_ok {stack : Stack docs} {parent reference : String} {bytes : ByteArray}
    {document : Config}
    (h : docs.opening stack.ids (Path.includeId parent reference) = .ok (bytes, document)) :
    resolveOn docs stack parent reference = (do
      let included ← layAll (resolveOn docs (stack.push _ h) (Path.includeId parent reference))
        document.includes ⟨{}, []⟩
      return included.closedBy (Path.includeId parent reference) bytes document) := by
  rw [resolveOn]
  split
  next h' => cases h.symm.trans h'
  next h' =>
    cases h.symm.trans h'
    rfl

/-- A depth that the stack cannot outgrow makes no difference. -/
theorem resolve_eq_resolveOn (depth : Nat) :
    ∀ (stack : Stack docs), docs.size < depth + stack.ids.length →
      ∀ parent reference, resolve docs.loader depth stack.ids parent reference
        = resolveOn docs stack parent reference := by
  induction depth with
  | zero =>
      intro stack hdepth
      have hle := stack.length_le
      omega
  | succ depth ih =>
      intro stack hdepth parent reference
      rw [resolve_documents]
      split
      next e hopening => exact (resolveOn_error hopening).symm
      next bytes document hopening =>
        have hlength : (stack.push _ hopening).ids.length = stack.ids.length + 1 :=
          List.length_append
        have hrest : resolve docs.loader depth (stack.push _ hopening).ids
              (Path.includeId parent reference)
            = resolveOn docs (stack.push _ hopening) (Path.includeId parent reference) :=
          funext (ih (stack.push _ hopening) (by omega) _)
        rw [resolveOn_ok hopening, ← hrest]
        rfl

end Levels

/-! ## §4. The places of the walk. -/

namespace Documents

variable (docs : Documents)

/-- What stands in the way of opening a document while others are open. -/
inductive Obstructs (opened : List String) (id : String) : Error → Prop where
  /-- It is open. -/
  | cycle (hopen : id ∈ opened) : Obstructs opened id (.cycle (opened ++ [id]))
  /-- There is no such document. -/
  | missing (hnew : id ∉ opened) (hget : docs.get? id = none) :
      Obstructs opened id (.unavailable id (.notFound id))
  /-- It cannot be read. -/
  | malformed {bytes : ByteArray} (hnew : id ∉ opened) (hget : docs.get? id = some bytes)
      (hread : ofBytes? bytes = none) : Obstructs opened id (.malformed id)

/-- The place of a walk from a document that an address leads to, the documents that
are open there and the one that is next.  An address tells the way: which reference
is followed in each document, counted from the first. -/
def place? : (opened : List String) → (id : String) → List Nat → Option (List String × String)
  | opened, id, [] => some (opened, id)
  | opened, id, i :: address =>
      if id ∈ opened then none
      else
        (docs.document? id).bind fun document =>
          document.includes[i]?.bind fun reference =>
            place? (opened ++ [id]) (Path.includeId id reference) address

/-- At the place that an address leads to, something stands in the way. -/
def StoppedAt (opened : List String) (id : String) (address : List Nat) (e : Error) : Prop :=
  ∃ opened' id', docs.place? opened id address = some (opened', id') ∧ docs.Obstructs opened' id' e

/-- Nothing stands in the way at any place of a walk. -/
def Clear (opened : List String) (id : String) : Prop :=
  ∀ address e, ¬docs.StoppedAt opened id address e

/-- Pre-order: a place comes before those below it, and with all below it before those
of later references. -/
def Before (address address' : List Nat) : Prop := List.Lex (· < ·) address address'

/-- What stands in the way at the first place of a walk, in pre-order, where anything does. -/
def FirstStop (opened : List String) (id : String) (e : Error) : Prop :=
  ∃ address, docs.StoppedAt opened id address e
    ∧ ∀ address', Before address' address → ∀ e', ¬docs.StoppedAt opened id address' e'

variable {docs}

/-- A document cannot be opened exactly for what stands in the way. -/
theorem opening_error_iff {opened : List String} {id : String} {e : Error} :
    docs.opening opened id = .error e ↔ docs.Obstructs opened id e := by
  constructor
  · intro h
    unfold opening at h
    split at h
    next hopen =>
      cases h
      exact .cycle hopen
    next hnew =>
      split at h
      next hget =>
        cases h
        exact .missing hnew hget
      next hget =>
        split at h
        next hread =>
          cases h
          exact .malformed hnew hget hread
        next => cases h
  · intro h
    cases h with
    | cycle hopen => exact opening_of_mem hopen
    | missing hnew hget => rw [opening, if_neg hnew, hget]
    | malformed hnew hget hread =>
        rw [opening, if_neg hnew, hget]
        simp only [hread]

/-- At the start of a walk stands what stands in the way of its document. -/
theorem stoppedAt_nil {opened : List String} {id : String} {e : Error} :
    docs.StoppedAt opened id [] e ↔ docs.Obstructs opened id e := by
  constructor
  · rintro ⟨_, _, hplace, h⟩
    cases hplace
    exact h
  · exact fun h => ⟨opened, id, rfl, h⟩

/-- Further on stands what stands on the way from a reference. -/
theorem stoppedAt_cons {opened : List String} {id : String} {i : Nat} {address : List Nat}
    {e : Error} {bytes : ByteArray} {document : Config}
    (h : docs.opening opened id = .ok (bytes, document)) :
    docs.StoppedAt opened id (i :: address) e ↔ ∃ reference, document.includes[i]? = some reference
      ∧ docs.StoppedAt (opened ++ [id]) (Path.includeId id reference) address e := by
  obtain ⟨hnew, -, hdocument⟩ := opening_ok h
  unfold StoppedAt
  rw [place?, if_neg hnew, hdocument, Option.bind_some]
  constructor
  · rintro ⟨opened', id', hplace, hstop⟩
    obtain ⟨reference, hreference, hplace⟩ := Option.bind_eq_some_iff.1 hplace
    exact ⟨reference, hreference, opened', id', hplace, hstop⟩
  · rintro ⟨reference, hreference, opened', id', hplace, hstop⟩
    exact ⟨opened', id', Option.bind_eq_some_iff.2 ⟨reference, hreference, hplace⟩, hstop⟩

/-- Of two addresses one comes first, unless they are the same. -/
theorem before_or_eq_or_before :
    ∀ address address', Before address address' ∨ address = address' ∨ Before address' address
  | [], [] => .inr (.inl rfl)
  | [], _ :: _ => .inl .nil
  | _ :: _, [] => .inr (.inr .nil)
  | i :: address, j :: address' => by
      rcases Nat.lt_trichotomy i j with hlt | rfl | hlt
      · exact .inl (.rel hlt)
      · rcases before_or_eq_or_before address address' with h | rfl | h
        · exact .inl (.cons h)
        · exact .inr (.inl rfl)
        · exact .inr (.inr (.cons h))
      · exact .inr (.inr (.rel hlt))

/-- At one place one thing stands in the way. -/
theorem StoppedAt.unique {opened : List String} {id : String} {address : List Nat} {e e' : Error}
    (h : docs.StoppedAt opened id address e) (h' : docs.StoppedAt opened id address e') :
    e' = e := by
  obtain ⟨_, _, hplace, hstop⟩ := h
  obtain ⟨_, _, hplace', hstop'⟩ := h'
  cases hplace.symm.trans hplace'
  cases (opening_error_iff.2 hstop).symm.trans (opening_error_iff.2 hstop')
  rfl

/-- There is one first thing that stands in the way. -/
theorem FirstStop.unique {opened : List String} {id : String} {e e' : Error}
    (h : docs.FirstStop opened id e) (h' : docs.FirstStop opened id e') : e' = e := by
  obtain ⟨address, hstop, hfirst⟩ := h
  obtain ⟨address', hstop', hfirst'⟩ := h'
  rcases before_or_eq_or_before address address' with hbefore | rfl | hbefore
  · exact absurd hstop (hfirst' address hbefore e)
  · exact hstop.unique hstop'
  · exact absurd hstop' (hfirst address' hbefore e')

end Documents

/-! ## §5. What resolution finds. -/

section Walk

variable {docs : Documents}

/-- References before which none failed, or at one of which the first did. -/
theorem layAll_run (one : String → ExceptT Error Id Effective) (references : List String) :
    ∀ acc, (∃ e, (layAll one references acc).run = .ok e
        ∧ ∀ reference ∈ references, ∃ e', (one reference).run = .ok e')
      ∨ ∃ before reference after e, references = before ++ reference :: after
        ∧ (layAll one references acc).run = .error e ∧ (one reference).run = .error e
        ∧ ∀ reference' ∈ before, ∃ e', (one reference').run = .ok e' := by
  induction references with
  | nil => exact fun acc => .inl ⟨acc, rfl, fun _ h => nomatch h⟩
  | cons first references ih =>
      intro acc
      have hrun : layAll one (first :: references) acc = (do
          let e ← one first
          layAll one references ⟨acc.config.overlay e.config, acc.sources ++ e.sources⟩) := by
        rw [layAll, List.foldlM_cons, bind_assoc]
        rfl
      rw [hrun, ExceptT.run_bind]
      cases hfirst : (one first).run with
      | error e => exact .inr ⟨[], first, references, e, rfl, rfl, hfirst, fun _ h => nomatch h⟩
      | ok e₁ =>
          rcases ih ⟨acc.config.overlay e₁.config, acc.sources ++ e₁.sources⟩ with
            ⟨e, hrest, hall⟩ | ⟨before, reference, after, e, rfl, hrest, hone, hbefore⟩
          · exact .inl ⟨e, hrest, List.forall_mem_cons.2 ⟨⟨e₁, hfirst⟩, hall⟩⟩
          · exact .inr ⟨first :: before, reference, after, e, rfl, hrest, hone,
              List.forall_mem_cons.2 ⟨⟨e₁, hfirst⟩, hbefore⟩⟩

/-- What is found on a walk: a configuration where nothing stands in the way, else what
does so first. -/
def Documents.Finds (docs : Documents) (opened : List String) (id : String) :
    Except Error Effective → Prop
  | .ok _ => docs.Clear opened id
  | .error e => docs.FirstStop opened id e

/-- **Resolution is a walk up to the first obstruction.** -/
theorem resolveOn_finds (stack : Stack docs) (parent reference : String) :
    docs.Finds stack.ids (Path.includeId parent reference)
      (resolveOn docs stack parent reference).run := by
  cases hopening : docs.opening stack.ids (Path.includeId parent reference) with
  | error e =>
      rw [resolveOn_error hopening]
      refine ⟨[], Documents.stoppedAt_nil.2 (Documents.opening_error_iff.1 hopening), ?_⟩
      intro address' hbefore
      cases hbefore
  | ok opened =>
      obtain ⟨bytes, document⟩ := opened
      have hhere : ∀ e, ¬docs.StoppedAt stack.ids (Path.includeId parent reference) [] e := by
        intro e hstop
        cases hopening.symm.trans (Documents.opening_error_iff.2 (Documents.stoppedAt_nil.1 hstop))
      -- each reference is walked on a stack with one place less
      have hbelow := fun reference' => resolveOn_finds (stack.push _ hopening)
        (Path.includeId parent reference) reference'
      rw [resolveOn_ok hopening, ExceptT.run_bind]
      rcases layAll_run (resolveOn docs (stack.push _ hopening) (Path.includeId parent reference))
        document.includes ⟨{}, []⟩ with
        ⟨e, hrun, hall⟩ | ⟨before, reference', after, e, hincludes, hrun, hone, hbefore⟩
      · rw [hrun]
        rintro (_ | ⟨i, address⟩) e' hstop
        · exact hhere e' hstop
        · obtain ⟨reference', hreference, hstop⟩ := (Documents.stoppedAt_cons hopening).1 hstop
          obtain ⟨e'', hone⟩ := hall reference' (List.mem_of_getElem? hreference)
          have hclear := hbelow reference'
          rw [hone] at hclear
          exact hclear address e' hstop
      · rw [hrun]
        have hfirst := hbelow reference'
        rw [hone] at hfirst
        obtain ⟨address, hstop, hleast⟩ := hfirst
        have hat : document.includes[before.length]? = some reference' := by
          rw [hincludes, List.getElem?_append_right (Nat.le_refl _), Nat.sub_self]
          rfl
        refine ⟨before.length :: address,
          (Documents.stoppedAt_cons hopening).2 ⟨reference', hat, hstop⟩, ?_⟩
        intro address' hless e'
        cases hless with
        | nil => exact hhere e'
        | rel hlt =>
            -- an earlier reference was walked without an obstruction
            intro hstop'
            obtain ⟨other, hother, hstop'⟩ := (Documents.stoppedAt_cons hopening).1 hstop'
            rw [hincludes, List.getElem?_append_left hlt] at hother
            obtain ⟨e'', hone'⟩ := hbefore other (List.mem_of_getElem? hother)
            have hclear := hbelow other
            rw [hone'] at hclear
            exact hclear _ e' hstop'
        | cons hless =>
            intro hstop'
            obtain ⟨other, hother, hstop'⟩ := (Documents.stoppedAt_cons hopening).1 hstop'
            cases hat.symm.trans hother
            exact hleast _ hless e' hstop'
termination_by docs.size - stack.ids.length
decreasing_by exact stack.room_push hopening

end Walk

/-! ## §6. The walk and the graph. -/

section Graph

variable {docs : Documents}

/-- The open documents lead from the root to the next one, an edge at a time. -/
structure Leads (docs : Documents) (root : String) (opened : List String) (id : String) :
    Prop where
  nodup : opened.Nodup
  reached : ReflTransGen docs.Includes root id
  onward : ∀ id' ∈ opened, TransGen docs.Includes id' id
  chain : (opened ++ [id]).IsChain docs.Includes
  starts : (opened ++ [id]).head? = some root

namespace Leads

theorem root (root : String) : Leads docs root [] root where
  nodup := List.nodup_nil
  reached := .refl
  onward := fun _ h => nomatch h
  chain := List.isChain_singleton root
  starts := rfl

/-- One reference further. -/
theorem step {root id : String} {opened : List String} {document : Config} {reference : String}
    (h : Leads docs root opened id) (hnew : id ∉ opened)
    (hdocument : docs.document? id = some document) (hreference : reference ∈ document.includes) :
    Leads docs root (opened ++ [id]) (Path.includeId id reference) := by
  have hedge : docs.Includes id (Path.includeId id reference) :=
    ⟨document, hdocument, reference, hreference, rfl⟩
  refine ⟨?_, h.reached.tail hedge, ?_, ?_, ?_⟩
  · refine List.nodup_append.2 ⟨h.nodup, List.pairwise_singleton _ id, ?_⟩
    rintro a ha b hb rfl
    exact hnew (List.mem_singleton.1 hb ▸ ha)
  · intro id' hid'
    rcases List.mem_append.1 hid' with hid' | hid'
    · exact (h.onward id' hid').tail hedge
    · rw [List.mem_singleton.1 hid']
      exact .single hedge
  · refine h.chain.append (List.isChain_singleton _) ?_
    rintro x hx y hy
    rw [List.getLast?_concat] at hx
    cases hx
    cases hy
    exact hedge
  · rw [List.head?_append, h.starts]
    rfl

/-- So it is at every place of a walk. -/
theorem place {root : String} (address : List Nat) :
    ∀ {opened opened' : List String} {id id' : String}, Leads docs root opened id →
      docs.place? opened id address = some (opened', id') → Leads docs root opened' id' := by
  induction address with
  | nil =>
      intro opened opened' id id' h hplace
      cases hplace
      exact h
  | cons i address ih =>
      intro opened opened' id id' h hplace
      rw [Documents.place?] at hplace
      split at hplace
      · cases hplace
      next hnew =>
        obtain ⟨document, hdocument, hplace⟩ := Option.bind_eq_some_iff.1 hplace
        obtain ⟨reference, hreference, hplace⟩ := Option.bind_eq_some_iff.1 hplace
        exact ih (h.step hnew hdocument (List.mem_of_getElem? hreference)) hplace

end Leads

/-- One step beyond a place where nothing stands in the way. -/
theorem place_concat {document : Config} {reference : String} {i : Nat} {id' : String}
    {opened' : List String} (hnew : id' ∉ opened') (hdocument : docs.document? id' = some document)
    (hreference : document.includes[i]? = some reference) (address : List Nat) :
    ∀ {opened : List String} {id : String}, docs.place? opened id address = some (opened', id') →
      docs.place? opened id (address ++ [i])
        = some (opened' ++ [id'], Path.includeId id' reference) := by
  induction address with
  | nil =>
      intro opened id hplace
      cases hplace
      rw [List.nil_append, Documents.place?, if_neg hnew, hdocument, Option.bind_some, hreference]
      rfl
  | cons j address ih =>
      intro opened id hplace
      rw [List.cons_append]
      rw [Documents.place?] at hplace ⊢
      split at hplace
      · cases hplace
      next hopen =>
        obtain ⟨d, hd, hplace⟩ := Option.bind_eq_some_iff.1 hplace
        obtain ⟨r, hr, hplace⟩ := Option.bind_eq_some_iff.1 hplace
        rw [if_neg hopen, hd, Option.bind_some, hr]
        exact ih hplace

section Clear

variable {root : String} (hclear : docs.Clear [] root)
include hclear

/-- Where nothing stands in the way, the next document is none of those that are open
and can be read. -/
theorem opens_of_clear {address : List Nat} {opened : List String} {id : String}
    (hplace : docs.place? [] root address = some (opened, id)) :
    id ∉ opened ∧ (docs.document? id).isSome := by
  cases hopening : docs.opening opened id with
  | error e =>
      exact absurd ⟨opened, id, hplace, Documents.opening_error_iff.1 hopening⟩ (hclear address e)
  | ok x =>
      obtain ⟨hnew, -, hdocument⟩ := Documents.opening_ok hopening
      exact ⟨hnew, by rw [hdocument]; rfl⟩

/-- Where nothing stands in the way, every edge is walked. -/
theorem place_of_includes {address : List Nat} {opened : List String} {id id' : String}
    (hplace : docs.place? [] root address = some (opened, id)) (hedge : docs.Includes id id') :
    ∃ address', docs.place? [] root address' = some (opened ++ [id], id') := by
  obtain ⟨document, hdocument, reference, hreference, rfl⟩ := hedge
  obtain ⟨i, hi⟩ := List.mem_iff_getElem?.1 hreference
  exact ⟨address ++ [i],
    place_concat (opens_of_clear hclear hplace).1 hdocument hi address hplace⟩

/-- And every document that can be reached has a place. -/
theorem place_of_reached {id : String} (h : ReflTransGen docs.Includes root id) :
    ∃ address opened, docs.place? [] root address = some (opened, id) := by
  induction h with
  | refl => exact ⟨[], [], rfl⟩
  | tail _ hedge ih =>
      obtain ⟨address, opened, hplace⟩ := ih
      obtain ⟨address', hplace'⟩ := place_of_includes hclear hplace hedge
      exact ⟨address', _, hplace'⟩

/-- What lies beyond a document has a place where that document is open. -/
theorem place_beyond {address : List Nat} {opened : List String} {id id' : String}
    (hplace : docs.place? [] root address = some (opened, id))
    (h : TransGen docs.Includes id id') :
    ∃ address' opened', docs.place? [] root address' = some (opened', id') ∧ id ∈ opened' := by
  induction h with
  | single hedge =>
      obtain ⟨address', hplace'⟩ := place_of_includes hclear hplace hedge
      exact ⟨address', _, hplace', List.mem_append_right _ (List.mem_singleton_self id)⟩
  | tail _ hedge ih =>
      obtain ⟨address₁, opened₁, hplace₁, hmem⟩ := ih
      obtain ⟨address', hplace'⟩ := place_of_includes hclear hplace₁ hedge
      exact ⟨address', _, hplace', List.mem_append_left _ hmem⟩

end Clear

/-- **Nothing stands in the way exactly on a graph without a cycle and with every
document.** -/
theorem clear_iff {root : String} :
    docs.Clear [] root ↔ (∀ id, ReflTransGen docs.Includes root id → (docs.document? id).isSome)
      ∧ ∀ id, ReflTransGen docs.Includes root id → ¬TransGen docs.Includes id id := by
  constructor
  · intro hclear
    refine ⟨fun id hreached => ?_, fun id hreached hcycle => ?_⟩
    · obtain ⟨address, opened, hplace⟩ := place_of_reached hclear hreached
      exact (opens_of_clear hclear hplace).2
    · obtain ⟨address, opened, hplace⟩ := place_of_reached hclear hreached
      obtain ⟨address', opened', hplace', hopen⟩ := place_beyond hclear hplace hcycle
      exact (opens_of_clear hclear hplace').1 hopen
  · rintro ⟨hreadable, hacyclic⟩ address e ⟨opened, id, hplace, hstop⟩
    have hleads := (Leads.root root).place address hplace
    have hsome := hreadable id hleads.reached
    cases hstop with
    | cycle hopen => exact hacyclic id hleads.reached (hleads.onward id hopen)
    | missing _ hget =>
        rw [Documents.document?, hget] at hsome
        cases hsome
    | malformed _ hget hread =>
        rw [Documents.document?, hget, Option.bind_some, hread] at hsome
        cases hsome

end Graph

/-! ## §7. Documents in a map. -/

/-- Any depth beyond the number of documents serves. -/
theorem load_eq_resolveOn (docs : Documents) (root : String) {depth : Nat}
    (hdepth : docs.size < depth) :
    (resolve docs.loader depth [] "" root).run = (resolveOn docs .empty "" root).run :=
  congrArg ExceptT.run (resolve_eq_resolveOn depth .empty (Nat.lt_add_right 0 hdepth) "" root)

/-- What is loaded from a map is what the walk from the root finds. -/
theorem load_finds (docs : Documents) (root : String) :
    docs.Finds [] (Path.includeId "" root) (load docs root) := by
  have hload : load docs root = (resolveOn docs .empty "" root).run :=
    load_eq_resolveOn docs root (Nat.lt_succ_self docs.size)
  rw [hload]
  exact resolveOn_finds .empty "" root

/-- A configuration is loaded exactly where nothing stands in the way. -/
theorem load_ok_iff_clear {docs : Documents} {root : String} :
    (∃ e, load docs root = .ok e) ↔ docs.Clear [] (Path.includeId "" root) := by
  have hfinds := load_finds docs root
  cases hload : load docs root with
  | ok e =>
      rw [hload] at hfinds
      exact ⟨fun _ => hfinds, fun _ => ⟨e, rfl⟩⟩
  | error e =>
      rw [hload] at hfinds
      obtain ⟨address, hstop, -⟩ := hfinds
      exact ⟨fun ⟨_, h⟩ => (nomatch h), fun hclear => absurd hstop (hclear address e)⟩

/-- An error is what stands in the way first. -/
theorem load_error_iff {docs : Documents} {root : String} {e : Error} :
    load docs root = .error e ↔ docs.FirstStop [] (Path.includeId "" root) e := by
  have hfinds := load_finds docs root
  cases hload : load docs root with
  | ok e' =>
      rw [hload] at hfinds
      refine ⟨fun h => (nomatch h), fun ⟨address, hstop, _⟩ => ?_⟩
      exact absurd hstop (hfinds address e)
  | error e' =>
      rw [hload] at hfinds
      constructor
      · intro h
        cases h
        exact hfinds
      · exact fun h => congrArg Except.error (h.unique hfinds)

/-- A cycle that stops the walk is a way from the root back to a document on it. -/
theorem chain_of_firstStop {docs : Documents} {root : String} {chain : List String}
    (h : docs.FirstStop [] root (.cycle chain)) :
    chain.head? = some root ∧ chain.IsChain docs.Includes
      ∧ ∃ way id, chain = way ++ [id] ∧ way.Nodup ∧ id ∈ way := by
  obtain ⟨address, ⟨opened, id, hplace, hstop⟩, -⟩ := h
  have hleads := (Leads.root root).place address hplace
  cases hstop with
  | cycle hopen => exact ⟨hleads.starts, hleads.chain, opened, id, rfl, hleads.nodup, hopen⟩

/-- **Loading documents from a map ends, and its outcome is read off the graph.**  No more
documents are ever open than there are, so that any depth beyond that comes to the same.
There is a configuration exactly if every document that can be reached from the root
is there and can be read, and no cycle can be reached; there is an error exactly if it
is what stands in the way first.  A cycle is told as a way from the root, an edge at a
time, whose documents differ up to the last, which is one of them. -/
theorem load_outcome (docs : Documents) (root : String) :
    (∀ stack : Stack docs, stack.ids.length ≤ docs.size)
    ∧ load docs root = (resolveOn docs .empty "" root).run
    ∧ (∀ depth, docs.size < depth → (resolve docs.loader depth [] "" root).run = load docs root)
    ∧ ((∃ e, load docs root = .ok e) ↔
        (∀ id, ReflTransGen docs.Includes (Path.includeId "" root) id → (docs.document? id).isSome)
        ∧ ∀ id, ReflTransGen docs.Includes (Path.includeId "" root) id →
          ¬TransGen docs.Includes id id)
    ∧ (∀ e, load docs root = .error e ↔ docs.FirstStop [] (Path.includeId "" root) e)
    ∧ ∀ chain, load docs root = .error (.cycle chain) →
        chain.head? = some (Path.includeId "" root) ∧ chain.IsChain docs.Includes
        ∧ ∃ way id, chain = way ++ [id] ∧ way.Nodup ∧ id ∈ way := by
  have hload : load docs root = (resolveOn docs .empty "" root).run :=
    load_eq_resolveOn docs root (Nat.lt_succ_self docs.size)
  refine ⟨Stack.length_le, hload, ?_, load_ok_iff_clear.trans clear_iff,
    fun e => load_error_iff, ?_⟩
  · intro depth hdepth
    rw [load_eq_resolveOn docs root hdepth, hload]
  · exact fun chain h => chain_of_firstStop (load_error_iff.1 h)

/-- Spellings of one document close a cycle; what is missing behind it is not looked for. -/
example :
    let docs : Documents := .ofList [("x/a", "include: [./b, missing]".toUTF8),
      ("x/b", "include: [../x//a]".toUTF8)]
    (match load docs "x/../x/a" with
      | .error e => e == .cycle ["x/a", "x/b", "x/a"]
      | .ok _ => false) = true := by
  decide +kernel

end TenantSync.Config
