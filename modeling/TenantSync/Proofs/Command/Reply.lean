/-
  TenantSync.Proofs.Command.Reply
  ───────────────────────────────
  **WHAT IS SAID ABOUT A PUSH.**

  Of a push that came to operations, and perhaps to failures, the operations are
  printed in their order, with the counts of all of them.  The order is total, so
  there is one way to list them, and one text to print (`Printed.unique`).

      operations               printed                          code 0
      operations and failures  printed, the failures behind     code 3
      refused                  nothing but the reason           code 1

  What is printed is spelled out here (`Printed`, `Reason`): the words and the place
  of each kind of element in one table, the marks, the fields of the records, the
  counts as numbers of operations.  The programs that make the lines and records are
  then proved to make these.
-/
import Mathlib.Data.List.Perm.Basic
import TenantSync.Command.Run
import TenantSync.Proofs.NameMap

namespace TenantSync.Push

/-! ## §1. Operations in order. -/

theorem rank_injective : Function.Injective ElementType.rank := by
  intro a b h
  have hmem : a ∈ ElementType.all := by cases a <;> decide
  exact (List.idxOf_inj hmem).1 h

namespace Operation

/-- Operations are listed by kind, then by name, then by what they do. -/
theorem le_iff {a b : Operation} :
    a.le b = true ↔ a.element.rank < b.element.rank
      ∨ a.element = b.element
        ∧ (a.name < b.name ∨ a.name = b.name ∧ a.outcomeRank ≤ b.outcomeRank) := by
  unfold le
  by_cases helement : a.element = b.element
  · rw [if_neg (not_not_intro helement)]
    by_cases hname : a.name = b.name
    · rw [if_neg (not_not_intro hname)]
      simp [helement, hname]
    · rw [if_pos hname]
      simp [helement, hname]
  · rw [if_pos helement]
    have hrank : a.element.rank ≠ b.element.rank := fun h => helement (rank_injective h)
    simp only [decide_eq_true_eq, helement, false_and, or_false]
    omega

theorem le_trans {a b d : Operation} (h : a.le b = true) (h' : b.le d = true) :
    a.le d = true := by
  rw [le_iff] at h h' ⊢
  -- what comes first in either step decides: the kind, then the name
  rcases h with h | ⟨helement, h⟩
  · rcases h' with h' | ⟨helement', -⟩
    · exact .inl (Nat.lt_trans h h')
    · exact .inl (helement' ▸ h)
  · rcases h' with h' | ⟨helement', h'⟩
    · exact .inl (helement ▸ h')
    · refine .inr ⟨helement.trans helement', ?_⟩
      rcases h with h | ⟨hname, h⟩
      · rcases h' with h' | ⟨hname', -⟩
        · exact .inl (String.lt_trans h h')
        · exact .inl (hname' ▸ h)
      · rcases h' with h' | ⟨hname', h'⟩
        · exact .inl (hname ▸ h')
        · exact .inr ⟨hname.trans hname', Nat.le_trans h h'⟩

theorem le_total (a b : Operation) : a.le b = true ∨ b.le a = true := by
  rw [le_iff, le_iff]
  rcases Nat.lt_trichotomy a.element.rank b.element.rank with h | h | h
  · exact .inl (.inl h)
  · have helement := rank_injective h
    by_cases hlt : a.name < b.name
    · exact .inl (.inr ⟨helement, .inl hlt⟩)
    · by_cases hgt : b.name < a.name
      · exact .inr (.inr ⟨helement.symm, .inl hgt⟩)
      · have hname : a.name = b.name := String.le_antisymm hgt hlt
        rcases Nat.le_total a.outcomeRank b.outcomeRank with hle | hle
        · exact .inl (.inr ⟨helement, .inr ⟨hname, hle⟩⟩)
        · exact .inr (.inr ⟨helement.symm, .inr ⟨hname.symm, hle⟩⟩)
  · exact .inr (.inl h)

theorem sort_sorted (ops : List Operation) : (sort ops).Pairwise fun a b => a.le b = true := by
  have htotal : ∀ a b : Operation, (a.le b || b.le a) = true := by
    intro a b
    rw [Bool.or_eq_true]
    exact le_total a b
  exact @List.pairwise_mergeSort _ le (fun _ _ _ => le_trans) htotal ops

end Operation

end TenantSync.Push

namespace TenantSync.Command

open Push

/-! ## §2. What is printed. -/

/-- The kinds of elements in the order in which they are listed, and the word for each. -/
def kinds : List (ElementType × String) :=
  [(.resource, "resource"), (.rule, "dr_rule"), (.falsePositive, "fp_rule"), (.output, "output"),
    (.integrity, "integrity"), (.exfilWatch, "exfil_watch"), (.exfilEvent, "exfil_event"),
    (.artifact, "artifact"), (.yaraSource, "yara_source"), (.yaraRule, "yara_rule"),
    (.installationKey, "installation_key"), (.orgValue, "org_value")]

/-- The word for a kind. -/
def word (e : ElementType) : String := (kinds.lookup e).getD ""

/-- The place of a kind. -/
def place (e : ElementType) : Nat := (kinds.map Prod.fst).idxOf e

/-- An operation is listed before another one, or may be: by kind, then by name, then what
stays before what goes, what is new and what is replaced. -/
def Precedes (a b : Operation) : Prop :=
  place a.element < place b.element
    ∨ a.element = b.element
      ∧ (a.name < b.name
        ∨ a.name = b.name ∧ (a.added < b.added ∨ a.added = b.added ∧ a.removed ≤ b.removed))

/-- A list has the same operations as another one, in order. -/
def Lists (listed ops : List Operation) : Prop := listed.Perm ops ∧ listed.Pairwise Precedes

/-- How many operations add, or do not, and remove, or do not. -/
def tally (ops : List Operation) (added removed : Bool) : Nat :=
  ops.countP fun op => op.added == added && op.removed == removed

/-- The line about an operation. -/
def lineOf (op : Operation) : String :=
  let mark :=
    if op.added then if op.removed then "~" else "+"
    else if op.removed then "-" else "="
  mark ++ " " ++ word op.element ++ " " ++ op.name

/-- The line about all operations. -/
def countsOf (ops : List Operation) : String :=
  s!"{tally ops true false} added, {tally ops false true} removed, "
    ++ s!"{tally ops true true} replaced, {tally ops false false} unchanged"

/-- The line about a failure. -/
def failureOf (f : Failure) : String :=
  let tried := match f.action with
    | .create => "Create"
    | .delete => "Delete"
    | .replace => "Replace"
  let cause := match f.error with
    | .notFound what => "not found: " ++ what
    | .rejected why => "rejected: " ++ why
    | .unavailable why => "unavailable: " ++ why
  tried ++ " " ++ word f.element ++ " '" ++ f.name ++ "': " ++ cause

/-- The record of an operation. -/
def recordOf (op : Operation) : Value := .obj
  [("element_name", .str op.name), ("element_type", .str (word op.element)),
    ("is_added", .bool op.added), ("is_removed", .bool op.removed)]

/-- The record of the counts. -/
def countsRecord (ops : List Operation) : Value :=
  let count (added removed : Bool) : Value := .ofUInt64 (.ofNat (tally ops added removed))
  .obj
    [("added", count true false), ("removed", count false true), ("replaced", count true true),
      ("unchanged", count false false)]

/-- The record of a push. -/
def recordFor (p : PushRequest) (listed : List Operation) (failures : List Failure) : Value := .obj
  [("dry_run", .bool p.dryRun), ("failures", .arr (failures.map fun f => .str (failureOf f))),
    ("force", .bool p.force), ("operations", .arr (listed.map recordOf)),
    ("summary", countsRecord listed)]

/-- What is printed about a push: a line for each operation, in order, and one with the
counts of all of them; on request one record, together with the failures. -/
def Printed (p : PushRequest) (ops : List Operation) (failures : List Failure)
    (output : String) : Prop :=
  ∃ listed, Lists listed ops ∧
    output =
      if p.json then Json.pretty (recordFor p listed failures) ++ "\n"
      else
        String.join (listed.map fun op => lineOf op ++ "\n") ++ "\n"
          ++ (if p.dryRun then "[dry-run] " else "") ++ countsOf ops ++ "\n"

/-- Where two things may each come before the other one, what is compared first is the same. -/
theorem eq_of_both_before {α : Type} [LT α] (hasymm : ∀ {x y : α}, x < y → ¬y < x) {x y : α}
    {p q : Prop} (h : x < y ∨ x = y ∧ p) (h' : y < x ∨ y = x ∧ q) : x = y ∧ p ∧ q := by
  rcases h with h | ⟨rfl, hp⟩
  · rcases h' with h' | ⟨rfl, -⟩
    · exact absurd h' (hasymm h)
    · exact absurd h (hasymm h)
  · rcases h' with h' | ⟨-, hq⟩
    · exact absurd h' (hasymm h')
    · exact ⟨rfl, hp, hq⟩

/-- Two operations that may each be listed before the other one are one. -/
theorem Precedes.antisymm {a b : Operation} (h : Precedes a b) (h' : Precedes b a) : a = b := by
  obtain ⟨-, ⟨helement, hname⟩, -, hname'⟩ := eq_of_both_before Nat.lt_asymm
    (h.imp_right fun h => ⟨congrArg place h.1, h⟩) (h'.imp_right fun h => ⟨congrArg place h.1, h⟩)
  obtain ⟨hname, hadded, hadded'⟩ := eq_of_both_before String.lt_asymm hname hname'
  obtain ⟨hadded, hremoved, hremoved'⟩ := eq_of_both_before Bool.lt_asymm hadded hadded'
  cases a
  cases b
  rw [Operation.mk.injEq]
  exact ⟨helement, hname, hadded, Bool.le_antisymm hremoved hremoved'⟩

/-- **There is one way to list operations.** -/
theorem Lists.unique {ops listed listed' : List Operation} (h : Lists listed ops)
    (h' : Lists listed' ops) : listed' = listed :=
  (h'.1.trans h.1.symm).eq_of_pairwise (fun _ _ _ _ => Precedes.antisymm) h'.2 h.2

/-- One text is printed about a push. -/
theorem Printed.unique {p : PushRequest} {ops : List Operation} {failures : List Failure}
    {output output' : String} (h : Printed p ops failures output)
    (h' : Printed p ops failures output') : output' = output := by
  obtain ⟨listed, hlists, rfl⟩ := h
  obtain ⟨listed', hlists', rfl⟩ := h'
  rw [hlists.unique hlists']

/-- A push was refused before the tenant was called. -/
inductive Refused : Push.Error → Prop
  | config (e : Config.Error) : Refused (.config e)
  | invalid (why : Invalid) : Refused (.invalid why)
  | nothingSelected : Refused .nothingSelected

/-- Why a push was refused, in words.  What is wrong with the text of a document is said in
any words. -/
inductive Reason : Push.Error → String → Prop
  | malformed (document why : String) :
      Reason (.config (.malformed document))
        ("config error: " ++ (s!"failed to parse {document}: " ++ why))
  | missing (document name : String) :
      Reason (.config (.unavailable document (.notFound name)))
        ("config error: " ++ (s!"failed to load {document}: " ++ s!"document not found: {name}"))
  | unreadable (document path why : String) :
      Reason (.config (.unavailable document (.unreadable path why)))
        ("config error: " ++ (s!"failed to load {document}: " ++ s!"cannot read {path}: {why}"))
  | cycle (chain : List String) :
      Reason (.config (.cycle chain))
        ("config error: " ++ ("include cycle detected: " ++ " -> ".intercalate chain))
  | unsupported (keys : List String) :
      Reason (.invalid (.unsupportedOrgValues keys))
        ("invalid config: " ++ ("unsupported org-value key(s): " ++ ", ".intercalate keys))
  | shared (first second description : String) :
      Reason (.invalid (.sharedDescription first second description))
        ("invalid config: "
          ++ s!"installation keys '{first}' and '{second}' share the description '{description}'")
  | nothingSelected : Reason .nothingSelected "no categories selected for sync"

/-- What is said of the result of a push. -/
inductive Says (p : PushRequest) : Except Push.Error (List Operation) → Reply → Prop
  | done {ops : List Operation} {output : String} (h : Printed p ops [] output) :
      Says p (.ok ops) { output, errors := "", code := 0 }
  | incomplete {failures : List Failure} {ops : List Operation} {output : String}
      (hfailures : failures ≠ []) (h : Printed p ops failures output) :
      Says p (.error (.mutations failures ops))
        { output
          errors := String.join (failures.map fun f => "Failed: " ++ failureOf f ++ "\n")
            ++ s!"Push incomplete: {failures.length} mutation(s) failed\n"
          code := 3 }
  | refused {e : Push.Error} {why : String} (h : Reason e why) :
      Says p (.error e) { output := "", errors := "Push failed: " ++ why ++ "\n", code := 1 }

/-! ## §3. Lines and records. -/

theorem name_eq_word (e : ElementType) : e.name = word e := by
  cases e <;> rfl

theorem rank_eq_place (e : ElementType) : e.rank = place e := rfl

theorem text_eq_lineOf (op : Operation) : op.text = lineOf op := by
  obtain ⟨e, name, added, removed⟩ := op
  unfold Operation.text lineOf
  rw [name_eq_word]
  cases added <;> cases removed <;> rfl

theorem text_eq_failureOf (f : Failure) : f.text = failureOf f := by
  obtain ⟨e, name, action, error⟩ := f
  unfold Failure.text failureOf
  rw [name_eq_word]
  cases action <;> cases error <;> rfl

/-- What is listed first is what precedes. -/
theorem precedes_of_le {a b : Operation} (h : a.le b = true) : Precedes a b := by
  rw [Operation.le_iff, rank_eq_place, rank_eq_place] at h
  refine h.imp_right fun ⟨helement, hname⟩ => ⟨helement, hname.imp_right fun ⟨hsame, hrank⟩ =>
    ⟨hsame, ?_⟩⟩
  unfold Operation.outcomeRank at hrank
  revert hrank
  cases a.added <;> cases a.removed <;> cases b.added <;> cases b.removed <;> decide

theorem sort_lists (ops : List Operation) : Lists (Operation.sort ops) ops :=
  ⟨List.mergeSort_perm ops Operation.le, (Operation.sort_sorted ops).imp precedes_of_le⟩

/-- The counts do not depend on the order. -/
theorem tally_of_perm {ops ops' : List Operation} (h : ops.Perm ops') (added removed : Bool) :
    tally ops added removed = tally ops' added removed :=
  h.countP_eq _

/-- The summary counts the operations of each outcome. -/
theorem summary_eq_tally (ops : List Operation) :
    Summary.of ops = { added := tally ops true false, removed := tally ops false true,
                       replaced := tally ops true true, unchanged := tally ops false false } := by
  -- by the operations, from any summary on
  have hall : ∀ s : Summary, ops.foldl Summary.count s =
      { added := s.added + tally ops true false, removed := s.removed + tally ops false true,
        replaced := s.replaced + tally ops true true,
        unchanged := s.unchanged + tally ops false false } := by
    unfold tally
    induction ops with
    | nil => exact fun s => rfl
    | cons op ops ih =>
        intro s
        rw [List.foldl_cons, ih]
        unfold Summary.count
        cases hadded : op.added <;> cases hremoved : op.removed <;>
          simp [hadded, hremoved, Nat.add_assoc, Nat.add_comm]
  rw [Summary.of, hall]
  simp

theorem text_eq_countsOf (ops : List Operation) : (Summary.of ops).text = countsOf ops := by
  rw [summary_eq_tally]
  unfold Summary.text countsOf
  simp [String.append_assoc]

theorem canonicalizeItems_eq_map (items : List Value) :
    Value.canonicalizeItems items = items.map Value.canonicalize := by
  induction items with
  | nil => rfl
  | cons v items ih => rw [Value.canonicalizeItems, ih, List.map_cons]

theorem canonicalizeEntries_eq_map (entries : List (String × Value)) :
    Value.canonicalizeEntries entries = entries.map fun e => (e.1, e.2.canonicalize) := by
  induction entries with
  | nil => rfl
  | cons e entries ih => rw [Value.canonicalizeEntries, ih, List.map_cons]

/-- An object has its entries in order of their keys. -/
theorem canonicalize_obj {entries sorted : List (String × Value)}
    (h : (entries.map fun e => (e.1, e.2.canonicalize)).Perm sorted)
    (hsorted : (sorted.map Prod.fst).Pairwise (· < ·)) :
    (Value.obj entries).canonicalize = .obj sorted := by
  have hmap := NameMap.ofList_eq_of_perm (m := ⟨sorted, List.pairwise_map.1 hsorted⟩) h
  rw [Value.canonicalize, canonicalizeEntries_eq_map, hmap]

/-- The record of an operation is the one that is printed. -/
theorem canonicalize_encode (op : Operation) : op.encode.canonicalize = recordOf op := by
  have hkeys : ["element_name", "element_type", "is_added", "is_removed"].Pairwise (· < ·) := by
    decide
  unfold Operation.encode
  rw [name_eq_word]
  exact canonicalize_obj (.swap _ _ _) hkeys

theorem canonicalize_counts (ops : List Operation) :
    (Summary.of ops).encode.canonicalize = countsRecord ops := by
  have hkeys : ["added", "removed", "replaced", "unchanged"].Pairwise (· < ·) := by decide
  rw [summary_eq_tally]
  exact canonicalize_obj (.refl _) hkeys

/-- **The record of a push is the one that is printed.** -/
theorem reportOf_eq (p : PushRequest) (ops : List Operation) (failures : List Failure) :
    reportOf p ops failures = recordFor p ops failures := by
  have hoperations : (Value.arr (ops.map Operation.encode)).canonicalize
      = .arr (ops.map recordOf) := by
    rw [Value.canonicalize, canonicalizeItems_eq_map, List.map_map]
    exact congrArg Value.arr (List.map_congr_left fun op _ => canonicalize_encode op)
  have hfailures : (Value.names (failures.map Failure.text)).canonicalize
      = .arr (failures.map fun f => .str (failureOf f)) := by
    rw [Value.names, Value.canonicalize, canonicalizeItems_eq_map, List.map_map, List.map_map]
    refine congrArg Value.arr (List.map_congr_left fun f _ => ?_)
    exact congrArg Value.str (text_eq_failureOf f)
  have hkeys : ["dry_run", "failures", "force", "operations", "summary"].Pairwise (· < ·) := by
    decide
  unfold reportOf
  refine canonicalize_obj ?_ hkeys
  simp only [List.map_cons, List.map_nil, hoperations, hfailures, canonicalize_counts]
  -- the failures come last there and second here
  exact .cons _ (@List.perm_append_comm _ [_, _, _] [_])

/-! ## §4. The reply. -/

theorem describe_printed (p : PushRequest) (ops : List Operation) (failures : List Failure) :
    Printed p ops failures (describe p (Operation.sort ops) failures) := by
  have hlists := sort_lists ops
  refine ⟨Operation.sort ops, hlists, ?_⟩
  have hcounts : countsOf (Operation.sort ops) = countsOf ops := by
    unfold countsOf
    simp only [tally_of_perm hlists.1]
  unfold describe
  rw [reportOf_eq, text_eq_countsOf, hcounts]
  simp only [text_eq_lineOf]

/-- How a push ends that does not stop at a listing. -/
inductive Ended : Except Push.Error (List Operation) → Prop
  | done (ops : List Operation) : Ended (.ok ops)
  | incomplete {failures : List Failure} (h : failures ≠ []) (ops : List Operation) :
      Ended (.error (.mutations failures ops))
  | refused {e : Push.Error} (h : Refused e)
      (hwhole : ∀ document, e ≠ .config (.tooDeep document)) : Ended (.error e)

/-- A push that was refused is refused with the reason. -/
theorem reason_message {e : Push.Error} (h : Refused e)
    (hwhole : ∀ document, e ≠ .config (.tooDeep document)) : Reason e e.message := by
  cases h with
  | config e =>
      cases e with
      | malformed document =>
          have hwhy :
              ": not a configuration document" = ": " ++ "not a configuration document" := by
            decide
          have hmessage : (Config.Error.malformed document).message
              = s!"failed to parse {document}: " ++ "not a configuration document" :=
            (congrArg (s!"failed to parse {document}" ++ ·) hwhy).trans String.append_assoc.symm
          show Reason _ ("config error: " ++ (Config.Error.malformed document).message)
          rw [hmessage]
          exact .malformed document _
      | unavailable document fault =>
          cases fault with
          | notFound name => exact .missing document name
          | unreadable path why => exact .unreadable document path why
      | cycle chain => exact .cycle chain
      | tooDeep document => exact absurd rfl (hwhole document)
  | invalid why =>
      cases why with
      | unsupportedOrgValues keys => exact .unsupported keys
      | sharedDescription first second description => exact .shared first second description
  | nothingSelected => exact .nothingSelected

/-- **The reply says what a push came to.** -/
theorem says_replyTo (p : PushRequest) {result : Except Push.Error (List Operation)}
    (h : Ended result) : Says p result (replyTo p result) := by
  cases h with
  | done ops => exact .done (describe_printed p ops [])
  | @incomplete failures h ops =>
      have hnonempty : failures.isEmpty = false := List.isEmpty_eq_false_iff.2 h
      unfold replyTo replyOf
      simp only [hnonempty, Bool.false_eq_true, if_false, text_eq_failureOf]
      exact .incomplete h (describe_printed p ops failures)
  | refused h hwhole =>
      have hreason := reason_message h hwhole
      cases h <;> exact .refused hreason

/-- Only a push that was refused did not call the tenant. -/
theorem reachedTenant_eq_false {result : Except Push.Error (List Operation)} :
    reachedTenant result = false ↔ ∃ e, result = .error e ∧ Refused e := by
  constructor
  · intro h
    cases result with
    | ok ops => cases h
    | error e =>
        refine ⟨e, rfl, ?_⟩
        cases e with
        | config e => exact .config e
        | invalid why => exact .invalid why
        | nothingSelected => exact .nothingSelected
        | fetch element cause => cases h
        | mutations failures ops => cases h
  · rintro ⟨e, rfl, hrefused⟩
    cases hrefused <;> rfl

end TenantSync.Command
