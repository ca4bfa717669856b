/-
  TenantSync.Value
  ────────────────
  **DATA WITHOUT A SCHEMA.**

  A `Value` is what every text format of this library can hold: null, flags,
  numbers, texts, lists and keyed entries.  Integers stay apart from floating
  numbers (`1` is not `1.0`) and keep the range of a machine word of either
  signedness.

  Entries of `obj` are an ordered list, because an encoded record lists its
  fields in declared order.  Free-form data of a document has no declared order:
  there a `Payload` is used, a value whose entries ascend by key at every depth.
  Two payloads have the same content when they are equal up to the sign of zero
  (`Payload.same`); that relation is an equality of normal forms, so it is
  reflexive, symmetric and transitive for free.
-/
import TenantSync.NameMap
import TenantSync.Number.Shortest

namespace TenantSync

/-! ## §1. Numbers. -/

/-- A number of free-form data. -/
inductive Number where
  /-- An integer from 0 up to `2^64 - 1`. -/
  | natural (n : UInt64)
  /-- The integer `-(below + 1)`, down to `-2^63`. -/
  | negative (below : BitVec 63)
  /-- A finite floating number. -/
  | float (x : Binary64)
  deriving DecidableEq

namespace Number

/-- The integer as a number, if it is in range. -/
def ofInt? (i : Int) : Option Number :=
  match i with
  | .ofNat n => if n < twoTo 64 then some (.natural (.ofNat n)) else none
  | .negSucc n => if n < twoTo 63 then some (.negative (.ofNat 63 n)) else none

/-- The number with the sign of a floating zero forgotten. -/
def clearZeroSign : Number → Number
  | .float x => .float x.clearZeroSign
  | n => n

/-- The text of a number, floating numbers under a layout. -/
def format (layout : Binary64.Layout) : Number → String
  | .natural n => toString n.toNat
  | .negative n => "-" ++ toString (n.toNat + 1)
  | .float x => x.format layout

end Number

/-! ## §2. Values. -/

/-- Data without a schema. -/
inductive Value where
  | null
  | bool (b : Bool)
  | num (n : Number)
  | str (s : String)
  | arr (items : List Value)
  | obj (entries : List (String × Value))

namespace Value

instance : Inhabited Value := ⟨.null⟩

mutual

/-- Equality of values. -/
def beq : Value → Value → Bool
  | .null, .null => true
  | .bool a, .bool b => a == b
  | .num a, .num b => a == b
  | .str a, .str b => a == b
  | .arr a, .arr b => beqItems a b
  | .obj a, .obj b => beqEntries a b
  | _, _ => false

/-- Equality of lists of values. -/
def beqItems : List Value → List Value → Bool
  | [], [] => true
  | a :: as, b :: bs => beq a b && beqItems as bs
  | _, _ => false

/-- Equality of entry lists. -/
def beqEntries : List (String × Value) → List (String × Value) → Bool
  | [], [] => true
  | (k, a) :: as, (l, b) :: bs => k == l && beq a b && beqEntries as bs
  | _, _ => false

end

mutual

theorem beq_iff : ∀ a b : Value, beq a b = true ↔ a = b
  | .null, b => by cases b <;> simp [beq]
  | .bool a, b => by cases b <;> simp [beq]
  | .num a, b => by cases b <;> simp [beq]
  | .str a, b => by cases b <;> simp [beq]
  | .arr a, b => by cases b <;> simp [beq, beqItems_iff]
  | .obj a, b => by cases b <;> simp [beq, beqEntries_iff]

theorem beqItems_iff : ∀ a b : List Value, beqItems a b = true ↔ a = b
  | [], b => by cases b <;> simp [beqItems]
  | a :: as, b => by cases b <;> simp [beqItems, beq_iff a, beqItems_iff as]

theorem beqEntries_iff : ∀ a b : List (String × Value), beqEntries a b = true ↔ a = b
  | [], b => by cases b <;> simp [beqEntries]
  | (k, a) :: as, b => by
    cases b <;> simp [beqEntries, beq_iff a, beqEntries_iff as, Prod.ext_iff, and_assoc]

end

instance : DecidableEq Value := fun a b => decidable_of_iff _ (beq_iff a b)

/-- The value of the first entry with key `k`, for an object that has one. -/
def get? (k : String) : Value → Option Value
  | .obj entries => NameMap.lookupEntry k entries
  | _ => none

/-- The text of a text value. -/
def text? : Value → Option String
  | .str s => some s
  | _ => none

/-! ## §3. Canonical values. -/

mutual

/-- Whether the entries ascend strictly by key at every depth. -/
def Canonical : Value → Prop
  | .arr items => CanonicalItems items
  | .obj entries => CanonicalEntries entries ∧ entries.Pairwise (fun a b => a.1 < b.1)
  | _ => True

/-- Whether every value of a list is canonical. -/
def CanonicalItems : List Value → Prop
  | [] => True
  | v :: rest => Canonical v ∧ CanonicalItems rest

/-- Whether every value of an entry list is canonical. -/
def CanonicalEntries : List (String × Value) → Prop
  | [] => True
  | (_, v) :: rest => Canonical v ∧ CanonicalEntries rest

end

mutual

/-- The value with entries sorted by key at every depth; of several entries
with one key the last stays. -/
def canonicalize : Value → Value
  | .arr items => .arr (canonicalizeItems items)
  | .obj entries => .obj (NameMap.ofList (canonicalizeEntries entries)).entries
  | v => v

/-- Every value of a list made canonical. -/
def canonicalizeItems : List Value → List Value
  | [] => []
  | v :: rest => canonicalize v :: canonicalizeItems rest

/-- Every value of an entry list made canonical. -/
def canonicalizeEntries : List (String × Value) → List (String × Value)
  | [] => []
  | (k, v) :: rest => (k, canonicalize v) :: canonicalizeEntries rest

end

theorem canonicalEntries_iff {l : List (String × Value)} :
    CanonicalEntries l ↔ ∀ e ∈ l, Canonical e.2 := by
  induction l with
  | nil => simp [CanonicalEntries]
  | cons hd tl ih => simp [CanonicalEntries, ih]

mutual

theorem canonicalize_canonical : ∀ v : Value, Canonical (canonicalize v)
  | .null | .bool _ | .num _ | .str _ => by simp [canonicalize, Canonical]
  | .arr items => by
    simpa [canonicalize, Canonical] using canonicalizeItems_canonical items
  | .obj entries => by
    have h := canonicalEntries_iff.1 (canonicalizeEntries_canonical entries)
    refine ⟨canonicalEntries_iff.2 fun e he => h e (NameMap.mem_entries_ofList he), ?_⟩
    exact NameMap.ascending _

theorem canonicalizeItems_canonical : ∀ l : List Value, CanonicalItems (canonicalizeItems l)
  | [] => by simp [canonicalizeItems, CanonicalItems]
  | v :: rest => ⟨canonicalize_canonical v, canonicalizeItems_canonical rest⟩

theorem canonicalizeEntries_canonical :
    ∀ l : List (String × Value), CanonicalEntries (canonicalizeEntries l)
  | [] => by simp [canonicalizeEntries, CanonicalEntries]
  | (_, v) :: rest => ⟨canonicalize_canonical v, canonicalizeEntries_canonical rest⟩

end

/-! ## §4. Content. -/

mutual

/-- The value with the sign of every floating zero forgotten. -/
def clearZeroSigns : Value → Value
  | .num n => .num n.clearZeroSign
  | .arr items => .arr (clearZeroSignsItems items)
  | .obj entries => .obj (clearZeroSignsEntries entries)
  | v => v

/-- Zero signs forgotten in a list of values. -/
def clearZeroSignsItems : List Value → List Value
  | [] => []
  | v :: rest => clearZeroSigns v :: clearZeroSignsItems rest

/-- Zero signs forgotten in an entry list. -/
def clearZeroSignsEntries : List (String × Value) → List (String × Value)
  | [] => []
  | (k, v) :: rest => (k, clearZeroSigns v) :: clearZeroSignsEntries rest

end

end Value

/-- Free-form data: a value whose entries ascend by key at every depth. -/
structure Payload where
  /-- The value. -/
  value : Value
  /-- Its entries ascend by key at every depth. -/
  canonical : value.Canonical

namespace Payload

instance : DecidableEq Payload := fun a b =>
  decidable_of_iff (a.value = b.value) ⟨fun h => by cases a; cases b; congr, fun h => h ▸ rfl⟩

/-- Free-form data from any value, later entries replacing earlier ones. -/
def ofValue (v : Value) : Payload := ⟨v.canonicalize, v.canonicalize_canonical⟩

/-- The absent datum. -/
def null : Payload := ⟨.null, trivial⟩

instance : Inhabited Payload := ⟨null⟩

/-- Same content: equal up to the signs of zeros. -/
def same (a b : Payload) : Bool := a.value.clearZeroSigns = b.value.clearZeroSigns

end Payload

end TenantSync
