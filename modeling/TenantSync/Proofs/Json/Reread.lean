/-
  TenantSync.Proofs.Json.Reread
  ─────────────────────────────
  **WHAT IS PRINTED IS READ AS WHAT WAS MEANT.**

  The reader takes a text apart at the places where the printer put it together:
  items and entries come back in their order, entries under their keys, and each
  value ends where it was made to end.  `Rereads v d` says what a datum has in
  common with the value it was printed from:

      null, flags, texts, natural numbers     the same
      other numbers                           a scalar
      lists, objects                          the same, part by part

  All of this is about a reading that succeeds.  The induction is on the value:
  what a reader leaves of the text is known to begin with a mark because the
  reading goes on there, and that determines where the value before it ended.
-/
import TenantSync.Proofs.Json.Scalars

namespace TenantSync.Json

/-! ## §1. What a value is read as. -/

mutual

/-- What a datum has in common with the value whose text it was read from: all of it,
except what numbers that are not natural are read as. -/
def Rereads : Value → Datum → Prop
  | .null, d => d = .scalar .null
  | .bool b, d => d = .scalar (.ofFlag b)
  | .num (.natural n), d => d = .scalar (.ofNumber (.natural n))
  | .num _, d => ∃ r, d = .scalar r
  | .str s, d => d = .scalar (.ofText s)
  | .arr items, d => ∃ ds, d = .list true true ds ∧ RereadsItems items ds
  | .obj entries, d => ∃ ds, d = .table true ds ∧ RereadsEntries entries ds

/-- What the items of a list were read as. -/
def RereadsItems : List Value → List Datum → Prop
  | [], ds => ds = []
  | v :: rest, ds => ∃ d tail, ds = d :: tail ∧ Rereads v d ∧ RereadsItems rest tail

/-- What the entries of an object were read as, each under its key. -/
def RereadsEntries : List (String × Value) → List (Datum × Datum) → Prop
  | [], ds => ds = []
  | (k, v) :: rest, ds =>
      ∃ d tail, ds = (.scalar (.ofText k), d) :: tail ∧ Rereads v d ∧ RereadsEntries rest tail

end

/-! ## §2. White space. -/

/-- White space. -/
def isSpace (c : Char) : Bool := c == ' ' || c == '\n' || c == '\t' || c == '\r'

theorem skipSpace_of_space {c : Char} (h : isSpace c = true) (cs : List Char) :
    skipSpace (c :: cs) = skipSpace cs := List.dropWhile_cons_of_pos h

theorem skipSpace_of_not_space {c : Char} (h : ¬ isSpace c = true) (cs : List Char) :
    skipSpace (c :: cs) = c :: cs := List.dropWhile_cons_of_neg h

theorem isSpace_of_isNumeral {c : Char} (h : isNumeral c = true) : ¬ isSpace c = true := by
  intro hspace
  simp only [isSpace, Bool.or_eq_true, beq_iff_eq] at hspace
  rcases hspace with ((rfl | rfl) | rfl) | rfl <;> exact absurd h (by decide)

theorem skipSpace_newline (level : Nat) (cs : List Char) :
    skipSpace ((newline level).toList ++ cs) = skipSpace cs := by
  have hspaces (n : Nat) : skipSpace (List.replicate n ' ' ++ cs) = skipSpace cs := by
    induction n with
    | zero => rfl
    | succ n ih => rw [List.replicate_succ, List.cons_append]; exact ih
  rw [newline, String.toList_ofList]
  exact hspaces _

theorem skipSpace_comma (cs : List Char) : skipSpace (',' :: cs) = ',' :: cs :=
  skipSpace_of_not_space (by decide) cs

/-- A number does not go on into white space. -/
theorem Stops.of_skipSpace {cs : List Char} (h : Stops (skipSpace cs)) : Stops cs := by
  cases cs with
  | nil => exact h
  | cons c cs =>
      by_cases hspace : isSpace c = true
      · intro d hd
        obtain rfl : c = d := by simpa using hd
        cases hnumeral : isNumeral c with
        | false => rfl
        | true => exact absurd hspace (isSpace_of_isNumeral hnumeral)
      · rwa [skipSpace_of_not_space hspace] at h

/-- A number does not go on into what begins, past white space, with a mark. -/
theorem stops_of_skipSpace {cs rest : List Char} {c : Char} (h : skipSpace cs = c :: rest)
    (hc : isNumeral c = false) : Stops cs := by
  refine .of_skipSpace fun d hd => ?_
  rw [h] at hd
  obtain rfl : c = d := by simpa using hd
  exact hc

theorem stops_of_skipSpace_nil {cs : List Char} (h : skipSpace cs = []) : Stops cs := by
  refine .of_skipSpace fun d hd => ?_
  rw [h] at hd
  cases hd

/-- What stands before a value does not matter if it is white space. -/
theorem readValue_congr {cs cs' : List Char} (h : skipSpace cs = skipSpace cs') (fuel : Nat) :
    readValue fuel cs = readValue fuel cs' := by
  cases fuel with
  | zero => rfl
  | succ fuel => rw [readValue, readValue, h]

theorem readEntries_congr {cs cs' : List Char} (h : skipSpace cs = skipSpace cs') (fuel : Nat) :
    readEntries fuel cs = readEntries fuel cs' := by
  cases fuel with
  | zero => rfl
  | succ fuel => rw [readEntries, readEntries, h]

theorem readItems_congr {cs cs' : List Char} (h : skipSpace cs = skipSpace cs') (fuel : Nat) :
    readItems fuel cs = readItems fuel cs' := by
  cases fuel with
  | zero => rfl
  | succ fuel => rw [readItems, readItems, readValue_congr h]

/-! ## §3. How values begin. -/

theorem readValue_quote (fuel : Nat) (cs : List Char) :
    readValue (fuel + 1) ('"' :: cs) = (readText cs).map fun (r, rest) => (.scalar r, rest) := by
  simp [readValue, skipSpace]

theorem skipSpace_skipSpace (cs : List Char) : skipSpace (skipSpace cs) = skipSpace cs := by
  induction cs with
  | nil => rfl
  | cons c cs ih =>
      by_cases hspace : isSpace c = true
      · rw [skipSpace_of_space hspace, ih]
      · rw [skipSpace_of_not_space hspace, skipSpace_of_not_space hspace]

theorem readValue_list (fuel : Nat) {cs rest : List Char} {c : Char}
    (h : skipSpace cs = c :: rest) (hc : c ≠ ']') :
    readValue (fuel + 1) ('[' :: cs)
      = (readItems fuel cs).map fun (items, rest) => (.list true true items, rest) := by
  have hskip : skipSpace ('[' :: cs) = '[' :: cs := by simp [skipSpace]
  have hitems : readItems fuel (c :: rest) = readItems fuel cs := by
    rw [← h]
    exact readItems_congr (skipSpace_skipSpace cs) fuel
  simp only [readValue, hskip, h]
  rw [← hitems]
  split
  · cases ‹_›
    exact absurd rfl hc
  · rfl

theorem readValue_table (fuel : Nat) {cs rest : List Char} {c : Char}
    (h : skipSpace cs = c :: rest) (hc : c ≠ '\x7d') :
    readValue (fuel + 1) ('\x7b' :: cs)
      = (readEntries fuel cs).map fun (entries, rest) => (.table true entries, rest) := by
  have hskip : skipSpace ('\x7b' :: cs) = '\x7b' :: cs := by simp [skipSpace]
  have hentries : readEntries fuel (c :: rest) = readEntries fuel cs := by
    rw [← h]
    exact readEntries_congr (skipSpace_skipSpace cs) fuel
  simp only [readValue, hskip, h]
  rw [← hentries]
  split
  · cases ‹_›
    exact absurd rfl hc
  · rfl

/-- What begins like a number is read as one, or not at all. -/
theorem readValue_numeral {fuel : Nat} {c : Char} {cs rest : List Char} {d : Datum}
    (hc : isNumeral c = true) (h : readValue (fuel + 1) (c :: cs) = some (d, rest)) :
    ∃ r, readNumber (c :: cs) = some (r, rest) ∧ d = .scalar r := by
  have hne (m : Char) (hm : isNumeral m = false) : c ≠ m := by
    rintro rfl
    simp [hm] at hc
  simp only [readValue, skipSpace_of_not_space (isSpace_of_isNumeral hc)] at h
  split at h
  case h_1 heq => cases heq
  case h_2 heq => exact absurd (List.cons.inj heq).1 (hne '"' rfl)
  case h_3 heq => exact absurd (List.cons.inj heq).1 (hne '[' rfl)
  case h_4 heq => exact absurd (List.cons.inj heq).1 (hne '\x7b' rfl)
  case h_5 heq =>
    obtain ⟨rfl, rfl⟩ := List.cons.inj heq
    split at h
    · simp only [Option.map_eq_some_iff, Prod.mk.injEq, Prod.exists] at h
      obtain ⟨r, rest', hr, rfl, rfl⟩ := h
      exact ⟨r, hr, rfl⟩
    · simp [words, afterWord?, hne 'n' rfl, hne 't' rfl, hne 'f' rfl] at h

/-- The text of a number is read up to its end, and exactly if the number is natural. -/
theorem rereads_number {n : Number} {fuel : Nat} {cs rest : List Char} {d : Datum}
    (h : readValue (fuel + 1) ((number n).toList ++ cs) = some (d, rest)) (hcs : Stops cs)
    (hrest : Stops rest) : Rereads (.num n) d ∧ rest = cs := by
  have hall := numeric_number n
  obtain ⟨r, hr, rfl⟩ : ∃ r, readNumber ((number n).toList ++ cs) = some (r, rest)
      ∧ d = .scalar r := by
    cases htext : (number n).toList with
    | nil => exact absurd htext (number_ne_nil n)
    | cons c text =>
        rw [Numeric, htext, List.all_cons, Bool.and_eq_true] at hall
        rw [htext] at h
        exact readValue_numeral hall.1 h
  refine ⟨?_, readNumber_stops hr hall hcs hrest⟩
  cases n with
  | natural n =>
      have htext : (number (.natural n)).toList = Nat.toDigits 10 n.toNat := Nat.toList_repr
      rw [htext] at hr
      rw [readNumber_natural hcs hr]
      simp [Rereads]
  | negative n => exact ⟨r, rfl⟩
  | float x => exact ⟨r, rfl⟩

/-! ## §4. How values follow each other. -/

/-- The text of a value begins neither with white space nor with the end of a list. -/
theorem prettyAt_head (level : Nat) (v : Value) :
    ∃ c cs, (prettyAt level v).toList = c :: cs ∧ ¬ isSpace c = true ∧ c ≠ ']' := by
  match v with
  | .null => exact ⟨'n', _, by simp [prettyAt]; rfl, by decide, by decide⟩
  | .bool true => exact ⟨'t', _, by simp [prettyAt]; rfl, by decide, by decide⟩
  | .bool false => exact ⟨'f', _, by simp [prettyAt]; rfl, by decide, by decide⟩
  | .num n =>
      cases htext : (number n).toList with
      | nil => exact absurd htext (number_ne_nil n)
      | cons c cs =>
          have hall := numeric_number n
          rw [Numeric, htext, List.all_cons, Bool.and_eq_true] at hall
          refine ⟨c, cs, by rw [prettyAt, htext], isSpace_of_isNumeral hall.1, ?_⟩
          rintro rfl
          exact absurd hall.1 (by decide)
  | .str s => exact ⟨'"', _, by simp [prettyAt, quoted]; rfl, by decide, by decide⟩
  | .arr [] => exact ⟨'[', _, by simp [prettyAt]; rfl, by decide, by decide⟩
  | .arr (x :: xs) => exact ⟨'[', _, by simp [prettyAt]; rfl, by decide, by decide⟩
  | .obj [] => exact ⟨'\x7b', _, by simp [prettyAt]; rfl, by decide, by decide⟩
  | .obj ((k, x) :: xs) => exact ⟨'\x7b', _, by simp [prettyAt]; rfl, by decide, by decide⟩

/-- What stands behind the first item of a list. -/
def behindItem (level : Nat) (items : List Value) (close : List Char) : List Char :=
  match items with
  | [] => close
  | v :: items => ',' :: ((prettyItems level (v :: items)).toList ++ close)

theorem prettyItems_append (level : Nat) (v : Value) (items : List Value) (close : List Char) :
    (prettyItems level (v :: items)).toList ++ close
      = (newline level).toList ++ ((prettyAt level v).toList ++ behindItem level items close) := by
  cases items <;> simp [prettyItems, behindItem]

/-- What stands behind the first entry of an object. -/
def behindEntry (level : Nat) (entries : List (String × Value)) (close : List Char) : List Char :=
  match entries with
  | [] => close
  | e :: entries => ',' :: ((prettyEntries level (e :: entries)).toList ++ close)

theorem prettyEntries_append (level : Nat) (k : String) (v : Value)
    (entries : List (String × Value)) (close : List Char) :
    (prettyEntries level ((k, v) :: entries)).toList ++ close
      = (newline level).toList ++ ('"' :: (k.toList.flatMap quotedChar ++ '"' :: ':' :: ' '
          :: ((prettyAt level v).toList ++ behindEntry level entries close))) := by
  cases entries <;> simp [prettyEntries, behindEntry, quoted]

/-- A list is read as its items, up to the bracket that closes it. -/
theorem readValue_prettyList (level fuel : Nat) (v : Value) (items : List Value) (cs : List Char) :
    readValue (fuel + 1) ((prettyAt level (.arr (v :: items))).toList ++ cs)
      = (readItems fuel ((prettyItems (level + 1) (v :: items)).toList
          ++ ((newline level).toList ++ ']' :: cs))).map
        fun (items, rest) => (.list true true items, rest) := by
  have htext : (prettyAt level (.arr (v :: items))).toList ++ cs
      = '[' :: ((prettyItems (level + 1) (v :: items)).toList
          ++ ((newline level).toList ++ ']' :: cs)) := by
    simp [prettyAt]
  obtain ⟨c, text, hc, hspace, hbracket⟩ := prettyAt_head (level + 1) v
  have hhead := (congrArg skipSpace (prettyItems_append (level + 1) v items
    ((newline level).toList ++ ']' :: cs))).trans (skipSpace_newline _ _)
  rw [hc, List.cons_append, skipSpace_of_not_space hspace] at hhead
  rw [htext, readValue_list fuel hhead hbracket]

/-- An object is read as its entries, up to the brace that closes it. -/
theorem readValue_prettyTable (level fuel : Nat) (k : String) (v : Value)
    (entries : List (String × Value)) (cs : List Char) :
    readValue (fuel + 1) ((prettyAt level (.obj ((k, v) :: entries))).toList ++ cs)
      = (readEntries fuel ((prettyEntries (level + 1) ((k, v) :: entries)).toList
          ++ ((newline level).toList ++ '\x7d' :: cs))).map
        fun (entries, rest) => (.table true entries, rest) := by
  have htext : (prettyAt level (.obj ((k, v) :: entries))).toList ++ cs
      = '\x7b' :: ((prettyEntries (level + 1) ((k, v) :: entries)).toList
          ++ ((newline level).toList ++ '\x7d' :: cs)) := by
    simp [prettyAt]
  have hhead := (congrArg skipSpace (prettyEntries_append (level + 1) k v entries
    ((newline level).toList ++ '\x7d' :: cs))).trans (skipSpace_newline _ _)
  rw [skipSpace_of_not_space (by decide)] at hhead
  rw [htext, readValue_table fuel hhead (by decide)]

/-- Items are read up to a comma, where more follow, or up to the end of the list. -/
theorem readItems_ok {fuel : Nat} {cs rest : List Char} {ds : List Datum}
    (h : readItems (fuel + 1) cs = some (ds, rest)) :
    ∃ d behind, readValue fuel cs = some (d, behind) ∧ Stops behind
      ∧ ((∃ more tail, skipSpace behind = ',' :: more ∧ readItems fuel more = some (tail, rest)
            ∧ ds = d :: tail)
        ∨ skipSpace behind = ']' :: rest ∧ ds = [d]) := by
  simp only [readItems, Option.bind_eq_bind] at h
  obtain ⟨⟨d, behind⟩, hd, h⟩ := Option.bind_eq_some_iff.1 h
  refine ⟨d, behind, hd, ?_⟩
  dsimp only at h
  split at h
  case h_1 more hmore =>
    obtain ⟨⟨tail, rest'⟩, htail, h⟩ := Option.bind_eq_some_iff.1 h
    simp only [Option.pure_def, Option.some.injEq, Prod.mk.injEq] at h
    obtain ⟨rfl, rfl⟩ := h
    exact ⟨stops_of_skipSpace hmore rfl, .inl ⟨more, tail, hmore, htail, rfl⟩⟩
  case h_2 hend =>
    simp only [Option.pure_def, Option.some.injEq, Prod.mk.injEq] at h
    obtain ⟨rfl, rfl⟩ := h
    exact ⟨stops_of_skipSpace hend rfl, .inr ⟨hend, rfl⟩⟩
  case h_3 => cases h

/-- An entry is read as its key, a colon and its value. -/
theorem readEntries_ok {fuel : Nat} {cs rest : List Char} {ds : List (Datum × Datum)}
    (h : readEntries (fuel + 1) cs = some (ds, rest)) :
    ∃ quoted key colon value d behind, skipSpace cs = '"' :: quoted
      ∧ readText quoted = some (key, colon) ∧ skipSpace colon = ':' :: value
      ∧ readValue fuel value = some (d, behind) ∧ Stops behind
      ∧ ((∃ more tail, skipSpace behind = ',' :: more ∧ readEntries fuel more = some (tail, rest)
            ∧ ds = (.scalar key, d) :: tail)
        ∨ skipSpace behind = '\x7d' :: rest ∧ ds = [(.scalar key, d)]) := by
  simp only [readEntries, Option.bind_eq_bind] at h
  split at h
  case h_2 => cases h
  case h_1 quoted hquoted =>
    obtain ⟨⟨key, colon⟩, hkey, h⟩ := Option.bind_eq_some_iff.1 h
    dsimp only at h
    split at h
    case h_2 => cases h
    case h_1 value hvalue =>
      simp only [Option.bind_some] at h
      obtain ⟨⟨d, behind⟩, hd, h⟩ := Option.bind_eq_some_iff.1 h
      refine ⟨quoted, key, colon, value, d, behind, hquoted, hkey, hvalue, hd, ?_⟩
      dsimp only at h
      split at h
      case h_1 more hmore =>
        obtain ⟨⟨tail, rest'⟩, htail, h⟩ := Option.bind_eq_some_iff.1 h
        simp only [Option.pure_def, Option.some.injEq, Prod.mk.injEq] at h
        obtain ⟨rfl, rfl⟩ := h
        exact ⟨stops_of_skipSpace hmore rfl, .inl ⟨more, tail, hmore, htail, rfl⟩⟩
      case h_2 hend =>
        simp only [Option.pure_def, Option.some.injEq, Prod.mk.injEq] at h
        obtain ⟨rfl, rfl⟩ := h
        exact ⟨stops_of_skipSpace hend rfl, .inr ⟨hend, rfl⟩⟩
      case h_3 => cases h

mutual

/-- The text of a value is read as the value, up to its end. -/
theorem rereads_value : ∀ (v : Value) {level fuel : Nat} {cs rest : List Char} {d : Datum},
    readValue fuel ((prettyAt level v).toList ++ cs) = some (d, rest) →
      Stops cs → Stops rest → Rereads v d ∧ rest = cs
  | _, _, 0, _, _, _ => fun h _ _ => by simp [readValue] at h
  | .null, level, fuel + 1, cs, rest, d => fun h _ _ => by
      simp [prettyAt, readValue, skipSpace, words, afterWord?] at h
      simp [Rereads, h]
  | .bool b, level, fuel + 1, cs, rest, d => fun h _ _ => by
      cases b <;> simp [prettyAt, readValue, skipSpace, words, afterWord?] at h <;>
        simp [Rereads, h]
  | .num n, level, fuel + 1, cs, rest, d => fun h hcs hrest => by
      rw [prettyAt] at h
      exact rereads_number h hcs hrest
  | .str s, level, fuel + 1, cs, rest, d => fun h _ _ => by
      have htext : (prettyAt level (.str s)).toList ++ cs
          = '"' :: (s.toList.flatMap quotedChar ++ '"' :: cs) := by
        simp [prettyAt, quoted]
      rw [htext, readValue_quote, readText_quoted] at h
      simp at h
      simp [Rereads, h]
  | .arr [], level, fuel + 1, cs, rest, d => fun h _ _ => by
      simp [prettyAt, readValue, skipSpace] at h
      simp [Rereads, RereadsItems, h]
  | .obj [], level, fuel + 1, cs, rest, d => fun h _ _ => by
      simp [prettyAt, readValue, skipSpace] at h
      simp [Rereads, RereadsEntries, h]
  | .arr (v :: items), level, fuel + 1, cs, rest, d => fun h _ _ => by
      rw [readValue_prettyList] at h
      obtain ⟨⟨ds, rest'⟩, hds, h⟩ := Option.map_eq_some_iff.1 h
      obtain ⟨rfl, rfl⟩ := Prod.mk.inj h
      obtain ⟨hitems, hrest⟩ := rereads_items v items hds (skipSpace_newline level _)
      exact ⟨⟨ds, rfl, hitems⟩, hrest⟩
  | .obj ((k, v) :: entries), level, fuel + 1, cs, rest, d => fun h _ _ => by
      rw [readValue_prettyTable] at h
      obtain ⟨⟨ds, rest'⟩, hds, h⟩ := Option.map_eq_some_iff.1 h
      obtain ⟨rfl, rfl⟩ := Prod.mk.inj h
      obtain ⟨hentries, hrest⟩ := rereads_entries k v entries hds (skipSpace_newline level _)
      exact ⟨⟨ds, rfl, hentries⟩, hrest⟩

/-- The text of items is read as the items, up to the end of the list. -/
theorem rereads_items : ∀ (v : Value) (items : List Value) {level fuel : Nat}
    {cs close rest : List Char} {ds : List Datum},
    readItems fuel ((prettyItems level (v :: items)).toList ++ close) = some (ds, rest) →
      skipSpace close = ']' :: cs → RereadsItems (v :: items) ds ∧ rest = cs
  | v, items, level, 0, cs, close, rest, ds, h, _ => by simp [readItems] at h
  | v, items, level, fuel + 1, cs, close, rest, ds, h, hclose => by
      obtain ⟨d, behind, hd, hstop, hmore⟩ := readItems_ok h
      rw [prettyItems_append, readValue_congr (skipSpace_newline level _)] at hd
      -- what follows the item is the end of the list or the comma of the next one
      cases items with
      | nil =>
          obtain ⟨hv, rfl⟩ := rereads_value v hd (stops_of_skipSpace hclose rfl) hstop
          rw [hclose] at hmore
          rcases hmore with ⟨more, tail, hmore, -⟩ | ⟨hend, rfl⟩
          · simp at hmore
          · exact ⟨⟨d, [], rfl, hv, rfl⟩, (List.cons.inj hend).2.symm⟩
      | cons w items =>
          obtain ⟨hv, rfl⟩ := rereads_value v hd (stops_of_skipSpace (skipSpace_comma _) rfl) hstop
          simp only [behindItem, skipSpace_comma] at hmore
          rcases hmore with ⟨more, tail, hmore, htail, rfl⟩ | ⟨hend, -⟩
          · obtain rfl := (List.cons.inj hmore).2
            obtain ⟨hitems, hrest⟩ := rereads_items w items htail hclose
            exact ⟨⟨d, tail, rfl, hv, hitems⟩, hrest⟩
          · simp at hend

/-- The text of entries is read as the entries, up to the end of the object. -/
theorem rereads_entries : ∀ (k : String) (v : Value) (entries : List (String × Value))
    {level fuel : Nat} {cs close rest : List Char} {ds : List (Datum × Datum)},
    readEntries fuel ((prettyEntries level ((k, v) :: entries)).toList ++ close) = some (ds, rest) →
      skipSpace close = '\x7d' :: cs → RereadsEntries ((k, v) :: entries) ds ∧ rest = cs
  | k, v, entries, level, 0, cs, close, rest, ds, h, _ => by simp [readEntries] at h
  | k, v, entries, level, fuel + 1, cs, close, rest, ds, h, hclose => by
      obtain ⟨quoted, key, colon, value, d, behind, hquoted, hkey, hvalue, hd, hstop, hmore⟩ :=
        readEntries_ok h
      rw [prettyEntries_append, skipSpace_newline, skipSpace_of_not_space (by decide)] at hquoted
      -- the key ends at its closing quote, and the value begins past the blank
      obtain rfl := (List.cons.inj hquoted).2
      rw [readText_quoted] at hkey
      obtain ⟨rfl, rfl⟩ := Prod.mk.inj (Option.some.inj hkey)
      rw [skipSpace_of_not_space (by decide)] at hvalue
      obtain rfl := (List.cons.inj hvalue).2
      rw [readValue_congr (skipSpace_of_space (by decide) _)] at hd
      cases entries with
      | nil =>
          obtain ⟨hv, rfl⟩ := rereads_value v hd (stops_of_skipSpace hclose rfl) hstop
          rw [hclose] at hmore
          rcases hmore with ⟨more, tail, hmore, -⟩ | ⟨hend, rfl⟩
          · simp at hmore
          · exact ⟨⟨d, [], rfl, hv, rfl⟩, (List.cons.inj hend).2.symm⟩
      | cons e entries =>
          obtain ⟨l, w⟩ := e
          obtain ⟨hv, rfl⟩ := rereads_value v hd (stops_of_skipSpace (skipSpace_comma _) rfl) hstop
          simp only [behindEntry, skipSpace_comma] at hmore
          rcases hmore with ⟨more, tail, hmore, htail, rfl⟩ | ⟨hend, -⟩
          · obtain rfl := (List.cons.inj hmore).2
            obtain ⟨hentries, hrest⟩ := rereads_entries l w entries htail hclose
            exact ⟨⟨d, tail, rfl, hv, hentries⟩, hrest⟩
          · simp at hend

end

/-- What a printed value is read as has all of the value but what numbers that are not
natural are read as. -/
theorem rereads_of_read? {v : Value} {tail : List Char} {d : Datum} (htail : skipSpace tail = [])
    (h : read? ((pretty v).toList ++ tail) = some d) : Rereads v d := by
  simp only [read?, Option.bind_eq_bind] at h
  obtain ⟨⟨d', rest⟩, hd, h⟩ := Option.bind_eq_some_iff.1 h
  dsimp only at h
  split at h
  case isTrue hempty =>
    cases h
    exact (rereads_value v hd (stops_of_skipSpace_nil htail)
      (stops_of_skipSpace_nil (List.isEmpty_iff.1 hempty))).1
  case isFalse => cases h

end TenantSync.Json
