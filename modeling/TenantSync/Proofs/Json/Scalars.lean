/-
  TenantSync.Proofs.Json.Scalars
  ──────────────────────────────
  **TEXTS AND NUMBERS ARE READ BACK.**

  A text in quotes is read as itself, whatever follows it: every character,
  escaped or not, becomes one piece that stands for it.

  A number is read up to the first character that no number is written with
  (`Stops`); so the reader takes exactly what the printer wrote, if both what
  stands behind the number and what the reader leaves begin otherwise.  Natural
  numbers come back exactly.  Other numbers may come back as a neighbouring
  double, or not at all when they are too large, and nothing more is said of them.
-/
import TenantSync.Json.Printer
import TenantSync.Json.Reader

namespace TenantSync.Json

/-! ## §1. Texts. -/

/-- A piece of a text stands for a character. -/
def Piece.Means (p : Piece) (c : Char) : Prop :=
  ∀ rest, joinPieces (p :: rest) = (joinPieces rest).map (c :: ·)

theorem Piece.char_means (c : Char) : (Piece.char c).Means c := fun _ => rfl

/-- The number of a character that is not half of a pair stands for it. -/
theorem Piece.unit_means {c : Char} (h : c.toNat < 0xD800) : (Piece.unit c.toNat).Means c := by
  intro rest
  rw [joinPieces.eq_def]
  simp [h]

/-- Four hexadecimal digits, two at least of them zeros in front. -/
def escapeDigits (n : Nat) : List Char :=
  List.replicate (4 - (Nat.toDigits 16 n).length) '0' ++ Nat.toDigits 16 n

theorem hex4?_append {cs rest : List Char} {n : Nat} (h : hex4? cs = some (n, [])) :
    hex4? (cs ++ rest) = some (n, rest) := by
  match cs, h with
  | a :: b :: c :: d :: tail, h =>
      simp only [hex4?, Option.map_eq_some_iff, Prod.mk.injEq] at h
      obtain ⟨m, hm, rfl, rfl⟩ := h
      simp [hex4?, hm]

theorem hex4?_escapeDigits {n : Nat} (h : n < 0x20) : hex4? (escapeDigits n) = some (n, []) := by
  have all : ∀ n : Fin 0x20, hex4? (escapeDigits n) = some (n.val, []) := by decide
  exact all ⟨n, h⟩

/-- A character inside quotes is read as one piece that stands for it. -/
theorem readPieces_quotedChar (c : Char) :
    ∃ p : Piece, p.Means c ∧ ∀ fuel cs acc,
      readPieces (fuel + 1) (quotedChar c ++ cs) acc = readPieces fuel cs (p :: acc) := by
  unfold quotedChar
  split
  case h_8 hquote hbackslash _ _ _ _ _ =>
    split
    case isTrue hcontrol =>
      refine ⟨.unit c.toNat, Piece.unit_means (by omega), fun fuel cs acc => ?_⟩
      have hdigits : hex4? (escapeDigits c.toNat ++ cs) = some (c.toNat, cs) :=
        hex4?_append (hex4?_escapeDigits hcontrol)
      simp only [escapeDigits, List.append_assoc] at hdigits
      simp [readPieces, hdigits]
    case isFalse hplain =>
      have hquote : c ≠ '"' := hquote
      have hbackslash : c ≠ '\\' := hbackslash
      refine ⟨.char c, Piece.char_means c, fun fuel cs acc => ?_⟩
      simp [readPieces, hquote, hbackslash, hplain]
  all_goals
    exact ⟨.char _, Piece.char_means _, fun _ _ _ => rfl⟩

/-- Behind the opening quote the pieces of a text are read up to its closing one. -/
theorem readPieces_quoted (s : List Char) (rest : List Char) :
    ∃ ps, joinPieces ps = some s ∧ ∀ fuel acc, s.length < fuel →
      readPieces fuel (s.flatMap quotedChar ++ '"' :: rest) acc
        = some (acc.reverse ++ ps, rest) := by
  induction s with
  | nil =>
      refine ⟨[], rfl, fun fuel acc hfuel => ?_⟩
      obtain ⟨n, rfl⟩ : ∃ n, fuel = n + 1 := ⟨fuel - 1, by simp at hfuel; omega⟩
      simp [readPieces]
  | cons c s ih =>
      obtain ⟨p, hp, hread⟩ := readPieces_quotedChar c
      obtain ⟨ps, hps, hrest⟩ := ih
      refine ⟨p :: ps, by rw [hp, hps]; rfl, fun fuel acc hfuel => ?_⟩
      simp only [List.length_cons] at hfuel
      obtain ⟨n, rfl⟩ : ∃ n, fuel = n + 1 := ⟨fuel - 1, by omega⟩
      rw [List.flatMap_cons, List.append_assoc, hread, hrest n _ (by omega)]
      simp

theorem length_le_quoted (s : List Char) : s.length ≤ (s.flatMap quotedChar).length := by
  induction s with
  | nil => exact Nat.le_refl _
  | cons c s ih =>
      have hpos : 0 < (quotedChar c).length := by
        unfold quotedChar
        split <;> try split
        all_goals simp
      simp only [List.length_cons, List.flatMap_cons, List.length_append]
      omega

/-- A text in quotes is read as itself. -/
theorem readText_quoted (s : String) (rest : List Char) :
    readText (s.toList.flatMap quotedChar ++ '"' :: rest) = some (.ofText s, rest) := by
  obtain ⟨ps, hps, hread⟩ := readPieces_quoted s.toList rest
  have hlength := length_le_quoted s.toList
  rw [readText, hread _ [] (by simp only [List.length_append]; omega)]
  simp [hps]

/-! ## §2. Numbers. -/

/-- The characters that numbers are written with. -/
def isNumeral (c : Char) : Bool :=
  c.isDigit || c == '.' || c == 'e' || c == 'E' || c == '+' || c == '-'

/-- No number goes on in a text. -/
def Stops (cs : List Char) : Prop := ∀ c ∈ cs.head?, isNumeral c = false

theorem isNumeral_of_isDigit {c : Char} (h : c.isDigit = true) : isNumeral c = true := by
  simp [isNumeral, h]

/-- Where a number stops is determined by what it is written with. -/
theorem Stops.unique {used used' rest rest' : List Char} (h : used ++ rest = used' ++ rest')
    (hused : used.all isNumeral = true) (hused' : used'.all isNumeral = true)
    (hrest : Stops rest) (hrest' : Stops rest') : used = used' ∧ rest = rest' := by
  have stop : ∀ {tail : List Char}, Stops tail → tail.takeWhile isNumeral = [] := by
    intro tail htail
    cases tail with
    | nil => rfl
    | cons c tail => simp [htail c rfl]
  have hwhile := congrArg (List.takeWhile isNumeral) h
  rw [List.takeWhile_append_of_pos (List.all_eq_true.1 hused),
    List.takeWhile_append_of_pos (List.all_eq_true.1 hused'), stop hrest, stop hrest',
    List.append_nil, List.append_nil] at hwhile
  subst hwhile
  exact ⟨rfl, List.append_cancel_left h⟩

/-- One text is left of another when a part of a number is taken off. -/
def Leaves (cs rest : List Char) : Prop := ∃ used, cs = used ++ rest ∧ used.all isNumeral = true

theorem Leaves.refl (cs : List Char) : Leaves cs cs := ⟨[], rfl, rfl⟩

theorem Leaves.cons {c : Char} {cs rest : List Char} (hc : isNumeral c = true)
    (h : Leaves cs rest) : Leaves (c :: cs) rest := by
  obtain ⟨used, rfl, hused⟩ := h
  exact ⟨c :: used, rfl, by simp [hc, hused]⟩

/-- Digits in front are a part of a number. -/
theorem Leaves.digits {cs rest : List Char} (h : Leaves (cs.dropWhile Char.isDigit) rest) :
    Leaves cs rest := by
  induction cs with
  | nil => exact h
  | cons c cs ih =>
      by_cases hc : c.isDigit = true
      · rw [List.dropWhile_cons_of_pos hc] at h
        exact .cons (isNumeral_of_isDigit hc) (ih h)
      · rwa [List.dropWhile_cons_of_neg hc] at h

/-- A number that is read has its parts one behind the other. -/
theorem readNumber_ok {cs rest : List Char} {r : Reading} (h : readNumber cs = some (r, rest)) :
    ∃ fraction exponent behind,
      readFraction ((readSign cs).2.dropWhile Char.isDigit) = some (fraction, behind)
        ∧ readExponent behind = some (exponent, rest)
        ∧ r = match numberOf (readSign cs).1 ((readSign cs).2.takeWhile Char.isDigit)
              fraction exponent with
            | some n => .ofNumber n
            | none => .unreadable := by
  simp only [readNumber, Option.bind_eq_bind, Option.pure_def] at h
  split at h
  · cases h
  · obtain ⟨⟨fraction, behind⟩, hfraction, h⟩ := Option.bind_eq_some_iff.1 h
    obtain ⟨⟨exponent, rest'⟩, hexponent, h⟩ := Option.bind_eq_some_iff.1 h
    simp only [Option.some.injEq, Prod.mk.injEq] at h
    obtain ⟨hr, rfl⟩ := h
    exact ⟨fraction, exponent, behind, hfraction, hexponent, hr.symm⟩

theorem leaves_of_readSign {cs rest : List Char} (h : Leaves (readSign cs).2 rest) :
    Leaves cs rest := by
  unfold readSign at h
  split at h
  · exact .cons (by decide) h
  · exact h

theorem leaves_of_readFraction {cs behind rest : List Char} {fraction : Option (List Char)}
    (h : readFraction cs = some (fraction, behind)) (hrest : Leaves behind rest) :
    Leaves cs rest := by
  unfold readFraction at h
  split at h
  · dsimp only at h
    split at h
    · cases h
    · cases h
      exact .cons (by decide) hrest.digits
  · cases h
    exact hrest

theorem leaves_of_readExponent {cs rest : List Char} {exponent : Option Int}
    (h : readExponent cs = some (exponent, rest)) : Leaves cs rest := by
  unfold readExponent at h
  split at h
  case h_1 e tail =>
    split at h
    case isTrue he =>
      dsimp only at h
      split at h
      · cases h
      · simp only [Option.some.injEq, Prod.mk.injEq] at h
        obtain ⟨-, rfl⟩ := h
        have hmark : isNumeral e = true := by
          simp only [Bool.or_eq_true, beq_iff_eq] at he
          rcases he with rfl | rfl <;> decide
        have htail : Leaves (readExponentSign tail).2 ((readExponentSign tail).2.dropWhile _) :=
          Leaves.digits (.refl _)
        refine .cons hmark ?_
        unfold readExponentSign at htail ⊢
        split at htail
        · exact .cons (by decide) htail
        · exact .cons (by decide) htail
        · exact htail
    case isFalse =>
      cases h
      exact .refl _
  case h_2 =>
    cases h
    exact .refl _

/-- A number is read off the front of a text. -/
theorem leaves_of_readNumber {cs rest : List Char} {r : Reading}
    (h : readNumber cs = some (r, rest)) : Leaves cs rest := by
  obtain ⟨fraction, exponent, behind, hfraction, hexponent, -⟩ := readNumber_ok h
  exact leaves_of_readSign
    (leaves_of_readFraction hfraction (leaves_of_readExponent hexponent)).digits

/-- A number is read up to where it ends in the text. -/
theorem readNumber_stops {text cs rest : List Char} {r : Reading}
    (h : readNumber (text ++ cs) = some (r, rest)) (htext : text.all isNumeral = true)
    (hcs : Stops cs) (hrest : Stops rest) : rest = cs := by
  obtain ⟨used, heq, hused⟩ := leaves_of_readNumber h
  exact (Stops.unique heq htext hused hcs hrest).2.symm

/-! ## §3. Natural numbers. -/

theorem Stops.ne {c d : Char} {cs : List Char} (h : Stops (c :: cs)) (hd : isNumeral d = true) :
    c ≠ d := by
  rintro rfl
  exact absurd (h c rfl) (by simp [hd])

theorem Stops.not_isDigit {c : Char} {cs : List Char} (h : Stops (c :: cs)) :
    ¬ c.isDigit = true :=
  fun hc => absurd (isNumeral_of_isDigit hc) (by simp [h c rfl])

/-- Digits are read up to where the number stops. -/
theorem Stops.digits {ds cs : List Char} (hds : ∀ c ∈ ds, c.isDigit = true) (h : Stops cs) :
    (ds ++ cs).takeWhile Char.isDigit = ds ∧ (ds ++ cs).dropWhile Char.isDigit = cs := by
  rw [List.takeWhile_append_of_pos hds, List.dropWhile_append_of_pos hds]
  cases cs with
  | nil => exact ⟨List.append_nil _, rfl⟩
  | cons c cs => simp [h.not_isDigit]

/-- Where a number stops there is neither a fraction nor an exponent. -/
theorem Stops.no_fraction {cs : List Char} (h : Stops cs) : readFraction cs = some (none, cs) := by
  cases cs with
  | nil => rfl
  | cons c cs => simp [readFraction, h.ne (d := '.') (by decide)]

theorem Stops.no_exponent {cs : List Char} (h : Stops cs) : readExponent cs = some (none, cs) := by
  cases cs with
  | nil => rfl
  | cons c cs =>
      simp [readExponent, h.ne (d := 'e') (by decide), h.ne (d := 'E') (by decide)]

theorem le_ofDigitChars (ds : List Char) (n : Nat) : n ≤ Nat.ofDigitChars 10 ds n := by
  induction ds generalizing n with
  | nil => exact Nat.le_refl _
  | cons c ds ih =>
      rw [Nat.ofDigitChars_cons]
      exact Nat.le_trans (by omega) (ih _)

/-- Digits whose number fits 64 bits are all taken. -/
theorem takeDigits_eq {ds : List Char} {n used : Nat}
    (h : Nat.ofDigitChars 10 ds n < twoTo 64) :
    takeDigits n used ds = (Nat.ofDigitChars 10 ds n, used + ds.length, []) := by
  induction ds generalizing n used with
  | nil => rfl
  | cons c ds ih =>
      rw [Nat.ofDigitChars_cons] at h ⊢
      have hnext : 10 * n + (c.toNat - '0'.toNat) < twoTo 64 :=
        Nat.lt_of_le_of_lt (le_ofDigitChars ds _) h
      rw [takeDigits, if_pos hnext, ih h, List.length_cons, Nat.add_assoc, Nat.add_comm 1]

/-- A natural number of 64 bits is read as itself. -/
theorem readNumber_natural {n : UInt64} {cs rest : List Char} {r : Reading} (hcs : Stops cs)
    (h : readNumber (Nat.toDigits 10 n.toNat ++ cs) = some (r, rest)) :
    r = .ofNumber (.natural n) := by
  have hdigits : ∀ c ∈ Nat.toDigits 10 n.toNat, c.isDigit = true :=
    fun c hc => Nat.isDigit_of_mem_toDigits (by decide) (by decide) hc
  have hsign : readSign (Nat.toDigits 10 n.toNat ++ cs)
      = (false, Nat.toDigits 10 n.toNat ++ cs) := by
    cases htext : Nat.toDigits 10 n.toNat with
    | nil => exact absurd htext Nat.toDigits_ne_nil
    | cons c ds =>
        have hc : c ≠ '-' := by
          rintro rfl
          exact absurd (hdigits '-' (by simp [htext])) (by decide)
        simp [readSign, hc]
  -- all digits are taken, and neither a fraction nor an exponent follows
  obtain ⟨fraction, exponent, behind, hfraction, hexponent, hr⟩ := readNumber_ok h
  obtain ⟨htake, hdrop⟩ := hcs.digits hdigits
  rw [hsign, hdrop, hcs.no_fraction] at hfraction
  obtain ⟨rfl, rfl⟩ : none = fraction ∧ cs = behind := by simpa using hfraction
  rw [hcs.no_exponent] at hexponent
  obtain ⟨rfl, rfl⟩ : none = exponent ∧ cs = rest := by simpa using hexponent
  have hvalue : Nat.ofDigitChars 10 (Nat.toDigits 10 n.toNat) 0 = n.toNat :=
    Nat.ofDigitChars_toDigits (by decide) (by decide)
  have htaken : takeDigits 0 0 (Nat.toDigits 10 n.toNat)
      = (n.toNat, 0 + (Nat.toDigits 10 n.toNat).length, []) := by
    rw [takeDigits_eq (by rw [hvalue]; exact n.toNat_lt), hvalue]
  rw [hsign, htake] at hr
  simpa [numberOf, htaken] using hr

/-! ## §4. The texts of numbers. -/

/-- A text holds the characters of numbers only. -/
def Numeric (s : String) : Prop := s.toList.all isNumeral = true

theorem Numeric.append {a b : String} (ha : Numeric a) (hb : Numeric b) : Numeric (a ++ b) := by
  unfold Numeric at *
  rw [String.toList_append, List.all_append, ha, hb]
  rfl

theorem Numeric.ofDigits {cs : List Char} (h : ∀ c ∈ cs, c.isDigit = true) :
    Numeric (String.ofList cs) := by
  unfold Numeric
  rw [String.toList_ofList]
  exact List.all_eq_true.2 fun c hc => isNumeral_of_isDigit (h c hc)

/-- Digits around a point. -/
theorem Numeric.ofPoint {whole fraction : List Char} (hw : ∀ c ∈ whole, c.isDigit = true)
    (hf : ∀ c ∈ fraction, c.isDigit = true) :
    Numeric (String.ofList (whole ++ '.' :: fraction)) := by
  have h := ((Numeric.ofDigits hw).append (show Numeric "." from rfl)).append (.ofDigits hf)
  simpa [Numeric] using h

theorem isDigit_toDigits (n : Nat) : ∀ c ∈ Nat.toDigits 10 n, c.isDigit = true :=
  fun _ hc => Nat.isDigit_of_mem_toDigits (by decide) (by decide) hc

theorem Numeric.ofNat (n : Nat) : Numeric (toString n) := by
  show Numeric n.repr
  rw [Nat.repr_eq_ofList_toDigits]
  exact .ofDigits (isDigit_toDigits n)

/-- The digits of a double are digits. -/
theorem isDigit_shortest (tie : Binary64.Tie) (x : Binary64) :
    ∀ c ∈ (x.shortest tie).digits, c.isDigit = true := by
  unfold Binary64.shortest
  split
  · simp
  · split
    case h_1 d k _ =>
      intro c hc
      have hmem : c ∈ Nat.toDigits 10 d :=
        List.mem_reverse.1 ((List.dropWhile_sublist _).subset (List.mem_reverse.1 hc))
      exact isDigit_toDigits d c hmem
    case h_2 => simp

theorem numeric_float (x : Binary64) : Numeric (x.format floatLayout) := by
  have hdigits := isDigit_shortest floatLayout.tie x
  unfold Binary64.format
  generalize x.shortest floatLayout.tie = decimal at hdigits ⊢
  obtain ⟨digits, point⟩ := decimal
  dsimp only at hdigits ⊢
  have hzeros (n : Nat) : ∀ c ∈ List.replicate n '0', c.isDigit = true := by
    intro c hc
    rw [List.eq_of_mem_replicate hc]
    rfl
  refine .append (by split <;> rfl) ?_
  split
  · -- one digit, a point and the others, and an exponent
    refine .append (.append (.append ?_ rfl) (by split <;> rfl)) (.ofNat _)
    have hlead : ∀ c ∈ digits.take 1, c.isDigit = true :=
      fun c hc => hdigits c (List.mem_of_mem_take hc)
    split
    · rw [List.append_nil]
      exact .ofDigits hlead
    · exact .ofPoint hlead fun c hc => hdigits c (List.mem_of_mem_drop hc)
  · split
    · -- zeros in front
      show Numeric (String.ofList (['0'] ++ '.' :: (List.replicate point.natAbs '0' ++ digits)))
      refine .ofPoint (by simp) fun c hc => ?_
      rcases List.mem_append.1 hc with hc | hc
      · exact hzeros _ c hc
      · exact hdigits c hc
    · split
      · -- zeros behind
        refine .append (.ofDigits fun c hc => ?_) rfl
        rcases List.mem_append.1 hc with hc | hc
        · exact hdigits c hc
        · exact hzeros _ c hc
      · exact .ofPoint (fun c hc => hdigits c (List.mem_of_mem_take hc))
          fun c hc => hdigits c (List.mem_of_mem_drop hc)

/-- A number is written with the characters of numbers only. -/
theorem numeric_number (n : Number) : Numeric (number n) := by
  cases n with
  | natural n => exact .ofNat n.toNat
  | negative n => exact .append rfl (.ofNat (n.toNat + 1))
  | float x => exact numeric_float x

/-- A number has a text. -/
theorem number_ne_nil (n : Number) : (number n).toList ≠ [] := by
  cases n with
  | natural n =>
      show n.toNat.repr.toList ≠ []
      rw [Nat.toList_repr]
      exact Nat.toDigits_ne_nil
  | negative n => simp [number, Number.format]
  | float x =>
      show (x.format floatLayout).toList ≠ []
      unfold Binary64.format
      generalize x.shortest floatLayout.tie = decimal
      obtain ⟨digits, point⟩ := decimal
      dsimp only
      rw [String.toList_append]
      refine List.append_ne_nil_of_right_ne_nil _ ?_
      split
      · simp
      · split
        · simp
        · split <;> simp [floatLayout]

end TenantSync.Json
