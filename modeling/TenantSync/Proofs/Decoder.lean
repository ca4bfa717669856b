/-
  TenantSync.Proofs.Decoder
  ─────────────────────────
  **A DECODER READS WHAT WAS WRITTEN.**

  A text format that keeps what it is given delivers, for a value that was
  written, a datum that means this value: lists and tables part by part, each
  scalar with all the answers that the value gives.  A scalar may give further
  answers, as in YAML, where a flag is also a text.

      d.Reads v a     whatever means the value v is decoded by d as a

  There is one lemma for each piece that decoders are put together from.  In a
  record the fields stand side by side with the entries that were written for
  them: an entry that is there is read, and where none was written the default
  of the field has to be what was meant.
-/
import TenantSync.Decoder
import TenantSync.Config.Encode
import TenantSync.Proofs.NameMap

namespace TenantSync

/-! ## §1. What a datum means. -/

/-- Whether a scalar gives all the answers that a value gives. -/
def Reading.means (r : Reading) (v : Value) : Bool :=
  r.payload == some v && match v with
    | .null => r.absence == .absent
    | .bool b => r.absence == .present && r.flag == some b
    | .num n => r.absence == .present && r.count == (Reading.ofNumber n).count
    | .str s => r.absence == .present && r.text == some s
    | _ => false

namespace Datum

mutual

/-- Whether a datum means a value. -/
def means : Value → Datum → Bool
  | .arr items, .list true _ ds => itemsMean items ds
  | .obj entries, .table true ds => entriesMean entries ds
  | v, .scalar r => r.means v
  | _, _ => false

/-- Whether the items of a list mean those of another, in order. -/
def itemsMean : List Value → List Datum → Bool
  | [], [] => true
  | v :: items, d :: ds => means v d && itemsMean items ds
  | _, _ => false

/-- Whether the entries of a table mean those of an object, in order and each
under its key. -/
def entriesMean : List (String × Value) → List (Datum × Datum) → Bool
  | [], [] => true
  | (k, v) :: entries, (.scalar r, d) :: ds =>
      r.means (.str k) && means v d && entriesMean entries ds
  | _, _ => false

end

/-- What means a value without parts is a scalar. -/
theorem scalar_of_means {v : Value} {d : Datum} (h : means v d = true)
    (harr : ∀ items, v ≠ .arr items) (hobj : ∀ entries, v ≠ .obj entries) :
    ∃ r, d = .scalar r ∧ r.means v = true := by
  cases d with
  | scalar r =>
      refine ⟨r, rfl, ?_⟩
      cases v <;> simpa [means] using h
  | list free _ _ => cases v <;> simp_all [means]
  | table free _ => cases v <;> simp_all [means]

theorem list_of_means_arr {items : List Value} {d : Datum} (h : means (.arr items) d = true) :
    ∃ positional ds, d = .list true positional ds ∧ itemsMean items ds = true := by
  cases d with
  | scalar r => simp [means, Reading.means] at h
  | list free positional ds =>
      cases free with
      | false => simp [means] at h
      | true => exact ⟨positional, ds, rfl, by simpa [means] using h⟩
  | table _ _ => simp [means] at h

theorem table_of_means_obj {entries : List (String × Value)} {d : Datum}
    (h : means (.obj entries) d = true) :
    ∃ ds, d = .table true ds ∧ entriesMean entries ds = true := by
  cases d with
  | scalar r => simp [means, Reading.means] at h
  | list _ _ _ => simp [means] at h
  | table free ds =>
      cases free with
      | false => simp [means] at h
      | true => exact ⟨ds, rfl, by simpa [means] using h⟩

/-- The key of an entry that means another one is its key, as a text and as free-form
data. -/
theorem entriesMean_cons {k : String} {v : Value} {entries : List (String × Value)}
    {ds : List (Datum × Datum)} (h : entriesMean ((k, v) :: entries) ds = true) :
    ∃ key d rest, ds = (key, d) :: rest ∧ key.text? = some k ∧ (∀ strict, key.key? strict = some k)
      ∧ means v d = true ∧ entriesMean entries rest = true := by
  match ds, h with
  | (.scalar r, d) :: rest, h =>
      simp only [entriesMean, Reading.means, Bool.and_eq_true, beq_iff_eq] at h
      obtain ⟨⟨⟨hpayload, -, htext⟩, hd⟩, hrest⟩ := h
      refine ⟨.scalar r, d, rest, rfl, htext, fun strict => ?_, hd, hrest⟩
      cases strict with
      | false => exact htext
      | true => simp [key?, hpayload]

theorem itemsMean_cons {v : Value} {items : List Value} {ds : List Datum}
    (h : itemsMean (v :: items) ds = true) :
    ∃ d rest, ds = d :: rest ∧ means v d = true ∧ itemsMean items rest = true := by
  cases ds with
  | nil => cases h
  | cons d rest =>
      rw [itemsMean, Bool.and_eq_true] at h
      exact ⟨d, rest, rfl, h.1, h.2⟩

theorem eq_nil_of_itemsMean {ds : List Datum} (h : itemsMean [] ds = true) : ds = [] := by
  cases ds with
  | nil => rfl
  | cons d rest => cases h

theorem eq_nil_of_entriesMean {ds : List (Datum × Datum)} (h : entriesMean [] ds = true) :
    ds = [] := by
  cases ds with
  | nil => rfl
  | cons e rest => cases h

/-! ## §2. Free-form data. -/

mutual

/-- A datum that means a value is that value as free-form data. -/
theorem value?_of_means (strict : Bool) :
    ∀ (v : Value) {d : Datum}, means v d = true → d.value? strict = some v
  | .arr items, d, h => by
      obtain ⟨positional, ds, rfl, hds⟩ := list_of_means_arr h
      simp [value?, itemValues?_of_means strict items hds]
  | .obj entries, d, h => by
      obtain ⟨ds, rfl, hds⟩ := table_of_means_obj h
      simp [value?, entryValues?_of_means strict entries hds]
  | .null, d, h | .bool _, d, h | .num _, d, h | .str _, d, h => by
      obtain ⟨r, rfl, hr⟩ := scalar_of_means h (by simp) (by simp)
      simp only [Reading.means, Bool.and_eq_true, beq_iff_eq] at hr
      exact hr.1

theorem itemValues?_of_means (strict : Bool) :
    ∀ (items : List Value) {ds : List Datum}, itemsMean items ds = true →
      itemValues? strict ds = some items
  | [], ds, h => by
      rw [eq_nil_of_itemsMean h]
      rfl
  | v :: items, ds, h => by
      obtain ⟨d, rest, rfl, hd, hrest⟩ := itemsMean_cons h
      simp [itemValues?, value?_of_means strict v hd, itemValues?_of_means strict items hrest]

theorem entryValues?_of_means (strict : Bool) :
    ∀ (entries : List (String × Value)) {ds : List (Datum × Datum)},
      entriesMean entries ds = true → entryValues? strict ds = some entries
  | [], ds, h => by
      rw [eq_nil_of_entriesMean h]
      rfl
  | (k, v) :: entries, ds, h => by
      obtain ⟨key, d, rest, rfl, -, hkey, hd, hrest⟩ := entriesMean_cons h
      simp [entryValues?, hkey, value?_of_means strict v hd,
        entryValues?_of_means strict entries hrest]

end

end Datum

namespace Value

mutual

/-- Entries that ascend are sorted already. -/
theorem canonicalize_of_canonical : ∀ {v : Value}, v.Canonical → v.canonicalize = v
  | .null, _ | .bool _, _ | .num _, _ | .str _, _ => rfl
  | .arr items, h => by
      rw [canonicalize, canonicalizeItems_of_canonical h]
  | .obj entries, h => by
      rw [canonicalize, canonicalizeEntries_of_canonical h.1]
      exact congrArg Value.obj (congrArg NameMap.entries (NameMap.ofList_entries ⟨entries, h.2⟩))

theorem canonicalizeItems_of_canonical :
    ∀ {items : List Value}, CanonicalItems items → canonicalizeItems items = items
  | [], _ => rfl
  | _ :: _, h => by
      rw [canonicalizeItems, canonicalize_of_canonical h.1, canonicalizeItems_of_canonical h.2]

theorem canonicalizeEntries_of_canonical : ∀ {entries : List (String × Value)},
    CanonicalEntries entries → canonicalizeEntries entries = entries
  | [], _ => rfl
  | _ :: _, h => by
      rw [canonicalizeEntries, canonicalize_of_canonical h.1,
        canonicalizeEntries_of_canonical h.2]

end

end Value

/-- Free-form data is read from what means its value. -/
theorem Datum.payload?_of_means (strict : Bool) {p : Payload} {d : Datum}
    (h : d.means p.value = true) : d.payload? strict = some p := by
  unfold payload? Payload.ofValue
  simp only [value?_of_means strict p.value h, Option.map_some,
    Value.canonicalize_of_canonical p.canonical]

namespace Decoder

variable {α β : Type}

/-- Whatever means the value `v` is decoded as `a`. -/
def Reads (d : Decoder α) (v : Value) (a : α) : Prop :=
  ∀ x, Datum.means v x = true → d.decode x = some a

/-! ## §3. Scalars. -/

theorem text_reads (s : String) : text.Reads (.str s) s := by
  intro x h
  obtain ⟨r, rfl, hr⟩ := Datum.scalar_of_means h (by simp) (by simp)
  simp only [Reading.means, Bool.and_eq_true, beq_iff_eq] at hr
  exact hr.2.2

theorem flag_reads (b : Bool) : flag.Reads (.bool b) b := by
  intro x h
  obtain ⟨r, rfl, hr⟩ := Datum.scalar_of_means h (by simp) (by simp)
  simp only [Reading.means, Bool.and_eq_true, beq_iff_eq] at hr
  exact hr.2.2

/-- A natural number is delivered as the count that it is. -/
theorem count_of_means {n : UInt64} {x : Datum} (h : Datum.means (.ofUInt64 n) x = true) :
    ∃ r, x = .scalar r ∧ r.count = some n.toNat := by
  obtain ⟨r, rfl, hr⟩ := Datum.scalar_of_means h (by simp [Value.ofUInt64])
    (by simp [Value.ofUInt64])
  simp only [Value.ofUInt64, Reading.means, Bool.and_eq_true, beq_iff_eq] at hr
  exact ⟨r, rfl, hr.2.2⟩

theorem count64_reads (n : UInt64) : count64.Reads (.ofUInt64 n) n := by
  intro x h
  obtain ⟨r, rfl, hcount⟩ := count_of_means h
  have hfits : n.toNat < twoTo 64 := n.toNat_lt
  simp [count64, hcount, hfits]

theorem count32_reads (n : UInt32) : count32.Reads (.ofUInt64 n.toUInt64) n := by
  intro x h
  obtain ⟨r, rfl, hcount⟩ := count_of_means h
  have hfits : n.toNat < twoTo 32 := n.toNat_lt
  simp [count32, hcount, hfits]

theorem payload_reads (p : Payload) : payload.Reads p.value p :=
  fun _ h => Datum.payload?_of_means false h

/-- What a decoder reads is read further by a function that accepts it. -/
theorem filterMap_reads {d : Decoder α} {f : α → Option β} {v : Value} {a : α} {b : β}
    (h : d.Reads v a) (hf : f a = some b) : (filterMap f d).Reads v b := by
  intro x hx
  show (d.decode x).bind f = some b
  rw [h x hx]
  exact hf

/-! ## §4. Collections and defaults. -/

theorem mapM_of_itemsMean {d : Decoder α} {f : α → Value} {l : List α}
    (h : ∀ a ∈ l, d.Reads (f a) a) {xs : List Datum}
    (hxs : Datum.itemsMean (l.map f) xs = true) : xs.mapM d.decode = some l := by
  induction l generalizing xs with
  | nil =>
      rw [Datum.eq_nil_of_itemsMean hxs]
      rfl
  | cons a l ih =>
      obtain ⟨x, rest, rfl, hx, hrest⟩ := Datum.itemsMean_cons hxs
      have ha := h a List.mem_cons_self x hx
      have hl := ih (fun b hb => h b (List.mem_cons_of_mem a hb)) hrest
      simp [List.mapM_cons, ha, hl]

/-- A list of texts is read as it was written. -/
theorem names_reads (l : List String) : (listOf text).Reads (Value.names l) l := by
  intro x h
  obtain ⟨positional, ds, rfl, hds⟩ := Datum.list_of_means_arr h
  exact mapM_of_itemsMean (fun s _ => text_reads s) hds

theorem mapM_of_entriesMean {d : Decoder α} {f : α → Value} {l : List (String × α)}
    (h : ∀ e ∈ l, d.Reads (f e.2) e.2) {xs : List (Datum × Datum)}
    (hxs : Datum.entriesMean (l.map fun e => (e.1, f e.2)) xs = true) :
    xs.mapM (entry d) = some l := by
  induction l generalizing xs with
  | nil =>
      rw [Datum.eq_nil_of_entriesMean hxs]
      rfl
  | cons e l ih =>
      obtain ⟨key, x, rest, rfl, hkey, -, hx, hrest⟩ := Datum.entriesMean_cons hxs
      have he := h e List.mem_cons_self x hx
      have hl := ih (fun e' he' => h e' (List.mem_cons_of_mem e he')) hrest
      simp [List.mapM_cons, entry, hkey, he, hl]

/-- A map is read as it was written, if every value in it is. -/
theorem mapOf_reads {d : Decoder α} {f : α → Value} {m : NameMap α}
    (h : ∀ k a, m.get? k = some a → d.Reads (f a) a) : (mapOf d).Reads (Value.ofMap f m) m := by
  intro x hx
  obtain ⟨ds, rfl, hds⟩ := Datum.table_of_means_obj hx
  have hentries : ds.mapM (entry d) = some m.entries :=
    mapM_of_entriesMean (fun e he => h e.1 e.2 (NameMap.get?_eq_some_iff.2 he)) hds
  simp [mapOf, hentries, NameMap.ofList_entries]

/-- What means another value than null is not absent. -/
theorem present_of_means {v : Value} (hv : v ≠ .null) {r : Reading} (h : r.means v = true) :
    r.absence = .present := by
  cases v <;> simp_all [Reading.means]

/-- A value that is not null is read as it is. -/
theorem orElse_reads {default a : α} {d : Decoder α} {v : Value} (hv : v ≠ .null)
    (h : d.Reads v a) : (orElse default d).Reads v a := by
  intro x hx
  have hread := h x hx
  cases x with
  | scalar r =>
      have hr : r.means v = true := by cases v <;> simpa [Datum.means] using hx
      simp only [orElse, present_of_means hv hr]
      exact hread
  | list _ _ _ => exact hread
  | table _ _ => exact hread

/-- A value that is there is read as that. -/
theorem optional_reads {a : α} {d : Decoder α} {v : Value} (hv : v ≠ .null) (h : d.Reads v a) :
    (optional d).Reads v (some a) := by
  refine orElse_reads hv fun x hx => ?_
  show Option.map some (d.decode x) = _
  rw [h x hx]
  rfl

/-! ## §5. Records. -/

/-- The names of the fields. -/
def Fields.names (fields : Fields α) : List String := fields.slots.map Prod.fst

/-- What is found under a name is what was written under it, if anything was. -/
def Finds (look : String → Option Datum) (entries : List (String × Value)) (name : String) :
    Prop :=
  match NameMap.lookupEntry name entries with
  | some v => ∃ x, look name = some x ∧ Datum.means v x = true
  | none => look name = none

/-- Whatever means the entries is read as `a`: the entries are for some of the fields, in
their order, and where none was written the default stands for what was meant. -/
structure Fields.Reads (fields : Fields α) (entries : List (String × Value)) (a : α) : Prop where
  /-- Each entry is for a field of its own. -/
  own : (entries.map Prod.fst).Sublist fields.names
  /-- What is found under the names is read. -/
  read : fields.names.Nodup → ∀ look : String → Option Datum,
    (∀ name ∈ fields.names, Finds look entries name) → fields.read look = some a

namespace Fields

variable {entries entries' : List (String × Value)} {a : α} {name : String} {d : Decoder α}
  {default : α} {v : Value}

/-- An entry for a field is read as the field. -/
theorem written (h : d.Reads v a) : (field name d default).Reads [(name, v)] a where
  own := List.Sublist.refl _
  read _ look hlook := by
    have hfound : ∃ x, look name = some x ∧ Datum.means v x = true := by
      simpa [Finds, NameMap.lookupEntry] using hlook name List.mem_cons_self
    obtain ⟨x, hx, hmeans⟩ := hfound
    simp [field, hx, h x hmeans]

theorem written_required (h : d.Reads v a) : (required name d).Reads [(name, v)] a where
  own := List.Sublist.refl _
  read _ look hlook := by
    have hfound : ∃ x, look name = some x ∧ Datum.means v x = true := by
      simpa [Finds, NameMap.lookupEntry] using hlook name List.mem_cons_self
    obtain ⟨x, hx, hmeans⟩ := hfound
    simp [required, hx, h x hmeans]

/-- A field that is left out is read as its default. -/
theorem left_out : (field name d default).Reads [] default where
  own := List.nil_sublist _
  read _ look hlook := by
    have hfound : look name = none := by
      simpa [Finds, NameMap.lookupEntry] using hlook name List.mem_cons_self
    simp [field, hfound]

/-- A field may be left out when it is empty, if its default is what is empty. -/
theorem written_unless {empty : Bool} (hempty : empty = true → a = default) (h : d.Reads v a) :
    (field name d default).Reads (Value.fieldUnless empty name v) a := by
  cases empty with
  | true =>
      rw [hempty rfl]
      exact left_out
  | false => exact written h

/-- A value that may be missing is left out when it is. -/
theorem written_maybe {f : α → Value} {o : Option α} (hnull : ∀ a, f a ≠ .null)
    (h : ∀ a, o = some a → d.Reads (f a) a) :
    (field name (optional d) none).Reads (o.map fun a => (name, f a)).toList o := by
  cases o with
  | none => exact left_out
  | some a => exact written (optional_reads (hnull a) (h a rfl))

/-- The fields of a record one after another: what is written for the first ones is not
found under the names of the others. -/
theorem Reads.seq {f : Fields (α → β)} {x : Fields α} {g : α → β} (hf : f.Reads entries g)
    (hx : x.Reads entries' a) : (f <*> x).Reads (entries ++ entries') (g a) := by
  have hnames : (f <*> x).names = f.names ++ x.names := List.map_append
  constructor
  · rw [hnames, List.map_append]
    exact hf.own.append hx.own
  · rw [hnames]
    intro hnodup look hlook
    obtain ⟨hfnodup, hxnodup, hdisjoint⟩ := List.nodup_append.1 hnodup
    have hleft : ∀ name ∈ f.names, Finds look entries name := by
      intro name hname
      have hnone : NameMap.lookupEntry name entries' = none :=
        NameMap.lookupEntry_eq_none_iff.2 fun hmem =>
          hdisjoint name hname name (hx.own.subset hmem) rfl
      have hfinds := hlook name (List.mem_append_left _ hname)
      unfold Finds at hfinds ⊢
      rwa [NameMap.lookupEntry_append, hnone, Option.or_none] at hfinds
    have hright : ∀ name ∈ x.names, Finds look entries' name := by
      intro name hname
      have hnone : NameMap.lookupEntry name entries = none :=
        NameMap.lookupEntry_eq_none_iff.2 fun hmem =>
          hdisjoint name (hf.own.subset hmem) name hname rfl
      have hfinds := hlook name (List.mem_append_right _ hname)
      unfold Finds at hfinds ⊢
      rwa [NameMap.lookupEntry_append, hnone, Option.none_or] at hfinds
    show (f.read look).bind (fun g => (x.read look).bind fun a => some (g a)) = some (g a)
    rw [hf.read hfnodup look hleft, Option.bind_some, hx.read hxnodup look hright,
      Option.bind_some]

/-- The first field of a record. -/
theorem Reads.map {x : Fields α} (g : α → β) (hx : x.Reads entries a) :
    (g <$> x).Reads entries (g a) := by
  have hpure : (Pure.pure g : Fields (α → β)).Reads [] g := ⟨List.nil_sublist _, fun _ _ _ => rfl⟩
  exact hpure.seq hx

end Fields

/-- What is found under a name among the data that mean some entries. -/
theorem finds_of_entriesMean {entries : List (String × Value)} {ds : List (Datum × Datum)}
    (h : Datum.entriesMean entries ds = true) (name : String) :
    Finds (valueUnder ds) entries name := by
  induction entries generalizing ds with
  | nil =>
      rw [Datum.eq_nil_of_entriesMean h]
      rfl
  | cons e entries ih =>
      obtain ⟨key, x, rest, rfl, hkey, -, hx, hrest⟩ := Datum.entriesMean_cons h
      by_cases heq : name = e.1
      · simpa [Finds, NameMap.lookupEntry, valueUnder, hkey, heq] using hx
      · have hfinds := ih hrest
        simpa [Finds, NameMap.lookupEntry, valueUnder, hkey, heq, Ne.symm heq] using hfinds

/-- The keys of data that mean some entries are theirs. -/
theorem keys_of_entriesMean {entries : List (String × Value)} {ds : List (Datum × Datum)}
    (h : Datum.entriesMean entries ds = true) :
    ds.map (fun e => e.1.text?) = entries.map fun e => some e.1 := by
  induction entries generalizing ds with
  | nil =>
      rw [Datum.eq_nil_of_entriesMean h]
      rfl
  | cons e entries ih =>
      obtain ⟨key, x, rest, rfl, hkey, -, -, hrest⟩ := Datum.entriesMean_cons h
      rw [List.map_cons, List.map_cons, ih hrest, hkey]

/-- A name that was written at most once is found at most once. -/
theorem occursOnce_of_entriesMean {entries : List (String × Value)} {ds : List (Datum × Datum)}
    (h : Datum.entriesMean entries ds = true) (hnodup : (entries.map Prod.fst).Nodup)
    (name : String) : occursOnce ds name = true := by
  have hcount : (ds.filter fun e => e.1.text? == some name).length
      = (entries.map Prod.fst).count name := by
    calc (ds.filter fun e => e.1.text? == some name).length
        = (ds.map fun e => e.1.text?).count (some name) := by
          rw [List.count, List.countP_map, List.countP_eq_length_filter]; rfl
      _ = (entries.map fun e => some e.1).count (some name) := by rw [keys_of_entriesMean h]
      _ = (entries.map Prod.fst).count name := by
          rw [List.count, List.countP_map, List.count, List.countP_map]
          rfl
  unfold occursOnce
  rw [hcount, decide_eq_true_eq]
  exact List.nodup_iff_count.1 hnodup name

/-- **A record is read as it was written**, if its fields are. -/
theorem record_reads {fields : Fields α} {entries : List (String × Value)} {a : α}
    (hnodup : fields.names.Nodup) (h : fields.Reads entries a) :
    (record fields).Reads (.obj entries) a := by
  intro x hx
  obtain ⟨ds, rfl, hds⟩ := Datum.table_of_means_obj hx
  have hkeys : ds.all (fun e => e.1.text?.isSome) = true := by
    rw [List.all_eq_true]
    intro e he
    have hmem : e.1.text? ∈ entries.map fun e => some e.1 := by
      rw [← keys_of_entriesMean hds]
      exact List.mem_map.2 ⟨e, he, rfl⟩
    obtain ⟨e', -, heq⟩ := List.mem_map.1 hmem
    rw [← heq]
    rfl
  have honce : fields.slots.all (fun s => occursOnce ds s.1) = true := by
    rw [List.all_eq_true]
    exact fun s _ => occursOnce_of_entriesMean hds (hnodup.sublist h.own) s.1
  show (if _ then _ else _) = some a
  rw [hkeys, honce]
  exact h.read hnodup _ fun name _ => finds_of_entriesMean hds name

/-! ## §6. What can be decoded at all. -/

/-- Whatever is decoded has a property. -/
def Gives (d : Decoder α) (P : α → Prop) : Prop := ∀ x a, d.decode x = some a → P a

/-- Whatever is read as a record has a property. -/
def Fields.Gives (fields : Fields α) (P : α → Prop) : Prop :=
  ∀ look a, fields.read look = some a → P a

/-- A record that is read has each of its fields read. -/
theorem Fields.read_seq {f : Fields (α → β)} {x : Fields α} {look : String → Option Datum} {b : β}
    (h : (f <*> x).read look = some b) :
    ∃ g a, f.read look = some g ∧ x.read look = some a ∧ g a = b := by
  obtain ⟨g, hg, h⟩ := Option.bind_eq_some_iff.1 h
  obtain ⟨a, ha, h⟩ := Option.bind_eq_some_iff.1 h
  exact ⟨g, a, hg, ha, Option.some.inj h⟩

/-- An entry of a map is read from a datum under its key. -/
theorem mem_of_mapM_entry {d : Decoder α} {ds : List (Datum × Datum)} {l : List (String × α)}
    {e : String × α} (h : ds.mapM (entry d) = some l) (he : e ∈ l) :
    ∃ x ∈ ds, x.1.text? = some e.1 ∧ d.decode x.2 = some e.2 := by
  induction ds generalizing l with
  | nil =>
      cases h
      cases he
  | cons x rest ih =>
      rw [List.mapM_cons] at h
      obtain ⟨a, ha, h⟩ := Option.bind_eq_some_iff.1 h
      obtain ⟨tail, htail, h⟩ := Option.bind_eq_some_iff.1 h
      obtain ⟨key, hkey, ha⟩ := Option.bind_eq_some_iff.1 ha
      obtain ⟨v, hv, ha⟩ := Option.bind_eq_some_iff.1 ha
      cases h
      cases ha
      rcases List.mem_cons.1 he with rfl | he
      · exact ⟨x, List.mem_cons_self, hkey, hv⟩
      · obtain ⟨y, hy, hread⟩ := ih htail he
        exact ⟨y, List.mem_cons_of_mem _ hy, hread⟩

theorem orElse_gives {P : α → Prop} {default : α} {d : Decoder α} (hdefault : P default)
    (h : d.Gives P) : (orElse default d).Gives P := by
  intro x a hx
  cases x with
  | scalar r =>
      simp only [orElse] at hx
      split at hx
      · cases hx
        exact hdefault
      · exact h _ a hx
      · cases hx
  | list _ _ _ => exact h _ a hx
  | table _ _ => exact h _ a hx

/-- Every value of a map that is decoded has what the decoder of values gives. -/
theorem mapOf_gives {P : α → Prop} {d : Decoder α} (h : d.Gives P) :
    (mapOf d).Gives fun m => ∀ k a, m.get? k = some a → P a := by
  intro x m hx k a ha
  cases x with
  | scalar r =>
      simp only [mapOf] at hx
      split at hx <;> cases hx
      cases ha
  | list _ _ _ => cases hx
  | table _ ds =>
      obtain ⟨l, hl, rfl⟩ := Option.map_eq_some_iff.1 hx
      obtain ⟨y, -, -, hy⟩ :=
        mem_of_mapM_entry hl (NameMap.mem_entries_ofList (NameMap.get?_eq_some_iff.1 ha))
      exact h _ _ hy

namespace Fields

theorem gives_field {P : α → Prop} {name : String} {d : Decoder α} {default : α}
    (h : d.Gives P) (hdefault : P default) : (field name d default).Gives P := by
  intro look a hread
  simp only [field] at hread
  split at hread
  · exact h _ a hread
  · cases hread
    exact hdefault

theorem gives_required {P : α → Prop} {name : String} {d : Decoder α} (h : d.Gives P) :
    (required name d).Gives P := by
  intro look a hread
  obtain ⟨x, -, hx⟩ := Option.bind_eq_some_iff.1 hread
  exact h x a hx

theorem Gives.seq {P : β → Prop} {Q : α → Prop} {f : Fields (α → β)} {x : Fields α}
    (hf : f.Gives fun g => ∀ a, Q a → P (g a)) (hx : x.Gives Q) : (f <*> x).Gives P := by
  intro look b h
  obtain ⟨g, a, hg, ha, rfl⟩ := read_seq h
  exact hf look g hg a (hx look a ha)

theorem Gives.map {P : β → Prop} {Q : α → Prop} {g : α → β} {x : Fields α} (hx : x.Gives Q)
    (hg : ∀ a, Q a → P (g a)) : (g <$> x).Gives P := by
  refine Gives.seq (fun look g' h => ?_) hx
  cases h
  exact hg

/-- A field that has no say in it. -/
theorem Gives.pass {P : β → Prop} {f : Fields (α → β)} {x : Fields α}
    (hf : f.Gives fun g => ∀ a, P (g a)) : (f <*> x).Gives P := by
  intro look b h
  obtain ⟨g, a, hg, -, rfl⟩ := read_seq h
  exact hf look g hg a

/-- The first field, if it has no say in it. -/
theorem Gives.start {P : β → Prop} {g : α → β} {x : Fields α} (hg : ∀ a, P (g a)) :
    (g <$> x).Gives P := by
  refine Gives.pass fun look g' h => ?_
  cases h
  exact hg

end Fields

/-- What the fields give is what a record gives, in whatever way it was written. -/
theorem record_gives {fields : Fields α} {P : α → Prop} (h : fields.Gives P) :
    (record fields).Gives P := by
  intro x a hx
  cases x with
  | scalar r =>
      simp only [record] at hx
      split at hx
      · exact h _ a hx
      · cases hx
  | list _ _ _ =>
      simp only [record] at hx
      split at hx
      · exact h _ a hx
      · cases hx
  | table _ _ =>
      simp only [record] at hx
      split at hx
      · exact h _ a hx
      · cases hx

end Decoder

end TenantSync
