/-
  TenantSync.Proofs.Tenant.Snapshot
  ─────────────────────────────────
  **WHAT A SNAPSHOT REMEMBERS.**

  A state that is read from the snapshot of another has its count of identifiers
  and its installation keys under their identifiers, and each key knows its own:

      s.toSnapshot  is read as  s'   →   s'.idCounter = s.idCounter
                                         s'.installationKeys.keys = s.installationKeys.keys
                                         KeysKnowIds s → KeysKnowIds s'

  The text is taken apart as `Rereads` says.  A decoder looks at a part of the
  data only, and what it looks at under a name is there after the rest has been
  dropped.
-/
import TenantSync.Proofs.Json.Reread
import TenantSync.Proofs.Decoder
import TenantSync.Tenant.State

namespace TenantSync

open Json

namespace Decoder

variable {α β : Type}

/-! ## §1. Records and maps. -/

/-- A table is read as a record through what stands under its names. -/
theorem read_of_record {fields : Fields α} {free : Bool} {ds : List (Datum × Datum)} {a : α}
    (h : (record fields).decode (.table free ds) = some a) :
    fields.read (valueUnder ds) = some a := by
  simp only [record] at h
  split at h
  · exact h
  · cases h

/-- The datum under a name is still there when a shape that looks at it has dropped
the others. -/
theorem valueUnder_select {shape s : Shape} {depth : Nat} {name : String}
    (hs : shape.under? (some name) = some s) {ds ds' : List (Datum × Datum)} {d : Datum}
    (h : selectEntries? shape depth ds = some ds') (hd : valueUnder ds name = some d) :
    ∃ d', d.select? s depth = some d' ∧ valueUnder ds' name = some d' := by
  induction ds generalizing ds' with
  | nil => cases hd
  | cons e rest ih =>
      obtain ⟨k, e⟩ := e
      rw [selectEntries?] at h
      by_cases hk : k.text? = some name
      · rw [hk, hs] at h
        obtain rfl : e = d := by simpa [valueUnder, hk] using hd
        obtain ⟨d', hd', h⟩ := Option.bind_eq_some_iff.1 h
        obtain ⟨tail, -, h⟩ := Option.bind_eq_some_iff.1 h
        cases h
        exact ⟨d', hd', by simp [valueUnder, hk]⟩
      · have hrest : valueUnder rest name = some d := by simpa [valueUnder, hk] using hd
        split at h
        · obtain ⟨e', -, h⟩ := Option.bind_eq_some_iff.1 h
          obtain ⟨tail, htail, h⟩ := Option.bind_eq_some_iff.1 h
          cases h
          obtain ⟨d', hd', hunder⟩ := ih htail hrest
          exact ⟨d', hd', by simpa [valueUnder, hk] using hunder⟩
        · exact ih h hrest

/-- The keys of a table whose every value is looked at all stay. -/
theorem keys_selectEntries? {s : Shape} {depth : Nat} {ds ds' : List (Datum × Datum)}
    (h : selectEntries? (.each s) depth ds = some ds') : ds'.map Prod.fst = ds.map Prod.fst := by
  induction ds generalizing ds' with
  | nil =>
      cases h
      rfl
  | cons e rest ih =>
      obtain ⟨k, e⟩ := e
      rw [selectEntries?] at h
      obtain ⟨e', -, h⟩ := Option.bind_eq_some_iff.1 h
      obtain ⟨tail, htail, h⟩ := Option.bind_eq_some_iff.1 h
      cases h
      rw [List.map_cons, List.map_cons, ih htail]

/-- The entries of a map are read under their keys. -/
theorem keys_mapM_entry {d : Decoder α} {ds : List (Datum × Datum)} {l : List (String × α)}
    (h : ds.mapM (entry d) = some l) :
    l.map (fun e => some e.1) = ds.map fun e => e.1.text? := by
  induction ds generalizing l with
  | nil =>
      cases h
      rfl
  | cons e rest ih =>
      rw [List.mapM_cons] at h
      obtain ⟨a, ha, h⟩ := Option.bind_eq_some_iff.1 h
      obtain ⟨tail, htail, h⟩ := Option.bind_eq_some_iff.1 h
      obtain ⟨key, hkey, ha⟩ := Option.bind_eq_some_iff.1 ha
      obtain ⟨v, -, ha⟩ := Option.bind_eq_some_iff.1 ha
      cases h
      cases ha
      simp [hkey, ih htail]

/-- What is there after a shape has looked at every value was there before. -/
theorem mem_of_selectEntries? {s : Shape} {depth : Nat} {ds ds' : List (Datum × Datum)}
    {e : Datum × Datum} (h : selectEntries? (.each s) depth ds = some ds') (he : e ∈ ds') :
    ∃ x ∈ ds, x.1 = e.1 ∧ x.2.select? s depth = some e.2 := by
  induction ds generalizing ds' with
  | nil =>
      cases h
      cases he
  | cons x rest ih =>
      obtain ⟨k, x⟩ := x
      rw [selectEntries?] at h
      obtain ⟨x', hx, h⟩ := Option.bind_eq_some_iff.1 h
      obtain ⟨tail, htail, h⟩ := Option.bind_eq_some_iff.1 h
      cases h
      rcases List.mem_cons.1 he with rfl | he
      · exact ⟨(k, x), List.mem_cons_self, rfl, hx⟩
      · obtain ⟨y, hy, hselect⟩ := ih htail he
        exact ⟨y, List.mem_cons_of_mem _ hy, hselect⟩

/-! ## §2. What was printed. -/

/-- The value under a name is read as the datum under that name. -/
theorem valueUnder_of_rereads {entries : List (String × Value)} {ds : List (Datum × Datum)}
    {name : String} {v : Value} (h : RereadsEntries entries ds)
    (hv : NameMap.lookupEntry name entries = some v) :
    ∃ d, valueUnder ds name = some d ∧ Rereads v d := by
  induction entries generalizing ds with
  | nil => cases hv
  | cons e rest ih =>
      obtain ⟨k, w⟩ := e
      obtain ⟨d, tail, rfl, hw, htail⟩ := h
      by_cases hk : name = k
      · obtain rfl : w = v := by simpa [NameMap.lookupEntry, hk] using hv
        exact ⟨d, by simp [valueUnder, Datum.text?, Reading.ofText, hk], hw⟩
      · obtain ⟨d', hd', hreads⟩ := ih htail (by simpa [NameMap.lookupEntry, hk] using hv)
        refine ⟨d', ?_, hreads⟩
        simpa [valueUnder, Datum.text?, Reading.ofText, Ne.symm hk] using hd'

theorem keys_of_rereads {entries : List (String × Value)} {ds : List (Datum × Datum)}
    (h : RereadsEntries entries ds) :
    ds.map (fun e => e.1.text?) = entries.map fun e => some e.1 := by
  induction entries generalizing ds with
  | nil =>
      obtain rfl : ds = [] := h
      rfl
  | cons e rest ih =>
      obtain ⟨d, tail, rfl, -, htail⟩ := h
      rw [List.map_cons, List.map_cons, ih htail]
      rfl

/-- A datum of an object was printed from an entry of it. -/
theorem mem_of_rereads {entries : List (String × Value)} {ds : List (Datum × Datum)}
    {x : Datum × Datum} (h : RereadsEntries entries ds) (hx : x ∈ ds) :
    ∃ e ∈ entries, x.1 = .scalar (.ofText e.1) ∧ Rereads e.2 x.2 := by
  induction entries generalizing ds with
  | nil =>
      obtain rfl : ds = [] := h
      cases hx
  | cons e rest ih =>
      obtain ⟨d, tail, rfl, hreads, htail⟩ := h
      rcases List.mem_cons.1 hx with rfl | hx
      · exact ⟨e, List.mem_cons_self, rfl, hreads⟩
      · obtain ⟨e', he', hread⟩ := ih htail hx
        exact ⟨e', List.mem_cons_of_mem _ he', hread⟩

/-- A text is decoded as itself. -/
theorem optionalText_of_rereads {s : String} {d d' : Datum} {r : Option String} {depth : Nat}
    (h : Rereads (.str s) d) (hd : d.select? (optional text).shape depth = some d')
    (hr : (optional text).decode d' = some r) : r = some s := by
  obtain rfl : d = .scalar (.ofText s) := by simpa [Rereads] using h
  rw [Datum.select?] at hd
  cases hd
  simpa [optional, orElse, text, Datum.text?, Reading.ofText] using hr.symm

/-- A natural number of 64 bits is decoded as itself. -/
theorem count64_of_rereads {n m : UInt64} {d d' : Datum} {depth : Nat}
    (h : Rereads (.ofUInt64 n) d) (hd : d.select? count64.shape depth = some d')
    (hm : count64.decode d' = some m) : m = n := by
  obtain rfl : d = .scalar (.ofNumber (.natural n)) := by simpa [Value.ofUInt64, Rereads] using h
  rw [Datum.select?] at hd
  cases hd
  have hfits : n.toNat < twoTo 64 := n.toNat_lt
  simpa [count64, Reading.ofNumber, hfits] using hm.symm

/-- A record is read through the data under its names, which were printed from there. -/
theorem record_of_rereads {fields : Fields α} {entries : List (String × Value)} {x x' : Datum}
    {depth : Nat} {a : α} (h : Rereads (.obj entries) x)
    (hx : x.select? (record fields).shape depth = some x')
    (ha : (record fields).decode x' = some a) :
    ∃ look : String → Option Datum, fields.read look = some a
      ∧ ∀ {name : String} {p : Shape} {v : Value}, fields.slots.lookup name = some p →
        NameMap.lookupEntry name entries = some v →
        ∃ d d' depth', Rereads v d ∧ d.select? p depth' = some d' ∧ look name = some d' := by
  obtain ⟨ds, rfl, hds⟩ : ∃ ds, x = .table true ds ∧ RereadsEntries entries ds := by
    simpa [Rereads] using h
  cases depth with
  | zero => simp [Datum.select?] at hx
  | succ depth =>
      rw [Datum.select?] at hx
      obtain ⟨ds', hds', rfl⟩ := Option.map_eq_some_iff.1 hx
      refine ⟨valueUnder ds', read_of_record ha, fun hp hv => ?_⟩
      obtain ⟨d, hd, hreads⟩ := valueUnder_of_rereads hds hv
      have hshape : (record fields).shape.under? (some _) = some _ := hp
      obtain ⟨d', hd', hunder⟩ := valueUnder_select hshape hds' hd
      exact ⟨d, d', depth, hreads, hd', hunder⟩

section Maps

variable {f : α → Value} {m : NameMap α} {d : Decoder β} {x x' : Datum} {depth : Nat}
  {n : NameMap β}

/-- A map is decoded entry by entry. -/
theorem mapM_entry_of_rereads (h : Rereads (.ofMap f m) x)
    (hx : x.select? (mapOf d).shape depth = some x') (hn : (mapOf d).decode x' = some n) :
    ∃ ds ds' l depth', RereadsEntries (m.entries.map fun e => (e.1, f e.2)) ds
      ∧ selectEntries? (.each d.shape) depth' ds = some ds'
      ∧ ds'.mapM (entry d) = some l ∧ n = .ofList l := by
  obtain ⟨ds, rfl, hds⟩ : ∃ ds, x = .table true ds
      ∧ RereadsEntries (m.entries.map fun e => (e.1, f e.2)) ds := by
    simpa [Value.ofMap, Rereads] using h
  cases depth with
  | zero => simp [Datum.select?] at hx
  | succ depth =>
      rw [Datum.select?] at hx
      obtain ⟨ds', hds', rfl⟩ := Option.map_eq_some_iff.1 hx
      obtain ⟨l, hl, rfl⟩ := Option.map_eq_some_iff.1 hn
      exact ⟨ds, ds', l, depth, hds, hds', hl, rfl⟩

/-- What is decoded under a key was printed from what is under the key. -/
theorem get?_mapOf_of_rereads (h : Rereads (.ofMap f m) x)
    (hx : x.select? (mapOf d).shape depth = some x') (hn : (mapOf d).decode x' = some n)
    {k : String} {b : β} (hb : n.get? k = some b) :
    ∃ a y y' depth', m.get? k = some a ∧ Rereads (f a) y
      ∧ y.select? d.shape depth' = some y' ∧ d.decode y' = some b := by
  obtain ⟨ds, ds', l, depth', hds, hds', hl, rfl⟩ := mapM_entry_of_rereads h hx hn
  obtain ⟨y', hy', hkey, hdecode⟩ :=
    mem_of_mapM_entry hl (NameMap.mem_entries_ofList (NameMap.get?_eq_some_iff.1 hb))
  obtain ⟨y, hy, hsame, hselect⟩ := mem_of_selectEntries? hds' hy'
  obtain ⟨e, he, htext, hreads⟩ := mem_of_rereads hds hy
  obtain ⟨⟨k', a⟩, ha, rfl⟩ := List.mem_map.1 he
  rw [← hsame, htext] at hkey
  cases Option.some.inj hkey
  exact ⟨a, y.2, y'.2, depth', NameMap.get?_eq_some_iff.2 ha, hreads, hselect, hdecode⟩

/-- A map is decoded as one with the same keys. -/
theorem keys_mapOf_of_rereads (h : Rereads (.ofMap f m) x)
    (hx : x.select? (mapOf d).shape depth = some x') (hn : (mapOf d).decode x' = some n) :
    n.keys = m.keys := by
  obtain ⟨ds, ds', l, depth', hds, hds', hl, rfl⟩ := mapM_entry_of_rereads h hx hn
  -- key by key from what was decoded over what was read to what was printed
  have hkeys : l.map (fun e => some e.1) = m.entries.map fun e => some e.1 := by
    have htexts := congrArg (List.map Datum.text?) (keys_selectEntries? hds')
    rw [List.map_map, List.map_map] at htexts
    rw [keys_mapM_entry hl]
    refine (show _ = _ from htexts).trans ((keys_of_rereads hds).trans ?_)
    rw [List.map_map]
    rfl
  have hnames : l.map Prod.fst = m.keys := by
    refine (List.map_inj_right fun _ _ => Option.some.inj).1 ?_
    rw [List.map_map, NameMap.keys, List.map_map]
    exact hkeys
  refine NameMap.keys_ext fun k => ?_
  rw [NameMap.mem_keys_ofList, hnames]

end Maps

/-- An element is decoded with the identifier that it was printed with. -/
theorem id_of_rereads {f : α → Value} {d : Decoder β} {r : Remote α} {r' : Remote β}
    {x x' : Datum} {depth : Nat} {id : String} (h : Rereads (r.encode f) x)
    (hx : x.select? (Remote.decoder d).shape depth = some x')
    (hr : (Remote.decoder d).decode x' = some r') (hid : r.info.id = some id) :
    r'.info.id = some id := by
  obtain ⟨look, hread, hunder⟩ := record_of_rereads h hx hr
  obtain ⟨y, y', depthy, hy, hselecty, hlooky⟩ :
      ∃ y y' depth', Rereads r.info.encode y ∧ y.select? Meta.decoder.shape depth' = some y'
        ∧ look "meta" = some y' := hunder rfl rfl
  obtain ⟨_, info, hbody, hinfo, rfl⟩ := Fields.read_seq hread
  obtain ⟨_, _, hmk, -, rfl⟩ := Fields.read_seq hbody
  cases hmk
  have hmeta : Meta.decoder.decode y' = some info := by simpa only [field, hlooky] using hinfo
  -- what the tenant knows by itself is a record in turn
  obtain ⟨look', hread', hunder'⟩ := record_of_rereads hy hselecty hmeta
  obtain ⟨z, z', depthz, hz, hselectz, hlookz⟩ :
      ∃ z z' depth', Rereads (.str id) z ∧ z.select? (optional text).shape depth' = some z'
        ∧ look' "id" = some z' := hunder' rfl (by simp [hid, NameMap.lookupEntry])
  obtain ⟨_, _, h₁, -, rfl⟩ := Fields.read_seq hread'
  obtain ⟨_, _, h₂, -, rfl⟩ := Fields.read_seq h₁
  obtain ⟨_, _, h₃, -, rfl⟩ := Fields.read_seq h₂
  obtain ⟨_, r, h₄, hfield, rfl⟩ := Fields.read_seq h₃
  cases h₄
  have hdecode : (optional text).decode z' = some r := by simpa only [field, hlookz] using hfield
  exact optionalText_of_rereads hz hselectz hdecode

end Decoder

namespace State

open Config Decoder

/-! ## §3. The two parts of a state. -/

/-- Every installation key knows the identifier it is held under. -/
def KeysKnowIds (s : State) : Prop :=
  ∀ id key, s.installationKeys.get? id = some key → key.info.id = some id

/-- A state that is read from a snapshot has the count of identifiers and the
installation keys of the one that was written. -/
theorem ofSnapshot?_toSnapshot {s s' : State} (h : ofSnapshot? s.toSnapshot = some s') :
    s'.idCounter = s.idCounter ∧ s'.installationKeys.keys = s.installationKeys.keys
      ∧ (KeysKnowIds s → KeysKnowIds s') := by
  obtain ⟨d, hd, hdecode⟩ := Option.bind_eq_some_iff.1 h
  obtain ⟨x, hx, hd⟩ := Option.bind_eq_some_iff.1 hd
  have hreads : Rereads s.encode x := by
    refine rereads_of_read? (show skipSpace ['\n'] = [] from rfl) ?_
    rwa [toSnapshot, String.toList_append] at hx
  obtain ⟨look, hread, hunder⟩ := record_of_rereads hreads hd hdecode
  obtain ⟨x, x', depthx, hx, hselectx, hlookx⟩ :
      ∃ x x' depth, Rereads (.ofUInt64 s.idCounter) x ∧ x.select? count64.shape depth = some x'
        ∧ look "id_counter" = some x' := hunder rfl rfl
  obtain ⟨y, y', depthy, hy, hselecty, hlooky⟩ :
      ∃ y y' depth, Rereads (.ofMap (Remote.encode InstallationKey.encode) s.installationKeys) y
        ∧ y.select? (mapOf (Remote.decoder InstallationKey.decoder)).shape depth = some y'
        ∧ look "installation_keys" = some y' := hunder rfl rfl
  -- the fields from the last on: the count, the settings, the keys, and the others
  obtain ⟨_, counter, h₁, hcounter, rfl⟩ := Fields.read_seq hread
  obtain ⟨_, _, h₂, -, rfl⟩ := Fields.read_seq h₁
  obtain ⟨_, keys, h₃, hkeys, rfl⟩ := Fields.read_seq h₂
  obtain ⟨_, _, h₄, -, rfl⟩ := Fields.read_seq h₃
  obtain ⟨_, _, h₅, -, rfl⟩ := Fields.read_seq h₄
  obtain ⟨_, _, h₆, -, rfl⟩ := Fields.read_seq h₅
  obtain ⟨_, _, h₇, -, rfl⟩ := Fields.read_seq h₆
  obtain ⟨_, _, h₈, -, rfl⟩ := Fields.read_seq h₇
  obtain ⟨_, _, h₉, -, rfl⟩ := Fields.read_seq h₈
  obtain ⟨_, _, h₁₀, -, rfl⟩ := Fields.read_seq h₉
  obtain ⟨_, _, h₁₁, -, rfl⟩ := Fields.read_seq h₁₀
  obtain ⟨_, _, h₁₂, -, rfl⟩ := Fields.read_seq h₁₁
  obtain ⟨_, _, h₁₃, -, rfl⟩ := Fields.read_seq h₁₂
  cases h₁₃
  have hcount : count64.decode x' = some counter := by
    simpa only [field, hlookx] using hcounter
  have hmap : (mapOf (Remote.decoder InstallationKey.decoder)).decode y' = some keys := by
    simpa only [elements, field, hlooky] using hkeys
  refine ⟨count64_of_rereads hx hselectx hcount, keys_mapOf_of_rereads hy hselecty hmap,
    fun hids id key hkey => ?_⟩
  obtain ⟨key', z, z', depthz, hkey', hz, hselectz, hdecodez⟩ :=
    get?_mapOf_of_rereads hy hselecty hmap hkey
  exact id_of_rereads hz hselectz hdecodez (hids id key' hkey')

end State

end TenantSync
