/-
  TenantSync.Proofs.Config.RoundTrip
  ──────────────────────────────────
  **A DOCUMENT IS READ AS IT WAS WRITTEN.**

  What is written and what is read are two lists of rules, one for each field of
  each record: what the field is called, when it is left out, what stands for it
  then.  The theorems of §2 to §4 hold them against each other, a field at a
  time and one theorem for each record.

      record            fields that are left out
      rule              name, namespace, the flag
      exfil watch       tags, platforms
      installation key  the flag
      document          everything that is empty

  The parameters of an output destination stand among its own fields, so that
  they must not be called like one of them.  Documents that were read have no
  such parameters, and nothing that is laid over has others than what it was
  laid out of: an effective configuration is read as it was written, and laid
  over nothing it stays the same.
-/
import TenantSync.Proofs.Decoder
import TenantSync.Proofs.Config.IncludeTree

namespace TenantSync.Config

open Decoder Decoder.Fields Value

/-! ## §1. Fields that many records have. -/

theorem names_written (name : String) (l : List String) :
    (names name).Reads [(name, Value.names l)] l :=
  written (orElse_reads (by simp [Value.names]) (names_reads l))

theorem names_unless (name : String) (l : List String) :
    (names name).Reads (fieldUnless l.isEmpty name (Value.names l)) l :=
  written_unless List.isEmpty_iff.1 (orElse_reads (by simp [Value.names]) (names_reads l))

theorem text_unless (name s : String) :
    (field name text "").Reads (fieldUnless s.isEmpty name (.str s)) s :=
  written_unless String.isEmpty_iff.1 (text_reads s)

/-- A section is left out when it is empty. -/
theorem section_unless {α : Type} (name : String) {d : Decoder α} {f : α → Value} {m : NameMap α}
    (h : ∀ k a, m.get? k = some a → d.Reads (f a) a) :
    (sectionOf name d).Reads (fieldUnless m.isEmpty name (ofMap f m)) m :=
  written_unless NameMap.eq_empty_of_isEmpty (orElse_reads (by simp [ofMap]) (mapOf_reads h))

/-! ## §2. Elements. -/

theorem Rule.reads (r : Rule) : Rule.decoder.Reads r.encode r := by
  -- its two payloads are written at once, and read one after the other
  have hentries : r.encode = .obj (fieldUnless r.name.isEmpty "name" (.str r.name)
      ++ fieldUnless r.ruleNamespace.isEmpty "namespace" (.str r.ruleNamespace)
      ++ [("detect", r.detect.value)] ++ [("respond", r.respond.value)]
      ++ (r.enabled?.map fun b => ("is_enabled", Value.bool b)).toList) := by
    simp [encode]
  rw [hentries]
  exact record_reads (by decide)
    ((((((text_unless _ r.name).map _).seq (text_unless _ r.ruleNamespace)).seq
      (written (payload_reads r.detect))).seq (written (payload_reads r.respond))).seq
      (written_maybe (by simp) fun b _ => flag_reads b))

theorem FalsePositive.reads (r : FalsePositive) : FalsePositive.decoder.Reads r.encode r :=
  record_reads (by decide) ((written (payload_reads r.data)).map _)

theorem IntegrityRule.reads (r : IntegrityRule) : IntegrityRule.decoder.Reads r.encode r :=
  record_reads (by decide)
    ((((names_written _ r.patterns).map _).seq (names_written _ r.tags)).seq
      (names_written _ r.platforms))

theorem ExfilWatch.reads (w : ExfilWatch) : ExfilWatch.decoder.Reads w.encode w :=
  record_reads (by decide)
    (((((((written (text_reads w.event)).map _).seq (written (text_reads w.operator))).seq
      (written (text_reads w.value))).seq (names_written _ w.path)).seq
      (names_unless _ w.tags)).seq (names_unless _ w.platforms))

theorem Filters.reads (f : Filters) : Filters.decoder.Reads f.encode f :=
  record_reads (by decide) (((names_written _ f.tags).map _).seq (names_written _ f.platforms))

theorem ExfilEvent.reads (e : ExfilEvent) : ExfilEvent.decoder.Reads e.encode e :=
  record_reads (by decide)
    (((names_written _ e.events).map _).seq
      (written (orElse_reads (by simp [Filters.encode]) (Filters.reads e.filters))))

theorem ArtifactRule.reads (r : ArtifactRule) : ArtifactRule.decoder.Reads r.encode r :=
  record_reads (by decide)
    (((((((written (flag_reads r.ignoreCert)).map _).seq (written (flag_reads r.deleteAfter))).seq
      (written (count32_reads r.daysRetention))).seq (names_written _ r.patterns)).seq
      (names_written _ r.tags)).seq (names_written _ r.platforms))

theorem YaraRule.reads (r : YaraRule) : YaraRule.decoder.Reads r.encode r :=
  record_reads (by decide)
    (((names_written _ r.sources).map _).seq
      (written (orElse_reads (by simp [Filters.encode]) (Filters.reads r.filters))))

theorem YaraSource.reads (s : YaraSource) : YaraSource.decoder.Reads s.encode s :=
  record_reads (by decide) ((written (text_reads s.source)).map _)

theorem InstallationKey.reads (k : InstallationKey) : InstallationKey.decoder.Reads k.encode k :=
  record_reads (by decide)
    ((((written (text_reads k.desc)).map _).seq (names_written _ k.tags)).seq
      (written_unless (by simp) (flag_reads k.usePublicRootCa)))

/-! ## §3. Output destinations. -/

/-- No parameter is called like a field of its own. -/
def Output.Plain (o : Output) : Prop := ∀ name ∈ ownFields, name ∉ o.params.keys

instance : DecidablePred Output.Plain := fun o =>
  inferInstanceAs (Decidable (∀ name ∈ Output.ownFields, name ∉ o.params.keys))

/-- A field of its own is no parameter. -/
theorem Output.paramsOf_own {e : Datum × Datum} {ds : List (Datum × Datum)} {name : String}
    (hname : e.1.text? = some name) (hown : name ∈ ownFields) :
    paramsOf (e :: ds) = paramsOf ds := by
  simp [paramsOf, List.filterMapM_cons, hname, hown]

/-- All that is not a field of its own is a parameter. -/
theorem Output.paramsOf_means {params : List (String × Payload)}
    (hplain : ∀ e ∈ params, e.1 ∉ ownFields) {ds : List (Datum × Datum)}
    (hds : Datum.entriesMean (params.map fun e => (e.1, e.2.value)) ds = true) :
    paramsOf ds = some (NameMap.ofList params) := by
  have hparams : ds.filterMapM (fun e => do
      let key ← e.1.text?
      if ownFields.contains key then return none
      return some (key, ← e.2.payload? true)) = some params := by
    induction params generalizing ds with
    | nil =>
        rw [Datum.eq_nil_of_entriesMean hds]
        rfl
    | cons e params ih =>
        obtain ⟨key, d, rest, rfl, hkey, -, hd, hrest⟩ := Datum.entriesMean_cons hds
        have hown : e.1 ∉ ownFields := hplain e List.mem_cons_self
        have htail := ih (fun e' he' => hplain e' (List.mem_cons_of_mem e he')) hrest
        rw [List.filterMapM_cons, htail]
        simp [hkey, hown, Datum.payload?_of_means true hd]
  unfold paramsOf
  rw [hparams]
  rfl

theorem Output.reads {o : Output} (h : o.Plain) : Output.decoder.Reads o.encode o := by
  intro x hx
  obtain ⟨ds, rfl, hds⟩ := Datum.table_of_means_obj hx
  -- the two fields of its own
  have hown : (Prod.mk <$> field "module" text "" <*> field "type" text "").Reads
      [("module", .str o.module), ("type", .str o.stream)] (o.module, o.stream) :=
    ((written (text_reads o.module)).map _).seq (written (text_reads o.stream))
  have hread := hown.read (by decide) (valueUnder ds) fun name hname => by
    have hfinds := finds_of_entriesMean hds name
    have hfirst : NameMap.lookupEntry name
        [("module", Value.str o.module), ("type", .str o.stream)] ≠ none :=
      fun hnone => NameMap.lookupEntry_eq_none_iff.1 hnone hname
    obtain ⟨v, hv⟩ := Option.ne_none_iff_exists'.1 hfirst
    unfold Finds at hfinds ⊢
    rw [NameMap.lookupEntry_append, hv, Option.some_or] at hfinds
    rwa [hv]
  have honce : ownFields.all (occursOnce ds) = true := by
    refine List.all_eq_true.2 fun name _ => occursOnce_of_entriesMean hds ?_ name
    have hparams : (o.params.entries.map fun e => (e.1, e.2.value)).map Prod.fst
        = o.params.keys := by
      rw [List.map_map]
      rfl
    rw [List.map_append, hparams]
    have hnodup : ownFields.Nodup := by decide
    refine List.nodup_append.2 ⟨hnodup, o.params.keys_nodup, ?_⟩
    intro name hname key hkey heq
    exact h name hname (heq ▸ hkey)
  -- what follows them are the parameters
  have hparams : paramsOf ds = some o.params := by
    obtain ⟨_, _, _, rfl, hmodule, -, -, hrest⟩ := Datum.entriesMean_cons hds
    obtain ⟨_, _, ps, rfl, hstream, -, -, hps⟩ := Datum.entriesMean_cons hrest
    rw [paramsOf_own hmodule (by decide), paramsOf_own hstream (by decide),
      paramsOf_means (fun e he => fun hmem => h e.1 hmem (List.mem_map_of_mem he)) hps,
      NameMap.ofList_entries]
  simp only [Output.decoder, honce, hread, hparams]
  rfl

/-! ## §4. Sections and documents. -/

/-- No output destination has a parameter that is called like a field of its own. -/
def PlainOutputs (c : Config) : Prop := ∀ name o, c.outputs.get? name = some o → o.Plain

instance : DecidablePred PlainOutputs := fun c =>
  decidable_of_iff (∀ o ∈ c.outputs.values, o.Plain)
    ⟨fun h _ o ho => h o (NameMap.mem_values.2 ⟨_, ho⟩),
      fun h o ho => let ⟨name, hname⟩ := NameMap.mem_values.1 ho; h name o hname⟩

theorem ExfilSection.eq_empty {s : ExfilSection} (h : s.isEmpty = true) : s = {} := by
  obtain ⟨hwatches, hevents⟩ := Bool.and_eq_true_iff.1 h
  obtain ⟨watches, events⟩ := s
  obtain rfl : watches = .empty := NameMap.eq_empty_of_isEmpty hwatches
  obtain rfl : events = .empty := NameMap.eq_empty_of_isEmpty hevents
  rfl

theorem YaraSection.eq_empty {s : YaraSection} (h : s.isEmpty = true) : s = {} := by
  obtain ⟨hrules, hsources⟩ := Bool.and_eq_true_iff.1 h
  obtain ⟨rules, sources⟩ := s
  obtain rfl : rules = .empty := NameMap.eq_empty_of_isEmpty hrules
  obtain rfl : sources = .empty := NameMap.eq_empty_of_isEmpty hsources
  rfl

theorem ExfilSection.reads (s : ExfilSection) : ExfilSection.decoder.Reads s.encode s :=
  record_reads (by decide)
    (((section_unless _ fun _ w _ => ExfilWatch.reads w).map _).seq
      (section_unless _ fun _ e _ => ExfilEvent.reads e))

theorem YaraSection.reads (s : YaraSection) : YaraSection.decoder.Reads s.encode s :=
  record_reads (by decide)
    (((section_unless _ fun _ r _ => YaraRule.reads r).map _).seq
      (section_unless _ fun _ s _ => YaraSource.reads s))

/-- **A document is decoded as it was encoded.** -/
theorem reads {c : Config} (h : c.PlainOutputs) : decoder.Reads c.encode c := by
  have hversion : (field "version" count32 0).Reads
      (fieldUnless (c.version == 0) "version" (ofUInt64 c.version.toUInt64)) c.version :=
    written_unless (fun hzero => eq_of_beq hzero) (count32_reads c.version)
  have hexfil : (field "exfil" (orElse {} ExfilSection.decoder) {}).Reads
      (fieldUnless c.exfil.isEmpty "exfil" c.exfil.encode) c.exfil :=
    written_unless ExfilSection.eq_empty
      (orElse_reads (by simp [ExfilSection.encode]) (ExfilSection.reads c.exfil))
  have hyara : (field "yara" (orElse {} YaraSection.decoder) {}).Reads
      (fieldUnless c.yara.isEmpty "yara" c.yara.encode) c.yara :=
    written_unless YaraSection.eq_empty
      (orElse_reads (by simp [YaraSection.encode]) (YaraSection.reads c.yara))
  exact record_reads (by decide)
    ((((((((((((hversion.map _).seq (names_unless _ c.includes)).seq
      (section_unless _ fun _ l _ => names_reads l)).seq
      (section_unless _ fun _ r _ => Rule.reads r)).seq
      (section_unless _ fun _ r _ => FalsePositive.reads r)).seq
      (section_unless _ fun name _ ho => Output.reads (h name _ ho))).seq
      (section_unless _ fun _ r _ => IntegrityRule.reads r)).seq hexfil).seq
      (section_unless _ fun _ r _ => ArtifactRule.reads r)).seq hyara).seq
      (section_unless _ fun _ k _ => InstallationKey.reads k)).seq
      (section_unless _ fun _ s _ => text_reads s))

/-! ## §5. Documents that were read. -/

/-- What is kept of a list comes from an item of it. -/
theorem exists_of_mem_filterMapM {α β : Type} {f : α → Option (Option β)} {l : List α}
    {l' : List β} (h : l.filterMapM f = some l') {b : β} (hb : b ∈ l') :
    ∃ a ∈ l, f a = some (some b) := by
  induction l generalizing l' with
  | nil =>
      cases h
      cases hb
  | cons a l ih =>
      rw [List.filterMapM_cons] at h
      obtain ⟨kept, hkept, h⟩ := Option.bind_eq_some_iff.1 h
      have hrest {rest : List β} (hl : l.filterMapM f = some rest) (hmem : b ∈ rest) :
          ∃ a' ∈ a :: l, f a' = some (some b) := by
        obtain ⟨a', ha', hf⟩ := ih hl hmem
        exact ⟨a', List.mem_cons_of_mem a ha', hf⟩
      cases kept with
      | none => exact hrest h hb
      | some b' =>
          obtain ⟨rest, hl, h⟩ := Option.bind_eq_some_iff.1 h
          cases h
          rcases List.mem_cons.1 hb with rfl | hmem
          · exact ⟨a, List.mem_cons_self, hkept⟩
          · exact hrest hl hmem

/-- A destination that was read has no parameter that is called like a field of its own. -/
theorem Output.gives_plain : Output.decoder.Gives Plain := by
  intro x o h
  cases x with
  | scalar r =>
      simp only [Output.decoder] at h
      split at h
      · cases h
        exact fun _ _ hmem => nomatch hmem
      · cases h
  | list _ _ _ => cases h
  | table free ds =>
      simp only [Output.decoder] at h
      split at h
      · cases h
      · obtain ⟨own, -, h⟩ := Option.bind_eq_some_iff.1 h
        obtain ⟨params, hparams, h⟩ := Option.bind_eq_some_iff.1 h
        cases h
        obtain ⟨l, hl, h⟩ := Option.bind_eq_some_iff.1 hparams
        cases h
        intro name hown hmem
        obtain ⟨e, he, rfl⟩ := List.mem_map.1 (NameMap.mem_keys_ofList.1 hmem)
        obtain ⟨x, -, hx⟩ := exists_of_mem_filterMapM hl he
        obtain ⟨key, -, hx⟩ := Option.bind_eq_some_iff.1 hx
        by_cases hkey : key ∈ ownFields
        · simp [hkey] at hx
        · simp only [List.contains_eq_mem, hkey, decide_false, Bool.false_eq_true, if_false] at hx
          obtain ⟨p, -, hx⟩ := Option.bind_eq_some_iff.1 hx
          cases hx
          exact hkey hown

/-- The sections before the outputs and those behind them have no say in it. -/
theorem gives_plain : decoder.Gives PlainOutputs := by
  have houtputs : (sectionOf "outputs" Output.decoder).Gives
      fun m => ∀ name o, m.get? name = some o → o.Plain :=
    gives_field (orElse_gives (fun _ _ h => nomatch h) (mapOf_gives Output.gives_plain))
      fun _ _ h => nomatch h
  apply record_gives
  iterate 6 apply Gives.pass
  refine Gives.seq ?_ houtputs
  iterate 4 apply Gives.pass
  apply Gives.start
  intros
  assumption

/-! ## §6. Configurations that were resolved. -/

section Loading

variable {σ : Type} {loader : Loader (StateM σ)}

theorem plainOutputs_of_bytes {bytes : ByteArray} {c : Config} (h : ofBytes? bytes = some c) :
    c.PlainOutputs := by
  obtain ⟨text, -, h⟩ := Option.bind_eq_some_iff.1 h
  obtain ⟨d, -, h⟩ := Option.bind_eq_some_iff.1 h
  exact gives_plain d c h

mutual

/-- Every document of a tree that was loaded was read. -/
theorem Loaded.plainOutputs {s s' : σ} {parent reference : String} {tree : IncludeTree}
    (h : Loaded loader s parent reference tree s') : ∀ d ∈ tree.postOrder, d.PlainOutputs := by
  cases h with
  | node hload hdocument hincluded =>
      intro d hd
      rcases List.mem_append.1 hd with hd | hd
      · exact LoadedAll.plainOutputs hincluded d hd
      · rw [List.mem_singleton.1 hd]
        exact plainOutputs_of_bytes hdocument

theorem LoadedAll.plainOutputs {s s' : σ} {parent : String} {references : List String}
    {trees : List IncludeTree} (h : LoadedAll loader s parent references trees s') :
    ∀ d ∈ IncludeTree.postOrderAll trees, d.PlainOutputs := by
  cases h with
  | nil => exact fun d hd => nomatch hd
  | cons htree htrees =>
      intro d hd
      rcases List.mem_append.1 hd with hd | hd
      · exact Loaded.plainOutputs htree d hd
      · exact LoadedAll.plainOutputs htrees d hd

end

/-- What lies in a stack is plain if every document of it is. -/
theorem plainOutputs_overlayAll {documents : List Config} (h : ∀ d ∈ documents, d.PlainOutputs) :
    (overlayAll documents).PlainOutputs := by
  intro name o ho
  have hlast := (Keyed.get?_overlayAll documents .outputs name).symm.trans ho
  obtain ⟨d, hd, hfound⟩ := List.mem_filterMap.1 (List.mem_of_getLast? hlast)
  exact h d hd name o hfound

/-- A configuration that was resolved is plain and tidy. -/
theorem resolve_plain_tidy {depth : Nat} {opened : List String} {parent reference : String}
    {s s' : σ} {e : Effective}
    (h : exec (resolve loader depth opened parent reference) s = (.ok e, s')) :
    e.config.PlainOutputs ∧ e.config.Tidy := by
  obtain ⟨tree, hloaded, hconfig, -⟩ := resolve_ok depth h
  rw [hconfig]
  exact ⟨plainOutputs_overlayAll hloaded.plainOutputs, tidy_overlayAll tree.postOrder⟩

/-- A tidy document by itself is the configuration that it is resolved to. -/
theorem resolve_tidy {c : Config} (hc : c.Tidy) {bytes : ByteArray}
    (hbytes : ofBytes? bytes = some c) (depth : Nat) {root : String} {s s' : σ}
    (hload : execState (loader "" root) s = (.ok bytes, s')) :
    exec (resolve loader (depth + 1) [] "" root) s
      = (.ok ⟨c, [⟨Path.includeId "" root, Digest.hexOf bytes⟩]⟩, s') := by
  have hfetch : exec (fetch loader "" root (Path.includeId "" root)) s = (.ok (bytes, c), s') := by
    unfold fetch
    rw [exec_bind, exec_lift, hload]
    simp only [hbytes]
    rfl
  rw [resolve_succ, if_neg (by simp), exec_bind, hfetch]
  simp only [hc.includes, resolveAll, List.foldlM_nil, pure_bind]
  rw [(tidy_iff c).1 hc]
  rfl

end Loading

/-! ## §7. Through text and back. -/

/-- Whether YAML gives back the value that it was given to write for a document. -/
def textKept (c : Config) : Bool :=
  (Yaml.datum? decoder.shape c.toYaml.toList).any (Datum.means c.encode)

/-- A document is read from its text as it was written. -/
theorem ofYaml?_toYaml {c : Config} (h : c.PlainOutputs) (htext : c.textKept = true) :
    ofYaml? c.toYaml = some c := by
  obtain ⟨d, hd, hmeans⟩ := (Option.any_eq_true _ _).1 htext
  unfold ofYaml?
  rw [hd]
  exact reads h d hmeans

/-- A text is read from its bytes. -/
theorem fromUTF8?_toUTF8 (text : String) : String.fromUTF8? text.toUTF8 = some text :=
  dif_pos text.isValidUTF8

theorem ofBytes?_toUTF8 (text : String) : ofBytes? text.toUTF8 = ofYaml? text := by
  unfold ofBytes?
  rw [fromUTF8?_toUTF8]
  rfl

/-- **Documents survive being written and read.**  Where the text layer gives back what
it was given, a document without a parameter that is called like an output's own field is
read as it was written, and written in the same words again; every document that was
decoded is one of those.  A configuration that was resolved is one too; by itself, as
the only document there is, it is resolved to the same configuration. -/
theorem document_roundTrip :
    (∀ c : Config, c.PlainOutputs → c.textKept = true →
      ofYaml? c.toYaml = some c ∧ (ofYaml? c.toYaml).map toYaml = some c.toYaml)
    ∧ (∀ d c, decoder.decode d = some c → c.PlainOutputs)
    ∧ ∀ {σ τ : Type} (loader : Loader (StateM σ)) (depth : Nat) (root : String) (s s' : σ)
        (e : Effective), exec (resolve loader depth [] "" root) s = (.ok e, s') →
      e.config.PlainOutputs
      ∧ (e.config.textKept = true →
        ∀ (single : Loader (StateM τ)) (depth : Nat) (root : String) (t t' : τ),
          execState (single "" root) t = (.ok e.config.toYaml.toUTF8, t') →
          exec (resolve single (depth + 1) [] "" root) t
            = (.ok ⟨e.config, [⟨Path.includeId "" root,
                Digest.hexOf e.config.toYaml.toUTF8⟩]⟩, t')) := by
  refine ⟨?_, gives_plain, ?_⟩
  · intro c hplain htext
    have hread := ofYaml?_toYaml hplain htext
    exact ⟨hread, congrArg (Option.map toYaml) hread⟩
  · intro σ τ loader depth root s s' e h
    obtain ⟨hplain, htidy⟩ := resolve_plain_tidy h
    refine ⟨hplain, fun htext single depth root t t' hload => ?_⟩
    have hbytes : ofBytes? e.config.toYaml.toUTF8 = some e.config := by
      rw [ofBytes?_toUTF8]
      exact ofYaml?_toYaml hplain htext
    exact resolve_tidy htidy hbytes depth hload

/-- A document with a flag, a payload and a text that looks like a number; and a
configuration of two documents. -/
theorem document_roundTrip_two :
    let c : Config :=
      { includes := ["base"]
        rules := .ofList [("r", { detect := .ofValue (.obj [("n", .num (.natural 12))]),
                                  enabled? := some false })]
        outputs := .ofList [("o", { module := "syslog", stream := "event",
                                    params := .ofList [("port", .ofValue (.str "514"))] })]
        version := 3 }
    let loader : Loader (StateM Nat) := fun _ reference => do
      modify (· + 1)
      return .ok (match reference with
        | "root" => "include: [a]\noutputs: {o: {module: s3, type: event, bucket: b}}".toUTF8
        | _ => "resources: {api: [vt, vt]}\norg-value: {otx: shared}".toUTF8)
    ofYaml? c.toYaml = some c
      ∧ ∃ e, exec (resolve loader 2 [] "" "root") 0 = (.ok e, 2) ∧ e.config.PlainOutputs
        ∧ e.config.resources.get? "api" = some ["vt"]
        ∧ let single : Loader (StateM Nat) := fun _ _ n => (.ok e.config.toYaml.toUTF8, n + 1)
          (exec (resolve single 1 [] "" "only") 0).1.toOption.map Effective.config
            = some e.config := by
  intro c loader
  have hplain : c.PlainOutputs := by decide +kernel
  have htext : c.textKept = true := by decide +kernel
  have hsome : (match exec (resolve loader 2 [] "" "root") 0 with
      | (.ok e, n) => n == 2 && e.config.resources.get? "api" == some ["vt"]
          && e.config.textKept
      | (.error _, _) => false) = true := by
    decide +kernel
  rcases hresolve : exec (resolve loader 2 [] "" "root") 0 with ⟨_ | e, n⟩
  · rw [hresolve] at hsome
    cases hsome
  rw [hresolve] at hsome
  simp only [Bool.and_eq_true, beq_iff_eq] at hsome
  obtain ⟨⟨rfl, hresources⟩, hkept⟩ := hsome
  obtain ⟨hplain', hagain⟩ := document_roundTrip.2.2 loader 2 "root" 0 2 e hresolve
  refine ⟨(document_roundTrip.1 c hplain htext).1, e, rfl, hplain', hresources, ?_⟩
  intro single
  rw [hagain hkept single 0 "only" 0 1 rfl]
  rfl

end TenantSync.Config
