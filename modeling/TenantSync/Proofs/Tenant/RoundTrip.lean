/-
  TenantSync.Proofs.Tenant.RoundTrip
  ──────────────────────────────────
  **A SNAPSHOT IS READ AS THE STATE IT WAS WRITTEN FOR.**

  A snapshot writes every field of a state, the empty ones too, so that nothing
  is filled in from a new tenant when it is read: a state that lost its built-in
  namespaces does not get them back.  Of what a tenant knows about an element
  only what is there is written, and a point in time is written as a text.

      snapshot   state, elements, what is known about them
      text       numbers and points in time are read as what they were

  What a tenant is beside its state — its log and the faults attached to it — is
  not in a snapshot.  Every state that was read can be written and read again, as
  far as its outputs go.
-/
import TenantSync.Proofs.Config.RoundTrip
import TenantSync.Proofs.Json.Characters
import TenantSync.Tenant.Snapshot

namespace TenantSync

open Decoder Decoder.Fields Value Config

/-! ## §1. Elements. -/

/-- Whether a point in time is read from its text as itself. -/
def Timestamp.kept (t : Timestamp) : Bool := ofText? t.format = some t

theorem Timestamp.reads {t : Timestamp} (h : t.kept = true) : Timestamp.decoder.Reads t.encode t :=
  filterMap_reads (text_reads t.format) (of_decide_eq_true h)

/-- Half a second into the year 2024. -/
example : (⟨1704067200, 500000000⟩ : Timestamp).kept = true := by decide +kernel

namespace Meta

/-- The points in time that are known about an element. -/
def times (m : Meta) : List Timestamp := m.createdAt.toList ++ m.updatedAt.toList

theorem reads {m : Meta} (h : ∀ t ∈ m.times, t.kept = true) : Meta.decoder.Reads m.encode m := by
  have hcreated : ∀ t, m.createdAt = some t → Timestamp.decoder.Reads t.encode t :=
    fun t ht => Timestamp.reads (h t (by simp [times, ht]))
  have hupdated : ∀ t, m.updatedAt = some t → Timestamp.decoder.Reads t.encode t :=
    fun t ht => Timestamp.reads (h t (by simp [times, ht]))
  exact record_reads (by decide)
    (((((written_maybe (by simp) fun s _ => text_reads s).map _).seq
      (written_maybe (by simp) fun s _ => text_reads s)).seq
      (written_maybe (by simp [Timestamp.encode]) hcreated)).seq
      (written_maybe (by simp [Timestamp.encode]) hupdated))

end Meta

theorem Remote.reads {α : Type} {d : Decoder α} {f : α → Value} {r : Remote α}
    (hbody : d.Reads (f r.body) r.body) (hinfo : ∀ t ∈ r.info.times, t.kept = true) :
    (Remote.decoder d).Reads (r.encode f) r :=
  record_reads (show ["body", "meta"].Nodup by decide)
    (((written_required hbody).map _).seq (written (Meta.reads hinfo)))

namespace State

/-! ## §2. States. -/

/-- What is known about the elements of a section. -/
def infos {α : Type} (m : NameMap (Remote α)) : List Meta := m.values.map Remote.info

/-- What is known about all elements. -/
def allInfos (s : State) : List Meta :=
  s.rules.values.flatMap infos ++ infos s.falsePositives ++ infos s.outputs ++ infos s.integrity
    ++ infos s.exfilWatches ++ infos s.exfilEvents ++ infos s.artifacts ++ infos s.yaraSources
    ++ infos s.yaraRules ++ infos s.installationKeys

/-- Every point in time in a state is read from its text as itself. -/
def TimesKept (s : State) : Prop := ∀ info ∈ s.allInfos, ∀ t ∈ info.times, t.kept = true

/-- No output destination has a parameter that is called like a field of its own. -/
def PlainOutputs (s : State) : Prop := ∀ name r, s.outputs.get? name = some r → r.body.Plain

/-- A section of elements is read as it was written. -/
theorem elements_reads {α : Type} (name : String) {d : Decoder α} {f : α → Value}
    {m : NameMap (Remote α)} (hbodies : ∀ k r, m.get? k = some r → d.Reads (f r.body) r.body)
    (hinfos : ∀ info ∈ infos m, ∀ t ∈ info.times, t.kept = true) :
    (elements name d).Reads [(name, ofMap (Remote.encode f) m)] m := by
  refine written (mapOf_reads fun k r hr => Remote.reads (hbodies k r hr) (hinfos r.info ?_))
  exact List.mem_map_of_mem (NameMap.mem_values.2 ⟨k, hr⟩)

/-- A set of names is read as it was written. -/
theorem nameSet_reads (names : NameSet) : nameSetDecoder.Reads (Value.names names.keys) names :=
  filterMap_reads (names_reads names.keys) (congrArg some names.set_ofList_keys)

/-- **A state is decoded as it was encoded.** -/
theorem reads {s : State} (hplain : s.PlainOutputs) (htimes : s.TimesKept) :
    decoder.Reads s.encode s := by
  unfold TimesKept allInfos at htimes
  simp only [List.mem_append, or_imp, forall_and, List.mem_flatMap, forall_exists_index, and_imp]
    at htimes
  obtain ⟨⟨⟨⟨⟨⟨⟨⟨⟨hrules, hfps⟩, houtputs⟩, hintegrity⟩, hwatches⟩, hevents⟩, hartifacts⟩,
    hsources⟩, hyara⟩, hkeys⟩ := htimes
  have hresources : (field "resources" (mapOf nameSetDecoder) .empty).Reads
      [("resources", ofMap (fun names => Value.names names.keys) s.resources)] s.resources :=
    written (mapOf_reads fun _ names _ => nameSet_reads names)
  have hrules : (field "dr_rules" (mapOf (mapOf (Remote.decoder Rule.decoder)))
        ({} : State).rules).Reads
      [("dr_rules", ofMap (ofMap (Remote.encode Rule.encode)) s.rules)] s.rules := by
    refine written (mapOf_reads fun ns rules hns => mapOf_reads fun k r hr =>
      Remote.reads (Rule.reads r.body) (hrules r.info rules (NameMap.mem_values.2 ⟨ns, hns⟩) ?_))
    exact List.mem_map_of_mem (NameMap.mem_values.2 ⟨k, hr⟩)
  exact record_reads (by decide)
    (((((((((((((hresources.map _).seq hrules).seq
      (elements_reads _ (fun _ r _ => FalsePositive.reads r.body) hfps)).seq
      (elements_reads _ (fun name r hr => Output.reads (hplain name r hr)) houtputs)).seq
      (elements_reads _ (fun _ r _ => IntegrityRule.reads r.body) hintegrity)).seq
      (elements_reads _ (fun _ r _ => ExfilWatch.reads r.body) hwatches)).seq
      (elements_reads _ (fun _ r _ => ExfilEvent.reads r.body) hevents)).seq
      (elements_reads _ (fun _ r _ => ArtifactRule.reads r.body) hartifacts)).seq
      (elements_reads _ (fun _ r _ => YaraSource.reads r.body) hsources)).seq
      (elements_reads _ (fun _ r _ => YaraRule.reads r.body) hyara)).seq
      (elements_reads _ (fun _ r _ => InstallationKey.reads r.body) hkeys)).seq
      (written (mapOf_reads fun _ v _ => text_reads v))).seq
      (written (count64_reads s.idCounter)))

/-! ## §3. Snapshots. -/

/-- Whether JSON gives back the value that it was given to write for a state. -/
def textKept (s : State) : Bool :=
  (Json.datum? decoder.shape s.toSnapshot.toList).any (Datum.means s.encode)

/-- That can be told from the characters of the snapshot. -/
theorem textKept_eq (s : State) : s.textKept
    = (Json.datum? decoder.shape (Json.charsAt 0 s.encode ++ ['\n'])).any (Datum.means s.encode) := by
  unfold textKept toSnapshot
  rw [String.toList_append, Json.toList_pretty]
  rfl

/-- What has to be so for a snapshot to be read as the state it was written for. -/
structure Kept (s : State) : Prop where
  outputs : s.PlainOutputs
  times : s.TimesKept
  text : s.textKept = true

instance : DecidablePred PlainOutputs := fun s =>
  decidable_of_iff (∀ r ∈ s.outputs.values, r.body.Plain)
    ⟨fun h _ r hr => h r (NameMap.mem_values.2 ⟨_, hr⟩),
      fun h r hr => let ⟨name, hname⟩ := NameMap.mem_values.1 hr; h name r hname⟩

instance : DecidablePred Kept := fun s =>
  have : Decidable s.TimesKept :=
    inferInstanceAs (Decidable (∀ info ∈ s.allInfos, ∀ t ∈ info.times, t.kept = true))
  decidable_of_iff (s.PlainOutputs ∧ s.TimesKept
      ∧ (Json.datum? decoder.shape (Json.charsAt 0 s.encode ++ ['\n'])).any (Datum.means s.encode))
    ⟨fun ⟨houtputs, htimes, htext⟩ => ⟨houtputs, htimes, (textKept_eq s).trans htext⟩,
      fun h => ⟨h.outputs, h.times, (textKept_eq s).symm.trans h.text⟩⟩

/-- **A snapshot is read as the state it was written for.** -/
theorem ofSnapshot?_self {s : State} (h : s.Kept) : ofSnapshot? s.toSnapshot = some s := by
  obtain ⟨d, hd, hmeans⟩ := (Option.any_eq_true _ _).1 h.text
  unfold ofSnapshot?
  rw [hd]
  exact reads h.outputs h.times d hmeans

end State

/-- A tenant that is read from a file has the state that is decoded from it, an empty log
and no faults. -/
theorem Tenant.read_decoded {σ : Type} {files : Files (StateM σ)} {path : String}
    {bytes : ByteArray} {text : String} {s : State} (htext : String.fromUTF8? bytes = some text)
    (hstate : State.ofSnapshot? text = some s) {w w' : σ}
    (hread : execState (files.read path) w = (.ok bytes, w')) (now : Timestamp) :
    execState (Tenant.read files now path) w = (.ok { state := s, now }, w') := by
  unfold Tenant.read
  rw [execState_bind, hread]
  simp only [htext, hstate]
  rfl

/-- A tenant that was written to a file is read from it with the state that it had. -/
theorem Tenant.read_written {σ : Type} {files : Files (StateM σ)} {path : String} {t : Tenant}
    (h : t.state.Kept) {w w' : σ}
    (hread : execState (files.read path) w = (.ok t.state.toSnapshot.toUTF8, w'))
    (now : Timestamp) :
    execState (Tenant.read files now path) w = (.ok { state := t.state, now }, w') :=
  Tenant.read_decoded (fromUTF8?_toUTF8 _) (State.ofSnapshot?_self h) hread now

/-! ## §4. What was read. -/

/-- What is true of the bodies that are read is true of those of elements. -/
theorem Remote.gives_body {α : Type} {P : α → Prop} {d : Decoder α} (h : d.Gives P) :
    (Remote.decoder d).Gives fun r => P r.body :=
  record_gives (.pass ((gives_required h).map fun _ hbody _ => hbody))

/-- The sections before the outputs and those behind them have no say in it. -/
theorem State.gives_plain : State.decoder.Gives State.PlainOutputs := by
  have houtputs : (State.elements "outputs" Output.decoder).Gives
      fun m => ∀ name r, m.get? name = some r → r.body.Plain :=
    gives_field (mapOf_gives (Remote.gives_body Output.gives_plain)) fun _ _ h => nomatch h
  apply record_gives
  iterate 9 apply Gives.pass
  refine Gives.seq ?_ houtputs
  iterate 2 apply Gives.pass
  apply Gives.start
  intros
  assumption

/-- A state that was read has no output with a parameter that is called like a field of
its own. -/
theorem State.plainOutputs_of_ofSnapshot? {text : String} {s : State}
    (h : State.ofSnapshot? text = some s) : s.PlainOutputs := by
  obtain ⟨d, -, hd⟩ := Option.bind_eq_some_iff.1 h
  exact State.gives_plain d s hd

end TenantSync
