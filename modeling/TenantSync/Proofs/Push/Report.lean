/-
  TenantSync.Proofs.Push.Report
  ─────────────────────────────
  **THE REPORT IS TRUE, WHATEVER FAILS.**

  A push that reports operations, whether all went well or some failed, has made
  visits, and what it reports are the operations and failures of the visits.  For
  each pass that was visited, the account it gave when it was over is still true
  in the end: later passes leave its elements alone.  A pass that was not visited
  is not reported, and its elements are as they were.

  The name of a rule of one namespace can read like that of a rule of another
  one, so that an operation is about the element of its name within its visit.
-/
import TenantSync.Proofs.Push.Course

namespace TenantSync.Push

open Config Tenant

/-- **The report of a push is true.**  Of the elements of every pass that was
visited the visit tells what became of them between the beginning and the end of
the push; those of all other passes are unchanged. -/
theorem report_true (table : List String) (o : Options) (c : Config) {t t' : Tenant}
    {r : Except Error (List Operation)} {operations : List Operation} {failures : List Failure}
    (hresources : o.selected .resources = false)
    (hkeys : o.selected .installationKeys = false) (hdry : o.mode.dryRun = false)
    (hshown : t.faults.SettingsShown) (h : exec (pushWith table o c) t = (r, t'))
    (hreports : Reports r operations failures) :
    ∃ visits, Ran table o.mode c t visits t'
      ∧ operations = operationsOf visits
      ∧ (failures = visits.flatMap fun v => v.outcome.failures)
      ∧ (∀ v ∈ visits, ∀ p, v.stage = .pass p →
          Pass.Told c p v.outcome v.logged t.state t'.state)
      ∧ ∀ p : Pass, .pass p ∉ visits.map Visit.stage →
          ∀ name, p.held t'.state name = p.held t.state name := by
  obtain ⟨visits, rest, hran, hpushable, hschedule, hops, hfailures⟩ := visits_of_push h hreports
  have hnodup : (visits.map Visit.stage).Nodup := by
    have hall := schedule_nodup o c t.state
    rw [hschedule] at hall
    exact (List.nodup_append.1 hall).1
  refine ⟨visits, hran, hops, hfailures, ?_, ?_⟩
  · intro v hv p hp
    have hselected : o.selected (Stage.pass p).category = true := by
      refine selected_of_mem_schedule (c := c) (s := t.state) ?_
      rw [hschedule, ← hp]
      exact List.mem_append_left _ (List.mem_map_of_mem hv)
    -- the two categories without accounts are not selected
    have hbyName : p.ByName := by
      constructor
      · rintro rfl
        cases hresources.symm.trans hselected
      · rintro rfl
        cases hkeys.symm.trans hselected
    obtain ⟨t₁, t₂, hrun, hlog, hbefore, hafter, hweaker⟩ := hran.visit hnodup hv hp
    obtain ⟨logged, hlog', htold⟩ := Pass.told_of_run hbyName
      (covered_of_pushable hpushable hselected) hdry (hshown.weaker hweaker) hrun
    have hlogged : logged = v.logged := List.append_cancel_left (hlog'.symm.trans hlog)
    exact (hlogged ▸ htold).congr hbefore hafter
  · intro p hp name
    rw [(hran.confined.others p hp).held]

/-- A replacement that stops half way is reported as the loss it is. -/
theorem report_true_half_replaced :
    let o : Options := ⟨{ force := true, drift := .replace }, fun c => c == .falsePositives⟩
    let c : Config := { falsePositives := NameMap.empty.insert "a" ⟨.ofValue (.bool true)⟩ }
    let t : Tenant :=
      { state := { falsePositives := NameMap.empty.insert "a" ⟨{}, {}⟩ },
        faults := ({} : Faults).attach ⟨.create, .falsePositive⟩ ⟨.unavailable "down", none, 0⟩,
        now := ⟨0, 0⟩ }
    let final := exec (pushWith [] o c) t
    Reports final.1 [.replace .falsePositive "a"]
        [⟨.falsePositive, "a", .replace, .unavailable "down"⟩]
      ∧ ∃ visits, Ran [] o.mode c t visits final.2
          ∧ ∀ v ∈ visits, ∀ p, v.stage = .pass p →
              Pass.Told c p v.outcome v.logged t.state final.2.state := by
  intro o c t final
  have hreports : Reports final.1 [.replace .falsePositive "a"]
      [⟨.falsePositive, "a", .replace, .unavailable "down"⟩] := .inr rfl
  have hshown : t.faults.SettingsShown := by
    intro what hwhat
    cases hwhat
  obtain ⟨visits, hran, -, -, htold, -⟩ :=
    report_true [] o c rfl rfl rfl hshown rfl hreports
  exact ⟨hreports, visits, hran, htold⟩

end TenantSync.Push
