/-
  TenantSync.Proofs.Tenant.FaultHistory
  ─────────────────────────────────────
  **A CALL FAILS BY ITS OWN HISTORY.**

  Faults are attached to calls, taken away, all cleared, and counted against by the
  calls themselves, in any order.  The fault of one call goes through all this by itself:
  what an event makes of it is a function of the event and of nothing but that fault
  (`get?_run`), and is nothing where the event is about another call.

  So the fault of a call is the one that was attached to it last, unless it was taken
  away since, and its counter holds the number of calls since, as far as 32 bits go
  (`InForce.get?_after`, `exists_inForce`).  The next call is one more: it fails as long as
  with it there are no more calls than the limit (`check_follows_history`).
-/
import Mathlib.Data.List.Induction
import TenantSync.Number.Power
import TenantSync.Proofs.Tenant.Faults

namespace TenantSync.Faults

/-! ## §1. Events. -/

/-- What is done to faults. -/
inductive Event where
  /-- A fault is attached to a call, of which none has been counted yet. -/
  | attach (site : CallSite) (error : TenantError) (limit : Option UInt32)
  /-- All faults are taken away. -/
  | clear
  /-- The fault of a call is taken away. -/
  | detach (site : CallSite)
  /-- A call is made. -/
  | check (site : CallSite)
  deriving DecidableEq, Repr

namespace Event

/-- The faults after an event. -/
def run (f : Faults) : Event → Faults
  | .attach site error limit => f.attach site { error, limit }
  | .clear => f.clear
  | .detach site => f.detach site
  | .check site => (f.check site).2

/-- Whether an event is about a call; the clearing of all faults is about every call. -/
def concerns (site : CallSite) : Event → Bool
  | .attach other _ _ => site == other
  | .clear => true
  | .detach other => site == other
  | .check other => site == other

/-- Whether an event puts an end to the fault that a call has, be it that it gets another. -/
def ends (site : CallSite) : Event → Bool
  | .attach other _ _ => site == other
  | .clear => true
  | .detach other => site == other
  | .check _ => false

/-- What an event makes of the fault of a call. -/
def act (site : CallSite) (fault : Option Fault) : Event → Option Fault
  | .attach other error limit => if site = other then some { error, limit } else fault
  | .clear => none
  | .detach other => if site = other then none else fault
  | .check other => if site = other then fault.map Fault.counted else fault

/-- **The fault of a call goes through an event by itself.** -/
theorem get?_run (f : Faults) (e : Event) (site : CallSite) :
    (e.run f).get? site = e.act site (f.get? site) := by
  cases e with
  | attach other error limit => exact get?_attach f other site _
  | clear => rfl
  | detach other =>
      by_cases h : site = other
      · subst h
        simp only [act, if_true]
        exact get?_detach_self f site
      · simp only [act, if_neg h]
        exact get?_detach f h
  | check other =>
      show (f.check other).2.get? site = _
      rw [get?_check]
      by_cases h : site = other
      · subst h
        rfl
      · simp only [act, if_neg h]

/-- What is about another call makes nothing of it. -/
theorem act_of_not_concerns {e : Event} {site : CallSite} (h : e.concerns site = false)
    (fault : Option Fault) : e.act site fault = fault := by
  cases e with
  | clear => cases h
  | attach other => exact if_neg (beq_eq_false_iff_ne.1 h)
  | detach other => exact if_neg (beq_eq_false_iff_ne.1 h)
  | check other => exact if_neg (beq_eq_false_iff_ne.1 h)

/-- An event that does not end the fault of a call is that call, which is counted, or is
about another call. -/
theorem act_of_not_ends {e : Event} {site : CallSite} (h : e.ends site = false)
    (fault : Option Fault) :
    e.act site fault = if e = .check site then fault.map Fault.counted else fault := by
  by_cases hcheck : e = .check site
  · subst hcheck
    simp [act]
  · have hother : e.concerns site = false := by
      cases e with
      | clear => cases h
      | attach other => exact h
      | detach other => exact h
      | check other => exact beq_eq_false_iff_ne.2 fun hs => hcheck (hs ▸ rfl)
    rw [act_of_not_concerns hother]
    simp [hcheck]

end Event

/-! ## §2. Histories. -/

/-- The faults after events, the first one first; before them there are none. -/
def after (history : List Event) : Faults := history.foldl Event.run {}

/-- **The fault of a call goes through a history by itself.** -/
theorem get?_after (history : List Event) (site : CallSite) :
    (after history).get? site = history.foldl (Event.act site) none := by
  suffices h : ∀ f : Faults, (history.foldl Event.run f).get? site
      = history.foldl (Event.act site) (f.get? site) from h {}
  induction history with
  | nil => exact fun _ => rfl
  | cons e history ih =>
      intro f
      rw [List.foldl_cons, List.foldl_cons, ih, Event.get?_run]

theorem get?_after_concat (history : List Event) (e : Event) (site : CallSite) :
    (after (history ++ [e])).get? site = e.act site ((after history).get? site) := by
  rw [get?_after, get?_after, List.foldl_append]
  rfl

/-- What is about other calls can be left out. -/
theorem get?_after_filter (history : List Event) (site : CallSite) :
    (after (history.filter (Event.concerns site))).get? site = (after history).get? site := by
  rw [get?_after, get?_after, List.foldl_filter]
  congr 1
  funext fault e
  cases h : e.concerns site with
  | true => rfl
  | false => exact (Event.act_of_not_concerns h fault).symm

/-- A fault is in force: it was attached to a call, and since then nothing has put an end
to it, neither its being taken away nor another one in its place. -/
structure InForce (history : List Event) (site : CallSite) (error : TenantError)
    (limit : Option UInt32) (since : List Event) : Prop where
  attached : ∃ before, history = before ++ .attach site error limit :: since
  lasts : ∀ e ∈ since, e.ends site = false

section InForce

variable {history since : List Event} {site : CallSite} {error : TenantError} {limit : Option UInt32}

theorem InForce.concat (h : InForce history site error limit since) {e : Event}
    (he : e.ends site = false) : InForce (history ++ [e]) site error limit (since ++ [e]) := by
  obtain ⟨before, hhistory⟩ := h.attached
  refine ⟨⟨before, by rw [hhistory, List.append_assoc, List.cons_append]⟩, ?_⟩
  intro e' he'
  rcases List.mem_append.1 he' with he' | he'
  · exact h.lasts e' he'
  · rw [List.mem_singleton.1 he']
    exact he

/-- A counter after some calls. -/
def counter (calls : Nat) : UInt32 := .ofNat (min calls 4294967295)

theorem toNat_counter (calls : Nat) : (counter calls).toNat = min calls 4294967295 := by
  unfold counter
  rw [UInt32.toNat_ofNat']
  omega

/-- One more call is counted. -/
theorem counted_counter (error : TenantError) (limit : Option UInt32) (calls : Nat) :
    Fault.counted ⟨error, limit, counter calls⟩ = ⟨error, limit, counter (calls + 1)⟩ := by
  have hcalls : (Fault.counted ⟨error, limit, counter calls⟩).calls = counter (calls + 1) := by
    rw [← UInt32.toNat_inj, Fault.toNat_calls_counted, toNat_counter, toNat_counter]
    omega
  rw [← hcalls, Fault.mk.injEq]
  exact ⟨Fault.counted_error _, Fault.counted_limit _, rfl⟩

/-- A fault that has not come to an end counts the calls it is attached to. -/
theorem foldl_act_of_lasts (calls : Nat) (h : ∀ e ∈ since, e.ends site = false) :
    since.foldl (Event.act site) (some ⟨error, limit, counter calls⟩)
      = some ⟨error, limit, counter (calls + since.count (.check site))⟩ := by
  induction since generalizing calls with
  | nil => rfl
  | cons e since ih =>
      obtain ⟨he, hsince⟩ := List.forall_mem_cons.1 h
      rw [List.foldl_cons, Event.act_of_not_ends he, List.count_cons]
      by_cases hcheck : e = .check site
      · rw [if_pos hcheck, Option.map_some, counted_counter, ih _ hsince, if_pos (beq_iff_eq.2 hcheck),
          Nat.add_assoc, Nat.add_comm 1]
      · rw [if_neg hcheck, ih _ hsince, if_neg (mt beq_iff_eq.1 hcheck), Nat.add_zero]

/-- **What is in force is attached**, and its counter holds the number of calls since. -/
theorem InForce.get?_after (h : InForce history site error limit since) :
    (after history).get? site = some ⟨error, limit, counter (since.count (.check site))⟩ := by
  obtain ⟨before, rfl⟩ := h.attached
  rw [Faults.get?_after, List.foldl_append, List.foldl_cons]
  have hattach : (Event.attach site error limit).act site (before.foldl (Event.act site) none)
      = some ⟨error, limit, counter 0⟩ := if_pos rfl
  rw [hattach, foldl_act_of_lasts 0 h.lasts, Nat.zero_add]

/-- **What is attached is in force.** -/
theorem exists_inForce {fault : Fault} (h : (after history).get? site = some fault) :
    ∃ since, InForce history site fault.error fault.limit since := by
  -- on the events from the last one, as it may put an end to all that was before
  induction history using List.reverseRecOn generalizing fault with
  | nil => cases h
  | append_singleton history e ih =>
      rw [get?_after_concat] at h
      cases hends : e.ends site with
      | false =>
          rw [Event.act_of_not_ends hends] at h
          split at h
          · obtain ⟨old, hold, rfl⟩ := Option.map_eq_some_iff.1 h
            obtain ⟨since, hsince⟩ := ih hold
            rw [Fault.counted_error, Fault.counted_limit]
            exact ⟨since ++ [e], hsince.concat hends⟩
          · obtain ⟨since, hsince⟩ := ih h
            exact ⟨since ++ [e], hsince.concat hends⟩
      | true =>
          cases e with
          | clear => cases h
          | check other => cases hends
          | attach other error limit =>
              have hs : site = other := beq_iff_eq.1 hends
              subst hs
              rw [Event.act, if_pos rfl] at h
              cases h
              exact ⟨[], ⟨history, rfl⟩, fun _ he => nomatch he⟩
          | detach other =>
              rw [Event.act, if_pos (beq_iff_eq.1 hends)] at h
              cases h

/-- After some calls a fault lasts for the next one if with it there are no more than the
limit: up to there the counter is exact. -/
theorem lasts_counter_iff (calls : Nat) :
    (Fault.mk error limit (counter calls)).lasts = true ↔ ∀ n ∈ limit, calls + 1 ≤ n.toNat := by
  rw [Fault.lasts_iff]
  refine forall₂_congr fun n _ => ?_
  have hlt := n.toNat_lt
  rw [toNat_counter]
  omega

/-- What is in force is what the next call is answered with, as long as it lasts. -/
theorem InForce.answer_iff (h : InForce history site error limit since) {e : TenantError} :
    (after history).answer site = some e
      ↔ (∀ n ∈ limit, since.count (.check site) + 1 ≤ n.toNat) ∧ error = e := by
  rw [answer_eq, h.get?_after, Option.bind_some, Option.ite_none_right_eq_some, lasts_counter_iff,
    Option.some.injEq]

end InForce

/-! ## §3. The next call. -/

/-- What a call is answered with is a matter of its own fault. -/
theorem answer_congr {f f' : Faults} {site : CallSite} (h : f.get? site = f'.get? site) :
    f.answer site = f'.answer site := by
  rw [answer_eq, answer_eq, h]

/-- **A call fails by its own history.**  After any events it fails if a fault was attached
to it and has not been taken away since, and if with this call there were no more calls
since then than the limit of the last such fault, where it has one; it fails with the error
of that fault.  The counter that is kept with the fault has 32 bits, and is the number of
these calls as long as there are fewer than `2^32`.  Events that are about other calls make
no difference. -/
theorem check_follows_history (history : List Event) (site : CallSite) :
    (∀ error, ((after history).check site).1 = some error ↔
        ∃ limit since, InForce history site error limit since
          ∧ ∀ n ∈ limit, since.count (.check site) + 1 ≤ n.toNat)
      ∧ (∀ error limit since, InForce history site error limit since →
          since.count (.check site) + 1 < twoTo 32 →
            ∃ calls, ((after history).check site).2.get? site = some ⟨error, limit, calls⟩
              ∧ calls.toNat = since.count (.check site) + 1)
      ∧ ∀ history' : List Event,
          history'.filter (Event.concerns site) = history.filter (Event.concerns site) →
            ((after history').check site).1 = ((after history).check site).1 := by
  refine ⟨fun error => ⟨?_, ?_⟩, ?_, ?_⟩
  · intro h
    have hanswer : (after history).answer site = some error := h
    cases hfault : (after history).get? site with
    | none =>
        rw [answer_eq, hfault] at hanswer
        cases hanswer
    | some fault =>
        obtain ⟨since, hsince⟩ := exists_inForce hfault
        obtain ⟨hlimit, rfl⟩ := hsince.answer_iff.1 hanswer
        exact ⟨fault.limit, since, hsince, hlimit⟩
  · rintro ⟨limit, since, hsince, hlimit⟩
    exact hsince.answer_iff.2 ⟨hlimit, rfl⟩
  · intro error limit since hsince hfew
    refine ⟨counter (since.count (.check site) + 1), ?_, ?_⟩
    · rw [get?_check, if_pos rfl, hsince.get?_after, Option.map_some, counted_counter]
    · have hwidth : twoTo 32 = 4294967296 := rfl
      rw [toNat_counter]
      omega
  · intro history' hsame
    refine answer_congr ?_
    rw [← get?_after_filter history', hsame, get?_after_filter]

/-- A fault for one call is over after it, and another one begins anew. -/
example (e e' : TenantError) :
    let site : CallSite := ⟨.list, .output⟩
    ((after [.attach site e (some 1), .check site]).check site).1 = none
      ∧ ((after [.attach site e (some 1), .check site, .attach site e' (some 1)]).check site).1
        = some e' :=
  ⟨rfl, rfl⟩

end TenantSync.Faults
