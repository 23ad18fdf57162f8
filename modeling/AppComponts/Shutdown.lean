import AppComponts.Connections

/-!
# The end of a shutdown

Behind the shutdown signal `entry` has so many handles to await, and as many sessions at
most that can still end. So it comes to rest in whatever order they do, and it has returned
then unless a session goes on for good: nothing in the source ends a session whose peers keep
it waiting, so which of them come to an end is an assumption.
-/

namespace AppComponts
open Transition
set_option autoImplicit false

/-- The steps there are when of the sessions only those of `ends` come to an end. -/
def EntryAction.Ends (ends : Nat → Bool) : EntryAction → Prop
  | .finish i => ends i = true
  | .panic i => ends i = true
  | _ => True

instance (ends : Nat → Bool) (act : EntryAction) : Decidable (act.Ends ends) :=
  match act with
  | .finish i => inferInstanceAs (Decidable (ends i = true))
  | .panic i => inferInstanceAs (Decidable (ends i = true))
  | .setProxyPort _ => isTrue trivial
  | .generateCaCertificate _ => isTrue trivial
  | .subscribe => isTrue trivial
  | .accept => isTrue trivial
  | .acceptFailed => isTrue trivial
  | .shutdown => isTrue trivial
  | .await => isTrue trivial
  | .returnOk => isTrue trivial
  | .signal => isTrue trivial

namespace EntryRun

/-- No signal comes any more, and the sessions of `ends` come to an end. -/
def Closes (ends : Nat → Bool) (_ : EntryRun) (act : EntryAction) : Prop :=
  act ≠ .signal ∧ act.Ends ends

instance (ends : Nat → Bool) (w : EntryRun) (act : EntryAction) : Decidable (w.Closes ends act) :=
  inferInstanceAs (Decidable (_ ∧ _))

/-- The assumption that every running session comes to an end. -/
def SessionsEnd (ends : Nat → Bool) (w : EntryRun) : Prop :=
  ∀ i : Nat, w.tasks[i]? = some .running → ends i = true

def remaining (w : EntryRun) : Nat :=
  w.activeConnections.length + w.tasks.count .running + if w.point = .closing then 1 else 0

structure Closing (w : EntryRun) : Prop where
  drains : w.Drains
  closed : w.point = .closing ∨ w.point = .returned true

variable {w w' : EntryRun} {act : EntryAction} {ends : Nat → Bool}

/-- A session that does not end goes on running, and nothing else makes a session run. -/
theorem running_iff_of_next (hact : act.Ends ends) (haccept : act ≠ .accept)
    (h : w.next act = some w') {i : Nat} (hi : ends i = false) :
    w'.tasks[i]? = some .running ↔ w.tasks[i]? = some .running := by
  have hne {j : Nat} (hj : ends j = true) : j ≠ i := by
    intro heq
    rw [heq, hi] at hj
    cases hj
  rw [tasks_of_next h]
  cases act with
  | accept => exact (haccept rfl).elim
  | finish j => rw [tasksAfter, List.getElem?_set_ne (hne hact)]
  | panic j => rw [tasksAfter, List.getElem?_set_ne (hne hact)]
  | _ => rfl

theorem sessionsEnd_iff_of_next (hact : act.Ends ends) (haccept : act ≠ .accept)
    (h : w.next act = some w') : w'.SessionsEnd ends ↔ w.SessionsEnd ends := by
  refine forall_congr' fun i => ?_
  cases hi : ends i with
  | true => exact ⟨fun _ _ => rfl, fun _ _ => rfl⟩
  | false => rw [running_iff_of_next hact haccept h hi]

/-- Behind the shutdown signal every step but a signal leaves less to do. -/
theorem closing_of_next (hw : w.Closing) (hact : act ≠ .signal) (h : w.next act = some w') :
    w'.Closing ∧ w'.remaining < w.remaining := by
  have hdrains := drains_of_next hw.drains h
  have hopen (point : EntryPoint) (hpoint : w.point = point)
      (hne : point ≠ .closing ∧ point ≠ .returned true) : False := by
    rcases hw.closed with hclosed | hclosed
    · exact hne.1 (hpoint.symm.trans hclosed)
    · exact hne.2 (hpoint.symm.trans hclosed)
  cases act with
  | setProxyPort ok =>
    exact (hopen _ (Option.ite_none_right_eq_some.mp h).1 ⟨by simp, by simp⟩).elim
  | generateCaCertificate ok =>
    exact (hopen _ (Option.ite_none_right_eq_some.mp h).1 ⟨by simp, by simp⟩).elim
  | subscribe => exact (hopen _ (Option.ite_none_right_eq_some.mp h).1 ⟨by simp, by simp⟩).elim
  | accept => exact (hopen _ (Option.ite_none_right_eq_some.mp h).1 ⟨by simp, by simp⟩).elim
  | acceptFailed =>
    exact (hopen _ (Option.ite_none_right_eq_some.mp h).1 ⟨by simp, by simp⟩).elim
  | shutdown =>
    exact (hopen _ (Option.ite_none_right_eq_some.mp h).1.1 ⟨by simp, by simp⟩).elim
  | signal => exact (hact rfl).elim
  | await =>
    obtain ⟨handle, handles, hconnections, hpoint, _, rfl⟩ := next_await h
    refine ⟨⟨hdrains, hw.closed⟩, ?_⟩
    simp only [remaining, hconnections, List.length_cons]
    omega
  | returnOk =>
    obtain ⟨⟨hpoint, hconnections⟩, h⟩ := Option.ite_none_right_eq_some.mp h
    cases h
    refine ⟨⟨hdrains, Or.inr rfl⟩, ?_⟩
    simp [remaining, hpoint]
  | finish i =>
    obtain ⟨hrunning, h⟩ := Option.ite_none_right_eq_some.mp h
    cases h
    have hlt := count_set_lt hrunning (show TaskState.finished ≠ .running by simp)
    refine ⟨⟨hdrains, hw.closed⟩, ?_⟩
    exact Nat.add_lt_add_right (Nat.add_lt_add_left hlt _) _
  | panic i =>
    obtain ⟨hrunning, h⟩ := Option.ite_none_right_eq_some.mp h
    cases h
    have hlt := count_set_lt hrunning (show TaskState.panicked ≠ .running by simp)
    refine ⟨⟨hdrains, hw.closed⟩, ?_⟩
    exact Nat.add_lt_add_right (Nat.add_lt_add_left hlt _) _

theorem waits_iff (hw : w.Closing) (hpoint : w.point = .closing) :
    (w.next .await = none ∧ w.next .returnOk = none) ↔
      ∃ handle ∈ w.activeConnections.head?, w.tasks[handle]? = some .running := by
  cases hconnections : w.activeConnections with
  | nil =>
    constructor
    · intro h
      have hreturns : w.next .returnOk = some { w with point := .returned true } :=
        if_pos ⟨hpoint, hconnections⟩
      rw [hreturns] at h
      cases h.2
    · intro h
      obtain ⟨handle, hhead, _⟩ := h
      cases hhead
  | cons handle handles =>
    have hreturns : w.next .returnOk = none := if_neg fun h => by
      rw [hconnections] at h
      cases h.2
    simp only [next, hconnections]
    constructor
    · intro h
      refine ⟨handle, rfl, ?_⟩
      have hended := (ite_eq_right_iff.mp h.1)
      have hspawned : handle < w.tasks.length := by
        apply hw.drains.spawned
        rw [hconnections]
        exact List.mem_cons_self
      have hget := List.getElem?_eq_getElem hspawned
      cases hstate : w.tasks[handle] with
      | running => rw [hget, hstate]
      | finished =>
        rw [hstate] at hget
        cases hended ⟨hpoint, Or.inl hget⟩
      | panicked =>
        rw [hstate] at hget
        cases hended ⟨hpoint, Or.inr hget⟩
    · intro h
      obtain ⟨other, hhead, hrunning⟩ := h
      cases hhead
      refine ⟨if_neg fun h => ?_, if_neg fun h => by cases h.2⟩
      rw [hrunning] at h
      rcases h.2 with hended | hended <;> cases hended

theorem accept_ne (hw : w.Closing) (h : w.next act = some w') : act ≠ .accept := by
  intro heq
  subst heq
  have hpoint := (Option.ite_none_right_eq_some.mp h).1
  rcases hw.closed with hclosed | hclosed
  · cases hpoint.symm.trans hclosed
  · cases hpoint.symm.trans hclosed

theorem not_ends_of_stuck (hstuck : Stuck next (Closes ends) w) {i : Nat}
    (hi : w.tasks[i]? = some .running) : ends i = false := by
  cases hends : ends i with
  | false => rfl
  | true =>
    have hfinish := hstuck (.finish i) ⟨by simp, hends⟩
    rw [next, if_pos hi] at hfinish
    cases hfinish

/-- Where no step is left, `entry` has returned exactly if no session goes on. -/
theorem returned_iff_of_stuck (hw : w.Closing) (hstuck : Stuck next (Closes ends) w) :
    w.point = .returned true ↔ w.SessionsEnd ends := by
  constructor
  · intro hpoint i hi
    exact (ended_of_returned hw.drains hpoint (List.mem_of_getElem? hi)).elim
  · intro hall
    refine hw.closed.resolve_left fun hpoint => ?_
    have hwaits := (waits_iff hw hpoint).mp
      ⟨hstuck .await ⟨by simp, trivial⟩, hstuck .returnOk ⟨by simp, trivial⟩⟩
    obtain ⟨handle, _, hrunning⟩ := hwaits
    have hends := not_ends_of_stuck hstuck hrunning
    rw [hall handle hrunning] at hends
    cases hends

theorem closing_of_reach (hw : w.Closing) (h : Reach (Allowed next (Closes ends)) w w') :
    w'.Closing ∧ (w'.SessionsEnd ends ↔ w.SessionsEnd ends) := by
  refine h.invariant_allowed (P := fun v => v.Closing ∧ (v.SessionsEnd ends ↔ w.SessionsEnd ends))
    ?_ ⟨hw, Iff.rfl⟩
  intro v act v' hv hact hnext
  obtain ⟨hclosing, hends⟩ := hv
  exact ⟨(closing_of_next hclosing hact.1 hnext).1,
    (sessionsEnd_iff_of_next hact.2 (accept_ne hclosing hnext) hnext).trans hends⟩

end EntryRun

/-- Behind the shutdown signal the awaits come to rest: no run without another signal has more
steps than there are handles, running sessions and the return. A run that goes on as long as
anything can move returns `Ok` exactly if every session that was running comes to an end, and no
session is left then; on the way only the running session that it awaits keeps `entry` from its
next step. -/
theorem entry_closes (ends : Nat → Bool) (w : EntryRun)
    (h : Reach (Steps EntryRun.next) .start w) (hpoint : w.point = .closing) :
    (∀ acts w', runLabels EntryRun.next (EntryRun.Closes ends) w acts = some w' →
      acts.length ≤ w.activeConnections.length + w.tasks.count .running + 1) ∧
    ∀ w', Reach (Allowed EntryRun.next (EntryRun.Closes ends)) w w' →
      (Stuck EntryRun.next (EntryRun.Closes ends) w' →
        (w'.point = .returned true ↔ w.SessionsEnd ends) ∧
        (w'.point = .returned true → .running ∉ w'.tasks)) ∧
      (w'.point = .closing → ((w'.next .await = none ∧ w'.next .returnOk = none) ↔
        ∃ handle ∈ w'.activeConnections.head?, w'.tasks[handle]? = some .running)) := by
  have hclosing : w.Closing := ⟨EntryRun.drains_of_reach h, Or.inl hpoint⟩
  constructor
  · intro acts w' hrun
    have hle := length_le_of_measure EntryRun.remaining
      (fun _ _ _ hv hact hnext => EntryRun.closing_of_next hv hact.1 hnext) acts hclosing hrun
    have hstart : w.remaining = w.activeConnections.length + w.tasks.count .running + 1 := by
      rw [EntryRun.remaining, if_pos hpoint]
    omega
  · intro w' hreach
    obtain ⟨hclosing', hends⟩ := EntryRun.closing_of_reach hclosing hreach
    refine ⟨fun hstuck => ⟨?_, ?_⟩, EntryRun.waits_iff hclosing'⟩
    · exact (EntryRun.returned_iff_of_stuck hclosing' hstuck).trans hends
    · exact EntryRun.ended_of_returned hclosing'.drains

/-- Two sessions, behind the shutdown signal. -/
def closingEntry : EntryRun :=
  ⟨.closing, some false, [0, 1], [.running, .finished], [.accepted 0, .accepted 1, .shutdown]⟩

theorem entry_closes_two :
    closingEntry.next .await = none ∧ closingEntry.next .returnOk = none := by
  have hreach : Reach (Steps EntryRun.next) .start closingEntry :=
    reach_runLabels [.setProxyPort true, .generateCaCertificate true, .subscribe, .accept, .accept,
      .finish 1, .signal, .shutdown] rfl
  obtain ⟨_, hwaits⟩ := entry_closes (fun _ => true) closingEntry hreach rfl
  exact ((hwaits closingEntry .refl).2 rfl).mpr ⟨0, rfl, rfl⟩

end AppComponts
