import AppComponts.LogSends

/-!
# The log of the sessions

When it is shut down `entry` waits for the tasks of the sessions, but not for the tasks that
send their log entries, and the runtime they run on is dropped behind it.
-/

namespace AppComponts
open Transition
set_option autoImplicit false

inductive SessionTask where
  | running
  | logged (entry : ProxyLogEntry)
  | aborted
  deriving DecidableEq, Repr

/-- `entry` in its loop, waiting for the sessions, and back; and the runtime dropped. -/
inductive EntryPhase where
  | accepting
  | closing
  | returned
  | dropped
  deriving DecidableEq, Repr

structure SessionLog where
  phase : EntryPhase
  sessions : List SessionTask
  inbox : LogInbox ProxyLogEntry
  deriving DecidableEq, Repr

inductive SessionLogStep where
  | accept
  | proxyInfo (i : Nat) (entry : ProxyLogEntry)
  | abort (i : Nat)
  | shutdown
  | join
  | drop
  | send (i : Nat)
  | handle
  deriving DecidableEq, Repr

namespace SessionLog

def start : SessionLog := ⟨.accepting, [], .start⟩

def next (maxLogs : Nat) (w : SessionLog) : SessionLogStep → Option SessionLog
  | .accept =>
    if w.phase = .accepting then some { w with sessions := w.sessions ++ [.running] } else none
  | .proxyInfo i entry =>
    if w.sessions[i]? = some .running then
      some { w with sessions := w.sessions.set i (.logged entry), inbox := w.inbox.log i entry }
    else none
  | .abort i =>
    if w.sessions[i]? = some .running then
      some { w with sessions := w.sessions.set i .aborted }
    else none
  | .shutdown => if w.phase = .accepting then some { w with phase := .closing } else none
  | .join =>
    if w.phase = .closing ∧ .running ∉ w.sessions then some { w with phase := .returned }
    else none
  | .drop =>
    if w.phase = .returned then
      some { w with phase := .dropped, inbox := { w.inbox with mail := w.inbox.mail.cancel } }
    else none
  | .send i => (w.inbox.logEntry i).map fun inbox => { w with inbox := inbox }
  | .handle => (w.inbox.handle maxLogs).map fun inbox => { w with inbox := inbox }

/-- The runtime is dropped when no entry is left to be sent. -/
def SendsDone (w : SessionLog) : SessionLogStep → Prop
  | .drop => w.inbox.mail.pending = []
  | _ => True

instance (w : SessionLog) (step : SessionLogStep) : Decidable (w.SendsDone step) :=
  match step with
  | .drop => inferInstanceAs (Decidable (w.inbox.mail.pending = []))
  | .accept => isTrue trivial
  | .proxyInfo _ _ => isTrue trivial
  | .abort _ => isTrue trivial
  | .shutdown => isTrue trivial
  | .join => isTrue trivial
  | .send _ => isTrue trivial
  | .handle => isTrue trivial

/-- Of each session that logged an entry, this entry and no other was added. -/
def LoggedOnce (w : SessionLog) : Prop :=
  ∀ i entry, w.sessions[i]? = some (.logged entry) →
    (i, entry) ∈ w.inbox.mail.received ∧ (w.inbox.mail.received.map Prod.fst).count i = 1

structure Tagged (maxLogs : Nat) (w : SessionLog) : Prop where
  wf : w.inbox.Wf maxLogs
  callers : ∀ i entry,
    (i, entry) ∈ w.inbox.mail.spawned ↔ w.sessions[i]? = some (.logged entry)
  once : (w.inbox.mail.spawned.map Prod.fst).Nodup

section Steps
variable {maxLogs : Nat} {w w' : SessionLog} {step : SessionLogStep}

theorem tagged_start : start.Tagged maxLogs :=
  ⟨LogInbox.wf_start, fun i entry => by simp [start, LogInbox.start, Mailbox.empty],
    List.nodup_nil⟩

theorem not_tagged_of_running (hw : w.Tagged maxLogs) {i : Nat}
    (hrunning : w.sessions[i]? = some .running) (entry : ProxyLogEntry) :
    (i, entry) ∉ w.inbox.mail.spawned := by
  intro hmem
  have hlogged := (hw.callers i entry).mp hmem
  rw [hrunning] at hlogged
  cases hlogged

theorem tagged_proxyInfo (hw : w.Tagged maxLogs) {i : Nat} {entry : ProxyLogEntry}
    (hrunning : w.sessions[i]? = some .running) :
    Tagged maxLogs { w with
      sessions := w.sessions.set i (.logged entry), inbox := w.inbox.log i entry } := by
  have hnew := not_tagged_of_running hw hrunning
  obtain ⟨hi, _⟩ := List.getElem?_eq_some_iff.mp hrunning
  refine ⟨LogInbox.wf_log hw.wf i entry, ?_, ?_⟩
  · intro j other
    simp only [LogInbox.log, Mailbox.spawn, List.mem_append, List.mem_singleton]
    by_cases hj : i = j
    · subst hj
      rw [List.getElem?_set_self hi]
      constructor
      · intro h
        rcases h with h | h
        · exact (hnew other h).elim
        · cases h
          rfl
      · intro h
        cases h
        exact Or.inr rfl
    · rw [List.getElem?_set_ne hj, ← hw.callers j other]
      constructor
      · intro h
        rcases h with h | h
        · exact h
        · cases h
          exact (hj rfl).elim
      · exact Or.inl
  · simp only [LogInbox.log, Mailbox.spawn, List.map_append, List.map_singleton]
    rw [← List.concat_eq_append, List.nodup_concat]
    refine ⟨?_, hw.once⟩
    intro hmem
    obtain ⟨⟨j, other⟩, hspawned, hj⟩ := List.mem_map.mp hmem
    cases hj
    exact hnew other hspawned

theorem tagged_abort (hw : w.Tagged maxLogs) {i : Nat}
    (hrunning : w.sessions[i]? = some .running) :
    Tagged maxLogs { w with sessions := w.sessions.set i .aborted } := by
  obtain ⟨hi, _⟩ := List.getElem?_eq_some_iff.mp hrunning
  refine ⟨hw.wf, ?_, hw.once⟩
  intro j entry
  by_cases hj : i = j
  · subst hj
    rw [List.getElem?_set_self hi]
    exact ⟨fun h => (not_tagged_of_running hw hrunning entry h).elim, fun h => nomatch h⟩
  · rw [List.getElem?_set_ne hj]
    exact hw.callers j entry

theorem tagged_accept (hw : w.Tagged maxLogs) :
    Tagged maxLogs { w with sessions := w.sessions ++ [.running] } := by
  refine ⟨hw.wf, ?_, hw.once⟩
  intro i entry
  rw [hw.callers i entry]
  rcases Nat.lt_or_ge i w.sessions.length with hlt | hge
  · rw [List.getElem?_append_left hlt]
  · rw [List.getElem?_append_right hge, List.getElem?_eq_none hge, List.getElem?_singleton]
    constructor
    · intro h
      cases h
    · intro h
      split at h <;> cases h

theorem tagged_of_calls (hw : w.Tagged maxLogs) {inbox : LogInbox ProxyLogEntry}
    (hwf : inbox.Wf maxLogs) (hspawned : inbox.mail.spawned = w.inbox.mail.spawned) :
    Tagged maxLogs { w with inbox := inbox } := by
  refine ⟨hwf, ?_, ?_⟩
  · intro i entry
    rw [hspawned]
    exact hw.callers i entry
  · rw [hspawned]
    exact hw.once

theorem tagged_of_next (hw : w.Tagged maxLogs) (h : w.next maxLogs step = some w') :
    w'.Tagged maxLogs := by
  cases step with
  | accept =>
    obtain ⟨_, h⟩ := Option.ite_none_right_eq_some.mp h
    cases h
    exact tagged_accept hw
  | proxyInfo i entry =>
    obtain ⟨hrunning, h⟩ := Option.ite_none_right_eq_some.mp h
    cases h
    exact tagged_proxyInfo hw hrunning
  | abort i =>
    obtain ⟨hrunning, h⟩ := Option.ite_none_right_eq_some.mp h
    cases h
    exact tagged_abort hw hrunning
  | shutdown =>
    obtain ⟨_, h⟩ := Option.ite_none_right_eq_some.mp h
    cases h
    exact ⟨hw.wf, hw.callers, hw.once⟩
  | join =>
    obtain ⟨_, h⟩ := Option.ite_none_right_eq_some.mp h
    cases h
    exact ⟨hw.wf, hw.callers, hw.once⟩
  | drop =>
    obtain ⟨_, h⟩ := Option.ite_none_right_eq_some.mp h
    cases h
    exact ⟨⟨Mailbox.wf_cancel hw.wf.mail, hw.wf.storage⟩, hw.callers, hw.once⟩
  | send i =>
    obtain ⟨inbox, hsend, rfl⟩ := Option.map_eq_some_iff.mp h
    exact tagged_of_calls hw (LogInbox.wf_logEntry hw.wf hsend)
      (LogInbox.calls_of_logEntry hsend).1
  | handle =>
    obtain ⟨inbox, hhandle, rfl⟩ := Option.map_eq_some_iff.mp h
    exact tagged_of_calls hw (LogInbox.wf_handle hw.wf hhandle)
      (LogInbox.calls_of_handle hhandle).1

theorem cancelled_of_next (h : w.next maxLogs step = some w') :
    w'.inbox.mail.cancelled = w.inbox.mail.cancelled ++
      if step = .drop then w.inbox.mail.pending else [] := by
  cases step with
  | drop =>
    obtain ⟨_, h⟩ := Option.ite_none_right_eq_some.mp h
    cases h
    rfl
  | send i =>
    obtain ⟨inbox, hsend, rfl⟩ := Option.map_eq_some_iff.mp h
    exact (LogInbox.calls_of_logEntry hsend).2.trans (List.append_nil _).symm
  | handle =>
    obtain ⟨inbox, hhandle, rfl⟩ := Option.map_eq_some_iff.mp h
    exact (LogInbox.calls_of_handle hhandle).2.trans (List.append_nil _).symm
  | _ =>
    obtain ⟨_, h⟩ := Option.ite_none_right_eq_some.mp h
    cases h
    exact (List.append_nil _).symm

theorem tagged_of_reach (h : Reach (Steps (next maxLogs)) .start w) : w.Tagged maxLogs :=
  h.invariant_steps (fun _ _ _ => tagged_of_next) tagged_start

/-- With nothing on its way, the entries are there exactly if no send was cancelled. -/
theorem loggedOnce_iff_kept (hw : w.Tagged maxLogs) (hquiet : w.inbox.mail.Quiet) :
    w.LoggedOnce ↔ w.inbox.mail.cancelled = [] := by
  have hperm := Mailbox.perm_of_quiet hw.wf.mail hquiet
  constructor
  · intro honce
    rw [List.eq_nil_iff_forall_not_mem]
    intro sent hcancelled
    have hlogged := (hw.callers sent.1 sent.2).mp
      (hperm.subset (List.mem_append_right _ hcancelled))
    have hreceived := (honce sent.1 sent.2 hlogged).1
    have hnodup := hperm.nodup_iff.mpr (List.Nodup.of_map Prod.fst hw.once)
    exact (List.nodup_append'.mp hnodup).2.2 hreceived hcancelled
  · intro hkept i entry hlogged
    rw [hkept, List.append_nil] at hperm
    have hspawned := (hw.callers i entry).mpr hlogged
    refine ⟨hperm.symm.subset hspawned, ?_⟩
    rw [(hperm.map Prod.fst).count_eq]
    exact List.count_eq_one_of_mem hw.once (List.mem_map_of_mem hspawned)

theorem sendsDone_exact (maxLogs : Nat) : Exact (next maxLogs) SendsDone (Tagged maxLogs)
    fun w => w.inbox.mail.cancelled ≠ [] where
  inv_step _ _ _ hw h := tagged_of_next hw h
  bad_step := by
    intro a step b _ hbad hnext hkept
    rw [cancelled_of_next hnext, List.append_eq_nil_iff] at hkept
    exact hbad hkept.1
  bad_of_not_ok := by
    intro a step b _ hok hnext hkept
    rw [cancelled_of_next hnext, List.append_eq_nil_iff] at hkept
    cases step with
    | drop =>
      rw [if_pos rfl] at hkept
      exact hok hkept.2
    | _ => exact hok trivial
  not_bad_of_ok := by
    intro a step b _ hgood hok hnext
    rw [not_not] at hgood ⊢
    rw [cancelled_of_next hnext, hgood, List.nil_append]
    cases step with
    | drop =>
      rw [if_pos rfl]
      exact hok
    | _ => rfl

end Steps

end SessionLog

/-- When nothing is on its way any more, each session that executed its `proxy_info!` has
its one entry added exactly if the runtime was not dropped ahead of a send. -/
theorem loggedOnce_iff_sendsDone (maxLogs : Nat) (w : SessionLog)
    (h : Reach (Steps (SessionLog.next maxLogs)) .start w) (hquiet : w.inbox.mail.Quiet) :
    w.LoggedOnce ↔
      Reach (Allowed (SessionLog.next maxLogs) SessionLog.SendsDone) .start w := by
  rw [SessionLog.loggedOnce_iff_kept (SessionLog.tagged_of_reach h) hquiet,
    ← (SessionLog.sendsDone_exact maxLogs).not_bad_iff SessionLog.tagged_start
      (not_not_intro rfl) h, not_not]

/-- One session, whose entry is added before the runtime is dropped. -/
def loggedSession : SessionLog where
  phase := .dropped
  sessions := [.logged requestEntry]
  inbox := ⟨⟨[(0, requestEntry)], [], [(0, requestEntry)], [], [(0, requestEntry)], []⟩,
    [requestEntry]⟩

theorem loggedOnce_loggedSession :
    loggedSession.LoggedOnce ↔
      Reach (Allowed (SessionLog.next 100) SessionLog.SendsDone) .start loggedSession :=
  loggedOnce_iff_sendsDone 100 loggedSession (reach_runLabels
    [.accept, .proxyInfo 0 requestEntry, .send 0, .handle, .shutdown, .join, .drop] rfl) ⟨rfl, rfl⟩

/-- The session has ended, and the runtime is dropped before its entry is sent. -/
theorem dropped_entry_not_logged :
    ¬ ∀ w, Reach (Steps (SessionLog.next 100)) .start w → w.inbox.mail.Quiet →
      w.LoggedOnce := by
  intro h
  have hreach : Reach (Steps (SessionLog.next 100)) .start
      ⟨.dropped, [.logged requestEntry],
        ⟨⟨[(0, requestEntry)], [], [], [], [], [(0, requestEntry)]⟩, []⟩⟩ :=
    reach_runLabels [.accept, .proxyInfo 0 requestEntry, .shutdown, .join, .drop] rfl
  obtain ⟨hreceived, _⟩ := h _ hreach ⟨rfl, rfl⟩ 0 requestEntry rfl
  cases hreceived

end AppComponts
