import AppComponts.Application
import AppComponts.LogWindow

/-!
# The tables of the application

What a table shows was logged: a row of the proxy table by a session that has not panicked,
each session at most once, and a row that says that all connections are closed by a thread
that has no session left.
-/

namespace AppComponts
open Text Transition
set_option autoImplicit false

namespace ProxyThread
variable {me me' : ProxyThread} {act : ThreadAction}

theorem logged_of_next (h : me.next act = some me') (i : Nat) (entry : ProxyLogEntry) :
    me'.logged[i]? = some (some entry) ↔
      me.logged[i]? = some (some entry) ∨ said? act = some (i, entry) := by
  cases act with
  | newRuntime ok =>
    obtain ⟨_, h⟩ := Option.ite_none_right_eq_some.mp h
    cases h
    simp [said?]
  | dropRuntime =>
    obtain ⟨_, h⟩ := Option.ite_none_right_eq_some.mp h
    cases h
    simp [said?]
  | entry act =>
    obtain ⟨_, _, _, _, rfl⟩ := next_entry h
    by_cases hact : act = .accept
    · simp only [if_pos hact, List.getElem?_append, List.getElem?_singleton, said?]
      split
      · simp
      · rename_i hge
        rw [List.getElem?_eq_none (Nat.le_of_not_lt hge)]
        split <;> simp
    · simp [if_neg hact, said?]
  | proxyInfo j other =>
    obtain ⟨⟨_, _, hnone⟩, h⟩ := Option.ite_none_right_eq_some.mp h
    cases h
    obtain ⟨hlt, _⟩ := List.getElem?_eq_some_iff.mp hnone
    by_cases hij : j = i
    · subst hij
      rw [List.getElem?_set_self hlt, hnone]
      simp [said?]
    · rw [List.getElem?_set_ne hij]
      simp [said?, hij]

theorem not_logged_of_next {i : Nat} {entry : ProxyLogEntry} (h : me.next act = some me')
    (hentry : said? act = some (i, entry)) : me.logged[i]? = some none := by
  cases act with
  | proxyInfo j other =>
    obtain ⟨⟨_, _, hnone⟩, _⟩ := Option.ite_none_right_eq_some.mp h
    cases hentry
    exact hnone
  | _ => cases hentry

theorem over_of_next (hover : me.stage = .over) : me.next act = none := by
  cases act with
  | newRuntime ok => exact if_neg (by simp [hover])
  | entry act => exact if_neg (by simp [hover])
  | proxyInfo i entry => exact if_neg (by simp [hover])
  | dropRuntime => exact if_neg (by simp [hover])

theorem returned_of_next (hreturned : me.entry.point = .returned true)
    (h : me.next act = some me') :
    me'.entry.point = .returned true ∧ act ≠ .entry .returnOk := by
  cases act with
  | newRuntime ok =>
    obtain ⟨_, h⟩ := Option.ite_none_right_eq_some.mp h
    cases h
    exact ⟨hreturned, by simp⟩
  | dropRuntime =>
    obtain ⟨_, h⟩ := Option.ite_none_right_eq_some.mp h
    cases h
    exact ⟨hreturned, by simp⟩
  | proxyInfo i entry =>
    obtain ⟨_, h⟩ := Option.ite_none_right_eq_some.mp h
    cases h
    exact ⟨hreturned, by simp⟩
  | entry act =>
    obtain ⟨_, hdoes, entry, hnext, rfl⟩ := next_entry h
    cases act with
    | signal => exact hdoes.elim
    | await =>
      obtain ⟨_, _, _, hpoint, _, _⟩ := EntryRun.next_await hnext
      rw [hreturned] at hpoint
      cases hpoint
    | finish i =>
      obtain ⟨_, hnext⟩ := Option.ite_none_right_eq_some.mp hnext
      cases hnext
      exact ⟨hreturned, by simp⟩
    | panic i =>
      obtain ⟨_, hnext⟩ := Option.ite_none_right_eq_some.mp hnext
      cases hnext
      exact ⟨hreturned, by simp⟩
    | shutdown =>
      obtain ⟨⟨hpoint, _⟩, _⟩ := Option.ite_none_right_eq_some.mp hnext
      rw [hreturned] at hpoint
      cases hpoint
    | returnOk =>
      obtain ⟨⟨hpoint, _⟩, _⟩ := Option.ite_none_right_eq_some.mp hnext
      rw [hreturned] at hpoint
      cases hpoint
    | _ =>
      obtain ⟨hpoint, _⟩ := Option.ite_none_right_eq_some.mp hnext
      rw [hreturned] at hpoint
      cases hpoint

theorem closed_of_returnOk (h : me.next (.entry .returnOk) = some me') :
    me'.entry.point = .returned true := by
  obtain ⟨_, _, entry, hnext, rfl⟩ := next_entry h
  obtain ⟨_, hnext⟩ := Option.ite_none_right_eq_some.mp hnext
  cases hnext
  rfl

theorem over_of_dropRuntime (h : me.next .dropRuntime = some me') : me'.stage = .over := by
  obtain ⟨_, h⟩ := Option.ite_none_right_eq_some.mp h
  cases h
  rfl

end ProxyThread

def EventLog.Closes (event : EventLog) : Prop := event.message = "All connections closed".toList

instance (event : EventLog) : Decidable event.Closes := inferInstanceAs (Decidable (_ = _))

theorem not_closes_main (event : MainEvent) (now : Str) : ¬ (event.log now).Closes := by
  intro h
  cases event with
  | appRunning => simp [EventLog.Closes, MainEvent.log] at h
  | certSaved path => cases congrArg List.head? h
  | certNotSaved error => cases congrArg List.head? h

theorem closes_message {me : ProxyThread} {act : ThreadAction} {message now : Str}
    (h : me.message? act = some message)
    (hcloses : EventLog.Closes ⟨"INFO".toList, message, now⟩) : act = .entry .returnOk := by
  unfold ProxyThread.message? at h
  split at h
  · cases h
    cases congrArg List.head? hcloses
  · cases h
    simp [EventLog.Closes] at hcloses
  · rfl
  · cases h

namespace Application
variable {maxLogs : Nat} {w w' : Application} {act : AppAction}

def Logged (w : Application) (k i : Nat) (entry : ProxyLogEntry) : Prop :=
  ∃ thread, w.threads[k]? = some thread ∧ thread.logged[i]? = some (some entry)

def IsOver (w : Application) (k : Nat) : Prop :=
  ∃ thread, w.threads[k]? = some thread ∧ thread.stage = .over

def IsClosed (w : Application) (k : Nat) : Prop :=
  ∃ thread, w.threads[k]? = some thread ∧ thread.entry.point = .returned true

def closers (events : List (Option Nat × EventLog)) : List (Option Nat) :=
  (events.filter fun sent => sent.2.Closes).map Prod.fst

theorem closers_append (events more : List (Option Nat × EventLog)) :
    closers (events ++ more) = closers events ++ closers more := by
  simp only [closers, List.filter_append, List.map_append]

theorem closers_singleton (sent : Option Nat × EventLog) :
    closers [sent] = if sent.2.Closes then [sent.1] else [] := by
  by_cases hcloses : sent.2.Closes <;> simp [closers, hcloses]

/-- The entries on their way are those of the sessions, one each; only a thread that is over
has lost any. All connections are closed once by a thread. -/
structure Mailed (w : Application) : Prop where
  events : w.events.Wf
  entries : w.entries.Wf
  sessions : ∀ k i entry, ((k, i), entry) ∈ w.entries.spawned ↔ w.Logged k i entry
  once : (w.entries.spawned.map Prod.fst).Nodup
  lost : ∀ sent ∈ w.entries.cancelled, w.IsOver sent.1.1
  closedOnce : (closers w.events.spawned).Nodup
  closed : ∀ tag ∈ closers w.events.spawned, ∃ k, tag = some k ∧ w.IsClosed k

theorem mailed_start : start.Mailed where
  events := Mailbox.wf_empty
  entries := Mailbox.wf_empty
  sessions k i entry := by simp [start, Mailbox.empty, Logged]
  once := List.nodup_nil
  lost sent h := by cases h
  closedOnce := List.nodup_nil
  closed tag h := by cases h

/-- Steps that leave alone what the threads have said and what has been lost. -/
theorem mailed_of_frame (hw : w.Mailed) (hthreads : w'.threads = w.threads)
    (hevents : w'.events.Wf) (hspawned : w'.events.spawned = w.events.spawned)
    (hentries : w'.entries.Wf) (hlogged : w'.entries.spawned = w.entries.spawned)
    (hlost : w'.entries.cancelled = w.entries.cancelled) : w'.Mailed where
  events := hevents
  entries := hentries
  sessions k i entry := by
    rw [hlogged, Logged, hthreads]
    exact hw.sessions k i entry
  once := by
    rw [hlogged]
    exact hw.once
  lost := by
    rw [hlost]
    intro sent hsent
    rw [IsOver, hthreads]
    exact hw.lost sent hsent
  closedOnce := by
    rw [hspawned]
    exact hw.closedOnce
  closed := by
    rw [hspawned]
    intro tag htag
    obtain ⟨k, rfl, hclosed⟩ := hw.closed tag htag
    refine ⟨k, rfl, ?_⟩
    rw [IsClosed, hthreads]
    exact hclosed

theorem exists_handleEvent {P : ProxyThread → Prop} {host port : Str}
    (hspawn : ¬ P (.spawn host port)) (hsignal : ∀ thread, P thread ↔ P thread.signal) (k : Nat) :
    (∃ thread, (w.handleEvent host port).threads[k]? = some thread ∧ P thread) ↔
      ∃ thread, w.threads[k]? = some thread ∧ P thread := by
  cases hrun : w.running with
  | false =>
    rw [handleEvent_off hrun]
    exact exists_concat_iff hspawn k
  | true =>
    rw [handleEvent_on hrun]
    cases hsender : w.sender with
    | none => rfl
    | some j =>
      cases hthread : w.threads[j]? with
      | none => simp only [hthread]
      | some thread =>
        simp only [hthread]
        exact exists_set_iff hthread (hsignal thread) k

theorem channels_handleEvent (w : Application) (host port : Str) :
    (w.handleEvent host port).events = w.events ∧
      (w.handleEvent host port).entries = w.entries ∧
      (w.handleEvent host port).logs = w.logs := by
  unfold handleEvent
  split <;> exact ⟨rfl, rfl, rfl⟩

theorem mailed_handleEvent (hw : w.Mailed) (host port : Str) :
    (w.handleEvent host port).Mailed := by
  obtain ⟨hevents, hentries, _⟩ := channels_handleEvent w host port
  refine ⟨hevents ▸ hw.events, hentries ▸ hw.entries, ?_, hentries ▸ hw.once, ?_,
    hevents ▸ hw.closedOnce, ?_⟩
  · intro k i entry
    rw [hentries, hw.sessions k i entry]
    exact (exists_handleEvent (P := fun thread => thread.logged[i]? = some (some entry))
      (fun h => by cases h) (fun _ => Iff.rfl) k).symm
  · intro sent hsent
    rw [hentries] at hsent
    exact (exists_handleEvent (P := fun thread => thread.stage = .over)
      (fun h => by cases h) (fun _ => Iff.rfl) sent.1.1).mpr (hw.lost sent hsent)
  · intro tag htag
    rw [hevents] at htag
    obtain ⟨k, rfl, hclosed⟩ := hw.closed tag htag
    exact ⟨k, rfl, (exists_handleEvent (P := fun thread => thread.entry.point = .returned true)
      (fun h => by cases h) (fun _ => Iff.rfl) k).mpr hclosed⟩

section Moves
variable {k : Nat} {act : ThreadAction} {now : Str} {thread thread' : ProxyThread}

def tagged (k : Nat) (act : ThreadAction) : Option ((Nat × Nat) × ProxyLogEntry) :=
  (ProxyThread.said? act).map fun said => ((k, said.1), said.2)

theorem entries_of_sends (w : Application) :
    ((w.spawnLogs k thread act now).dropSends k act).entries.spawned =
        w.entries.spawned ++ (tagged k act).toList ∧
      ((w.spawnLogs k thread act now).dropSends k act).entries.cancelled =
        w.entries.cancelled ++ (if act = .dropRuntime then
          w.entries.pending.filter fun sent => sent.1.1 == k else []) := by
  cases act with
  | dropRuntime => exact ⟨(List.append_nil _).symm, rfl⟩
  | proxyInfo i entry => exact ⟨rfl, (List.append_nil _).symm⟩
  | newRuntime ok => exact ⟨(List.append_nil _).symm, (List.append_nil _).symm⟩
  | entry act => exact ⟨(List.append_nil _).symm, (List.append_nil _).symm⟩

theorem events_of_sends (w : Application) :
    ((w.spawnLogs k thread act now).dropSends k act).events.spawned = w.events.spawned ++
      ((thread.message? act).map fun message =>
        (some k, (⟨"INFO".toList, message, now⟩ : EventLog))).toList := by
  unfold dropSends spawnLogs
  cases hmessage : thread.message? act with
  | none => split <;> simp [Mailbox.withdraw]
  | some message => split <;> simp [Mailbox.withdraw, Mailbox.spawn]

theorem wf_of_sends (w : Application) (hevents : w.events.Wf) (hentries : w.entries.Wf) :
    ((w.spawnLogs k thread act now).dropSends k act).events.Wf ∧
      ((w.spawnLogs k thread act now).dropSends k act).entries.Wf := by
  have hspawned : (w.spawnLogs k thread act now).events.Wf ∧
      (w.spawnLogs k thread act now).entries.Wf := by
    unfold spawnLogs
    constructor
    · cases thread.message? act with
      | none => exact hevents
      | some message => exact Mailbox.wf_spawn hevents _
    · cases ProxyThread.said? act with
      | none => exact hentries
      | some said => exact Mailbox.wf_spawn hentries _
  unfold dropSends
  split
  · exact ⟨Mailbox.wf_withdraw hspawned.1 _, Mailbox.wf_withdraw hspawned.2 _⟩
  · exact hspawned

variable (hthread : w.threads[k]? = some thread) (hnext : thread.next act = some thread')
include hthread hnext

theorem logged_moved (hw' : w'.threads = w.threads.set k thread') (j i : Nat)
    (entry : ProxyLogEntry) :
    w'.Logged j i entry ↔ w.Logged j i entry ∨ ((j, i), entry) ∈ tagged k act := by
  have hlogged := ProxyThread.logged_of_next hnext i entry
  obtain ⟨hk, _⟩ := List.getElem?_eq_some_iff.mp hthread
  rw [Logged, hw']
  by_cases hj : k = j
  · subst hj
    have htagged : ((k, i), entry) ∈ tagged k act ↔
        ProxyThread.said? act = some (i, entry) := by
      simp [tagged, Option.map_eq_some_iff]
    rw [htagged]
    constructor
    · intro h
      obtain ⟨other, hother, hi⟩ := h
      rw [List.getElem?_set_self hk] at hother
      cases hother
      exact (hlogged.mp hi).imp_left fun hi => ⟨thread, hthread, hi⟩
    · intro h
      refine ⟨thread', List.getElem?_set_self hk, hlogged.mpr ?_⟩
      refine h.imp_left fun h => ?_
      obtain ⟨other, hother, hi⟩ := h
      rw [hthread] at hother
      cases hother
      exact hi
  · rw [List.getElem?_set_ne hj]
    have hnot : ((j, i), entry) ∉ tagged k act := by
      intro h
      obtain ⟨said, _, heq⟩ := Option.map_eq_some_iff.mp h
      cases heq
      exact hj rfl
    exact ⟨Or.inl, fun h => h.resolve_right hnot⟩

theorem nodup_tagged (hw : w.Mailed) :
    ((w.entries.spawned ++ (tagged k act).toList).map Prod.fst).Nodup := by
  cases hentry : ProxyThread.said? act with
  | none =>
    simp only [tagged, hentry, Option.map_none, Option.toList_none, List.append_nil]
    exact hw.once
  | some said =>
    simp only [tagged, hentry, Option.map_some, Option.toList_some, List.map_append,
      List.map_singleton]
    rw [← List.concat_eq_append, List.nodup_concat]
    refine ⟨?_, hw.once⟩
    intro hmem
    obtain ⟨⟨tag, entry⟩, hspawned, rfl⟩ := List.mem_map.mp hmem
    obtain ⟨other, hother, hlogged⟩ := (hw.sessions k said.1 entry).mp hspawned
    rw [hthread] at hother
    cases hother
    rw [ProxyThread.not_logged_of_next hnext hentry] at hlogged
    cases hlogged

theorem closes_moved {message : Str} (hw : w.Mailed) (hmessage : thread.message? act = some message)
    (hcloses : EventLog.Closes ⟨"INFO".toList, message, now⟩) :
    some k ∉ closers w.events.spawned ∧ thread'.entry.point = .returned true := by
  have hact := closes_message hmessage hcloses
  subst hact
  refine ⟨?_, ProxyThread.closed_of_returnOk hnext⟩
  intro hmem
  obtain ⟨j, hj, other, hother, hreturned⟩ := hw.closed _ hmem
  cases hj
  rw [hthread] at hother
  cases hother
  exact (ProxyThread.returned_of_next hreturned hnext).2 rfl

theorem closed_moved (hw : w.Mailed) (hw' : w'.threads = w.threads.set k thread')
    (hevents : w'.events.spawned = w.events.spawned ++
      ((thread.message? act).map fun message =>
        (some k, (⟨"INFO".toList, message, now⟩ : EventLog))).toList) :
    (closers w'.events.spawned).Nodup ∧
      ∀ tag ∈ closers w'.events.spawned, ∃ j, tag = some j ∧ w'.IsClosed j := by
  have hkept (tag : Option Nat) (htag : tag ∈ closers w.events.spawned) :
      ∃ j, tag = some j ∧ w'.IsClosed j := by
    obtain ⟨j, rfl, hclosed⟩ := hw.closed tag htag
    refine ⟨j, rfl, ?_⟩
    rw [IsClosed, hw']
    refine exists_set (P := fun thread : ProxyThread => thread.entry.point = .returned true)
      hthread ?_ hclosed
    exact fun h => (ProxyThread.returned_of_next h hnext).1
  rw [hevents, closers_append]
  cases hmessage : thread.message? act with
  | none =>
    simp only [Option.map_none, Option.toList_none]
    rw [show closers [] = [] from rfl, List.append_nil]
    exact ⟨hw.closedOnce, hkept⟩
  | some message =>
    simp only [Option.map_some, Option.toList_some]
    by_cases hcloses : EventLog.Closes ⟨"INFO".toList, message, now⟩
    · obtain ⟨hnew, hreturned⟩ := closes_moved hthread hnext hw hmessage hcloses
      rw [closers_singleton, if_pos hcloses]
      constructor
      · rw [← List.concat_eq_append, List.nodup_concat]
        exact ⟨hnew, hw.closedOnce⟩
      · intro tag htag
        rcases List.mem_append.mp htag with htag | htag
        · exact hkept tag htag
        · refine ⟨k, List.mem_singleton.mp htag, thread', ?_, hreturned⟩
          rw [hw']
          exact List.getElem?_set_self (List.getElem?_eq_some_iff.mp hthread).1
    · rw [closers_singleton, if_neg hcloses, List.append_nil]
      exact ⟨hw.closedOnce, hkept⟩

theorem mailed_moved (hw : w.Mailed) :
    (({ w with threads := w.threads.set k thread' }.spawnLogs k thread act now).dropSends
      k act).Mailed := by
  obtain ⟨hspawned, hcancelled⟩ := @entries_of_sends k act now thread
    { w with threads := w.threads.set k thread' }
  have hthreads := @threads_of_sends k thread act now { w with threads := w.threads.set k thread' }
  have hevents := @events_of_sends k act now thread { w with threads := w.threads.set k thread' }
  obtain ⟨hwfEvents, hwfEntries⟩ := @wf_of_sends k act now thread
    { w with threads := w.threads.set k thread' } hw.events hw.entries
  obtain ⟨hclosedOnce, hclosed⟩ := closed_moved hthread hnext hw hthreads hevents
  refine ⟨hwfEvents, hwfEntries, ?_, ?_, ?_, hclosedOnce, hclosed⟩
  · intro j i entry
    rw [logged_moved hthread hnext hthreads, hspawned, List.mem_append, Option.mem_toList]
    exact or_congr_left (hw.sessions j i entry)
  · have hnodup := nodup_tagged hthread hnext hw
    rw [hspawned]
    exact hnodup
  · intro sent hsent
    rw [IsOver, hthreads]
    rw [hcancelled] at hsent
    rcases List.mem_append.mp hsent with hlost | hdropped
    · refine exists_set (P := fun thread : ProxyThread => thread.stage = .over) hthread ?_
        (hw.lost sent hlost)
      intro hover
      rw [ProxyThread.over_of_next hover] at hnext
      cases hnext
    · split at hdropped
      · rename_i hact
        subst hact
        have hk : sent.1.1 = k := beq_iff_eq.mp (List.mem_filter.mp hdropped).2
        rw [hk]
        exact ⟨thread', List.getElem?_set_self (List.getElem?_eq_some_iff.mp hthread).1,
          ProxyThread.over_of_dropRuntime hnext⟩
      · cases hdropped

end Moves

theorem mailed_of_next (hw : w.Mailed) (h : w.next maxLogs act = some w') : w'.Mailed := by
  cases appStep_of_next h with
  | toggled host port => exact mailed_handleEvent hw host port
  | moved hthread hnext => exact mailed_moved hthread hnext hw
  | reported event now =>
    have hsame : closers (w.events.spawned ++ [(none, event.log now)]) =
        closers w.events.spawned := by
      rw [closers_append, closers_singleton, if_neg (not_closes_main event now), List.append_nil]
    refine ⟨Mailbox.wf_spawn hw.events _, hw.entries, hw.sessions, hw.once, hw.lost, ?_, ?_⟩
    · simp only [Mailbox.spawn, hsame]
      exact hw.closedOnce
    · simp only [Mailbox.spawn, hsame]
      exact hw.closed
  | sentEvent hsend =>
    have hwf := Mailbox.wf_send hw.events hsend
    obtain ⟨_, _, _, rfl⟩ := Mailbox.send_eq_some hsend
    exact mailed_of_frame hw rfl hwf rfl hw.entries rfl rfl
  | sentEntry hsend =>
    have hwf := Mailbox.wf_send hw.entries hsend
    obtain ⟨_, _, _, rfl⟩ := Mailbox.send_eq_some hsend
    exact mailed_of_frame hw rfl hw.events rfl hwf rfl rfl
  | receivedEvent hreceive hlogs =>
    have hwf := Mailbox.wf_receive hw.events hreceive
    obtain ⟨_, _, rfl⟩ := Mailbox.receive_eq_some hreceive
    exact mailed_of_frame hw rfl hwf rfl hw.entries rfl rfl
  | receivedEntry hreceive hlogs =>
    have hwf := Mailbox.wf_receive hw.entries hreceive
    obtain ⟨_, _, rfl⟩ := Mailbox.receive_eq_some hreceive
    exact mailed_of_frame hw rfl hw.events rfl hwf rfl rfl
  | own hadds hlogs => exact mailed_of_frame hw rfl hw.events rfl hw.entries rfl rfl

theorem mailed_of_reach (h : Reach (Steps (next maxLogs)) .start w) : w.Mailed :=
  h.invariant_steps (fun _ _ _ => mailed_of_next) mailed_start

def Fed (maxLogs : Nat) (w : Application) : Prop :=
  w.logs.Fed maxLogs (w.events.received.map Prod.snd) (w.entries.received.map Prod.snd)

theorem received_of_sends {k : Nat} {act : ThreadAction} {now : Str} {thread : ProxyThread}
    (w : Application) :
    ((w.spawnLogs k thread act now).dropSends k act).events.received = w.events.received ∧
      ((w.spawnLogs k thread act now).dropSends k act).entries.received =
        w.entries.received := by
  have hspawned : (w.spawnLogs k thread act now).events.received = w.events.received ∧
      (w.spawnLogs k thread act now).entries.received = w.entries.received := by
    unfold spawnLogs
    constructor
    · cases thread.message? act <;> rfl
    · cases ProxyThread.said? act <;> rfl
  unfold dropSends
  split <;> exact hspawned

theorem added_of_own {step : LogWorldStep} (hadds : ¬ step.Adds) :
    step.addedEvents = [] ∧ step.addedEntries = [] := by
  cases step with
  | eventLoop => exact ⟨rfl, rfl⟩
  | event step =>
    cases step with
    | addEntry entry => exact (hadds trivial).elim
    | _ => exact ⟨rfl, rfl⟩
  | proxy step =>
    cases step with
    | addEntry entry => exact (hadds trivial).elim
    | _ => exact ⟨rfl, rfl⟩

theorem fed_of_next (hw : w.Fed maxLogs) (h : w.next maxLogs act = some w') : w'.Fed maxLogs := by
  cases appStep_of_next h with
  | toggled host port =>
    obtain ⟨hevents, hentries, hlogs⟩ := channels_handleEvent w host port
    rw [Fed, hevents, hentries, hlogs]
    exact hw
  | moved hthread hnext =>
    rw [Fed, logs_of_sends, (received_of_sends _).1, (received_of_sends _).2]
    exact hw
  | reported event now => exact hw
  | sentEvent hsend =>
    obtain ⟨_, _, _, rfl⟩ := Mailbox.send_eq_some hsend
    exact hw
  | sentEntry hsend =>
    obtain ⟨_, _, _, rfl⟩ := Mailbox.send_eq_some hsend
    exact hw
  | receivedEvent hreceive hlogs =>
    have hfed := LogWorld.fed_of_next hw hlogs
    obtain ⟨_, _, rfl⟩ := Mailbox.receive_eq_some hreceive
    simp only [LogWorldStep.addedEvents, LogWorldStep.addedEntries, LogStep.added,
      List.append_nil] at hfed
    rw [Fed, List.map_append]
    exact hfed
  | receivedEntry hreceive hlogs =>
    have hfed := LogWorld.fed_of_next hw hlogs
    obtain ⟨_, _, rfl⟩ := Mailbox.receive_eq_some hreceive
    simp only [LogWorldStep.addedEvents, LogWorldStep.addedEntries, LogStep.added,
      List.append_nil] at hfed
    rw [Fed, List.map_append]
    exact hfed
  | own hadds hlogs =>
    have hfed := LogWorld.fed_of_next hw hlogs
    rw [(added_of_own hadds).1, (added_of_own hadds).2, List.append_nil, List.append_nil] at hfed
    exact hfed

theorem fed_of_reach (h : Reach (Steps (next maxLogs)) .start w) : w.Fed maxLogs :=
  h.invariant_steps (fun _ _ _ => fed_of_next) (LogWorld.fed_start maxLogs)

theorem received_sublist {α : Type} {m : Mailbox α} (hm : m.Wf) :
    m.received.Sublist (m.sent ++ m.pending ++ m.cancelled) := by
  rw [← hm.fifo, List.append_assoc, List.append_assoc]
  exact List.sublist_append_left _ _

def ClearFree (_ : Application) : AppAction → Prop
  | .logs step => LogWorld.ClearFree step
  | _ => True

instance (w : Application) (act : AppAction) : Decidable (w.ClearFree act) :=
  match act with
  | .logs step => inferInstanceAs (Decidable (LogWorld.ClearFree step))
  | .handleEvent _ _ => isTrue trivial
  | .thread _ _ _ => isTrue trivial
  | .mainEvent _ _ => isTrue trivial
  | .sendEvent _ => isTrue trivial
  | .sendEntry _ => isTrue trivial
  | .receiveEvent => isTrue trivial
  | .receiveEntry => isTrue trivial

/-- With no clears the proxy log holds the newest of what its handler has received. -/
def Whole (maxLogs : Nat) (w : Application) : Prop :=
  w.logs.Whole maxLogs (w.entries.received.map Prod.snd)

theorem whole_of_next (hw : w.Whole maxLogs) (hfree : w.ClearFree act)
    (h : w.next maxLogs act = some w') : w'.Whole maxLogs := by
  cases appStep_of_next h with
  | toggled host port =>
    obtain ⟨_, hentries, hlogs⟩ := channels_handleEvent w host port
    rw [Whole, hentries, hlogs]
    exact hw
  | moved hthread hnext =>
    rw [Whole, logs_of_sends, (received_of_sends _).2]
    exact hw
  | reported event now => exact hw
  | sentEvent hsend => exact hw
  | sentEntry hsend =>
    obtain ⟨_, _, _, rfl⟩ := Mailbox.send_eq_some hsend
    exact hw
  | receivedEvent hreceive hlogs =>
    have hwhole := LogWorld.whole_of_next hw (by trivial) hlogs
    simp only [LogWorldStep.addedEntries, List.append_nil] at hwhole
    exact hwhole
  | receivedEntry hreceive hlogs =>
    have hwhole := LogWorld.whole_of_next hw (by trivial) hlogs
    obtain ⟨_, _, rfl⟩ := Mailbox.receive_eq_some hreceive
    rw [Whole, List.map_append]
    exact hwhole
  | own hadds hlogs =>
    have hwhole := LogWorld.whole_of_next hw hfree hlogs
    rw [(added_of_own hadds).2, List.append_nil] at hwhole
    exact hwhole

theorem whole_of_reach (h : Reach (Allowed (next maxLogs) ClearFree) .start w) :
    w.Whole maxLogs :=
  h.invariant_allowed (fun _ _ _ => whole_of_next) (LogWorld.whole_start maxLogs)

/-- A stretch of the received entries is of different sessions, and each has logged its own. -/
theorem rows_of_infix (hw : w.Mailed) {rows : List ((Nat × Nat) × ProxyLogEntry)}
    (hrows : rows <:+: w.entries.received) : (rows.map Prod.fst).Nodup ∧
      ∀ k i entry, ((k, i), entry) ∈ rows → w.Logged k i entry := by
  have hsub := hrows.sublist.trans (received_sublist hw.entries)
  constructor
  · have hall := (hw.entries.conserved.map Prod.fst).nodup_iff.mpr hw.once
    exact hall.sublist (hsub.map Prod.fst)
  · intro k i entry hmem
    exact (hw.sessions k i entry).mp (hw.entries.conserved.subset (hsub.subset hmem))

theorem not_panicked_of_logged (hkept : w.Kept) {k i : Nat} {entry : ProxyLogEntry}
    (h : w.Logged k i entry) : ∃ thread, w.threads[k]? = some thread ∧
      thread.logged[i]? = some (some entry) ∧ thread.entry.tasks[i]? ≠ some .panicked := by
  obtain ⟨thread, hthread, hlogged⟩ := h
  refine ⟨thread, hthread, hlogged, ?_⟩
  intro hpanicked
  have hnone := (hkept thread (List.mem_of_getElem? hthread)).panicked i hpanicked
  rw [hlogged] at hnone
  cases hnone

/-- The threads of the events received, without repetition. -/
theorem closers_of_infix (hw : w.Mailed) {rows : List (Option Nat × EventLog)}
    (hrows : rows <:+: w.events.received) : (closers rows).Nodup ∧
      ∀ tag ∈ closers rows, ∃ k, tag = some k ∧ w.IsClosed k := by
  have hsub := hrows.sublist.trans (received_sublist hw.events)
  have hclosers : (closers rows).Sublist
      (closers (w.events.sent ++ w.events.pending ++ w.events.cancelled)) :=
    (hsub.filter _).map Prod.fst
  have hperm : (closers (w.events.sent ++ w.events.pending ++ w.events.cancelled)).Perm
      (closers w.events.spawned) := (hw.events.conserved.filter _).map Prod.fst
  refine ⟨(hperm.nodup_iff.mpr hw.closedOnce).sublist hclosers, ?_⟩
  intro tag htag
  exact hw.closed tag (hperm.subset (hclosers.subset htag))

theorem exists_closers {tags : List (Option Nat)}
    (h : ∀ tag ∈ tags, ∃ k, tag = some k ∧ w.IsClosed k) :
    ∃ ks : List Nat, tags = ks.map some ∧ ∀ k ∈ ks, w.IsClosed k := by
  induction tags with
  | nil => exact ⟨[], rfl, fun k hk => by cases hk⟩
  | cons tag tags ih =>
    obtain ⟨k, rfl, hk⟩ := h tag List.mem_cons_self
    obtain ⟨ks, rfl, hks⟩ := ih fun other hother => h other (List.mem_cons_of_mem _ hother)
    refine ⟨k :: ks, rfl, ?_⟩
    intro j hj
    rcases List.mem_cons.mp hj with rfl | hj
    · exact hk
    · exact hks j hj

theorem length_closers (rows : List (Option Nat × EventLog)) :
    (closers rows).length = ((rows.map Prod.snd).filter fun event => event.Closes).length := by
  rw [closers, List.length_map, List.filter_map, List.length_map]
  rfl

end Application

/-- In every interleaving the rows of the proxy table are entries of sessions that have not
panicked, no two of one session, in the order in which the handler received them, and no more
than there is room for. -/
theorem proxyTable_logged (maxLogs : Nat) (w : Application)
    (h : Reach (Steps (Application.next maxLogs)) .start w) :
    ∃ rows : List ((Nat × Nat) × ProxyLogEntry), rows.map Prod.snd = w.logs.gui.proxyLogs ∧
      rows <:+: w.entries.received ∧ rows.length ≤ maxLogs ∧ (rows.map Prod.fst).Nodup ∧
      ∀ k i entry, ((k, i), entry) ∈ rows → ∃ thread, w.threads[k]? = some thread ∧
        thread.logged[i]? = some (some entry) ∧ thread.entry.tasks[i]? ≠ some .panicked := by
  obtain ⟨hstretch, hbounded⟩ := (Application.fed_of_reach h).proxyLogs
  obtain ⟨rows, hrows, heq⟩ := List.infix_map_iff.mp hstretch
  obtain ⟨hnodup, hlogged⟩ := Application.rows_of_infix (Application.mailed_of_reach h) hrows
  refine ⟨rows, heq.symm, hrows, ?_, hnodup, ?_⟩
  · rw [heq, List.length_map] at hbounded
    exact hbounded
  · intro k i entry hmem
    exact Application.not_panicked_of_logged (Application.kept_of_reach h) (hlogged k i entry hmem)

/-- In every interleaving each row of the event table that says that all connections are closed
is of another thread that has awaited all of its sessions and has none left; sending the event
and returning are one step, as there is no `await` between them. -/
theorem eventTable_closed (maxLogs : Nat) (w : Application)
    (h : Reach (Steps (Application.next maxLogs)) .start w) :
    ∃ ks : List Nat, ks.Nodup ∧
      ks.length = (w.logs.gui.logs.filter fun event => event.Closes).length ∧
      ∀ k ∈ ks, ∃ thread, w.threads[k]? = some thread ∧ thread.entry.point = .returned true ∧
        .running ∉ thread.entry.tasks := by
  obtain ⟨rows, hrows, heq⟩ := List.infix_map_iff.mp (Application.fed_of_reach h).logs.stretch
  obtain ⟨hnodup, hclosed⟩ := Application.closers_of_infix (Application.mailed_of_reach h) hrows
  obtain ⟨ks, hks, hclosed⟩ := Application.exists_closers hclosed
  refine ⟨ks, ?_, ?_, ?_⟩
  · rw [hks] at hnodup
    exact List.Nodup.of_map some hnodup
  · rw [heq, ← Application.length_closers, hks, List.length_map]
  · intro k hk
    obtain ⟨thread, hthread, hreturned⟩ := hclosed k hk
    have hkept := Application.kept_of_reach h thread (List.mem_of_getElem? hthread)
    exact ⟨thread, hthread, hreturned, ProxyThread.ended_of_returned hkept (Or.inl hreturned)⟩

/-- In a run with no clears, when all is quiet, the proxy table shows the newest of the entries
received; they are those of all sessions, once each, but for the sessions of threads whose
runtime was dropped ahead of the send. -/
theorem proxyTable_complete (maxLogs : Nat) (w : Application)
    (h : Reach (Allowed (Application.next maxLogs) Application.ClearFree) .start w)
    (hidle : w.logs.Idle) (hquiet : w.entries.Quiet) :
    w.logs.gui.proxyLogs = (w.entries.received.map Prod.snd).rtake maxLogs ∧
      (w.entries.received.map Prod.fst).Nodup ∧
      ∀ k i entry, w.Logged k i entry ↔ ((k, i), entry) ∈ w.entries.received ∨
        ((k, i), entry) ∈ w.entries.cancelled ∧ w.IsOver k := by
  have hreach := reach_of_allowed h
  have hmailed := Application.mailed_of_reach hreach
  have hperm := Mailbox.perm_of_quiet hmailed.entries hquiet
  refine ⟨LogWorld.proxyLogs_of_whole (Application.whole_of_reach h) hidle,
    (Application.rows_of_infix hmailed List.infix_rfl).1, ?_⟩
  intro k i entry
  rw [← hmailed.sessions k i entry, ← hperm.mem_iff, List.mem_append]
  refine or_congr_right ⟨fun hlost => ⟨hlost, hmailed.lost _ hlost⟩, And.left⟩

def shutdownEvent : EventLog :=
  ⟨"INFO".toList, "Shutdown signal received, closing all connections...".toList, "t".toList⟩

def closedEvent : EventLog := ⟨"INFO".toList, "All connections closed".toList, "t".toList⟩

/-- One session, logged and shut down; of its thread's events the last is on display. -/
def closedApplication : Application where
  running := false
  sender := some 0
  threads := [⟨.blockOn, "a:1".toList,
    ⟨.returned true, some false, [], [.finished], [.accepted 0, .shutdown]⟩,
    [some requestEntry], true⟩]
  events :=
    ⟨[(some 0, listeningEvent), (some 0, shutdownEvent), (some 0, closedEvent)],
      [(some 0, listeningEvent), (some 0, shutdownEvent)], [(some 0, closedEvent)], [],
      [(some 0, closedEvent)], []⟩
  entries := ⟨[((0, 0), requestEntry)], [], [((0, 0), requestEntry)], [],
    [((0, 0), requestEntry)], []⟩
  logs := ⟨⟨[closedEvent], none, false⟩, ⟨[requestEntry], none, false⟩, [],
    ⟨[closedEvent], [requestEntry]⟩⟩

def closedApplicationRun : List AppAction :=
  [.handleEvent "a".toList "1".toList, .thread 0 (.newRuntime true) "t".toList,
    .thread 0 (.entry (.setProxyPort true)) "t".toList,
    .thread 0 (.entry (.generateCaCertificate true)) "t".toList,
    .thread 0 (.entry .subscribe) "t".toList, .thread 0 (.entry .accept) "t".toList,
    .thread 0 (.proxyInfo 0 requestEntry) "t".toList, .thread 0 (.entry (.finish 0)) "t".toList,
    .sendEntry 0, .receiveEntry, .logs (.proxy .updateUi), .logs .eventLoop,
    .handleEvent "a".toList "1".toList, .thread 0 (.entry .shutdown) "t".toList,
    .thread 0 (.entry .await) "t".toList, .thread 0 (.entry .returnOk) "t".toList, .sendEvent 2,
    .receiveEvent, .logs (.event .updateUi), .logs .eventLoop]

theorem proxyTable_logged_closed :
    ∃ rows : List ((Nat × Nat) × ProxyLogEntry),
      rows.map Prod.snd = closedApplication.logs.gui.proxyLogs ∧
      rows <:+: closedApplication.entries.received ∧ rows.length ≤ 100 ∧
      (rows.map Prod.fst).Nodup ∧ ∀ k i entry, ((k, i), entry) ∈ rows → ∃ thread,
        closedApplication.threads[k]? = some thread ∧
        thread.logged[i]? = some (some entry) ∧ thread.entry.tasks[i]? ≠ some .panicked :=
  proxyTable_logged 100 closedApplication (reach_runLabels closedApplicationRun rfl)

theorem eventTable_closed_closed :
    ∃ ks : List Nat, ks.Nodup ∧ ks.length =
        (closedApplication.logs.gui.logs.filter fun event => event.Closes).length ∧
      ∀ k ∈ ks, ∃ thread, closedApplication.threads[k]? = some thread ∧
        thread.entry.point = .returned true ∧ .running ∉ thread.entry.tasks :=
  eventTable_closed 100 closedApplication (reach_runLabels closedApplicationRun rfl)

theorem proxyTable_complete_closed :
    closedApplication.logs.gui.proxyLogs =
      (closedApplication.entries.received.map Prod.snd).rtake 100 ∧
    (closedApplication.entries.received.map Prod.fst).Nodup ∧
    ∀ k i entry, closedApplication.Logged k i entry ↔
      ((k, i), entry) ∈ closedApplication.entries.received ∨
        ((k, i), entry) ∈ closedApplication.entries.cancelled ∧ closedApplication.IsOver k :=
  proxyTable_complete 100 closedApplication (reach_runLabels closedApplicationRun rfl)
    ⟨⟨rfl, rfl⟩, ⟨rfl, rfl⟩, rfl⟩ ⟨rfl, rfl⟩

end AppComponts
