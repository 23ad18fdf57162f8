import AppComponts.LogDelivery
import AppComponts.Shutdown

/-!
# The application comes to rest

When nobody toggles, connects or clears any more, the proxies, their sessions and the log
entries of both come to rest in whatever order they go on. If every session that is running
comes to an end by itself, a thread that is then left is in its accept loop, and if it was asked
to stop it is one that subscribed too late to hear of it.
-/

namespace AppComponts
open Text Transition
set_option autoImplicit false

/-- How many steps `entry` has ahead of it, sessions apart. -/
def EntryPoint.rank : EntryPoint → Nat
  | .setProxyPort => 5
  | .generateCaCertificate => 4
  | .subscribe => 3
  | .select => 2
  | .closing => 1
  | .returned _ => 0

namespace EntryRun
variable {w w' : EntryRun} {act : EntryAction}

/-- A handle is awaited, and a running session ends. -/
def rank (w : EntryRun) : Nat :=
  w.point.rank + w.activeConnections.length + w.tasks.count .running

theorem rank_of_next (haccept : act ≠ .accept ∧ act ≠ .acceptFailed) (hsignal : act ≠ .signal)
    (h : w.next act = some w') : w'.rank < w.rank := by
  have hmoves {point : EntryPoint} (hlt : point.rank < w.point.rank) (receiver : Option Bool)
      (events : List EntryEvent) : rank { w with point, receiver, events } < w.rank :=
    Nat.add_lt_add_right (Nat.add_lt_add_right hlt _) _
  cases act with
  | setProxyPort ok =>
    obtain ⟨hpoint, h⟩ := Option.ite_none_right_eq_some.mp h
    cases h
    apply hmoves
    rw [hpoint]
    cases ok <;> decide
  | generateCaCertificate ok =>
    obtain ⟨hpoint, h⟩ := Option.ite_none_right_eq_some.mp h
    cases h
    apply hmoves
    rw [hpoint]
    cases ok <;> decide
  | subscribe =>
    obtain ⟨hpoint, h⟩ := Option.ite_none_right_eq_some.mp h
    cases h
    apply hmoves
    rw [hpoint]
    decide
  | accept => exact (haccept.1 rfl).elim
  | acceptFailed => exact (haccept.2 rfl).elim
  | shutdown =>
    obtain ⟨⟨hpoint, _⟩, h⟩ := Option.ite_none_right_eq_some.mp h
    cases h
    apply hmoves
    rw [hpoint]
    decide
  | signal => exact (hsignal rfl).elim
  | await =>
    obtain ⟨handle, handles, hconnections, _, _, rfl⟩ := next_await h
    simp only [rank, hconnections, List.length_cons]
    omega
  | returnOk =>
    obtain ⟨⟨hpoint, _⟩, h⟩ := Option.ite_none_right_eq_some.mp h
    cases h
    apply hmoves
    rw [hpoint]
    decide
  | finish i =>
    obtain ⟨hrunning, h⟩ := Option.ite_none_right_eq_some.mp h
    cases h
    exact Nat.add_lt_add_left
      (count_set_lt hrunning (show TaskState.finished ≠ .running by simp)) _
  | panic i =>
    obtain ⟨hrunning, h⟩ := Option.ite_none_right_eq_some.mp h
    cases h
    exact Nat.add_lt_add_left
      (count_set_lt hrunning (show TaskState.panicked ≠ .running by simp)) _

end EntryRun

namespace ProxyThread
variable {me me' : ProxyThread} {act : ThreadAction} {ends : Nat → Bool}

/-- A session that has not logged may do so yet. -/
def rank (me : ProxyThread) : Nat :=
  match me.stage with
  | .starting => me.entry.rank + me.logged.count none + 2
  | .blockOn => me.entry.rank + me.logged.count none + 1
  | .over => 0

/-- No new connection comes to the thread, and its sessions of `ends` come to an end. -/
def Winds (ends : Nat → Bool) : ThreadAction → Prop
  | .entry act => (act ≠ .accept ∧ act ≠ .acceptFailed) ∧ act.Ends ends
  | .proxyInfo i _ => ends i = true
  | .newRuntime _ => True
  | .dropRuntime => True

instance (ends : Nat → Bool) (act : ThreadAction) : Decidable (Winds ends act) :=
  match act with
  | .entry _ => inferInstanceAs (Decidable (_ ∧ _))
  | .proxyInfo i _ => inferInstanceAs (Decidable (ends i = true))
  | .newRuntime _ => isTrue trivial
  | .dropRuntime => isTrue trivial

theorem rank_of_next (hact : Winds ends act) (h : me.next act = some me') : me'.rank < me.rank := by
  cases act with
  | newRuntime ok =>
    obtain ⟨hstage, h⟩ := Option.ite_none_right_eq_some.mp h
    cases h
    simp only [rank, hstage]
    cases ok with
    | false => exact Nat.succ_pos _
    | true => exact Nat.lt_succ_self _
  | entry act =>
    obtain ⟨hstage, hdoes, entry, hnext, rfl⟩ := next_entry h
    have haccept : act ≠ .accept := hact.1.1
    have hsignal : act ≠ .signal := by
      intro heq
      subst heq
      exact hdoes
    have hlt := EntryRun.rank_of_next hact.1 hsignal hnext
    simp only [rank, hstage, if_neg haccept]
    omega
  | proxyInfo i entry =>
    obtain ⟨⟨hstage, _, hlogged⟩, h⟩ := Option.ite_none_right_eq_some.mp h
    cases h
    have hlt := count_set_lt hlogged (show some entry ≠ none by simp)
    simp only [rank, hstage]
    omega
  | dropRuntime =>
    obtain ⟨⟨hstage, _⟩, h⟩ := Option.ite_none_right_eq_some.mp h
    cases h
    simp only [rank, hstage]
    exact Nat.succ_pos _

theorem sessionsEnd_of_next (hact : Winds ends act) (h : me.next act = some me')
    (hends : me.entry.SessionsEnd ends) : me'.entry.SessionsEnd ends := by
  cases act with
  | entry act =>
    obtain ⟨_, _, entry, hnext, rfl⟩ := next_entry h
    exact (EntryRun.sessionsEnd_iff_of_next hact.2 hact.1.1 hnext).mpr hends
  | _ =>
    obtain ⟨_, h⟩ := Option.ite_none_right_eq_some.mp h
    cases h
    exact hends

/-- The thread waits for a connection or a signal, and its sessions left go on for good. -/
structure Waits (ends : Nat → Bool) (me : ProxyThread) : Prop where
  stage : me.stage = .blockOn
  point : me.entry.point = .select
  receiver : me.entry.receiver ≠ some true
  left : ∀ i : Nat, me.entry.tasks[i]? = some .running → ends i = false

/-- The thread awaits a session that goes on for good. -/
structure Awaits (ends : Nat → Bool) (me : ProxyThread) : Prop where
  stage : me.stage = .blockOn
  point : me.entry.point = .closing
  session : ∃ i ∈ me.entry.activeConnections.head?,
    me.entry.tasks[i]? = some .running ∧ ends i = false

/-- While a session of `ends` is running, it can go on to its end. -/
theorem not_ends_of_stuck (hw : me.Kept) (hstage : me.stage = .blockOn)
    (h : ∀ act, Winds ends act → me.next act = none) {i : Nat}
    (hi : me.entry.tasks[i]? = some .running) : ends i = false := by
  cases hends : ends i with
  | false => rfl
  | true =>
    have hlt : i < me.logged.length := by
      rw [hw.sessions]
      exact (List.getElem?_eq_some_iff.mp hi).1
    have hlogged := List.getElem?_eq_getElem hlt
    cases hentry : me.logged[i] with
    | none =>
      rw [hentry] at hlogged
      have hnone := h (.proxyInfo i ⟨[], [], [], [], [], [], []⟩) hends
      rw [next, if_pos ⟨hstage, hi, hlogged⟩] at hnone
      cases hnone
    | some entry =>
      rw [hentry] at hlogged
      have hnone := h (.entry (.finish i)) ⟨by simp, hends⟩
      have hdoes : me.Does (.finish i) := ⟨some entry, hlogged, rfl⟩
      rw [next, if_pos ⟨hstage, hdoes⟩, EntryRun.next, if_pos hi] at hnone
      cases hnone

/-- A thread that cannot go on is over, or it waits. -/
theorem rests_of_stuck (hw : me.Kept) (h : ∀ act, Winds ends act → me.next act = none) :
    me.stage = .over ∨ me.Waits ends ∨ me.Awaits ends := by
  cases hstage : me.stage with
  | starting =>
    have hnone := h (.newRuntime true) trivial
    rw [next, if_pos hstage] at hnone
    cases hnone
  | blockOn =>
    have hstuck (act : EntryAction) (hwinds : Winds ends (.entry act)) (hdoes : me.Does act) :
        me.entry.next act = none := by
      have hnone := h (.entry act) hwinds
      rw [next, if_pos ⟨hstage, hdoes⟩] at hnone
      exact Option.map_eq_none_iff.mp hnone
    cases hpoint : me.entry.point with
    | setProxyPort =>
      have hnone := hstuck (.setProxyPort true) ⟨by simp, trivial⟩ trivial
      rw [EntryRun.next, if_pos hpoint] at hnone
      cases hnone
    | generateCaCertificate =>
      have hnone := hstuck (.generateCaCertificate true) ⟨by simp, trivial⟩ trivial
      rw [EntryRun.next, if_pos hpoint] at hnone
      cases hnone
    | subscribe =>
      have hnone := hstuck .subscribe ⟨by simp, trivial⟩ trivial
      rw [EntryRun.next, if_pos hpoint] at hnone
      cases hnone
    | select =>
      refine Or.inr (Or.inl ⟨hstage, hpoint, ?_, fun i => not_ends_of_stuck hw hstage h⟩)
      intro hreceiver
      have hnone := hstuck .shutdown ⟨by simp, trivial⟩ trivial
      rw [EntryRun.next, if_pos ⟨hpoint, hreceiver⟩] at hnone
      cases hnone
    | closing =>
      have hclosing : me.entry.Closing := ⟨EntryRun.drains_of_reach hw.entry, Or.inl hpoint⟩
      obtain ⟨handle, hhead, hrunning⟩ := (EntryRun.waits_iff hclosing hpoint).mp
        ⟨hstuck .await ⟨by simp, trivial⟩ trivial, hstuck .returnOk ⟨by simp, trivial⟩ trivial⟩
      exact Or.inr (Or.inr
        ⟨hstage, hpoint, handle, hhead, hrunning, not_ends_of_stuck hw hstage h hrunning⟩)
    | returned ok =>
      have hreturned : me.Returned := by
        cases ok with
        | true => exact Or.inl hpoint
        | false => exact Or.inr hpoint
      have hnone := h .dropRuntime trivial
      rw [next, if_pos ⟨hstage, hreturned⟩] at hnone
      cases hnone
  | _ => exact Or.inl rfl

theorem ended_of_rests (hends : me.entry.SessionsEnd ends)
    (h : me.stage = .over ∨ me.Waits ends ∨ me.Awaits ends) :
    me.stage = .over ∨ (me.Waits ends ∧ .running ∉ me.entry.tasks) := by
  rcases h with hover | hwaits | hawaits
  · exact Or.inl hover
  · refine Or.inr ⟨hwaits, ?_⟩
    intro hmem
    obtain ⟨i, hi⟩ := List.mem_iff_getElem?.mp hmem
    have hleft := hwaits.left i hi
    rw [hends i hi] at hleft
    cases hleft
  · obtain ⟨i, _, hi, hleft⟩ := hawaits.session
    rw [hends i hi] at hleft
    cases hleft

end ProxyThread

section Load
variable {α : Type} {m : Mailbox α}

theorem load_spawn (a : α) : Mailbox.load (m.spawn a) = Mailbox.load m + 4 := by
  simp only [Mailbox.load, Mailbox.spawn, List.length_append, List.length_singleton]
  omega

theorem load_withdraw (chosen : α → Bool) :
    Mailbox.load (m.withdraw chosen) ≤ Mailbox.load m := by
  have hle := List.length_filter_le (fun a => !chosen a) m.pending
  simp only [Mailbox.load, Mailbox.withdraw]
  omega

end Load

namespace Application
variable {maxLogs : Nat} {w w' : Application} {act : AppAction} {ends : Nat → Nat → Bool}

/-- What the application does by itself, when of the sessions of its threads those of `ends`
come to an end. -/
def Winds (ends : Nat → Nat → Bool) (_ : Application) : AppAction → Prop
  | .thread k act _ => ProxyThread.Winds (ends k) act
  | .sendEvent _ => True
  | .sendEntry _ => True
  | .receiveEvent => True
  | .receiveEntry => True
  | .logs step => LogWorld.ClearFree step
  | .handleEvent _ _ => False
  | .mainEvent _ _ => False

instance (ends : Nat → Nat → Bool) (w : Application) (act : AppAction) :
    Decidable (w.Winds ends act) :=
  match act with
  | .thread k act _ => inferInstanceAs (Decidable (ProxyThread.Winds (ends k) act))
  | .sendEvent _ => isTrue trivial
  | .sendEntry _ => isTrue trivial
  | .receiveEvent => isTrue trivial
  | .receiveEntry => isTrue trivial
  | .logs step => inferInstanceAs (Decidable (LogWorld.ClearFree step))
  | .handleEvent _ _ => isFalse id
  | .mainEvent _ _ => isFalse id

/-- The assumption that every running session comes to an end. -/
def SessionsEnd (ends : Nat → Nat → Bool) (w : Application) : Prop :=
  ∀ (k : Nat) (thread : ProxyThread), w.threads[k]? = some thread →
    thread.entry.SessionsEnd (ends k)

/-- A step of a thread may log one entry, which has four steps ahead of it. -/
def effort (w : Application) : Nat :=
  w.outstanding + 5 * combined ProxyThread.rank w.threads

theorem winds_of_delivers (h : w.Delivers act) : w.Winds ends act := by
  cases act with
  | thread k act now => exact h.elim
  | handleEvent host port => exact h.elim
  | mainEvent event now => exact h.elim
  | logs step => exact h
  | _ => trivial

theorem outstanding_of_sends (w : Application) (k : Nat) (thread : ProxyThread)
    (act : ThreadAction) (now : Str) :
    ((w.spawnLogs k thread act now).dropSends k act).outstanding ≤ w.outstanding + 4 := by
  have hspawn : (w.spawnLogs k thread act now).outstanding ≤ w.outstanding + 4 := by
    simp only [spawnLogs, outstanding]
    cases act with
    | entry act =>
      simp only [ProxyThread.said?]
      cases thread.message? (.entry act) with
      | none => exact Nat.le_add_right _ _
      | some message =>
        simp only [load_spawn]
        omega
    | proxyInfo i entry =>
      simp only [ProxyThread.said?, ProxyThread.message?, load_spawn]
      omega
    | _ => exact Nat.le_add_right _ _
  refine Nat.le_trans ?_ hspawn
  unfold dropSends
  split
  · simp only [outstanding]
    have hevents := @load_withdraw _ (w.spawnLogs k thread act now).events
      fun sent => sent.1 == some k
    have hentries := @load_withdraw _ (w.spawnLogs k thread act now).entries
      fun sent => sent.1.1 == k
    omega
  · exact Nat.le_refl _

theorem effort_of_next (hact : w.Winds ends act) (h : w.next maxLogs act = some w') :
    w'.effort < w.effort := by
  have hdelivered (hdelivers : w.Delivers act) : w'.effort < w.effort := by
    obtain ⟨⟨hthreads, _⟩, hlt⟩ := onward_of_next hdelivers h
    simp only [effort, hthreads]
    omega
  cases act with
  | handleEvent host port => exact hact.elim
  | mainEvent event now => exact hact.elim
  | thread k act now =>
    cases appStep_of_next h with
    | @moved _ _ _ thread thread' hthread hnext =>
      have hrank := ProxyThread.rank_of_next hact hnext
      have hsum := combined_set ProxyThread.rank hthread (b := thread')
      have hload := outstanding_of_sends { w with threads := w.threads.set k thread' } k thread
        act now
      have hsame : outstanding { w with threads := w.threads.set k thread' } = w.outstanding :=
        rfl
      rw [hsame] at hload
      simp only [effort, threads_of_sends]
      omega
  | logs step => exact hdelivered hact
  | _ => exact hdelivered trivial

theorem sessionsEnd_of_next (hact : w.Winds ends act) (h : w.next maxLogs act = some w')
    (hends : w.SessionsEnd ends) : w'.SessionsEnd ends := by
  cases appStep_of_next h with
  | toggled host port => exact hact.elim
  | reported event now => exact hact.elim
  | @moved k _ _ thread thread' hthread hnext =>
    intro j x hx
    rw [threads_of_sends] at hx
    rcases getElem?_set_cases hx with ⟨rfl, rfl⟩ | hx
    · exact ProxyThread.sessionsEnd_of_next hact hnext (hends j thread hthread)
    · exact hends j x hx
  | _ => exact hends

theorem next_of_stuck (hstuck : Stuck (next maxLogs) (Winds ends) w) {k : Nat}
    {thread : ProxyThread} (hthread : w.threads[k]? = some thread) {act : ThreadAction}
    (hact : ProxyThread.Winds (ends k) act) : thread.next act = none := by
  have hnone := hstuck (.thread k act []) hact
  cases hnext : thread.next act with
  | none => rfl
  | some thread' =>
    simp only [next, hthread, Option.bind_eq_bind, Option.bind_some, hnext] at hnone
    cases hnone

theorem lost_iff_of_rests {ends : Nat → Bool} {thread : ProxyThread}
    (h : thread.stage = .over ∨ thread.Waits ends) :
    thread.proxy.Lost ↔ thread.stopped = true ∧ thread.stage ≠ .over := by
  constructor
  · intro hlost
    refine ⟨hlost.stopped, ?_⟩
    intro hover
    have haccepting := hlost.accepting
    simp only [ProxyThread.proxy, hover] at haccepting
    cases haccepting
  · intro hleft
    have hwaits := h.resolve_left hleft.2
    refine ⟨hleft.1, ?_, hwaits.receiver⟩
    simp only [ProxyThread.proxy, hwaits.stage, EntryRun.phase, hwaits.point]
    rfl

/-- Where no thread awaits a session, the stopped ones are over exactly if none is lost. -/
theorem stopped_over_iff (h : ∀ (k : Nat) (thread : ProxyThread), w.threads[k]? = some thread →
      thread.stage = .over ∨ thread.Waits (ends k)) :
    (∀ thread ∈ w.threads, thread.stopped = true → thread.stage = .over) ↔
      ¬ w.control.HasLost := by
  constructor
  · intro hover hlost
    obtain ⟨me, hme, hlost⟩ := hlost
    obtain ⟨thread, hthread, rfl⟩ := List.mem_map.mp hme
    obtain ⟨k, hk⟩ := List.mem_iff_getElem?.mp hthread
    obtain ⟨hstopped, hleft⟩ := (lost_iff_of_rests (h k thread hk)).mp hlost
    exact hleft (hover thread hthread hstopped)
  · intro hnone thread hthread hstopped
    obtain ⟨k, hk⟩ := List.mem_iff_getElem?.mp hthread
    by_cases hover : thread.stage = .over
    · exact hover
    · exact (hnone ⟨thread.proxy, List.mem_map_of_mem hthread,
        (lost_iff_of_rests (h k thread hk)).mpr ⟨hstopped, hover⟩⟩).elim

end Application

/-- From every state of the application what it does by itself comes to rest within its effort,
in whatever order it goes on. Then no entry is on its way, each thread is over, waits or awaits a
session that goes on for good, and with the toggle off all threads were asked to stop. If every
session that is running comes to an end, none is left, and the threads that were asked to stop
are over exactly if none of them subscribed behind the request. -/
theorem application_windsDown (maxLogs : Nat) (ends : Nat → Nat → Bool) (w : Application)
    (h : Reach (Steps (Application.next maxLogs)) .start w) :
    (∀ acts w', runLabels (Application.next maxLogs) (Application.Winds ends) w acts = some w' →
      acts.length ≤ w.effort) ∧
    (∃ w', Reach (Allowed (Application.next maxLogs) (Application.Winds ends)) w w' ∧
      Stuck (Application.next maxLogs) (Application.Winds ends) w') ∧
    ∀ w', Reach (Allowed (Application.next maxLogs) (Application.Winds ends)) w w' →
      Stuck (Application.next maxLogs) (Application.Winds ends) w' →
      (w'.logs.Idle ∧ w'.events.Quiet ∧ w'.entries.Quiet) ∧
      (∀ (k : Nat) (thread : ProxyThread), w'.threads[k]? = some thread →
        thread.stage = .over ∨ thread.Waits (ends k) ∨ thread.Awaits (ends k)) ∧
      (w'.running = false → ∀ thread ∈ w'.threads, thread.stopped = true) ∧
      (w.SessionsEnd ends →
        (∀ (k : Nat) (thread : ProxyThread), w'.threads[k]? = some thread →
          thread.stage = .over ∨ (thread.Waits (ends k) ∧ .running ∉ thread.entry.tasks)) ∧
        ((∀ thread ∈ w'.threads, thread.stopped = true → thread.stage = .over) ↔
          Reach (Allowed (Application.next maxLogs) Application.Prompt) .start w')) := by
  have hlower (v : Application) (act : AppAction) (v' : Application) (_ : True)
      (hact : v.Winds ends act) (hnext : v.next maxLogs act = some v') :
      True ∧ v'.effort < v.effort :=
    ⟨trivial, Application.effort_of_next hact hnext⟩
  refine ⟨?_, exists_stuck_of_measure Application.effort hlower w trivial, ?_⟩
  · intro acts w' hrun
    have hle := length_le_of_measure Application.effort hlower acts trivial hrun
    exact Nat.le_trans (Nat.le_add_right _ _) hle
  · intro w' hreach hstuck
    have hstart := h.trans (reach_of_allowed hreach)
    have hkept := Application.kept_of_reach hstart
    have hrests : ∀ (k : Nat) (thread : ProxyThread), w'.threads[k]? = some thread →
        thread.stage = .over ∨ thread.Waits (ends k) ∨ thread.Awaits (ends k) := by
      intro k thread hthread
      exact ProxyThread.rests_of_stuck (hkept thread (List.mem_of_getElem? hthread))
        fun act hact => Application.next_of_stuck hstuck hthread hact
    have htracked : w'.control.Tracked :=
      ((Application.abstracts_control maxLogs).reach Application.kept_start hstart).invariant_steps
        ProxyWorld.prompt_exact.inv_step ProxyWorld.tracked_start
    have hnone : ¬ Application.start.control.HasLost := by
      intro hlost
      obtain ⟨me, hmem, _⟩ := hlost
      cases hmem
    have hidle : Stuck (Application.next maxLogs) Application.Delivers w' :=
      fun act hact => hstuck act (Application.winds_of_delivers hact)
    refine ⟨Application.quiet_of_stuck hidle, hrests, ?_, ?_⟩
    · intro hoff thread hthread
      exact htracked.off hoff thread.proxy (List.mem_map_of_mem hthread)
    · intro hends
      have hends' : w'.SessionsEnd ends := hreach.invariant_allowed
        (fun _ _ _ hv hact hnext => Application.sessionsEnd_of_next hact hnext hv) hends
      have hended := fun k thread hthread =>
        ProxyThread.ended_of_rests (hends' k thread hthread) (hrests k thread hthread)
      refine ⟨hended, ?_⟩
      rw [Application.stopped_over_iff fun k thread hthread =>
        (hended k thread hthread).imp id And.left]
      exact (Application.prompt_exact maxLogs).not_bad_iff
        ⟨Application.kept_start, ProxyWorld.tracked_start⟩ hnone hstart

/-- What `stoppedApplication` has ahead of it; its events are dropped with its runtime. -/
def stoppedApplicationEnd : List AppAction :=
  [.thread 0 (.entry .shutdown) "t".toList, .thread 0 (.entry .returnOk) "t".toList,
    .sendEvent 2, .receiveEvent, .thread 0 .dropRuntime "t".toList, .logs (.event .updateUi),
    .logs .eventLoop]

theorem application_windsDown_stopped :
    stoppedApplicationEnd.length ≤ stoppedApplication.effort ∧
      ∃ w', Reach (Allowed (Application.next 100) (Application.Winds fun _ _ => true))
          stoppedApplication w' ∧
        Stuck (Application.next 100) (Application.Winds fun _ _ => true) w' ∧
        ∀ thread ∈ w'.threads, thread.stage = .over ∨ .running ∉ thread.entry.tasks := by
  have hsteps : Reach (Steps (Application.next 100)) .start stoppedApplication :=
    reach_runLabels stoppedApplicationRun rfl
  obtain ⟨hbound, ⟨w', hreach, hstuck⟩, hrest⟩ :=
    application_windsDown 100 (fun _ _ => true) stoppedApplication hsteps
  refine ⟨hbound stoppedApplicationEnd { stoppedApplication with
    threads := [⟨.over, "a:1".toList,
      ⟨.returned true, some false, [], [], [.shutdown]⟩, [], true⟩]
    events := ⟨[(some 0, listeningEvent), (some 0, shutdownEvent), (some 0, closedEvent)], [],
      [(some 0, closedEvent)], [], [(some 0, closedEvent)],
      [(some 0, listeningEvent), (some 0, shutdownEvent)]⟩
    logs := ⟨⟨[closedEvent], none, false⟩, ⟨[], none, false⟩, [], ⟨[closedEvent], []⟩⟩ } rfl,
    w', hreach, hstuck, ?_⟩
  intro thread hthread
  obtain ⟨k, hk⟩ := List.mem_iff_getElem?.mp hthread
  obtain ⟨_, _, _, hends⟩ := hrest w' hreach hstuck
  exact ((hends fun _ _ _ _ _ => rfl).1 k thread hk).imp id And.right

end AppComponts
