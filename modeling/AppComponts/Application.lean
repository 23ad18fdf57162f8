import AppComponts.Connections
import AppComponts.LogSends

/-!
# The application

The toggle, the threads of the proxies with their sessions, the two channels of log entries,
the two log handlers and the event loop, in any interleaving. Each thread has a runtime of
its own, which is dropped behind `block_on` with the log entries it has yet to send. From
the application the toggle and its proxies are seen as in `ProxyWorld`.
-/

namespace AppComponts
open Text Transition
set_option autoImplicit false

/-- The thread of a proxy creates its runtime, is inside of `block_on`, or is over. -/
inductive ThreadStage where
  | starting
  | blockOn
  | over
  deriving DecidableEq, Repr

/-- `logged` is what the sessions have passed to `proxy_info!`, by the numbers of their
tasks; `stopped` records that the toggle has asked this proxy to stop. -/
structure ProxyThread where
  stage : ThreadStage
  addr : Str
  entry : EntryRun
  logged : List (Option ProxyLogEntry)
  stopped : Bool
  deriving DecidableEq, Repr

inductive ThreadAction where
  | newRuntime (ok : Bool)
  | entry (act : EntryAction)
  | proxyInfo (session : Nat) (entry : ProxyLogEntry)
  | dropRuntime
  deriving DecidableEq, Repr

namespace ProxyThread

def spawn (host port : Str) : ProxyThread :=
  ⟨.starting, host ++ ":".toList ++ port, .start, [], false⟩

def signal (me : ProxyThread) : ProxyThread :=
  { me with
    entry := { me.entry with receiver := me.entry.receiver.map fun _ => true }, stopped := true }

/-- A session logs at its end; if it panics it has not logged. The signal is not a step of
the thread. -/
def Does (me : ProxyThread) : EntryAction → Prop
  | .finish i => ∃ entry ∈ me.logged[i]?, entry.isSome = true
  | .panic i => me.logged[i]? = some none
  | .signal => False
  | _ => True

instance (me : ProxyThread) (act : EntryAction) : Decidable (me.Does act) :=
  match act with
  | .finish i => inferInstanceAs (Decidable (∃ entry ∈ me.logged[i]?, entry.isSome = true))
  | .panic i => inferInstanceAs (Decidable (me.logged[i]? = some none))
  | .signal => isFalse id
  | .setProxyPort _ => isTrue trivial
  | .generateCaCertificate _ => isTrue trivial
  | .subscribe => isTrue trivial
  | .accept => isTrue trivial
  | .acceptFailed => isTrue trivial
  | .shutdown => isTrue trivial
  | .await => isTrue trivial
  | .returnOk => isTrue trivial

def Returned (me : ProxyThread) : Prop :=
  me.entry.point = .returned true ∨ me.entry.point = .returned false

instance (me : ProxyThread) : Decidable me.Returned := inferInstanceAs (Decidable (_ ∨ _))

def next (me : ProxyThread) : ThreadAction → Option ProxyThread
  | .newRuntime ok =>
    if me.stage = .starting then some { me with stage := if ok then .blockOn else .over } else none
  | .entry act =>
    if me.stage = .blockOn ∧ me.Does act then
      (me.entry.next act).map fun entry =>
        { me with
          entry := entry, logged := if act = .accept then me.logged ++ [none] else me.logged }
    else none
  | .proxyInfo i entry =>
    if me.stage = .blockOn ∧ me.entry.tasks[i]? = some .running ∧ me.logged[i]? = some none then
      some { me with logged := me.logged.set i (some entry) }
    else none
  | .dropRuntime =>
    if me.stage = .blockOn ∧ me.Returned then some { me with stage := .over } else none

/-- The message of the `event_info!` that comes with a step. -/
def message? (me : ProxyThread) : ThreadAction → Option Str
  | .entry (.setProxyPort true) => some ("[+] Listening on ".toList ++ me.addr ++ ['\n'])
  | .entry .shutdown => some "Shutdown signal received, closing all connections...".toList
  | .entry .returnOk => some "All connections closed".toList
  | _ => none

/-- The entry of the `proxy_info!` that comes with a step, and the number of its session. -/
def said? : ThreadAction → Option (Nat × ProxyLogEntry)
  | .proxyInfo i entry => some (i, entry)
  | _ => none

def proxy (me : ProxyThread) : Proxy where
  phase := match me.stage with
    | .starting => .threadStart
    | .blockOn => me.entry.phase
    | .over => .terminated
  receiver := me.entry.receiver
  stopped := me.stopped

end ProxyThread

/-- What the rest of the application logs: its start, and how the export of the certificate
went. -/
inductive MainEvent where
  | appRunning
  | certSaved (path : Str)
  | certNotSaved (error : Str)
  deriving DecidableEq, Repr

def MainEvent.log : MainEvent → Str → EventLog
  | .appRunning, now => ⟨"INFO".toList, "APP RUNNING...".toList, now⟩
  | .certSaved path, now => ⟨"INFO".toList, "证书已保存到: ".toList ++ path, now⟩
  | .certNotSaved error, now => ⟨"ERROR".toList, "保存证书失败: ".toList ++ error, now⟩

/-- Events are tagged with the thread on whose runtime they are sent, `none` for that of the
application; entries of the proxy log with their thread and session. -/
structure Application where
  running : Bool
  sender : Option Nat
  threads : List ProxyThread
  events : Mailbox (Option Nat × EventLog)
  entries : Mailbox ((Nat × Nat) × ProxyLogEntry)
  logs : LogWorld
  deriving DecidableEq, Repr

/-- `now` is the time of the log entry that comes with a step. -/
inductive AppAction where
  | handleEvent (host port : Str)
  | thread (k : Nat) (act : ThreadAction) (now : Str)
  | mainEvent (event : MainEvent) (now : Str)
  | sendEvent (i : Nat)
  | sendEntry (i : Nat)
  | receiveEvent
  | receiveEntry
  | logs (step : LogWorldStep)
  deriving DecidableEq, Repr

def LogWorldStep.Adds : LogWorldStep → Prop
  | .event (.addEntry _) => True
  | .proxy (.addEntry _) => True
  | _ => False

instance (step : LogWorldStep) : Decidable step.Adds :=
  match step with
  | .event (.addEntry _) => isTrue trivial
  | .proxy (.addEntry _) => isTrue trivial
  | .event .updateUi => isFalse id
  | .event .clear => isFalse id
  | .event .clearUi => isFalse id
  | .proxy .updateUi => isFalse id
  | .proxy .clear => isFalse id
  | .proxy .clearUi => isFalse id
  | .eventLoop => isFalse id

namespace Application

def start : Application := ⟨false, none, [], .empty, .empty, .start⟩

def handleEvent (w : Application) (host port : Str) : Application :=
  if w.running then
    { w with
      running := false
      threads := match w.sender with
        | none => w.threads
        | some k => match w.threads[k]? with
          | none => w.threads
          | some thread => w.threads.set k thread.signal }
  else
    { w with
      running := true
      sender := some w.threads.length
      threads := w.threads ++ [.spawn host port] }

def spawnLogs (w : Application) (k : Nat) (thread : ProxyThread) (act : ThreadAction)
    (now : Str) : Application :=
  { w with
    events := match thread.message? act with
      | none => w.events
      | some message => w.events.spawn (some k, ⟨"INFO".toList, message, now⟩)
    entries := match ProxyThread.said? act with
      | none => w.entries
      | some (i, entry) => w.entries.spawn ((k, i), entry) }

/-- With its runtime the unsent entries of a thread are dropped. -/
def dropSends (w : Application) (k : Nat) (act : ThreadAction) : Application :=
  if act = .dropRuntime then
    { w with
      events := w.events.withdraw fun sent => sent.1 == some k
      entries := w.entries.withdraw fun sent => sent.1.1 == k }
  else w

def next (maxLogs : Nat) (w : Application) : AppAction → Option Application
  | .handleEvent host port => some (w.handleEvent host port)
  | .thread k act now => do
    let thread ← w.threads[k]?
    let thread' ← thread.next act
    let moved := { w with threads := w.threads.set k thread' }
    return (moved.spawnLogs k thread act now).dropSends k act
  | .mainEvent event now => some { w with events := w.events.spawn (none, event.log now) }
  | .sendEvent i => (w.events.send 1000 i).map fun events => { w with events := events }
  | .sendEntry i => (w.entries.send 1000 i).map fun entries => { w with entries := entries }
  | .receiveEvent => do
    let (sent, events) ← w.events.receive
    let logs ← w.logs.next maxLogs (.event (.addEntry sent.2))
    return { w with events := events, logs := logs }
  | .receiveEntry => do
    let (sent, entries) ← w.entries.receive
    let logs ← w.logs.next maxLogs (.proxy (.addEntry sent.2))
    return { w with entries := entries, logs := logs }
  | .logs step =>
    if step.Adds then none else (w.logs.next maxLogs step).map fun logs => { w with logs := logs }

def control (w : Application) : ProxyWorld := ⟨w.running, w.sender, w.threads.map (·.proxy)⟩

end Application

def EntryAction.turn? : EntryAction → Option Turn
  | .setProxyPort ok => some (if ok then .ok else .fail)
  | .generateCaCertificate ok => some (if ok then .ok else .fail)
  | .subscribe => some .ok
  | .accept => some .ok
  | .shutdown => some .shutdown
  | .await => some .ok
  | .returnOk => some .ok
  | _ => none

def ThreadAction.turn? : ThreadAction → Option Turn
  | .newRuntime ok => some (if ok then .ok else .fail)
  | .entry act => act.turn?
  | _ => none

def AppAction.control? : AppAction → Option ProxyAction
  | .handleEvent _ _ => some .toggle
  | .thread k act _ => act.turn?.map fun turn => .step k turn
  | _ => none

namespace EntryRun
variable {w w' : EntryRun} {act : EntryAction}

/-- Ahead of its accept loop `entry` has no tasks, and none if it fails there. -/
def Early (w : EntryRun) : Prop := w.point.isOpening = true ∨ w.point = .returned false

theorem early_of_next (hpoint : w'.Early) (h : w.next act = some w') :
    w.Early ∧ act ≠ .accept := by
  cases act with
  | setProxyPort ok =>
    obtain ⟨hw, h⟩ := Option.ite_none_right_eq_some.mp h
    exact ⟨Or.inl (by rw [hw]; rfl), by simp⟩
  | generateCaCertificate ok =>
    obtain ⟨hw, h⟩ := Option.ite_none_right_eq_some.mp h
    exact ⟨Or.inl (by rw [hw]; rfl), by simp⟩
  | subscribe =>
    obtain ⟨hw, h⟩ := Option.ite_none_right_eq_some.mp h
    exact ⟨Or.inl (by rw [hw]; rfl), by simp⟩
  | accept =>
    obtain ⟨hw, h⟩ := Option.ite_none_right_eq_some.mp h
    cases h
    simp [Early, hw, EntryPoint.isOpening] at hpoint
  | shutdown =>
    obtain ⟨_, h⟩ := Option.ite_none_right_eq_some.mp h
    cases h
    simp [Early, EntryPoint.isOpening] at hpoint
  | returnOk =>
    obtain ⟨_, h⟩ := Option.ite_none_right_eq_some.mp h
    cases h
    simp [Early, EntryPoint.isOpening] at hpoint
  | await =>
    obtain ⟨handle, handles, _, _, _, rfl⟩ := next_await h
    exact ⟨hpoint, by simp⟩
  | signal =>
    cases h
    exact ⟨hpoint, by simp⟩
  | _ =>
    obtain ⟨_, h⟩ := Option.ite_none_right_eq_some.mp h
    cases h
    exact ⟨hpoint, by simp⟩

theorem tasks_of_early (h : Reach (Steps next) .start w) (hpoint : w.Early) : w.tasks = [] := by
  refine h.invariant_steps (P := fun w => w.Early → w.tasks = []) ?_ (fun _ => rfl) hpoint
  intro v act v' hv hnext hearly
  obtain ⟨hearly, hact⟩ := early_of_next hearly hnext
  rw [tasks_of_next hnext]
  have hnil := hv hearly
  cases act with
  | accept => exact (hact rfl).elim
  | finish i => rw [tasksAfter, hnil, List.set_nil]
  | panic i => rw [tasksAfter, hnil, List.set_nil]
  | _ => exact hnil

/-- Ahead of its `subscribe` the toggle sees no other step. -/
theorem subscribe_of_next (hpoint : w.point = .subscribe) (h : w.next act = some w')
    (hturn : act.turn? ≠ none) : act = .subscribe := by
  cases act with
  | subscribe => rfl
  | acceptFailed => exact (hturn rfl).elim
  | finish i => exact (hturn rfl).elim
  | panic i => exact (hturn rfl).elim
  | signal => exact (hturn rfl).elim
  | await =>
    obtain ⟨_, _, _, hclosing, _, _⟩ := next_await h
    rw [hpoint] at hclosing
    cases hclosing
  | _ => simp [next, hpoint] at h

end EntryRun

namespace ProxyThread
variable {me me' : ProxyThread} {act : ThreadAction}

structure Kept (me : ProxyThread) : Prop where
  entry : Reach (Steps EntryRun.next) .start me.entry
  starting : me.stage = .starting → me.entry.point = .setProxyPort
  ended : me.stage = .over → .running ∉ me.entry.tasks
  sessions : me.logged.length = me.entry.tasks.length
  finished : ∀ i : Nat, me.entry.tasks[i]? = some .finished →
    ∃ entry, me.logged[i]? = some (some entry)
  panicked : ∀ i : Nat, me.entry.tasks[i]? = some .panicked → me.logged[i]? = some none

theorem kept_spawn (host port : Str) : (spawn host port).Kept where
  entry := .refl
  starting _ := rfl
  ended h := by cases h
  sessions := rfl
  finished i h := by cases h
  panicked i h := by cases h

theorem kept_signal (h : me.Kept) : me.signal.Kept where
  entry := h.entry.tail ⟨.signal, trivial, rfl⟩
  starting := h.starting
  ended := h.ended
  sessions := h.sessions
  finished := h.finished
  panicked := h.panicked

theorem next_entry {act : EntryAction} (h : me.next (.entry act) = some me') :
    me.stage = .blockOn ∧ me.Does act ∧ ∃ entry, me.entry.next act = some entry ∧
      me' = { me with
        entry := entry, logged := if act = .accept then me.logged ++ [none] else me.logged } := by
  obtain ⟨⟨hstage, hdoes⟩, h⟩ := Option.ite_none_right_eq_some.mp h
  obtain ⟨entry, hnext, heq⟩ := Option.map_eq_some_iff.mp h
  exact ⟨hstage, hdoes, entry, hnext, heq.symm⟩

theorem ended_of_returned (hw : me.Kept) (h : me.Returned) : .running ∉ me.entry.tasks := by
  rcases h with hok | hfailed
  · exact EntryRun.ended_of_returned (EntryRun.drains_of_reach hw.entry) hok
  · rw [EntryRun.tasks_of_early hw.entry (Or.inr hfailed)]
    exact List.not_mem_nil

theorem kept_accept (hw : me.Kept) {entry : EntryRun} (hstage : me.stage = .blockOn)
    (hnext : me.entry.next .accept = some entry) :
    Kept { me with entry := entry, logged := me.logged ++ [none] } where
  entry := hw.entry.tail ⟨.accept, trivial, hnext⟩
  starting h := by
    rw [hstage] at h
    cases h
  ended h := by
    rw [hstage] at h
    cases h
  sessions := by
    rw [EntryRun.tasks_of_next hnext, EntryRun.tasksAfter, List.length_append, List.length_append,
      hw.sessions]
    rfl
  finished i hi := by
    rw [EntryRun.tasks_of_next hnext, EntryRun.tasksAfter] at hi
    rcases getElem?_concat_cases hi with hold | ⟨_, hnew⟩
    · obtain ⟨entry, hlogged⟩ := hw.finished i hold
      have hlt := (List.getElem?_eq_some_iff.mp hlogged).1
      exact ⟨entry, (List.getElem?_append_left hlt).trans hlogged⟩
    · cases hnew
  panicked i hi := by
    rw [EntryRun.tasks_of_next hnext, EntryRun.tasksAfter] at hi
    rcases getElem?_concat_cases hi with hold | ⟨_, hnew⟩
    · have hlogged := hw.panicked i hold
      have hlt := (List.getElem?_eq_some_iff.mp hlogged).1
      exact (List.getElem?_append_left hlt).trans hlogged
    · cases hnew

/-- Steps of `entry` that spawn no session: a task that ends is as its session says. -/
theorem kept_entry (hw : me.Kept) {act : EntryAction} {entry : EntryRun}
    (hstage : me.stage = .blockOn) (hdoes : me.Does act) (hact : act ≠ .accept)
    (hnext : me.entry.next act = some entry) : Kept { me with entry := entry } := by
  have htasks := EntryRun.tasks_of_next hnext
  refine ⟨hw.entry.tail ⟨act, trivial, hnext⟩, ?_, ?_, ?_, ?_, ?_⟩
  · intro h
    rw [hstage] at h
    cases h
  · intro h
    rw [hstage] at h
    cases h
  · rw [htasks, hw.sessions]
    cases act with
    | accept => exact (hact rfl).elim
    | finish i => exact List.length_set.symm
    | panic i => exact List.length_set.symm
    | _ => rfl
  · intro i hi
    rw [htasks] at hi
    cases act with
    | accept => exact (hact rfl).elim
    | finish j =>
      rcases getElem?_set_cases hi with ⟨rfl, _⟩ | hi
      · obtain ⟨logged, hlogged, hsome⟩ := hdoes
        obtain ⟨entry, rfl⟩ := Option.isSome_iff_exists.mp hsome
        exact ⟨entry, hlogged⟩
      · exact hw.finished i hi
    | panic j =>
      rcases getElem?_set_cases hi with ⟨_, heq⟩ | hi
      · cases heq
      · exact hw.finished i hi
    | _ => exact hw.finished i hi
  · intro i hi
    rw [htasks] at hi
    cases act with
    | accept => exact (hact rfl).elim
    | finish j =>
      rcases getElem?_set_cases hi with ⟨_, heq⟩ | hi
      · cases heq
      · exact hw.panicked i hi
    | panic j =>
      rcases getElem?_set_cases hi with ⟨rfl, _⟩ | hi
      · exact hdoes
      · exact hw.panicked i hi
    | _ => exact hw.panicked i hi

theorem kept_proxyInfo (hw : me.Kept) {i : Nat} {entry : ProxyLogEntry}
    (hrunning : me.entry.tasks[i]? = some .running) :
    Kept { me with logged := me.logged.set i (some entry) } where
  entry := hw.entry
  starting := hw.starting
  ended := hw.ended
  sessions := by
    rw [List.length_set]
    exact hw.sessions
  finished j hj := by
    have hne : i ≠ j := by
      intro heq
      rw [← heq, hrunning] at hj
      cases hj
    rw [List.getElem?_set_ne hne]
    exact hw.finished j hj
  panicked j hj := by
    have hne : i ≠ j := by
      intro heq
      rw [← heq, hrunning] at hj
      cases hj
    rw [List.getElem?_set_ne hne]
    exact hw.panicked j hj

theorem kept_of_next (hw : me.Kept) (h : me.next act = some me') : me'.Kept := by
  cases act with
  | newRuntime ok =>
    obtain ⟨hstage, h⟩ := Option.ite_none_right_eq_some.mp h
    cases h
    refine ⟨hw.entry, fun _ => hw.starting hstage, ?_, hw.sessions, hw.finished, hw.panicked⟩
    intro _
    have hearly : me.entry.Early := by
      refine Or.inl ?_
      rw [hw.starting hstage]
      rfl
    rw [EntryRun.tasks_of_early hw.entry hearly]
    exact List.not_mem_nil
  | entry act =>
    obtain ⟨hstage, hdoes, entry, hnext, rfl⟩ := next_entry h
    by_cases hact : act = .accept
    · subst hact
      rw [if_pos rfl]
      exact kept_accept hw hstage hnext
    · rw [if_neg hact]
      exact kept_entry hw hstage hdoes hact hnext
  | proxyInfo i entry =>
    obtain ⟨⟨_, hrunning, _⟩, h⟩ := Option.ite_none_right_eq_some.mp h
    cases h
    exact kept_proxyInfo hw hrunning
  | dropRuntime =>
    obtain ⟨⟨hstage, hreturned⟩, h⟩ := Option.ite_none_right_eq_some.mp h
    cases h
    have hended := ended_of_returned hw hreturned
    refine ⟨hw.entry, fun h => ?_, fun _ => hended, hw.sessions, hw.finished, hw.panicked⟩
    cases h

theorem proxy_of_entry (hw : me.Kept) {act : EntryAction} {entry : EntryRun}
    (hstage : me.stage = .blockOn) (hdoes : me.Does act) (hnext : me.entry.next act = some entry)
    (logged : List (Option ProxyLogEntry)) :
    match act.turn? with
    | some turn => me.proxy.entry turn = some (proxy { me with entry := entry, logged := logged })
    | none => proxy { me with entry := entry, logged := logged } = me.proxy := by
  simp only [proxy, hstage]
  cases act with
  | signal => exact hdoes.elim
  | await =>
    obtain ⟨handle, handles, hconnections, hpoint, _, rfl⟩ := EntryRun.next_await hnext
    simp [EntryAction.turn?, EntryRun.phase, hpoint, hconnections, Proxy.entry]
  | subscribe =>
    obtain ⟨hpoint, hnext⟩ := Option.ite_none_right_eq_some.mp hnext
    cases hnext
    have hnone : me.entry.activeConnections = [] := by
      apply (EntryRun.drains_of_reach hw.entry).opening
      rw [hpoint]
      rfl
    simp [EntryAction.turn?, EntryRun.phase, hpoint, hnone, Proxy.entry]
  | setProxyPort ok =>
    obtain ⟨hpoint, hnext⟩ := Option.ite_none_right_eq_some.mp hnext
    cases hnext
    cases ok <;> simp [EntryAction.turn?, EntryRun.phase, hpoint, Proxy.entry]
  | generateCaCertificate ok =>
    obtain ⟨hpoint, hnext⟩ := Option.ite_none_right_eq_some.mp hnext
    cases hnext
    cases ok <;> simp [EntryAction.turn?, EntryRun.phase, hpoint, Proxy.entry]
  | accept =>
    obtain ⟨hpoint, hnext⟩ := Option.ite_none_right_eq_some.mp hnext
    cases hnext
    simp [EntryAction.turn?, EntryRun.phase, hpoint, Proxy.entry]
  | shutdown =>
    obtain ⟨⟨hpoint, hreceiver⟩, hnext⟩ := Option.ite_none_right_eq_some.mp hnext
    cases hnext
    simp [EntryAction.turn?, EntryRun.phase, hpoint, hreceiver, Proxy.entry]
  | returnOk =>
    obtain ⟨⟨hpoint, hconnections⟩, hnext⟩ := Option.ite_none_right_eq_some.mp hnext
    cases hnext
    simp [EntryAction.turn?, EntryRun.phase, hpoint, hconnections, Proxy.entry]
  | acceptFailed =>
    obtain ⟨_, hnext⟩ := Option.ite_none_right_eq_some.mp hnext
    cases hnext
    rfl
  | finish i =>
    obtain ⟨_, hnext⟩ := Option.ite_none_right_eq_some.mp hnext
    cases hnext
    rfl
  | panic i =>
    obtain ⟨_, hnext⟩ := Option.ite_none_right_eq_some.mp hnext
    cases hnext
    rfl

/-- A thread does the steps of the proxy that the toggle sees, and no others. -/
theorem proxy_of_next (hw : me.Kept) (h : me.next act = some me') :
    match act.turn? with
    | some turn => me.proxy.entry turn = some me'.proxy
    | none => me'.proxy = me.proxy := by
  cases act with
  | newRuntime ok =>
    obtain ⟨hstage, h⟩ := Option.ite_none_right_eq_some.mp h
    cases h
    cases ok with
    | true =>
      simp [ThreadAction.turn?, proxy, hstage, Proxy.entry, EntryRun.phase, hw.starting hstage]
    | false => simp [ThreadAction.turn?, proxy, hstage, Proxy.entry]
  | proxyInfo i entry =>
    obtain ⟨_, h⟩ := Option.ite_none_right_eq_some.mp h
    cases h
    rfl
  | dropRuntime =>
    obtain ⟨⟨hstage, hreturned⟩, h⟩ := Option.ite_none_right_eq_some.mp h
    cases h
    have hphase : me.entry.phase = .terminated := by
      unfold EntryRun.phase
      rcases hreturned with hpoint | hpoint <;> rw [hpoint]
    simp [ThreadAction.turn?, proxy, hstage, hphase]
  | entry act =>
    obtain ⟨hstage, hdoes, entry, hnext, rfl⟩ := next_entry h
    exact proxy_of_entry hw hstage hdoes hnext _

end ProxyThread

namespace Application
variable {maxLogs : Nat} {w w' : Application} {act : AppAction}

def Kept (w : Application) : Prop := ∀ thread ∈ w.threads, thread.Kept

theorem kept_start : start.Kept := fun _ h => by cases h

inductive AppStep (maxLogs : Nat) (w : Application) : AppAction → Application → Prop
  | toggled (host port : Str) : AppStep maxLogs w (.handleEvent host port) (w.handleEvent host port)
  | moved {k : Nat} {act : ThreadAction} {now : Str} {thread thread' : ProxyThread}
      (hthread : w.threads[k]? = some thread) (hnext : thread.next act = some thread') :
      AppStep maxLogs w (.thread k act now)
        (({ w with threads := w.threads.set k thread' }.spawnLogs k thread act now).dropSends k act)
  | reported (event : MainEvent) (now : Str) : AppStep maxLogs w (.mainEvent event now)
      { w with events := w.events.spawn (none, event.log now) }
  | sentEvent {i : Nat} {events : Mailbox (Option Nat × EventLog)}
      (hsend : w.events.send 1000 i = some events) :
      AppStep maxLogs w (.sendEvent i) { w with events := events }
  | sentEntry {i : Nat} {entries : Mailbox ((Nat × Nat) × ProxyLogEntry)}
      (hsend : w.entries.send 1000 i = some entries) :
      AppStep maxLogs w (.sendEntry i) { w with entries := entries }
  | receivedEvent {sent : Option Nat × EventLog} {events : Mailbox (Option Nat × EventLog)}
      {logs : LogWorld} (hreceive : w.events.receive = some (sent, events))
      (hlogs : w.logs.next maxLogs (.event (.addEntry sent.2)) = some logs) :
      AppStep maxLogs w .receiveEvent { w with events := events, logs := logs }
  | receivedEntry {sent : (Nat × Nat) × ProxyLogEntry}
      {entries : Mailbox ((Nat × Nat) × ProxyLogEntry)} {logs : LogWorld}
      (hreceive : w.entries.receive = some (sent, entries))
      (hlogs : w.logs.next maxLogs (.proxy (.addEntry sent.2)) = some logs) :
      AppStep maxLogs w .receiveEntry { w with entries := entries, logs := logs }
  | own {step : LogWorldStep} {logs : LogWorld} (hadds : ¬ step.Adds)
      (hlogs : w.logs.next maxLogs step = some logs) :
      AppStep maxLogs w (.logs step) { w with logs := logs }

theorem appStep_of_next (h : w.next maxLogs act = some w') : AppStep maxLogs w act w' := by
  cases act with
  | handleEvent host port =>
    cases h
    exact .toggled host port
  | thread k act now =>
    obtain ⟨thread, hthread, h⟩ := Option.bind_eq_some_iff.mp h
    obtain ⟨thread', hnext, h⟩ := Option.bind_eq_some_iff.mp h
    cases h
    exact .moved hthread hnext
  | mainEvent event now =>
    cases h
    exact .reported event now
  | sendEvent i =>
    obtain ⟨events, hsend, rfl⟩ := Option.map_eq_some_iff.mp h
    exact .sentEvent hsend
  | sendEntry i =>
    obtain ⟨entries, hsend, rfl⟩ := Option.map_eq_some_iff.mp h
    exact .sentEntry hsend
  | receiveEvent =>
    obtain ⟨⟨sent, events⟩, hreceive, h⟩ := Option.bind_eq_some_iff.mp h
    obtain ⟨logs, hlogs, h⟩ := Option.bind_eq_some_iff.mp h
    cases h
    exact .receivedEvent hreceive hlogs
  | receiveEntry =>
    obtain ⟨⟨sent, entries⟩, hreceive, h⟩ := Option.bind_eq_some_iff.mp h
    obtain ⟨logs, hlogs, h⟩ := Option.bind_eq_some_iff.mp h
    cases h
    exact .receivedEntry hreceive hlogs
  | logs step =>
    obtain ⟨hadds, h⟩ := Option.ite_none_left_eq_some.mp h
    obtain ⟨logs, hlogs, rfl⟩ := Option.map_eq_some_iff.mp h
    exact .own hadds hlogs

section Sends
variable {k : Nat} {thread : ProxyThread} {act : ThreadAction} {now : Str}

@[simp] theorem threads_of_sends (w : Application) :
    ((w.spawnLogs k thread act now).dropSends k act).threads = w.threads := by
  unfold dropSends
  split <;> rfl

@[simp] theorem running_of_sends (w : Application) :
    ((w.spawnLogs k thread act now).dropSends k act).running = w.running := by
  unfold dropSends
  split <;> rfl

@[simp] theorem sender_of_sends (w : Application) :
    ((w.spawnLogs k thread act now).dropSends k act).sender = w.sender := by
  unfold dropSends
  split <;> rfl

@[simp] theorem logs_of_sends (w : Application) :
    ((w.spawnLogs k thread act now).dropSends k act).logs = w.logs := by
  unfold dropSends
  split <;> rfl

end Sends

theorem kept_set (hw : w.Kept) {k : Nat} {thread thread' : ProxyThread}
    (hthread : w.threads[k]? = some thread) (h : thread'.Kept) :
    ∀ other ∈ w.threads.set k thread', other.Kept := by
  intro other hother
  rcases (mem_set_iff_of_getElem? hthread).mp hother with rfl | hother
  · exact h
  · exact hw other ((mem_iff_of_getElem? hthread).mpr (Or.inr hother))

theorem handleEvent_off (hrun : w.running = false) (host port : Str) :
    w.handleEvent host port = { w with
      running := true
      sender := some w.threads.length
      threads := w.threads ++ [.spawn host port] } := by
  simp [handleEvent, hrun]

theorem handleEvent_on (hrun : w.running = true) (host port : Str) :
    w.handleEvent host port = { w with
      running := false
      threads := match w.sender with
        | none => w.threads
        | some k => match w.threads[k]? with
          | none => w.threads
          | some thread => w.threads.set k thread.signal } := by
  simp [handleEvent, hrun]

theorem kept_handleEvent (hw : w.Kept) (host port : Str) : (w.handleEvent host port).Kept := by
  cases hrun : w.running with
  | false =>
    rw [handleEvent_off hrun]
    intro thread hthread
    rcases List.mem_append.mp hthread with hthread | hthread
    · exact hw thread hthread
    · rw [List.mem_singleton.mp hthread]
      exact ProxyThread.kept_spawn host port
  | true =>
    rw [handleEvent_on hrun]
    cases hsender : w.sender with
    | none => exact hw
    | some k =>
      cases hthread : w.threads[k]? with
      | none =>
        simp only [Kept, hthread]
        exact hw
      | some thread =>
        simp only [Kept, hthread]
        exact kept_set hw hthread
          (ProxyThread.kept_signal (hw thread (List.mem_of_getElem? hthread)))

theorem kept_of_next (hw : w.Kept) (h : w.next maxLogs act = some w') : w'.Kept := by
  cases appStep_of_next h with
  | toggled host port => exact kept_handleEvent hw host port
  | moved hthread hnext =>
    rw [Kept, threads_of_sends]
    exact kept_set hw hthread
      (ProxyThread.kept_of_next (hw _ (List.mem_of_getElem? hthread)) hnext)
  | _ => exact hw

theorem kept_of_reach (h : Reach (Steps (next maxLogs)) .start w) : w.Kept :=
  h.invariant_steps (fun _ _ _ => kept_of_next) kept_start

theorem control_handleEvent (w : Application) (host port : Str) :
    (w.handleEvent host port).control = w.control.handleEvent := by
  cases hrun : w.running with
  | false =>
    rw [handleEvent_off hrun]
    simp only [control, ProxyWorld.handleEvent, hrun, List.map_append, List.length_map]
    rfl
  | true =>
    rw [handleEvent_on hrun]
    simp only [control, ProxyWorld.handleEvent, hrun, if_true]
    cases hsender : w.sender with
    | none => rfl
    | some k =>
      simp only [send, List.getElem?_map]
      cases hthread : w.threads[k]? with
      | none => rfl
      | some thread =>
        simp only [Option.map_some, List.map_set]
        rfl

theorem control_moved (hw : w.Kept) {k : Nat} {act : ThreadAction} {now : Str}
    {thread thread' : ProxyThread} (hthread : w.threads[k]? = some thread)
    (hnext : thread.next act = some thread')
    (hcontrol : w'.control =
      { w.control with proxies := w.control.proxies.set k thread'.proxy }) :
    (∀ m, (AppAction.thread k act now).control? = some m →
        w.control.next m = some w'.control) ∧
      ((AppAction.thread k act now).control? = none → w'.control = w.control) := by
  have hproxy := ProxyThread.proxy_of_next (hw thread (List.mem_of_getElem? hthread)) hnext
  have hget : w.control.proxies[k]? = some thread.proxy := by
    rw [control, List.getElem?_map, hthread]
    rfl
  simp only [AppAction.control?]
  cases hturn : act.turn? with
  | none =>
    rw [hturn] at hproxy
    refine ⟨fun m hm => (by cases hm), fun _ => ?_⟩
    obtain ⟨hk, hkget⟩ := List.getElem?_eq_some_iff.mp hget
    rw [hcontrol, hproxy, ← hkget, List.set_getElem_self]
  | some turn =>
    rw [hturn] at hproxy
    refine ⟨?_, fun hnone => by cases hnone⟩
    intro m hm
    cases hm
    simp only [ProxyWorld.next, hget, Option.bind_eq_bind, Option.bind_some, hproxy]
    rw [hcontrol]
    rfl

theorem control_of_next (hw : w.Kept) (h : w.next maxLogs act = some w') :
    (∀ m, act.control? = some m → w.control.next m = some w'.control) ∧
      (act.control? = none → w'.control = w.control) := by
  cases appStep_of_next h with
  | toggled host port =>
    refine ⟨?_, fun hnone => by cases hnone⟩
    intro m hm
    cases hm
    rw [control_handleEvent]
    rfl
  | moved hthread hnext =>
    apply control_moved hw hthread hnext
    simp only [control, threads_of_sends, running_of_sends, sender_of_sends, List.map_set]
  | _ => exact ⟨fun m hm => (by cases hm), fun _ => rfl⟩

theorem abstracts_control (maxLogs : Nat) :
    Abstracts (next maxLogs) ProxyWorld.next Kept control AppAction.control? where
  inv_step _ _ _ hw h := kept_of_next hw h
  seen _ _ _ m hw h hm := (control_of_next hw h).1 m hm
  unseen _ _ _ hw h hnone := (control_of_next hw h).2 hnone

/-- A thread subscribes before its proxy is asked to stop. -/
def Prompt (w : Application) : AppAction → Prop
  | .thread k act _ =>
    act = .entry .subscribe → ∀ thread ∈ w.threads[k]?, thread.stopped = false
  | _ => True

instance (w : Application) (act : AppAction) : Decidable (w.Prompt act) :=
  match act with
  | .thread k act _ => inferInstanceAs
      (Decidable (act = .entry .subscribe → ∀ thread ∈ w.threads[k]?, thread.stopped = false))
  | .handleEvent _ _ => isTrue trivial
  | .mainEvent _ _ => isTrue trivial
  | .sendEvent _ => isTrue trivial
  | .sendEntry _ => isTrue trivial
  | .receiveEvent => isTrue trivial
  | .receiveEntry => isTrue trivial
  | .logs _ => isTrue trivial

theorem subscribes_of_next {me me' : ProxyThread} {act : ThreadAction}
    (hphase : me.proxy.phase = .subscribe) (h : me.next act = some me')
    (hturn : act.turn? ≠ none) : act = .entry .subscribe := by
  have hblockOn : me.stage = .blockOn := by
    cases hstage : me.stage with
    | blockOn => rfl
    | _ => simp [ProxyThread.proxy, hstage] at hphase
  have hpoint : me.entry.point = .subscribe := by
    simp only [ProxyThread.proxy, hblockOn] at hphase
    cases hpoint : me.entry.point with
    | subscribe => rfl
    | _ => simp [EntryRun.phase, hpoint] at hphase
  cases act with
  | newRuntime ok =>
    obtain ⟨hstage, _⟩ := Option.ite_none_right_eq_some.mp h
    rw [hblockOn] at hstage
    cases hstage
  | proxyInfo i entry => exact (hturn rfl).elim
  | dropRuntime => exact (hturn rfl).elim
  | entry act =>
    obtain ⟨_, _, entry, hnext, _⟩ := ProxyThread.next_entry h
    rw [EntryRun.subscribe_of_next hpoint hnext hturn]

theorem prompt_iff_of_next (h : w.next maxLogs act = some w') :
    Seen control AppAction.control? ProxyWorld.Prompt w act ↔ w.Prompt act := by
  cases act with
  | thread k act now =>
    obtain ⟨thread, thread', hthread, hnext⟩ :
        ∃ thread thread', w.threads[k]? = some thread ∧ thread.next act = some thread' := by
      cases appStep_of_next h with
      | moved hthread hnext => exact ⟨_, _, hthread, hnext⟩
    have hget : w.control.proxies[k]? = some thread.proxy := by
      rw [control, List.getElem?_map, hthread]
      rfl
    constructor
    · intro hseen hact other hother
      subst hact
      rw [hthread] at hother
      cases hother
      obtain ⟨hstage, _, entry, hentry, _⟩ := ProxyThread.next_entry hnext
      have hpoint := (Option.ite_none_right_eq_some.mp hentry).1
      refine hseen (.step k .ok) rfl thread.proxy hget ?_
      simp only [ProxyThread.proxy, hstage, EntryRun.phase, hpoint]
    · intro hprompt m hm
      obtain ⟨turn, hturn, rfl⟩ := Option.map_eq_some_iff.mp hm
      intro me hme hphase
      rw [hget] at hme
      cases hme
      have hact := subscribes_of_next hphase hnext (by simp [hturn])
      exact hprompt hact thread hthread
  | handleEvent host port =>
    refine ⟨fun _ => trivial, fun _ m hm => ?_⟩
    cases hm
    trivial
  | _ =>
    refine ⟨fun _ => trivial, fun _ m hm => ?_⟩
    cases hm

theorem prompt_exact (maxLogs : Nat) : Exact (next maxLogs) Prompt
    (fun w => w.Kept ∧ w.control.Tracked) fun w => w.control.HasLost :=
  ((abstracts_control maxLogs).exact ProxyWorld.prompt_exact).of_iff
    fun _ _ _ _ h => prompt_iff_of_next h

end Application

/-- In every run of the application each proxy that accepts while it is stopped, or while the
toggle is off, has the signal waiting for it, exactly if no thread subscribed behind the
request to stop it. Each thread runs `entry` as it runs by itself, and behind its runtime it
has no session left. -/
theorem application_stopsHeard_iff (maxLogs : Nat) (w : Application)
    (h : Reach (Steps (Application.next maxLogs)) .start w) :
    (w.control.StopsHeard ↔
        Reach (Allowed (Application.next maxLogs) Application.Prompt) .start w) ∧
      Reach (Steps ProxyWorld.next) .start w.control ∧
      ∀ thread ∈ w.threads, Reach (Steps EntryRun.next) .start thread.entry ∧
        (thread.stage = .over → .running ∉ thread.entry.tasks) := by
  have hcontrol := (Application.abstracts_control maxLogs).reach Application.kept_start h
  have htracked : w.control.Tracked :=
    hcontrol.invariant_steps ProxyWorld.prompt_exact.inv_step ProxyWorld.tracked_start
  have hnone : ¬ Application.start.control.HasLost := by
    intro hlost
    obtain ⟨me, hmem, _⟩ := hlost
    cases hmem
  refine ⟨?_, hcontrol, ?_⟩
  · rw [ProxyWorld.stopsHeard_iff htracked]
    exact (Application.prompt_exact maxLogs).not_bad_iff
      ⟨Application.kept_start, ProxyWorld.tracked_start⟩ hnone h
  · intro thread hthread
    have hkept := Application.kept_of_reach h thread hthread
    exact ⟨hkept.entry, hkept.ended⟩

def listeningEvent : EventLog := ⟨"INFO".toList, "[+] Listening on a:1\n".toList, "t".toList⟩

/-- Started, and stopped in the accept loop; the event has not been sent yet. -/
def stoppedApplication : Application where
  running := false
  sender := some 0
  threads := [⟨.blockOn, "a:1".toList, ⟨.select, some true, [], [], []⟩, [], true⟩]
  events := ⟨[(some 0, listeningEvent)], [(some 0, listeningEvent)], [], [], [], []⟩
  entries := .empty
  logs := .start

def stoppedApplicationRun : List AppAction :=
  [.handleEvent "a".toList "1".toList, .thread 0 (.newRuntime true) "t".toList,
    .thread 0 (.entry (.setProxyPort true)) "t".toList,
    .thread 0 (.entry (.generateCaCertificate true)) "t".toList,
    .thread 0 (.entry .subscribe) "t".toList, .handleEvent "a".toList "1".toList]

theorem application_stopsHeard_stopped :
    stoppedApplication.control.StopsHeard ∧
      Reach (Steps ProxyWorld.next) .start stoppedApplication.control := by
  have hsteps : Reach (Steps (Application.next 100)) .start stoppedApplication :=
    reach_runLabels stoppedApplicationRun rfl
  have hprompt : Reach (Allowed (Application.next 100) Application.Prompt) .start
      stoppedApplication := reach_runLabels stoppedApplicationRun rfl
  obtain ⟨hheard, hcontrol, _⟩ := application_stopsHeard_iff 100 stoppedApplication hsteps
  exact ⟨hheard.mpr hprompt, hcontrol⟩

end AppComponts
