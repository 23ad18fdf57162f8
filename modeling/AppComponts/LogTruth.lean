import AppComponts.ApplicationLog
import AppComponts.PlainLog

/-!
# The proxy table and the wire

The application together with what its sessions do on their connections. A session logs what
its task leaves behind, so the rows of the proxy table are those of requests that came in and
answers that were passed on, and of the sessions that have ended only those are missing that
have panicked.
-/

namespace AppComponts
open AsyncIo Rust Text Transition Utf8
set_option autoImplicit false

/-- The connection that is accepted as the session `i` of the thread `k`, the network and the
tunnel as its task finds them, and the JSON of responses. -/
structure Traffic where
  stream : Nat → Nat → TcpStream
  connect : Nat → Nat → Str → Except IoError TcpStream
  handleHttps : Nat → Nat → Session → Str → Str → Handled
  toBytes : Response → List UInt8

def Session.accepted (stream : TcpStream) : Session := ⟨default, default, some stream, []⟩

theorem accepted_mem_new (stream : TcpStream) : Session.accepted stream ∈ Session.new stream :=
  rfl

namespace ProxyThread
variable {me me' : ProxyThread} {act : ThreadAction}

theorem panicked_of_next {i : Nat} (h : me.next act = some me')
    (hpanicked : me'.entry.tasks[i]? = some .panicked) :
    me.entry.tasks[i]? = some .panicked ∨ act = .entry (.panic i) := by
  cases act with
  | newRuntime ok =>
    obtain ⟨_, h⟩ := Option.ite_none_right_eq_some.mp h
    cases h
    exact Or.inl hpanicked
  | proxyInfo j entry =>
    obtain ⟨_, h⟩ := Option.ite_none_right_eq_some.mp h
    cases h
    exact Or.inl hpanicked
  | dropRuntime =>
    obtain ⟨_, h⟩ := Option.ite_none_right_eq_some.mp h
    cases h
    exact Or.inl hpanicked
  | entry act =>
    obtain ⟨_, _, entry, hnext, rfl⟩ := next_entry h
    simp only [EntryRun.tasks_of_next hnext] at hpanicked
    cases act with
    | accept =>
      rcases getElem?_concat_cases hpanicked with hold | ⟨_, hnew⟩
      · exact Or.inl hold
      · cases hnew
    | finish j =>
      rcases getElem?_set_cases hpanicked with ⟨_, hstate⟩ | hold
      · cases hstate
      · exact Or.inl hold
    | panic j =>
      rcases getElem?_set_cases hpanicked with ⟨rfl, _⟩ | hold
      · exact Or.inr rfl
      · exact Or.inl hold
    | _ => exact Or.inl hpanicked

end ProxyThread

section Tasks
variable [CaseTables] {toBytes : Response → List UInt8} {timestamp id : Str}

def Traffic.task (net : Traffic) (k i : Nat) : Handled :=
  sessionTask (net.connect k i) (net.handleHttps k i) (.accepted (net.stream k i))

def Traffic.entry (net : Traffic) (k i : Nat) (timestamp id : Str) : Option ProxyLogEntry :=
  (net.task k i).entry net.toBytes timestamp id

omit [CaseTables] in
theorem entry_isSome_iff {handled : Handled} :
    (handled.entry toBytes timestamp id).isSome = true ↔ Returns handled.result := by
  unfold Handled.entry
  cases handled.result with
  | error p =>
    constructor
    · intro h
      cases h
    · intro h
      obtain ⟨res, hres⟩ := h
      cases hres
  | ok res => exact ⟨fun _ => ⟨res, rfl⟩, fun _ => rfl⟩

namespace Application
variable {net : Traffic} {maxLogs : Nat} {w w' : Application} {act : AppAction}

def panics? : ThreadAction → Option Nat
  | .entry (.panic i) => some i
  | _ => none

/-- A session ends as its task does: it logs what this leaves behind, or it panics. -/
def Honest (net : Traffic) (_ : Application) : AppAction → Prop
  | .thread k act _ =>
    (∀ said ∈ ProxyThread.said? act, said.2 ∈ net.entry k said.1 said.2.timestamp said.2.id) ∧
      ∀ i ∈ panics? act, net.entry k i [] [] = none
  | _ => True

instance (net : Traffic) (w : Application) (act : AppAction) : Decidable (w.Honest net act) :=
  match act with
  | .thread _ _ _ => inferInstanceAs (Decidable (_ ∧ _))
  | .handleEvent _ _ => isTrue trivial
  | .mainEvent _ _ => isTrue trivial
  | .sendEvent _ => isTrue trivial
  | .sendEntry _ => isTrue trivial
  | .receiveEvent => isTrue trivial
  | .receiveEntry => isTrue trivial
  | .logs _ => isTrue trivial

def Panicked (w : Application) (k i : Nat) : Prop :=
  ∃ thread, w.threads[k]? = some thread ∧ thread.entry.tasks[i]? = some .panicked

/-- The sessions have logged and panicked as their tasks do. -/
structure Genuine (net : Traffic) (w : Application) : Prop where
  logged : ∀ k i entry, ((k, i), entry) ∈ w.entries.spawned →
    entry ∈ net.entry k i entry.timestamp entry.id
  panicked : ∀ k i, w.Panicked k i → net.entry k i [] [] = none

theorem genuine_start : start.Genuine net where
  logged k i entry h := by cases h
  panicked k i h := by
    obtain ⟨_, h, _⟩ := h
    cases h

theorem genuine_of_frame (hw : w.Genuine net) (hthreads : w'.threads = w.threads)
    (hspawned : w'.entries.spawned = w.entries.spawned) : w'.Genuine net where
  logged := by
    rw [hspawned]
    exact hw.logged
  panicked k i h := by
    rw [Panicked, hthreads] at h
    exact hw.panicked k i h

theorem genuine_moved {k : Nat} {act : ThreadAction} {now : Str} {thread thread' : ProxyThread}
    (hw : w.Genuine net) (hact : w.Honest net (.thread k act now))
    (hthread : w.threads[k]? = some thread) (hnext : thread.next act = some thread') :
    (({ w with threads := w.threads.set k thread' }.spawnLogs k thread act now).dropSends
      k act).Genuine net where
  logged j i entry h := by
    rw [(entries_of_sends _).1] at h
    rcases List.mem_append.mp h with hold | htagged
    · exact hw.logged j i entry hold
    · obtain ⟨said, hsaid, heq⟩ := Option.map_eq_some_iff.mp (Option.mem_toList.mp htagged)
      cases heq
      exact hact.1 said hsaid
  panicked j i h := by
    obtain ⟨other, hother, htask⟩ := h
    rw [threads_of_sends] at hother
    rcases getElem?_set_cases hother with ⟨rfl, rfl⟩ | hother
    · rcases ProxyThread.panicked_of_next hnext htask with hold | rfl
      · exact hw.panicked j i ⟨thread, hthread, hold⟩
      · exact hact.2 i rfl
    · exact hw.panicked j i ⟨other, hother, htask⟩

theorem genuine_of_next (hw : w.Genuine net) (hact : w.Honest net act)
    (h : w.next maxLogs act = some w') : w'.Genuine net := by
  cases appStep_of_next h with
  | toggled host port =>
    refine ⟨?_, ?_⟩
    · rw [(channels_handleEvent w host port).2.1]
      exact hw.logged
    · intro k i hpanicked
      exact hw.panicked k i ((exists_handleEvent
        (P := fun thread => thread.entry.tasks[i]? = some .panicked)
        (fun h => by cases h) (fun _ => Iff.rfl) k).mp hpanicked)
  | moved hthread hnext => exact genuine_moved hw hact hthread hnext
  | sentEntry hsend =>
    obtain ⟨_, _, _, rfl⟩ := Mailbox.send_eq_some hsend
    exact genuine_of_frame hw rfl rfl
  | receivedEntry hreceive hlogs =>
    obtain ⟨_, _, rfl⟩ := Mailbox.receive_eq_some hreceive
    exact genuine_of_frame hw rfl rfl
  | _ => exact genuine_of_frame hw rfl rfl

theorem genuine_of_reach (h : Reach (Allowed (next maxLogs) (Honest net)) .start w) :
    w.Genuine net :=
  h.invariant_allowed (fun _ _ _ => genuine_of_next) genuine_start

/-- A session that has ended has logged exactly if its task does not panic. -/
theorem logged_iff_returns (hw : w.Genuine net) (hmailed : w.Mailed) (hkept : w.Kept)
    {k i : Nat} {thread : ProxyThread} (hthread : w.threads[k]? = some thread)
    (hended : thread.entry.tasks[i]? = some .finished ∨ thread.entry.tasks[i]? = some .panicked) :
    (∃ entry, w.Logged k i entry) ↔ Returns (net.task k i).result := by
  have hthreadKept := hkept thread (List.mem_of_getElem? hthread)
  constructor
  · intro hlogged
    obtain ⟨entry, hlogged⟩ := hlogged
    have hentry := hw.logged k i entry ((hmailed.sessions k i entry).mpr hlogged)
    exact entry_isSome_iff.mp (Option.isSome_of_mem hentry)
  · intro hreturns
    rcases hended with hfinished | hpanicked
    · obtain ⟨entry, hlogged⟩ := hthreadKept.finished i hfinished
      exact ⟨entry, thread, hthread, hlogged⟩
    · have hnone := hw.panicked k i ⟨thread, hthread, hpanicked⟩
      have hsome : (net.entry k i [] []).isSome = true := entry_isSome_iff.mpr hreturns
      rw [hnone] at hsome
      cases hsome

end Application

/-- Each row of the proxy table is that of a session of its own whose first read was a request,
and if the request was a plain one the row names it and the status of the answer that was passed
on. Of the sessions that have ended, those have logged whose task does not panic. -/
theorem proxyTable_truthful (net : Traffic) (maxLogs : Nat) (w : Application)
    (h : Reach (Allowed (Application.next maxLogs) (Application.Honest net)) .start w) :
    (∃ rows : List ((Nat × Nat) × ProxyLogEntry), rows.map Prod.snd = w.logs.gui.proxyLogs ∧
      (rows.map Prod.fst).Nodup ∧
      ∀ k i entry, ((k, i), entry) ∈ rows → ∃ raw r, Received (net.stream k i) raw r ∧
        (r.method ≠ .CONNECT → ∃ way, route r = .ok way ∧
          RowOf r (fun part => ∃ target,
            Relayed (net.connect k i) way.address (net.stream k i) target part) entry)) ∧
    ∀ (k i : Nat) (thread : ProxyThread), w.threads[k]? = some thread →
      (thread.entry.tasks[i]? = some .finished ∨ thread.entry.tasks[i]? = some .panicked) →
      ((∃ entry, w.Logged k i entry) ↔ Returns (net.task k i).result) := by
  have hreach := reach_of_allowed h
  have hmailed := Application.mailed_of_reach hreach
  have hgenuine := Application.genuine_of_reach h
  constructor
  · obtain ⟨hstretch, _⟩ := (Application.fed_of_reach hreach).proxyLogs
    obtain ⟨rows, hrows, heq⟩ := List.infix_map_iff.mp hstretch
    obtain ⟨hnodup, hlogged⟩ := Application.rows_of_infix hmailed hrows
    refine ⟨rows, heq.symm, hnodup, ?_⟩
    intro k i entry hmem
    have hentry := hgenuine.logged k i entry
      ((hmailed.sessions k i entry).mpr (hlogged k i entry hmem))
    have hnew := accepted_mem_new (net.stream k i)
    obtain ⟨raw, r, hreceived⟩ := received_of_isSome hnew (Option.isSome_of_mem hentry)
    refine ⟨raw, r, hreceived, ?_⟩
    intro hplain
    obtain ⟨way, hroute, hend⟩ := httpEnd_sessionTask hnew hreceived hplain
    exact ⟨way, hroute, rowOf_sessionTask hnew hend hentry⟩
  · intro k i thread hthread hended
    exact Application.logged_iff_returns hgenuine hmailed (Application.kept_of_reach hreach) hthread
      hended

end Tasks

/-- One connection, whose target answers with two words. -/
def closedTraffic : Traffic where
  stream _ _ := ⟨[.ok (encode "GET / v\nHost: a\n\n".toList)], [], []⟩
  connect _ _ _ := .ok (answering ["x 200\n".toList])
  handleHttps _ _ session _ _ := ⟨.ok (.ok ()), session, none⟩
  toBytes resp := encode resp.statusCode.tail

theorem proxyTable_truthful_closed :
    (∃ rows : List ((Nat × Nat) × ProxyLogEntry), rows.map Prod.snd = [requestEntry] ∧
      ∀ k i entry, ((k, i), entry) ∈ rows →
        ∃ raw r, @Received asciiTables (closedTraffic.stream k i) raw r) ∧
      Returns (@Traffic.task asciiTables closedTraffic 0 0).result := by
  have hrun : Reach (Allowed (Application.next 100)
      (@Application.Honest asciiTables closedTraffic)) .start closedApplication :=
    reach_runLabels closedApplicationRun (by decide)
  obtain ⟨⟨rows, hrows, _, hrow⟩, hended⟩ :=
    @proxyTable_truthful asciiTables closedTraffic 100 closedApplication hrun
  refine ⟨⟨rows, hrows, ?_⟩, ?_⟩
  · intro k i entry hmem
    obtain ⟨raw, r, hreceived, _⟩ := hrow k i entry hmem
    exact ⟨raw, r, hreceived⟩
  · exact (hended 0 0 _ rfl (Or.inl rfl)).mp ⟨requestEntry, _, rfl, rfl⟩

end AppComponts
