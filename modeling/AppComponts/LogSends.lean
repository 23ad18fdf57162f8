import AppComponts.Library.Mailbox
import AppComponts.Logs

/-!
# Entries on their way to a log

The log macros spawn a task for each entry, which sends it to the channel of the log's
handler. So the entries of a log come in the order in which these tasks complete.
-/

namespace AppComponts
open Transition
set_option autoImplicit false

/-- The entries under way, each with the number of its caller, and the storage they are
added to. -/
structure LogInbox (Entry : Type) where
  mail : Mailbox (Nat × Entry)
  storage : List Entry
  deriving DecidableEq, Repr

namespace LogInbox
variable {Entry : Type}

def start : LogInbox Entry := ⟨.empty, []⟩

/-- `event_log!` and `proxy_log!`. -/
def log (inbox : LogInbox Entry) (caller : Nat) (entry : Entry) : LogInbox Entry :=
  { inbox with mail := inbox.mail.spawn (caller, entry) }

/-- A spawned task completes its `log_entry`. -/
def logEntry (inbox : LogInbox Entry) (i : Nat) : Option (LogInbox Entry) :=
  (inbox.mail.send 1000 i).map fun mail => { inbox with mail := mail }

/-- The handler receives an entry and adds it to the storage. -/
def handle (maxLogs : Nat) (inbox : LogInbox Entry) : Option (LogInbox Entry) :=
  inbox.mail.receive.map fun ((_, entry), mail) =>
    ⟨mail, addEntry inbox.storage entry maxLogs⟩

def stored (maxLogs : Nat) (received : List (Nat × Entry)) : List Entry :=
  received.foldl (fun entries sent => addEntry entries sent.2 maxLogs) []

structure Wf (maxLogs : Nat) (inbox : LogInbox Entry) : Prop where
  mail : inbox.mail.Wf
  storage : inbox.storage = stored maxLogs inbox.mail.received

section Steps
variable {maxLogs : Nat} {inbox inbox' : LogInbox Entry} {i : Nat}

theorem wf_start : (start : LogInbox Entry).Wf maxLogs := ⟨Mailbox.wf_empty, rfl⟩

theorem wf_log (h : inbox.Wf maxLogs) (caller : Nat) (entry : Entry) :
    (inbox.log caller entry).Wf maxLogs :=
  ⟨Mailbox.wf_spawn h.mail (caller, entry), h.storage⟩

theorem logEntry_eq_some (h : inbox.logEntry i = some inbox') :
    ∃ mail, inbox.mail.send 1000 i = some mail ∧ inbox' = { inbox with mail := mail } := by
  obtain ⟨mail, hsend, heq⟩ := Option.map_eq_some_iff.mp h
  exact ⟨mail, hsend, heq.symm⟩

theorem wf_logEntry (hw : inbox.Wf maxLogs) (h : inbox.logEntry i = some inbox') :
    inbox'.Wf maxLogs := by
  obtain ⟨mail, hsend, rfl⟩ := logEntry_eq_some h
  refine ⟨Mailbox.wf_send hw.mail hsend, ?_⟩
  obtain ⟨_, _, _, rfl⟩ := Mailbox.send_eq_some hsend
  exact hw.storage

theorem calls_of_logEntry (h : inbox.logEntry i = some inbox') :
    inbox'.mail.spawned = inbox.mail.spawned ∧
      inbox'.mail.cancelled = inbox.mail.cancelled := by
  obtain ⟨mail, hsend, rfl⟩ := logEntry_eq_some h
  obtain ⟨_, _, _, rfl⟩ := Mailbox.send_eq_some hsend
  exact ⟨rfl, rfl⟩

theorem handle_eq_some (h : inbox.handle maxLogs = some inbox') :
    ∃ sent mail, inbox.mail.receive = some (sent, mail) ∧
      inbox' = ⟨mail, addEntry inbox.storage sent.2 maxLogs⟩ := by
  obtain ⟨⟨sent, mail⟩, hreceive, heq⟩ := Option.map_eq_some_iff.mp h
  exact ⟨sent, mail, hreceive, heq.symm⟩

theorem calls_of_handle (h : inbox.handle maxLogs = some inbox') :
    inbox'.mail.spawned = inbox.mail.spawned ∧
      inbox'.mail.cancelled = inbox.mail.cancelled := by
  obtain ⟨sent, mail, hreceive, rfl⟩ := handle_eq_some h
  obtain ⟨rest, _, rfl⟩ := Mailbox.receive_eq_some hreceive
  exact ⟨rfl, rfl⟩

theorem wf_handle (hw : inbox.Wf maxLogs) (h : inbox.handle maxLogs = some inbox') :
    inbox'.Wf maxLogs := by
  obtain ⟨sent, mail, hreceive, rfl⟩ := handle_eq_some h
  refine ⟨Mailbox.wf_receive hw.mail hreceive, ?_⟩
  obtain ⟨rest, _, rfl⟩ := Mailbox.receive_eq_some hreceive
  simp only [stored, List.foldl_append, List.foldl_cons, List.foldl_nil]
  rw [hw.storage, stored]

end Steps

end LogInbox

/-- One caller logs entry after entry; the tasks and the handler run in between. -/
inductive EventLogStep where
  | call (entry : EventLog)
  | send (i : Nat)
  | handle
  deriving DecidableEq, Repr

namespace EventCalls

/-- The entries are numbered in the order of the calls. -/
def next (maxLogs : Nat) (inbox : LogInbox EventLog) : EventLogStep → Option (LogInbox EventLog)
  | .call entry => some (inbox.log inbox.mail.spawned.length entry)
  | .send i => inbox.logEntry i
  | .handle => inbox.handle maxLogs

/-- No send completes ahead of that of an earlier call. -/
def InTurn (_ : LogInbox EventLog) : EventLogStep → Prop
  | .send i => i = 0
  | _ => True

instance (inbox : LogInbox EventLog) (step : EventLogStep) : Decidable (InTurn inbox step) :=
  match step with
  | .send i => inferInstanceAs (Decidable (i = 0))
  | .call _ => isTrue trivial
  | .handle => isTrue trivial

structure Numbered (maxLogs : Nat) (inbox : LogInbox EventLog) : Prop where
  wf : inbox.Wf maxLogs
  kept : inbox.mail.cancelled = []
  numbers : inbox.mail.spawned.map Prod.fst = List.range inbox.mail.spawned.length

variable {maxLogs : Nat} {inbox inbox' : LogInbox EventLog} {step : EventLogStep}

theorem Numbered.nodup (h : Numbered maxLogs inbox) : inbox.mail.spawned.Nodup := by
  apply List.Nodup.of_map Prod.fst
  rw [h.numbers]
  exact List.nodup_range

theorem numbered_start : Numbered maxLogs .start := ⟨LogInbox.wf_start, rfl, rfl⟩

theorem numbered_of_next (hw : Numbered maxLogs inbox)
    (h : next maxLogs inbox step = some inbox') : Numbered maxLogs inbox' := by
  cases step with
  | call entry =>
    cases h
    refine ⟨LogInbox.wf_log hw.wf _ entry, hw.kept, ?_⟩
    simp only [LogInbox.log, Mailbox.spawn, List.map_append, List.length_append, hw.numbers,
      List.map_singleton, List.length_singleton]
    exact List.range_succ.symm
  | send i =>
    obtain ⟨hspawned, hcancelled⟩ := LogInbox.calls_of_logEntry h
    refine ⟨LogInbox.wf_logEntry hw.wf h, hcancelled.trans hw.kept, ?_⟩
    rw [hspawned]
    exact hw.numbers
  | handle =>
    obtain ⟨hspawned, hcancelled⟩ := LogInbox.calls_of_handle h
    refine ⟨LogInbox.wf_handle hw.wf h, hcancelled.trans hw.kept, ?_⟩
    rw [hspawned]
    exact hw.numbers

theorem histories_of_next (h : next maxLogs inbox step = some inbox') :
    inbox.mail.sent <+: inbox'.mail.sent ∧ inbox.mail.spawned <+: inbox'.mail.spawned := by
  cases step with
  | call entry =>
    cases h
    exact ⟨List.prefix_rfl, List.prefix_append _ _⟩
  | send i =>
    obtain ⟨mail, hsend, rfl⟩ := LogInbox.logEntry_eq_some h
    obtain ⟨_, _, _, rfl⟩ := Mailbox.send_eq_some hsend
    exact ⟨List.prefix_append _ _, List.prefix_rfl⟩
  | handle =>
    obtain ⟨sent, mail, hreceive, rfl⟩ := LogInbox.handle_eq_some h
    obtain ⟨rest, _, rfl⟩ := Mailbox.receive_eq_some hreceive
    exact ⟨List.prefix_rfl, List.prefix_rfl⟩

theorem front_iff_of_next (hw : Numbered maxLogs inbox)
    (hfront : inbox.mail.sent <+: inbox.mail.spawned)
    (h : next maxLogs inbox step = some inbox') :
    inbox'.mail.sent <+: inbox'.mail.spawned ↔ InTurn inbox step := by
  cases step with
  | call entry =>
    cases h
    exact ⟨fun _ => trivial, fun _ => hfront.trans (List.prefix_append _ _)⟩
  | send i =>
    obtain ⟨mail, hsend, rfl⟩ := LogInbox.logEntry_eq_some h
    exact Mailbox.sent_front_iff_of_send hw.wf.mail hw.nodup hw.kept hfront hsend
  | handle =>
    obtain ⟨sent, mail, hreceive, rfl⟩ := LogInbox.handle_eq_some h
    obtain ⟨rest, _, rfl⟩ := Mailbox.receive_eq_some hreceive
    exact ⟨fun _ => trivial, fun _ => hfront⟩

/-- Sends in turn are exact for the order of the calls. -/
theorem inTurn_exact (maxLogs : Nat) : Exact (next maxLogs) InTurn (Numbered maxLogs)
    fun inbox => ¬ inbox.mail.sent <+: inbox.mail.spawned where
  inv_step _ _ _ hw h := numbered_of_next hw h
  bad_step := by
    intro a step b ha hbad hnext hfront
    obtain ⟨hsent, hspawned⟩ := histories_of_next hnext
    exact hbad (Mailbox.sent_front_of_grown ha.wf.mail hsent hspawned hfront)
  bad_of_not_ok := by
    intro a step b ha hok hnext hfront
    obtain ⟨hsent, hspawned⟩ := histories_of_next hnext
    have hbefore := Mailbox.sent_front_of_grown ha.wf.mail hsent hspawned hfront
    exact hok ((front_iff_of_next ha hbefore hnext).mp hfront)
  not_bad_of_ok := by
    intro a step b ha hgood hok hnext
    exact not_not_intro ((front_iff_of_next ha (not_not.mp hgood) hnext).mpr hok)

theorem numbered_of_reach (h : Reach (Steps (next maxLogs)) .start inbox) :
    Numbered maxLogs inbox :=
  h.invariant_steps (fun _ _ _ => numbered_of_next) numbered_start

end EventCalls

/-- The entries are appended in the order in which their sends complete, each at most once
and in the end exactly once; this is the order of the calls exactly if every send comes in
its turn. -/
theorem eventLog_order (maxLogs : Nat) (inbox : LogInbox EventLog)
    (h : Reach (Steps (EventCalls.next maxLogs)) .start inbox) :
    inbox.storage = LogInbox.stored maxLogs inbox.mail.received ∧
      inbox.mail.received ++ inbox.mail.channel = inbox.mail.sent ∧
      (inbox.mail.sent ++ inbox.mail.pending).Perm inbox.mail.spawned ∧
      inbox.mail.spawned.Nodup ∧
      (inbox.mail.sent <+: inbox.mail.spawned ↔
        Reach (Allowed (EventCalls.next maxLogs) EventCalls.InTurn) .start inbox) := by
  have hw := EventCalls.numbered_of_reach h
  have hperm := hw.wf.mail.conserved
  rw [hw.kept, List.append_nil] at hperm
  refine ⟨hw.wf.storage, hw.wf.mail.fifo, hperm, hw.nodup, ?_⟩
  rw [← (EventCalls.inTurn_exact maxLogs).not_bad_iff EventCalls.numbered_start
    (not_not_intro List.prefix_rfl) h, not_not]

def startedEvent : EventLog := ⟨"INFO".toList, "a".toList, "t".toList⟩
def stoppedEvent : EventLog := ⟨"INFO".toList, "b".toList, "t".toList⟩

/-- Two calls, whose sends complete in turn and are handled. -/
def twoEvents : LogInbox EventLog where
  mail := ⟨[(0, startedEvent), (1, stoppedEvent)], [], [(0, startedEvent), (1, stoppedEvent)], [],
    [(0, startedEvent), (1, stoppedEvent)], []⟩
  storage := [startedEvent, stoppedEvent]

theorem eventLog_order_twoEvents :
    twoEvents.storage = LogInbox.stored 100 twoEvents.mail.received ∧
      twoEvents.mail.received ++ twoEvents.mail.channel = twoEvents.mail.sent ∧
      (twoEvents.mail.sent ++ twoEvents.mail.pending).Perm twoEvents.mail.spawned ∧
      twoEvents.mail.spawned.Nodup ∧
      (twoEvents.mail.sent <+: twoEvents.mail.spawned ↔
        Reach (Allowed (EventCalls.next 100) EventCalls.InTurn) .start twoEvents) :=
  eventLog_order 100 twoEvents (reach_runLabels
    [.call startedEvent, .call stoppedEvent, .send 0, .send 0, .handle, .handle] rfl)

/-- The task of the second call completes first. -/
theorem eventLog_out_of_order :
    ¬ ∀ inbox : LogInbox EventLog, Reach (Steps (EventCalls.next 100)) .start inbox →
      (inbox.mail.received.map Prod.fst).Pairwise (· < ·) := by
  intro h
  have hpairwise := h _ (reach_runLabels
    [.call startedEvent, .call stoppedEvent, .send 1, .send 0, .handle, .handle] rfl)
  exact absurd hpairwise (by decide)

end AppComponts
