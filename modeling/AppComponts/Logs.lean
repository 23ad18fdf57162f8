import AppComponts.Library.Interleaving
import AppComponts.Library.Text

/-!
# The two logs

Storages, log handlers and clear callbacks of `logs/event_log.rs` and
`logs/http_proxylogs.rs`, over the two tables of the one global `GlobalBasicSettings`. The
files are copies of each other; `LogSystem` holds the setters in which they differ.
-/

namespace AppComponts
open Text Transition
set_option autoImplicit false

structure EventLog where
  level : Str
  message : Str
  timestamp : Str
  deriving DecidableEq, Repr

structure ProxyLogEntry where
  timestamp : Str
  id : Str
  host : Str
  method : Str
  url : Str
  statusCode : Str
  length : Str
  deriving DecidableEq, Repr

/-- The tables on display; a model holds a copy of each entry, field by field. -/
structure GlobalBasicSettings where
  logs : List EventLog
  proxyLogs : List ProxyLogEntry
  deriving DecidableEq, Repr

/-- The setters that closures passed to `invoke_from_event_loop` call. -/
inductive UiUpdate where
  | setLogs (model : List EventLog)
  | setProxyLogs (model : List ProxyLogEntry)
  deriving DecidableEq, Repr

def UiUpdate.apply : UiUpdate → GlobalBasicSettings → GlobalBasicSettings
  | .setLogs model, gui => { gui with logs := model }
  | .setProxyLogs model, gui => { gui with proxyLogs := model }

def addEntry {Entry : Type} (entries : List Entry) (entry : Entry) (maxSize : Nat) :
    List Entry :=
  let entries := entries ++ [entry]
  if entries.length > maxSize then entries.tail else entries

/-- What `update_ui` and the clear callback of a log system set. -/
structure LogSystem (Entry : Type) where
  updateUi : List Entry → UiUpdate
  clearUi : UiUpdate

/-- The clear callback of `event_log.rs` sets the model of the proxy log. -/
def eventLogSystem : LogSystem EventLog := ⟨.setLogs, .setProxyLogs []⟩

def proxyLogSystem : LogSystem ProxyLogEntry := ⟨.setProxyLogs, .setProxyLogs []⟩

/-- The storage; the snapshot of a handler that has yet to call `update_ui`; and whether the
clear callback has yet to queue its update. -/
structure Log (Entry : Type) where
  storage : List Entry
  snapshot : Option (List Entry)
  clearing : Bool
  deriving DecidableEq, Repr

/-- The two steps of the handler, and the two steps of the clear callback. -/
inductive LogStep (Entry : Type) where
  | addEntry (entry : Entry)
  | updateUi
  | clear
  | clearUi
  deriving DecidableEq, Repr

namespace Log
variable {Entry : Type}

def empty : Log Entry := ⟨[], none, false⟩

/-- Neither party is between its two steps. -/
def Idle (log : Log Entry) : Prop := log.snapshot = none ∧ log.clearing = false

/-- The log after a step, and the updates the step queues. -/
def next (sys : LogSystem Entry) (maxLogs : Nat) (log : Log Entry) :
    LogStep Entry → Option (Log Entry × List UiUpdate)
  | .addEntry entry =>
    match log.snapshot with
    | none =>
      let entries := AppComponts.addEntry log.storage entry maxLogs
      some ({ log with storage := entries, snapshot := some entries }, [])
    | some _ => none
  | .updateUi =>
    match log.snapshot with
    | none => none
    | some entries => some ({ log with snapshot := none }, [sys.updateUi entries])
  | .clear =>
    match log.clearing with
    | false => some ({ log with storage := [], clearing := true }, [])
    | true => none
  | .clearUi =>
    match log.clearing with
    | false => none
    | true => some ({ log with clearing := false }, [sys.clearUi])

variable {sys : LogSystem Entry} {maxLogs : Nat} {log log' : Log Entry}
  {updates : List UiUpdate}

theorem next_addEntry {entry : Entry}
    (h : log.next sys maxLogs (.addEntry entry) = some (log', updates)) :
    log.snapshot = none ∧ updates = [] ∧
      log' = ⟨AppComponts.addEntry log.storage entry maxLogs,
        some (AppComponts.addEntry log.storage entry maxLogs), log.clearing⟩ := by
  simp only [next] at h
  split at h
  · rename_i hsnapshot
    cases h
    exact ⟨hsnapshot, rfl, rfl⟩
  · cases h

theorem next_updateUi (h : log.next sys maxLogs .updateUi = some (log', updates)) :
    ∃ entries, log.snapshot = some entries ∧ updates = [sys.updateUi entries] ∧
      log' = ⟨log.storage, none, log.clearing⟩ := by
  simp only [next] at h
  split at h
  · cases h
  · rename_i entries hsnapshot
    cases h
    exact ⟨entries, hsnapshot, rfl, rfl⟩

theorem next_clear (h : log.next sys maxLogs .clear = some (log', updates)) :
    log.clearing = false ∧ updates = [] ∧ log' = ⟨[], log.snapshot, true⟩ := by
  simp only [next] at h
  split at h
  · rename_i hclearing
    cases h
    exact ⟨hclearing, rfl, rfl⟩
  · cases h

theorem next_clearUi (h : log.next sys maxLogs .clearUi = some (log', updates)) :
    log.clearing = true ∧ updates = [sys.clearUi] ∧
      log' = ⟨log.storage, log.snapshot, false⟩ := by
  simp only [next] at h
  split at h
  · cases h
  · rename_i hclearing
    cases h
    exact ⟨hclearing, rfl, rfl⟩

end Log

structure LogWorld where
  event : Log EventLog
  proxy : Log ProxyLogEntry
  updates : List UiUpdate
  gui : GlobalBasicSettings
  deriving DecidableEq, Repr

inductive LogWorldStep where
  | event (step : LogStep EventLog)
  | proxy (step : LogStep ProxyLogEntry)
  | eventLoop
  deriving DecidableEq, Repr

namespace LogWorld

/-- What `init_ui_model` and `new` of both systems leave. -/
def start : LogWorld := ⟨.empty, .empty, [], ⟨[], []⟩⟩

def next (maxLogs : Nat) (w : LogWorld) : LogWorldStep → Option LogWorld
  | .event step =>
    (w.event.next eventLogSystem maxLogs step).map fun (log, updates) =>
      { w with event := log, updates := w.updates ++ updates }
  | .proxy step =>
    (w.proxy.next proxyLogSystem maxLogs step).map fun (log, updates) =>
      { w with proxy := log, updates := w.updates ++ updates }
  | .eventLoop =>
    match w.updates with
    | [] => none
    | update :: rest => some { w with updates := rest, gui := update.apply w.gui }

/-- No operation is in progress. -/
structure Idle (w : LogWorld) : Prop where
  event : w.event.Idle
  proxy : w.proxy.Idle
  updates : w.updates = []

end LogWorld

inductive LogOperation where
  | receiveEvent (entry : EventLog)
  | receiveProxy (entry : ProxyLogEntry)
  | clearLogs
  | clearProxyLogs
  deriving DecidableEq, Repr

/-- An operation to its end, its update on display. -/
def LogOperation.steps : LogOperation → List LogWorldStep
  | .receiveEvent entry => [.event (.addEntry entry), .event .updateUi, .eventLoop]
  | .receiveProxy entry => [.proxy (.addEntry entry), .proxy .updateUi, .eventLoop]
  | .clearLogs => [.event .clear, .event .clearUi, .eventLoop]
  | .clearProxyLogs => [.proxy .clear, .proxy .clearUi, .eventLoop]

def Isolated (w w' : LogWorld) : LogOperation → Prop
  | .receiveEvent _ | .clearLogs =>
    w'.proxy.storage = w.proxy.storage ∧ w'.gui.proxyLogs = w.gui.proxyLogs ∧
      w'.gui.logs = w'.event.storage
  | .receiveProxy _ | .clearProxyLogs =>
    w'.event.storage = w.event.storage ∧ w'.gui.logs = w.gui.logs ∧
      w'.gui.proxyLogs = w'.proxy.storage

/-- The logs do not interfere, but for the clear of the event log: it leaves that log on
display and takes the proxy log off it, so both tables have to be empty already. -/
theorem isolated_iff (maxLogs : Nat) (w : LogWorld) (hidle : w.Idle) (op : LogOperation) :
    ∃ w', runLabels (LogWorld.next maxLogs) (fun _ _ => True) w op.steps = some w' ∧
      w'.Idle ∧
      (Isolated w w' op ↔ (op = .clearLogs → w.gui.logs = [] ∧ w.gui.proxyLogs = [])) := by
  obtain ⟨⟨events, _, _⟩, ⟨entries, _, _⟩, _, gui⟩ := w
  obtain ⟨⟨hes, hec⟩, ⟨hps, hpc⟩, hupdates⟩ := hidle
  cases hes
  cases hec
  cases hps
  cases hpc
  cases hupdates
  cases op with
  | receiveEvent entry =>
    refine ⟨_, rfl, ⟨⟨rfl, rfl⟩, ⟨rfl, rfl⟩, rfl⟩, fun _ h => (nomatch h), fun _ => ?_⟩
    exact ⟨rfl, rfl, rfl⟩
  | receiveProxy entry =>
    refine ⟨_, rfl, ⟨⟨rfl, rfl⟩, ⟨rfl, rfl⟩, rfl⟩, fun _ h => (nomatch h), fun _ => ?_⟩
    exact ⟨rfl, rfl, rfl⟩
  | clearLogs =>
    refine ⟨_, rfl, ⟨⟨rfl, rfl⟩, ⟨rfl, rfl⟩, rfl⟩, ?_, ?_⟩
    · intro h _
      obtain ⟨_, hproxy, hown⟩ := h
      exact ⟨hown, hproxy.symm⟩
    · intro h
      obtain ⟨hlogs, hproxy⟩ := h rfl
      exact ⟨rfl, hproxy.symm, hlogs⟩
  | clearProxyLogs =>
    refine ⟨_, rfl, ⟨⟨rfl, rfl⟩, ⟨rfl, rfl⟩, rfl⟩, fun _ h => (nomatch h), fun _ => ?_⟩
    exact ⟨rfl, rfl, rfl⟩

def requestEntry : ProxyLogEntry :=
  ⟨"t".toList, "1".toList, "a".toList, "GET".toList, "/".toList, "200".toList, "2".toList⟩

/-- One request in the proxy log, and on display. -/
def oneRequest : LogWorld := ⟨.empty, ⟨[requestEntry], none, false⟩, [], ⟨[], [requestEntry]⟩⟩

theorem isolated_clearProxyLogs :
    ∃ w', runLabels (LogWorld.next 100) (fun _ _ => True) oneRequest
        LogOperation.clearProxyLogs.steps = some w' ∧ w'.Idle ∧
      (Isolated oneRequest w' .clearProxyLogs ↔
        (LogOperation.clearProxyLogs = .clearLogs →
          oneRequest.gui.logs = [] ∧ oneRequest.gui.proxyLogs = [])) :=
  isolated_iff 100 oneRequest ⟨⟨rfl, rfl⟩, ⟨rfl, rfl⟩, rfl⟩ .clearProxyLogs

/-- Clearing the event log takes the request off the display of the proxy log. -/
theorem clearLogs_not_isolated :
    ¬ ∀ w, Reach (Steps (LogWorld.next 100)) .start w → w.Idle → ∀ op w',
      runLabels (LogWorld.next 100) (fun _ _ => True) w op.steps = some w' →
      Isolated w w' op := by
  intro h
  have hreach : Reach (Steps (LogWorld.next 100)) .start oneRequest :=
    reach_runLabels (LogOperation.receiveProxy requestEntry).steps rfl
  obtain ⟨_, hproxy, _⟩ :=
    h oneRequest hreach ⟨⟨rfl, rfl⟩, ⟨rfl, rfl⟩, rfl⟩ .clearLogs _ rfl
  cases hproxy

end AppComponts
