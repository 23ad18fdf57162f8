import AppComponts.Library.Window
import AppComponts.LogSends

/-!
# What a log storage holds

`LogStorage::add_entry` of `logs/logs.rs` removes one entry at most, and `log_generate.md`
has a `clean_old_logs` that drains all that is over. Storages that start empty are windows
on the newest entries, and the two do the same on them.
-/

namespace AppComponts
open Text Transition
set_option autoImplicit false

inductive StorageOp (Entry : Type) where
  | addEntry (entry : Entry)
  | clear
  deriving DecidableEq, Repr

def StorageOp.apply {Entry : Type} (maxLogs : Nat) (entries : List Entry) :
    StorageOp Entry → List Entry
  | .addEntry entry => AppComponts.addEntry entries entry maxLogs
  | .clear => []

/-- `LogHandler::clean_old_logs` of `log_generate.md`. -/
def cleanOldLogs {Entry : Type} (maxLogs : Nat) (storage : List Entry) : List Entry :=
  if storage.length > maxLogs then storage.drop (storage.length - maxLogs) else storage

namespace LogStorage
variable {Entry : Type}

def getEntries (maxLogs : Nat) (ops : List (StorageOp Entry)) : List Entry :=
  ops.foldl (StorageOp.apply maxLogs) []

/-- The entries added since the last clear. -/
def added (ops : List (StorageOp Entry)) : List Entry :=
  ops.foldl (fun entries op => match op with
    | .addEntry entry => entries ++ [entry]
    | .clear => []) []

variable {maxLogs : Nat} {ops : List (StorageOp Entry)} {entry : Entry}

theorem added_addEntry : added (ops ++ [.addEntry entry]) = added ops ++ [entry] := by
  simp only [added, List.foldl_append, List.foldl_cons, List.foldl_nil]

theorem added_clear : added (ops ++ [.clear]) = [] := by
  simp only [added, List.foldl_append, List.foldl_cons, List.foldl_nil]

theorem getEntries_append (op : StorageOp Entry) :
    getEntries maxLogs (ops ++ [op]) = op.apply maxLogs (getEntries maxLogs ops) := by
  simp only [getEntries, List.foldl_append, List.foldl_cons, List.foldl_nil]

theorem addEntry_items (window : Window Entry maxLogs) (entry : Entry) :
    addEntry window.items entry maxLogs = (window.push entry).items :=
  (window.push_items entry).symm

theorem getEntries_eq_newest (ops : List (StorageOp Entry)) :
    getEntries maxLogs ops = (Window.newest (added ops) : Window Entry maxLogs).items := by
  induction ops using List.reverseRecOn with
  | nil =>
    rw [added, List.foldl_nil, Window.newest_nil]
    rfl
  | append_singleton ops op ih =>
    rw [getEntries_append, ih]
    cases op with
    | addEntry entry =>
      rw [added_addEntry, ← Window.push_newest]
      exact addEntry_items _ entry
    | clear =>
      rw [added_clear, Window.newest_nil]
      rfl

/-- A push followed by the drain, on any storage. -/
theorem cleanOldLogs_eq_rtake (storage : List Entry) :
    cleanOldLogs maxLogs storage = storage.rtake maxLogs := by
  rw [cleanOldLogs]
  split
  · rfl
  · rename_i h
    exact (rtake_of_length_le (Nat.le_of_not_gt h)).symm

theorem stored_eq_getEntries (received : List (Nat × Entry)) :
    LogInbox.stored maxLogs received =
      getEntries maxLogs (received.map fun sent => .addEntry sent.2) := by
  rw [LogInbox.stored, getEntries, List.foldl_map]
  rfl

end LogStorage

def LogStep.op {Entry : Type} : LogStep Entry → Option (StorageOp Entry)
  | .addEntry entry => some (.addEntry entry)
  | .clear => some .clear
  | .updateUi => none
  | .clearUi => none

theorem Log.storage_of_next {Entry : Type} {sys : LogSystem Entry} {maxLogs : Nat}
    {log log' : Log Entry} {step : LogStep Entry} {updates : List UiUpdate}
    (h : log.next sys maxLogs step = some (log', updates)) :
    log'.storage = step.op.toList.foldl (StorageOp.apply maxLogs) log.storage := by
  cases step with
  | addEntry entry =>
    obtain ⟨_, _, rfl⟩ := Log.next_addEntry h
    rfl
  | updateUi =>
    obtain ⟨_, _, _, rfl⟩ := Log.next_updateUi h
    rfl
  | clear =>
    obtain ⟨_, _, rfl⟩ := Log.next_clear h
    rfl
  | clearUi =>
    obtain ⟨_, _, rfl⟩ := Log.next_clearUi h
    rfl

namespace LogWorldStep

def eventOps : LogWorldStep → List (StorageOp EventLog)
  | .event step => step.op.toList
  | _ => []

def proxyOps : LogWorldStep → List (StorageOp ProxyLogEntry)
  | .proxy step => step.op.toList
  | _ => []

end LogWorldStep

namespace LogWorld
variable {maxLogs : Nat} {w w' : LogWorld}

theorem storages_of_next {step : LogWorldStep} (h : w.next maxLogs step = some w') :
    w'.event.storage = step.eventOps.foldl (StorageOp.apply maxLogs) w.event.storage ∧
      w'.proxy.storage = step.proxyOps.foldl (StorageOp.apply maxLogs) w.proxy.storage := by
  cases step with
  | event step =>
    obtain ⟨⟨log, updates⟩, hlog, rfl⟩ := Option.map_eq_some_iff.mp h
    exact ⟨Log.storage_of_next hlog, rfl⟩
  | proxy step =>
    obtain ⟨⟨log, updates⟩, hlog, rfl⟩ := Option.map_eq_some_iff.mp h
    exact ⟨rfl, Log.storage_of_next hlog⟩
  | eventLoop =>
    simp only [next] at h
    split at h
    · cases h
    · cases h
      exact ⟨rfl, rfl⟩

/-- The storage of each log depends on the steps of this log alone. -/
theorem storages_of_run {steps : List LogWorldStep}
    (h : runLabels (next maxLogs) (fun _ _ => True) w steps = some w') :
    w'.event.storage =
        (steps.flatMap LogWorldStep.eventOps).foldl (StorageOp.apply maxLogs) w.event.storage ∧
      w'.proxy.storage =
        (steps.flatMap LogWorldStep.proxyOps).foldl (StorageOp.apply maxLogs) w.proxy.storage := by
  induction steps generalizing w with
  | nil =>
    cases h
    exact ⟨rfl, rfl⟩
  | cons step steps ih =>
    simp only [runLabels, if_true] at h
    obtain ⟨v, hnext, hrun⟩ := Option.bind_eq_some_iff.mp h
    obtain ⟨hevent, hproxy⟩ := storages_of_next hnext
    obtain ⟨hevents, hproxies⟩ := ih hrun
    simp only [List.flatMap_cons, List.foldl_append]
    rw [hevents, hproxies, hevent, hproxy]
    exact ⟨rfl, rfl⟩

/-- In a run of the program both storages are those of the operations on them. -/
theorem storages_eq_getEntries {steps : List LogWorldStep}
    (h : runLabels (next maxLogs) (fun _ _ => True) start steps = some w) :
    w.event.storage = LogStorage.getEntries maxLogs (steps.flatMap LogWorldStep.eventOps) ∧
      w.proxy.storage = LogStorage.getEntries maxLogs (steps.flatMap LogWorldStep.proxyOps) :=
  storages_of_run h

end LogWorld

/-- A log storage holds the newest entries since its last clear, as many as it may, and
`add_entry` is the documented drain behind a push. -/
theorem getEntries_newest {Entry : Type} (maxLogs : Nat) (ops : List (StorageOp Entry)) :
    (∃ evicted, LogStorage.added ops = evicted ++ LogStorage.getEntries maxLogs ops) ∧
    (LogStorage.getEntries maxLogs ops).length = min maxLogs (LogStorage.added ops).length ∧
    ∀ entry, LogStorage.getEntries maxLogs (ops ++ [.addEntry entry]) =
      cleanOldLogs maxLogs (LogStorage.getEntries maxLogs ops ++ [entry]) := by
  have hnewest := @LogStorage.getEntries_eq_newest _ maxLogs ops
  refine ⟨?_, ?_, ?_⟩
  · refine ⟨(LogStorage.added ops).take ((LogStorage.added ops).length - maxLogs), ?_⟩
    rw [hnewest]
    exact (List.take_append_drop _ _).symm
  · rw [hnewest]
    exact length_rtake (LogStorage.added ops) maxLogs
  · intro entry
    rw [LogStorage.cleanOldLogs_eq_rtake, LogStorage.getEntries_append, hnewest]
    exact LogStorage.addEntry_items _ entry

end AppComponts
