import AppComponts.LogStore
import AppComponts.LogTable

/-!
# What the tables can show

A table shows a model of a moment: it may be behind the storage, and a clear may be behind
it. It never shows but what was added, one entry behind the other, and no more than the
storage has room for. In a run with no clears a table at rest shows the newest entries.
-/

namespace AppComponts
open Transition
set_option autoImplicit false

structure Excerpt {Entry : Type} (maxLogs : Nat) (added model : List Entry) : Prop where
  stretch : model <:+: added
  bounded : model.length ≤ maxLogs

def LogStep.added {Entry : Type} : LogStep Entry → List Entry
  | .addEntry entry => [entry]
  | _ => []

section Entries
variable {Entry : Type} {maxLogs : Nat} {added model : List Entry}

theorem excerpt_nil (maxLogs : Nat) (added : List Entry) : Excerpt maxLogs added [] :=
  ⟨List.nil_infix, Nat.zero_le maxLogs⟩

theorem Excerpt.grow (h : Excerpt maxLogs added model) (more : List Entry) :
    Excerpt maxLogs (added ++ more) model :=
  ⟨h.stretch.trans (List.infix_append' [] added more), h.bounded⟩

theorem addEntry_suffix (h : model <:+ added) (entry : Entry) :
    addEntry model entry maxLogs <:+ added ++ [entry] := by
  obtain ⟨older, hadded⟩ := h
  have hwhole : model ++ [entry] <:+ added ++ [entry] :=
    ⟨older, by rw [← hadded, List.append_assoc]⟩
  simp only [addEntry]
  split
  · exact (List.tail_suffix _).trans hwhole
  · exact hwhole

theorem addEntry_length (h : model.length ≤ maxLogs) (entry : Entry) :
    (addEntry model entry maxLogs).length ≤ maxLogs := by
  simp only [addEntry]
  split
  · rw [List.length_tail, List.length_append, List.length_singleton]
    omega
  · rename_i hroom
    exact Nat.le_of_not_gt hroom

structure Log.Fed (maxLogs : Nat) (added : List Entry) (log : Log Entry) : Prop where
  newest : log.storage <:+ added
  bounded : log.storage.length ≤ maxLogs
  snapshot : ∀ model ∈ log.snapshot, Excerpt maxLogs added model

theorem Log.fed_empty (maxLogs : Nat) : (Log.empty : Log Entry).Fed maxLogs [] where
  newest := List.suffix_rfl
  bounded := Nat.zero_le maxLogs
  snapshot model h := by cases h

variable {sys : LogSystem Entry} {log log' : Log Entry} {updates : List UiUpdate}
  {step : LogStep Entry}

theorem Log.Fed.grow (h : log.Fed maxLogs added) (hnil : step.added = []) :
    log.Fed maxLogs (added ++ step.added) := by
  rw [hnil, List.append_nil]
  exact h

theorem Log.fed_of_next (hw : log.Fed maxLogs added)
    (h : log.next sys maxLogs step = some (log', updates)) :
    log'.Fed maxLogs (added ++ step.added) ∧ ∀ update ∈ updates, update = sys.clearUi ∨
      ∃ model, update = sys.updateUi model ∧ Excerpt maxLogs added model := by
  cases step with
  | addEntry entry =>
    obtain ⟨_, rfl, rfl⟩ := next_addEntry h
    have hnewest := @addEntry_suffix _ maxLogs _ _ hw.newest entry
    have hbounded := addEntry_length hw.bounded entry
    refine ⟨⟨hnewest, hbounded, ?_⟩, fun _ h => by cases h⟩
    intro model hmodel
    cases hmodel
    exact ⟨hnewest.isInfix, hbounded⟩
  | updateUi =>
    obtain ⟨entries, hsnapshot, rfl, rfl⟩ := next_updateUi h
    refine ⟨Log.Fed.grow ⟨hw.newest, hw.bounded, fun _ h => by cases h⟩ rfl, ?_⟩
    intro update hupdate
    exact Or.inr ⟨entries, List.mem_singleton.mp hupdate, hw.snapshot entries hsnapshot⟩
  | clear =>
    obtain ⟨_, rfl, rfl⟩ := next_clear h
    refine ⟨Log.Fed.grow ⟨List.nil_suffix, Nat.zero_le _, hw.snapshot⟩ rfl, ?_⟩
    intro update hupdate
    cases hupdate
  | clearUi =>
    obtain ⟨_, rfl, rfl⟩ := next_clearUi h
    refine ⟨Log.Fed.grow ⟨hw.newest, hw.bounded, hw.snapshot⟩ rfl, ?_⟩
    intro update hupdate
    exact Or.inl (List.mem_singleton.mp hupdate)

end Entries

def UiUpdate.Excerpts (maxLogs : Nat) (events : List EventLog) (entries : List ProxyLogEntry) :
    UiUpdate → Prop
  | .setLogs model => Excerpt maxLogs events model
  | .setProxyLogs model => Excerpt maxLogs entries model

def LogWorldStep.addedEvents : LogWorldStep → List EventLog
  | .event step => step.added
  | _ => []

def LogWorldStep.addedEntries : LogWorldStep → List ProxyLogEntry
  | .proxy step => step.added
  | _ => []

namespace LogWorld

structure Fed (maxLogs : Nat) (events : List EventLog) (entries : List ProxyLogEntry)
    (w : LogWorld) : Prop where
  event : w.event.Fed maxLogs events
  proxy : w.proxy.Fed maxLogs entries
  updates : ∀ update ∈ w.updates, update.Excerpts maxLogs events entries
  logs : Excerpt maxLogs events w.gui.logs
  proxyLogs : Excerpt maxLogs entries w.gui.proxyLogs

variable {maxLogs : Nat} {events : List EventLog} {entries : List ProxyLogEntry}
  {w w' : LogWorld} {step : LogWorldStep}

theorem fed_start (maxLogs : Nat) : start.Fed maxLogs [] [] where
  event := Log.fed_empty maxLogs
  proxy := Log.fed_empty maxLogs
  updates update h := by cases h
  logs := excerpt_nil maxLogs []
  proxyLogs := excerpt_nil maxLogs []

theorem excerpts_grow {update : UiUpdate} (h : update.Excerpts maxLogs events entries)
    (moreEvents : List EventLog) (moreEntries : List ProxyLogEntry) :
    update.Excerpts maxLogs (events ++ moreEvents) (entries ++ moreEntries) := by
  cases update with
  | setLogs model => exact Excerpt.grow h moreEvents
  | setProxyLogs model => exact Excerpt.grow h moreEntries

theorem fed_of_next (hw : w.Fed maxLogs events entries) (h : w.next maxLogs step = some w') :
    w'.Fed maxLogs (events ++ step.addedEvents) (entries ++ step.addedEntries) := by
  cases step with
  | event step =>
    obtain ⟨⟨log, updates⟩, hnext, rfl⟩ := Option.map_eq_some_iff.mp h
    obtain ⟨hevent, hupdates⟩ := Log.fed_of_next hw.event hnext
    simp only [LogWorldStep.addedEvents, LogWorldStep.addedEntries, List.append_nil]
    refine ⟨hevent, hw.proxy, ?_, hw.logs.grow _, hw.proxyLogs⟩
    intro update hupdate
    rw [← List.append_nil entries]
    apply excerpts_grow
    rcases List.mem_append.mp hupdate with hupdate | hupdate
    · exact hw.updates update hupdate
    · rcases hupdates update hupdate with rfl | ⟨model, rfl, hmodel⟩
      · exact excerpt_nil maxLogs entries
      · exact hmodel
  | proxy step =>
    obtain ⟨⟨log, updates⟩, hnext, rfl⟩ := Option.map_eq_some_iff.mp h
    obtain ⟨hproxy, hupdates⟩ := Log.fed_of_next hw.proxy hnext
    simp only [LogWorldStep.addedEvents, LogWorldStep.addedEntries, List.append_nil]
    refine ⟨hw.event, hproxy, ?_, hw.logs, hw.proxyLogs.grow _⟩
    intro update hupdate
    rw [← List.append_nil events]
    apply excerpts_grow
    rcases List.mem_append.mp hupdate with hupdate | hupdate
    · exact hw.updates update hupdate
    · rcases hupdates update hupdate with rfl | ⟨model, rfl, hmodel⟩
      · exact excerpt_nil maxLogs entries
      · exact hmodel
  | eventLoop =>
    obtain ⟨event, proxy, updates, gui⟩ := w
    simp only [LogWorldStep.addedEvents, LogWorldStep.addedEntries, List.append_nil]
    cases updates with
    | nil => cases h
    | cons update rest =>
      cases h
      have hrest := fun other hother => hw.updates other (List.mem_cons_of_mem update hother)
      have hhead := hw.updates update List.mem_cons_self
      cases update with
      | setLogs model => exact ⟨hw.event, hw.proxy, hrest, hhead, hw.proxyLogs⟩
      | setProxyLogs model => exact ⟨hw.event, hw.proxy, hrest, hw.logs, hhead⟩

/-- Neither log is cleared; the clear of the event log empties the proxy table, too. -/
def ClearFree : LogWorldStep → Prop
  | .event .clear => False
  | .proxy .clear => False
  | _ => True

instance (step : LogWorldStep) : Decidable (ClearFree step) :=
  match step with
  | .event .clear => isFalse id
  | .proxy .clear => isFalse id
  | .event (.addEntry _) => isTrue trivial
  | .event .updateUi => isTrue trivial
  | .event .clearUi => isTrue trivial
  | .proxy (.addEntry _) => isTrue trivial
  | .proxy .updateUi => isTrue trivial
  | .proxy .clearUi => isTrue trivial
  | .eventLoop => isTrue trivial

/-- Nothing is being cleared, and what the handler holds is what it has stored. -/
structure Whole (maxLogs : Nat) (entries : List ProxyLogEntry) (w : LogWorld) : Prop where
  eventKept : w.event.clearing = false
  proxyKept : w.proxy.clearing = false
  storage : w.proxy.storage = entries.rtake maxLogs
  snapshot : ∀ model ∈ w.proxy.snapshot, model = w.proxy.storage
  settles : w.Settles

theorem whole_start (maxLogs : Nat) : start.Whole maxLogs [] where
  eventKept := rfl
  proxyKept := rfl
  storage := (List.rtake_nil maxLogs).symm
  snapshot model h := by cases h
  settles _ := rfl

theorem addEntry_rtake (entries : List ProxyLogEntry) (entry : ProxyLogEntry) :
    addEntry (entries.rtake maxLogs) entry maxLogs = (entries ++ [entry]).rtake maxLogs := by
  have hpush := LogStorage.addEntry_items (Window.newest entries : Window _ maxLogs) entry
  rw [Window.push_newest] at hpush
  exact hpush

theorem current_of_whole (hw : w.Whole maxLogs entries) (h : w.next maxLogs step = some w') :
    w.Current step := by
  cases step with
  | eventLoop => trivial
  | event step =>
    cases step with
    | clearUi =>
      obtain ⟨⟨log, updates⟩, hnext, _⟩ := Option.map_eq_some_iff.mp h
      obtain ⟨hclearing, _⟩ := Log.next_clearUi hnext
      rw [hw.eventKept] at hclearing
      cases hclearing
    | _ => trivial
  | proxy step =>
    cases step with
    | clearUi =>
      obtain ⟨⟨log, updates⟩, hnext, _⟩ := Option.map_eq_some_iff.mp h
      obtain ⟨hclearing, _⟩ := Log.next_clearUi hnext
      rw [hw.proxyKept] at hclearing
      cases hclearing
    | updateUi =>
      obtain ⟨⟨log, updates⟩, hnext, _⟩ := Option.map_eq_some_iff.mp h
      obtain ⟨model, hsnapshot, _⟩ := Log.next_updateUi hnext
      refine Or.inr ?_
      rw [hsnapshot, hw.snapshot model hsnapshot]
    | _ => trivial

theorem whole_of_next (hw : w.Whole maxLogs entries) (hfree : ClearFree step)
    (h : w.next maxLogs step = some w') : w'.Whole maxLogs (entries ++ step.addedEntries) := by
  have hsettles := (settles_iff_of_next hw.settles h).mpr (current_of_whole hw h)
  cases step with
  | eventLoop =>
    obtain ⟨event, proxy, updates, gui⟩ := w
    cases updates with
    | nil => cases h
    | cons update rest =>
      cases h
      simp only [LogWorldStep.addedEntries, List.append_nil]
      exact ⟨hw.eventKept, hw.proxyKept, hw.storage, hw.snapshot, hsettles⟩
  | event step =>
    obtain ⟨⟨log, updates⟩, hnext, rfl⟩ := Option.map_eq_some_iff.mp h
    simp only [LogWorldStep.addedEntries, List.append_nil]
    refine ⟨?_, hw.proxyKept, hw.storage, hw.snapshot, hsettles⟩
    cases step with
    | clear => exact hfree.elim
    | addEntry entry =>
      obtain ⟨_, _, rfl⟩ := Log.next_addEntry hnext
      exact hw.eventKept
    | updateUi =>
      obtain ⟨_, _, _, rfl⟩ := Log.next_updateUi hnext
      exact hw.eventKept
    | clearUi =>
      obtain ⟨_, _, rfl⟩ := Log.next_clearUi hnext
      rfl
  | proxy step =>
    obtain ⟨⟨log, updates⟩, hnext, rfl⟩ := Option.map_eq_some_iff.mp h
    cases step with
    | clear => exact hfree.elim
    | addEntry entry =>
      obtain ⟨_, _, rfl⟩ := Log.next_addEntry hnext
      refine ⟨hw.eventKept, hw.proxyKept, ?_, ?_, hsettles⟩
      · simp only [LogWorldStep.addedEntries, LogStep.added, hw.storage]
        exact addEntry_rtake entries entry
      · intro model hmodel
        exact (Option.some.inj hmodel).symm
    | updateUi =>
      obtain ⟨_, _, _, rfl⟩ := Log.next_updateUi hnext
      simp only [LogWorldStep.addedEntries, LogStep.added, List.append_nil]
      exact ⟨hw.eventKept, hw.proxyKept, hw.storage, fun _ h => (by cases h), hsettles⟩
    | clearUi =>
      obtain ⟨_, _, rfl⟩ := Log.next_clearUi hnext
      simp only [LogWorldStep.addedEntries, LogStep.added, List.append_nil]
      exact ⟨hw.eventKept, rfl, hw.storage, hw.snapshot, hsettles⟩

theorem proxyLogs_of_whole (hw : w.Whole maxLogs entries) (hidle : w.Idle) :
    w.gui.proxyLogs = entries.rtake maxLogs := by
  have hsettled := hw.settles hidle.proxy
  rw [settled, hidle.updates, List.foldl_nil] at hsettled
  rw [hsettled, hw.storage]

end LogWorld

end AppComponts
