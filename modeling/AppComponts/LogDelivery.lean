import AppComponts.ApplicationLog

/-!
# The way of an entry to its table

Once nothing is logged or cleared any more, the sends, the handlers and the event loop come
to an end in whatever order they go on, and then every entry has arrived that was on its way.
-/

namespace AppComponts
open Transition
set_option autoImplicit false

/-- The steps that are ahead of a message: its send and its receipt, and two for the table. -/
def Mailbox.load {α : Type} (mail : Mailbox α) : Nat :=
  4 * mail.pending.length + 3 * mail.channel.length

def Log.load {Entry : Type} (log : Log Entry) : Nat :=
  2 * log.snapshot.toList.length + 2 * log.clearing.toNat

section Load
variable {α : Type} {m m' : Mailbox α} {a : α} {i capacity : Nat}

theorem load_of_send (h : m.send capacity i = some m') :
    Mailbox.load m' < Mailbox.load m ∧ m'.spawned = m.spawned ∧ m'.cancelled = m.cancelled := by
  obtain ⟨a, ha, _, rfl⟩ := Mailbox.send_eq_some h
  refine ⟨?_, rfl, rfl⟩
  obtain ⟨hi, _⟩ := List.getElem?_eq_some_iff.mp ha
  simp only [Mailbox.load, List.length_eraseIdx_of_lt hi, List.length_append, List.length_singleton]
  omega

theorem load_of_receive (h : m.receive = some (a, m')) :
    Mailbox.load m' + 3 = Mailbox.load m ∧ m'.spawned = m.spawned ∧
      m'.cancelled = m.cancelled := by
  obtain ⟨rest, hchannel, rfl⟩ := Mailbox.receive_eq_some h
  refine ⟨?_, rfl, rfl⟩
  simp only [Mailbox.load, hchannel, List.length_cons]
  omega

variable {Entry : Type} {sys : LogSystem Entry} {maxLogs : Nat} {log log' : Log Entry}
  {updates : List UiUpdate}

theorem load_of_addEntry {entry : Entry}
    (h : log.next sys maxLogs (.addEntry entry) = some (log', updates)) :
    log'.load = log.load + 2 ∧ updates = [] := by
  obtain ⟨hsnapshot, rfl, rfl⟩ := Log.next_addEntry h
  refine ⟨?_, rfl⟩
  simp only [Log.load, hsnapshot, Option.toList_some, Option.toList_none, List.length_singleton,
    List.length_nil]
  omega

theorem load_of_update {step : LogStep Entry} (hstep : step = .updateUi ∨ step = .clearUi)
    (h : log.next sys maxLogs step = some (log', updates)) :
    log'.load + 2 = log.load ∧ updates.length = 1 := by
  rcases hstep with rfl | rfl
  · obtain ⟨entries, hsnapshot, rfl, rfl⟩ := Log.next_updateUi h
    refine ⟨?_, rfl⟩
    simp only [Log.load, hsnapshot, Option.toList_some, Option.toList_none, List.length_singleton,
      List.length_nil]
    omega
  · obtain ⟨hclearing, rfl, rfl⟩ := Log.next_clearUi h
    refine ⟨?_, rfl⟩
    simp only [Log.load, hclearing, Bool.toNat_true, Bool.toNat_false]

end Load

namespace LogWorld
variable {maxLogs : Nat} {w w' : LogWorld}

def load (w : LogWorld) : Nat := w.event.load + w.proxy.load + w.updates.length

theorem load_of_add {step : LogWorldStep} (hadds : step.Adds) (h : w.next maxLogs step = some w') :
    w'.load = w.load + 2 := by
  cases step with
  | eventLoop => exact hadds.elim
  | event step =>
    obtain ⟨⟨log, updates⟩, hnext, rfl⟩ := Option.map_eq_some_iff.mp h
    cases step with
    | addEntry entry =>
      obtain ⟨hload, rfl⟩ := load_of_addEntry hnext
      simp only [load, hload, List.append_nil]
      omega
    | _ => exact hadds.elim
  | proxy step =>
    obtain ⟨⟨log, updates⟩, hnext, rfl⟩ := Option.map_eq_some_iff.mp h
    cases step with
    | addEntry entry =>
      obtain ⟨hload, rfl⟩ := load_of_addEntry hnext
      simp only [load, hload, List.append_nil]
      omega
    | _ => exact hadds.elim

theorem load_of_own {step : LogWorldStep} (hadds : ¬ step.Adds) (hfree : ClearFree step)
    (h : w.next maxLogs step = some w') : w'.load < w.load := by
  cases step with
  | eventLoop =>
    obtain ⟨event, proxy, updates, gui⟩ := w
    cases updates with
    | nil => cases h
    | cons update rest =>
      cases h
      simp only [load, List.length_cons]
      omega
  | event step =>
    obtain ⟨⟨log, updates⟩, hnext, rfl⟩ := Option.map_eq_some_iff.mp h
    have hstep : step = .updateUi ∨ step = .clearUi := by
      cases step with
      | addEntry entry => exact (hadds trivial).elim
      | clear => exact hfree.elim
      | updateUi => exact Or.inl rfl
      | clearUi => exact Or.inr rfl
    obtain ⟨hload, hone⟩ := load_of_update hstep hnext
    simp only [load, List.length_append, hone]
    omega
  | proxy step =>
    obtain ⟨⟨log, updates⟩, hnext, rfl⟩ := Option.map_eq_some_iff.mp h
    have hstep : step = .updateUi ∨ step = .clearUi := by
      cases step with
      | addEntry entry => exact (hadds trivial).elim
      | clear => exact hfree.elim
      | updateUi => exact Or.inl rfl
      | clearUi => exact Or.inr rfl
    obtain ⟨hload, hone⟩ := load_of_update hstep hnext
    simp only [load, List.length_append, hone]
    omega

theorem idle_of_stuck (h : ∀ step : LogWorldStep, ¬ step.Adds → ClearFree step →
    w.next maxLogs step = none) : w.Idle := by
  obtain ⟨⟨events, snapshot, clearing⟩, ⟨entries, snapshot', clearing'⟩, updates, gui⟩ := w
  refine ⟨⟨?_, ?_⟩, ⟨?_, ?_⟩, ?_⟩
  · cases snapshot with
    | none => rfl
    | some model => cases h (.event .updateUi) (by simp [LogWorldStep.Adds]) trivial
  · cases clearing with
    | false => rfl
    | true => cases h (.event .clearUi) (by simp [LogWorldStep.Adds]) trivial
  · cases snapshot' with
    | none => rfl
    | some model => cases h (.proxy .updateUi) (by simp [LogWorldStep.Adds]) trivial
  · cases clearing' with
    | false => rfl
    | true => cases h (.proxy .clearUi) (by simp [LogWorldStep.Adds]) trivial
  · cases updates with
    | nil => rfl
    | cons update rest => cases h .eventLoop (by simp [LogWorldStep.Adds]) trivial

end LogWorld

namespace Application
variable {maxLogs : Nat} {w w' : Application} {act : AppAction}

def Delivers (_ : Application) : AppAction → Prop
  | .sendEvent _ => True
  | .sendEntry _ => True
  | .receiveEvent => True
  | .receiveEntry => True
  | .logs step => LogWorld.ClearFree step
  | _ => False

instance (w : Application) (act : AppAction) : Decidable (w.Delivers act) :=
  match act with
  | .logs step => inferInstanceAs (Decidable (LogWorld.ClearFree step))
  | .sendEvent _ => isTrue trivial
  | .sendEntry _ => isTrue trivial
  | .receiveEvent => isTrue trivial
  | .receiveEntry => isTrue trivial
  | .handleEvent _ _ => isFalse id
  | .thread _ _ _ => isFalse id
  | .mainEvent _ _ => isFalse id

def outstanding (w : Application) : Nat :=
  Mailbox.load w.events + Mailbox.load w.entries + w.logs.load

/-- The entries of `w'` are those of `w`, further on their way. -/
def Onward (w w' : Application) : Prop :=
  w'.threads = w.threads ∧ w'.entries.spawned = w.entries.spawned ∧
    w'.entries.cancelled = w.entries.cancelled

theorem onward_of_next (hact : w.Delivers act) (h : w.next maxLogs act = some w') :
    w.Onward w' ∧ w'.outstanding < w.outstanding := by
  cases appStep_of_next h with
  | toggled host port => exact hact.elim
  | moved hthread hnext => exact hact.elim
  | reported event now => exact hact.elim
  | sentEvent hsend =>
    refine ⟨⟨rfl, rfl, rfl⟩, ?_⟩
    have hload := (load_of_send hsend).1
    simp only [outstanding]
    omega
  | sentEntry hsend =>
    obtain ⟨hload, hspawned, hcancelled⟩ := load_of_send hsend
    refine ⟨⟨rfl, hspawned, hcancelled⟩, ?_⟩
    simp only [outstanding]
    omega
  | receivedEvent hreceive hlogs =>
    refine ⟨⟨rfl, rfl, rfl⟩, ?_⟩
    have hload := (load_of_receive hreceive).1
    have hlog := LogWorld.load_of_add (by trivial) hlogs
    simp only [outstanding]
    omega
  | receivedEntry hreceive hlogs =>
    obtain ⟨hload, hspawned, hcancelled⟩ := load_of_receive hreceive
    refine ⟨⟨rfl, hspawned, hcancelled⟩, ?_⟩
    have hlog := LogWorld.load_of_add (by trivial) hlogs
    simp only [outstanding]
    omega
  | own hadds hlogs =>
    refine ⟨⟨rfl, rfl, rfl⟩, ?_⟩
    have hlog := LogWorld.load_of_own hadds hact hlogs
    simp only [outstanding]
    omega

theorem onward_of_reach (h : Reach (Allowed (next maxLogs) Delivers) w w') : w.Onward w' := by
  refine h.invariant_allowed (P := fun v => w.Onward v) ?_ ⟨rfl, rfl, rfl⟩
  intro u act v hu hact hnext
  obtain ⟨⟨hthreads, hspawned, hcancelled⟩, _⟩ := onward_of_next hact hnext
  exact ⟨hthreads.trans hu.1, hspawned.trans hu.2.1, hcancelled.trans hu.2.2⟩

theorem clearFree_of_delivers (h : Reach (Allowed (next maxLogs) Delivers) w w') :
    Reach (Allowed (next maxLogs) ClearFree) w w' := by
  induction h with
  | refl => exact .refl
  | tail _ hstep ih =>
    obtain ⟨act, hact, hnext⟩ := hstep
    refine ih.tail ⟨act, ?_, hnext⟩
    cases act with
    | logs step => exact hact
    | _ => trivial

/-- Where no delivery can go on, nothing is on its way. -/
theorem quiet_of_stuck (h : Stuck (next maxLogs) Delivers w) :
    w.logs.Idle ∧ w.events.Quiet ∧ w.entries.Quiet := by
  have hidle : w.logs.Idle := by
    apply @LogWorld.idle_of_stuck maxLogs
    intro step hadds hfree
    have hstuck := h (.logs step) hfree
    simp only [next, if_neg hadds] at hstuck
    exact Option.map_eq_none_iff.mp hstuck
  obtain ⟨running, sender, threads, events, entries, logs⟩ := w
  obtain ⟨⟨event, snapshot, clearing⟩, ⟨proxy, snapshot', clearing'⟩, updates, gui⟩ := logs
  obtain rfl : snapshot = none := hidle.event.1
  obtain rfl : snapshot' = none := hidle.proxy.1
  refine ⟨hidle, ?_, ?_⟩
  · obtain ⟨spawned, pending, sent, channel, received, cancelled⟩ := events
    cases channel with
    | cons message channel => cases h .receiveEvent trivial
    | nil =>
      cases pending with
      | cons message pending => cases h (.sendEvent 0) trivial
      | nil => exact ⟨rfl, rfl⟩
  · obtain ⟨spawned, pending, sent, channel, received, cancelled⟩ := entries
    cases channel with
    | cons message channel => cases h .receiveEntry trivial
    | nil =>
      cases pending with
      | cons message pending => cases h (.sendEntry 0) trivial
      | nil => exact ⟨rfl, rfl⟩

end Application

/-- From every state of the application the deliveries come to an end within as many steps as
are outstanding, in whatever order they go on. Then nothing is on its way, each session that had
logged has its entry received unless its runtime was dropped before, and, if no log was cleared,
the proxy table shows the newest of the entries received. -/
theorem application_delivers (maxLogs : Nat) (w : Application)
    (h : Reach (Steps (Application.next maxLogs)) .start w) :
    (∀ acts w', runLabels (Application.next maxLogs) Application.Delivers w acts = some w' →
      acts.length ≤ w.outstanding) ∧
    ∀ w', Reach (Allowed (Application.next maxLogs) Application.Delivers) w w' →
      Stuck (Application.next maxLogs) Application.Delivers w' →
      (w'.logs.Idle ∧ w'.events.Quiet ∧ w'.entries.Quiet) ∧
      (∀ k i entry, w.Logged k i entry → ((k, i), entry) ∈ w'.entries.received ∨
        ((k, i), entry) ∈ w.entries.cancelled) ∧
      (Reach (Allowed (Application.next maxLogs) Application.ClearFree) .start w →
        w'.logs.gui.proxyLogs = (w'.entries.received.map Prod.snd).rtake maxLogs) := by
  constructor
  · intro acts w' hrun
    have hlower (v : Application) (act : AppAction) (v' : Application) (_ : True)
        (hact : v.Delivers act) (hnext : v.next maxLogs act = some v') :
        True ∧ v'.outstanding < v.outstanding :=
      ⟨trivial, (Application.onward_of_next hact hnext).2⟩
    have hle := length_le_of_measure Application.outstanding hlower acts trivial hrun
    exact Nat.le_trans (Nat.le_add_right _ _) hle
  · intro w' hreach hstuck
    obtain ⟨hidle, hevents, hentries⟩ := Application.quiet_of_stuck hstuck
    have hmailed := Application.mailed_of_reach (h.trans (reach_of_allowed hreach))
    have hperm := Mailbox.perm_of_quiet hmailed.entries hentries
    obtain ⟨_, hspawned, hcancelled⟩ := Application.onward_of_reach hreach
    refine ⟨⟨hidle, hevents, hentries⟩, ?_, ?_⟩
    · intro k i entry hlogged
      have hmem := ((Application.mailed_of_reach h).sessions k i entry).mpr hlogged
      rw [← hspawned, ← hperm.mem_iff, hcancelled] at hmem
      exact List.mem_append.mp hmem
    · intro hfree
      have hwhole := Application.whole_of_reach
        (hfree.trans (Application.clearFree_of_delivers hreach))
      exact LogWorld.proxyLogs_of_whole hwhole hidle

/-- What is left of `closedApplication` has been delivered. -/
def deliveredApplication : Application := { closedApplication with
  events :=
    ⟨[(some 0, listeningEvent), (some 0, shutdownEvent), (some 0, closedEvent)], [],
      [(some 0, closedEvent), (some 0, listeningEvent), (some 0, shutdownEvent)], [],
      [(some 0, closedEvent), (some 0, listeningEvent), (some 0, shutdownEvent)], []⟩
  logs := ⟨⟨[closedEvent, listeningEvent, shutdownEvent], none, false⟩,
    ⟨[requestEntry], none, false⟩, [],
    ⟨[closedEvent, listeningEvent, shutdownEvent], [requestEntry]⟩⟩ }

theorem application_delivers_closed :
    [AppAction.sendEvent 0, .sendEvent 0, .receiveEvent, .logs (.event .updateUi), .receiveEvent,
      .logs (.event .updateUi), .logs .eventLoop, .logs .eventLoop].length ≤
        closedApplication.outstanding :=
  (application_delivers 100 closedApplication (reach_runLabels closedApplicationRun rfl)).1 _
    deliveredApplication rfl

end AppComponts
