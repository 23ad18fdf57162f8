import AppComponts.Logs

/-!
# The table of the proxy log

A snapshot is queued after the lock is released, so the updates may be in another order than
the changes of the storage. The table converges to the storage exactly as long as the
updates that come last carry what the storage holds.
-/

namespace AppComponts
open Transition
set_option autoImplicit false

namespace LogWorld

/-- With no update queued and neither party of the proxy log between its steps, the table is
the storage. -/
def Shows (w : LogWorld) : Prop :=
  w.updates = [] → w.proxy.Idle → w.gui.proxyLogs = w.proxy.storage

/-- The table is the storage when the event loop has caught up. -/
def Converges (maxLogs : Nat) (w : LogWorld) : Prop :=
  ∀ w', Reach (Allowed (next maxLogs) fun _ step => step = .eventLoop) w w' → w'.Shows

/-- An update of the table is queued with what the storage holds, or while a party of the
proxy log has yet to queue its own. -/
def Current (w : LogWorld) : LogWorldStep → Prop
  | .proxy .updateUi => w.proxy.clearing = true ∨ w.proxy.snapshot = some w.proxy.storage
  | .proxy .clearUi => w.proxy.snapshot ≠ none ∨ w.proxy.storage = []
  | .event .clearUi => ¬ w.proxy.Idle ∨ w.proxy.storage = []
  | _ => True

instance (log : Log ProxyLogEntry) : Decidable log.Idle :=
  inferInstanceAs (Decidable (_ ∧ _))

instance (w : LogWorld) (step : LogWorldStep) : Decidable (w.Current step) :=
  match step with
  | .proxy .updateUi => inferInstanceAs (Decidable (_ ∨ _))
  | .proxy .clearUi => inferInstanceAs (Decidable (_ ∨ _))
  | .event .clearUi => inferInstanceAs (Decidable (_ ∨ _))
  | .proxy (.addEntry _) => isTrue trivial
  | .proxy .clear => isTrue trivial
  | .event (.addEntry _) => isTrue trivial
  | .event .updateUi => isTrue trivial
  | .event .clear => isTrue trivial
  | .eventLoop => isTrue trivial

def settled (w : LogWorld) : GlobalBasicSettings :=
  w.updates.foldl (fun gui update => update.apply gui) w.gui

def Settles (w : LogWorld) : Prop :=
  w.proxy.Idle → w.settled.proxyLogs = w.proxy.storage

variable {maxLogs : Nat} {w w' : LogWorld}

theorem settled_of_eventLoop (h : w.next maxLogs .eventLoop = some w') :
    w'.settled = w.settled ∧ w'.proxy = w.proxy := by
  obtain ⟨event, proxy, updates, gui⟩ := w
  cases updates with
  | nil => cases h
  | cons update rest =>
    cases h
    exact ⟨rfl, rfl⟩

theorem settled_of_event {step : LogStep EventLog} (h : w.next maxLogs (.event step) = some w') :
    w'.proxy = w.proxy ∧
      w'.settled.proxyLogs = if step = .clearUi then [] else w.settled.proxyLogs := by
  obtain ⟨⟨log, updates⟩, hnext, hw'⟩ := Option.map_eq_some_iff.mp h
  subst hw'
  refine ⟨rfl, ?_⟩
  simp only [settled, List.foldl_append]
  cases step with
  | addEntry entry =>
    obtain ⟨_, rfl, _⟩ := Log.next_addEntry hnext
    rfl
  | updateUi =>
    obtain ⟨entries, _, rfl, _⟩ := Log.next_updateUi hnext
    rfl
  | clear =>
    obtain ⟨_, rfl, _⟩ := Log.next_clear hnext
    rfl
  | clearUi =>
    obtain ⟨_, rfl, _⟩ := Log.next_clearUi hnext
    rfl

/-- A step keeps the table on its way to the storage exactly if the update it queues is
current. -/
theorem settles_iff_of_next (hw : w.Settles) {step : LogWorldStep}
    (h : w.next maxLogs step = some w') : w'.Settles ↔ w.Current step := by
  cases step with
  | eventLoop =>
    obtain ⟨hsettled, hproxy⟩ := settled_of_eventLoop h
    refine ⟨fun _ => trivial, fun _ => ?_⟩
    rw [Settles, hsettled, hproxy]
    exact hw
  | event step =>
    obtain ⟨hproxy, hsettled⟩ := settled_of_event h
    rw [Settles, hsettled, hproxy]
    cases step with
    | clearUi =>
      rw [if_pos rfl]
      constructor
      · intro hempty
        by_cases hidle : w.proxy.Idle
        · exact Or.inr (hempty hidle).symm
        · exact Or.inl hidle
      · intro hok hidle
        rcases hok with hbusy | hempty
        · exact (hbusy hidle).elim
        · exact hempty.symm
    | _ => exact ⟨fun _ => trivial, fun _ => hw⟩
  | proxy step =>
    obtain ⟨⟨log, updates⟩, hnext, rfl⟩ := Option.map_eq_some_iff.mp h
    simp only [Settles, settled, List.foldl_append]
    cases step with
    | addEntry entry =>
      obtain ⟨_, _, rfl⟩ := Log.next_addEntry hnext
      exact ⟨fun _ => trivial, fun _ hidle => nomatch hidle.1⟩
    | clear =>
      obtain ⟨_, _, rfl⟩ := Log.next_clear hnext
      exact ⟨fun _ => trivial, fun _ hidle => nomatch hidle.2⟩
    | updateUi =>
      obtain ⟨entries, hsnapshot, rfl, rfl⟩ := Log.next_updateUi hnext
      constructor
      · intro hsettles
        cases hclearing : w.proxy.clearing with
        | true => exact Or.inl hclearing
        | false =>
          have hentries : entries = w.proxy.storage := hsettles ⟨rfl, hclearing⟩
          exact Or.inr (hsnapshot.trans (congrArg some hentries))
      · intro hok hidle
        rcases hok with hclearing | hcurrent
        · exact nomatch hclearing.symm.trans hidle.2
        · exact Option.some.inj (hsnapshot.symm.trans hcurrent)
    | clearUi =>
      obtain ⟨_, rfl, rfl⟩ := Log.next_clearUi hnext
      constructor
      · intro hsettles
        cases hsnapshot : w.proxy.snapshot with
        | some entries => exact Or.inl fun hnone => nomatch hsnapshot.symm.trans hnone
        | none =>
          have hempty : [] = w.proxy.storage := hsettles ⟨hsnapshot, rfl⟩
          exact Or.inr hempty.symm
      · intro hok hidle
        rcases hok with hbusy | hempty
        · exact (hbusy hidle.1).elim
        · exact hempty.symm

theorem exists_caughtUp (w : LogWorld) :
    ∃ w', Reach (Allowed (next maxLogs) fun _ step => step = .eventLoop) w w' ∧
      w'.updates = [] ∧ w'.proxy = w.proxy ∧ w'.gui = w.settled := by
  obtain ⟨event, proxy, updates, gui⟩ := w
  induction updates generalizing gui with
  | nil => exact ⟨_, .refl, rfl, rfl, rfl⟩
  | cons update rest ih =>
    obtain ⟨w', hreach, hdone, hproxy, hgui⟩ := ih (update.apply gui)
    exact ⟨w', .head ⟨.eventLoop, rfl, rfl⟩ hreach, hdone, hproxy, hgui⟩

theorem converges_iff_settles : w.Converges maxLogs ↔ w.Settles := by
  constructor
  · intro h hidle
    obtain ⟨w', hreach, hdone, hproxy, hgui⟩ := @exists_caughtUp maxLogs w
    have hshows := h w' hreach hdone (hproxy ▸ hidle)
    rw [← hgui, hshows, hproxy]
  · intro hw w' hreach hdone hidle
    have hsame : w'.settled = w.settled ∧ w'.proxy = w.proxy := by
      refine hreach.invariant_allowed
        (P := fun v => v.settled = w.settled ∧ v.proxy = w.proxy) ?_ ⟨rfl, rfl⟩
      intro a step b ha hstep hnext
      subst hstep
      obtain ⟨hsettled, hproxy⟩ := settled_of_eventLoop hnext
      exact ⟨hsettled.trans ha.1, hproxy.trans ha.2⟩
    obtain ⟨hsettled, hproxy⟩ := hsame
    have hgui : w'.gui = w'.settled := by
      rw [settled, hdone]
      rfl
    rw [hgui, hsettled, hproxy]
    exact hw (hproxy ▸ hidle)

theorem current_tight (maxLogs : Nat) :
    Tight (next maxLogs) Current (fun _ => True) Settles where
  inv_step _ _ _ _ _ := trivial
  keeps_iff _ _ _ _ hw h := settles_iff_of_next hw h

end LogWorld

/-- As long as the updates are current the table shows the storage whenever all is quiet,
and the first that is not takes the table away from the storage. -/
theorem shows_iff_current (maxLogs : Nat) (w : LogWorld)
    (h : Reach (Allowed (LogWorld.next maxLogs) LogWorld.Current) .start w) :
    w.Shows ∧ ∀ step w', w.next maxLogs step = some w' →
      (w'.Converges maxLogs ↔ w.Current step) := by
  obtain ⟨hsettles, htight⟩ :=
    (LogWorld.current_tight maxLogs).holds trivial (fun _ => rfl) h
  constructor
  · exact (@LogWorld.converges_iff_settles maxLogs w).mpr hsettles w .refl
  · intro step w' hnext
    rw [LogWorld.converges_iff_settles]
    exact htight step w' hnext

/-- Cleared before its snapshot is queued, the request comes once more. -/
theorem shows_oneRequest :
    oneRequest.Shows ∧ ∀ step w', oneRequest.next 100 step = some w' →
      (w'.Converges 100 ↔ oneRequest.Current step) :=
  shows_iff_current 100 oneRequest (reach_runLabels
    [.proxy (.addEntry requestEntry), .proxy .clear, .proxy .updateUi, .proxy .clearUi, .eventLoop,
      .eventLoop, .proxy (.addEntry requestEntry), .proxy .updateUi, .eventLoop] rfl)

/-- The request is cleared and its snapshot queued behind the empty model. -/
theorem cleared_request_shown :
    ¬ ∀ w, Reach (Steps (LogWorld.next 100)) .start w → w.Shows := by
  intro h
  have hshows := h ⟨.empty, .empty, [], ⟨[], [requestEntry]⟩⟩ (reach_runLabels
    [.proxy (.addEntry requestEntry), .proxy .clear, .proxy .clearUi, .proxy .updateUi, .eventLoop,
      .eventLoop] rfl) rfl ⟨rfl, rfl⟩
  cases hshows

end AppComponts
