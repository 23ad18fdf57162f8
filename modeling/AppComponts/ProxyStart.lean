import AppComponts.ProxyControl

/-!
# Failed starts of the proxy

`handle_event` sets `PROXY_RUNNING` before the new thread has bound its listener, and no one
sets it back when the thread ends with an error. So the flag is off behind a proxy that has
terminated as long as start-up fails only for proxies already asked to stop.
-/

namespace AppComponts
open Transition
set_option autoImplicit false

/-- The proxy has not subscribed yet, and an error ends its thread. -/
def Phase.isStarting : Phase → Bool
  | .threadStart => true
  | .bind => true
  | .loadCa => true
  | _ => false

namespace ProxyWorld

/-- When the proxy started last has terminated, the toggle stands at off. -/
def Restored (w : ProxyWorld) : Prop :=
  ∀ me, w.proxies.getLast? = some me → me.phase = .terminated → w.running = false

/-- Start-up fails only for a proxy that has been asked to stop. -/
def StartsUp (w : ProxyWorld) : ProxyAction → Prop
  | .step i .fail => ∀ me ∈ w.proxies[i]?, me.phase.isStarting = true → me.stopped = true
  | _ => True

instance (w : ProxyWorld) (act : ProxyAction) : Decidable (w.StartsUp act) :=
  match act with
  | .step i .fail => inferInstanceAs
      (Decidable (∀ me ∈ w.proxies[i]?, me.phase.isStarting = true → me.stopped = true))
  | .step _ .ok => isTrue trivial
  | .step _ .shutdown => isTrue trivial
  | .toggle => isTrue trivial

end ProxyWorld

/-- A signal, and the draining behind it, come from the toggle. -/
structure Proxy.Heard (me : Proxy) : Prop where
  signalled : me.receiver = some true → me.stopped = true
  draining : ∀ n, me.phase = .draining n → me.stopped = true

section Entry
variable {me me' : Proxy} {turn : Turn}

theorem isStarting_iff {phase : Phase} :
    phase.isStarting = true ↔ phase ∈ [Phase.threadStart, .bind, .loadCa] := by
  cases phase <;> simp [Phase.isStarting]

theorem heard_of_entry (hme : me.Heard) (h : me.entry turn = some me') : me'.Heard := by
  cases step_of_entry h with
  | started hphase =>
    refine ⟨hme.signalled, fun n hdraining => ?_⟩
    have hafter := (mem_of_started hphase).2
    cases hdraining
    simp at hafter
  | failed hphase => exact ⟨hme.signalled, by simp⟩
  | subscribed hphase => exact ⟨by simp, by simp⟩
  | accepted hphase => exact ⟨hme.signalled, by simp⟩
  | signalled hphase hreceiver => exact ⟨by simp, fun _ _ => hme.signalled hreceiver⟩
  | drained hphase hnext => exact ⟨hme.signalled, fun _ _ => hme.draining _ hphase⟩

theorem stopped_of_entry (h : me.entry turn = some me') : me'.stopped = me.stopped := by
  cases effect_of_entry h with
  | outside hstopped _ _ _ => exact hstopped
  | _ => rfl

/-- A proxy terminates when its start-up fails, or when it has drained. -/
theorem terminated_of_entry (h : me.entry turn = some me') (hend : me'.phase = .terminated) :
    (turn = .fail ∧ me.phase.isStarting = true) ∨ ∃ n, me.phase = .draining n := by
  cases step_of_entry h with
  | started hphase =>
    have hafter := (mem_of_started hphase).2
    cases hend
    simp at hafter
  | failed hphase => exact Or.inl ⟨rfl, isStarting_iff.mpr hphase⟩
  | subscribed hphase => cases hend
  | accepted hphase => cases hend
  | signalled hphase hreceiver => cases hend
  | drained hphase hnext => exact Or.inr ⟨_, hphase⟩

theorem terminated_of_fail (h : me.entry .fail = some me') (hphase : me.phase.isStarting = true) :
    me'.phase = .terminated := by
  cases step_of_entry h with
  | failed hmem => rfl
  | accepted haccepting =>
    rw [haccepting] at hphase
    cases hphase

end Entry

namespace ProxyWorld
variable {w w' : ProxyWorld} {act : ProxyAction}

structure Latest (w : ProxyWorld) : Prop where
  tracked : w.Tracked
  heard : ∀ me ∈ w.proxies, me.Heard
  last : ∀ i me, w.proxies[i]? = some me → me.stopped = false → i + 1 = w.proxies.length

theorem latest_start : start.Latest :=
  ⟨tracked_start, fun _ h => (nomatch h), fun _ _ h => nomatch h⟩

theorem latest_of_next (hw : w.Latest) (h : w.next act = some w') : w'.Latest := by
  refine ⟨tracked_of_next hw.tracked h, ?_, ?_⟩
  · cases act with
    | toggle =>
      obtain rfl := Option.some.inj h
      intro x hx
      rcases handleEvent_cases hw.tracked with ⟨_, heq⟩ | ⟨i, me, _, hme, _, _, heq⟩
      · rw [heq] at hx
        rcases List.mem_append.mp hx with hx | hx
        · exact hw.heard x hx
        · rw [List.mem_singleton.mp hx]
          exact ⟨fun h => (nomatch h), fun _ h => nomatch h⟩
      · rw [heq] at hx
        rcases (mem_set_iff_of_getElem? hme).mp hx with rfl | hx
        · exact ⟨fun _ => rfl, fun _ _ => rfl⟩
        · exact hw.heard x ((mem_iff_of_getElem? hme).mpr (Or.inr hx))
    | step i turn =>
      obtain ⟨me, me', hme, hentry, rfl⟩ := entry_of_step h
      intro x hx
      rcases (mem_set_iff_of_getElem? hme).mp hx with rfl | hx
      · exact heard_of_entry (hw.heard me (List.mem_of_getElem? hme)) hentry
      · exact hw.heard x ((mem_iff_of_getElem? hme).mpr (Or.inr hx))
  · cases act with
    | toggle =>
      obtain rfl := Option.some.inj h
      intro j x hx hon
      rcases handleEvent_cases hw.tracked with ⟨hrun, heq⟩ | ⟨i, me, _, hme, _, hothers, heq⟩
      · rw [heq] at hx ⊢
        rcases Nat.lt_or_ge j w.proxies.length with hlt | hge
        · rw [List.getElem?_append_left hlt] at hx
          have hstopped := hw.tracked.off hrun x (List.mem_of_getElem? hx)
          rw [hon] at hstopped
          cases hstopped
        · obtain ⟨hlt, _⟩ := List.getElem?_eq_some_iff.mp hx
          rw [List.length_append, List.length_singleton] at hlt ⊢
          omega
      · rw [heq] at hx ⊢
        rw [List.length_set]
        rcases getElem?_set_cases hx with ⟨_, rfl⟩ | hx
        · cases hon
        · exact hw.last j x hx hon
    | step i turn =>
      obtain ⟨me, me', hme, hentry, rfl⟩ := entry_of_step h
      intro j x hx hon
      rw [List.length_set]
      rcases getElem?_set_cases hx with ⟨rfl, rfl⟩ | hx
      · exact hw.last j me hme ((stopped_of_entry hentry).symm.trans hon)
      · exact hw.last j x hx hon

theorem running_of_unstopped (hw : w.Latest) {i : Nat} {me : Proxy}
    (hme : w.proxies[i]? = some me) (hon : me.stopped = false) :
    w.running = true ∧ w.proxies.getLast? = some me := by
  constructor
  · cases hrun : w.running with
    | true => rfl
    | false =>
      have hstopped := hw.tracked.off hrun me (List.mem_of_getElem? hme)
      rw [hon] at hstopped
      cases hstopped
  · have hlast := hw.last i me hme hon
    rw [List.getLast?_eq_getElem?, ← hlast]
    exact hme

theorem unstopped_of_running (hw : w.Latest) (hrun : w.running = true) {me : Proxy}
    (hlast : w.proxies.getLast? = some me) : me.stopped = false := by
  obtain ⟨i, cur, _, hcur, hon, _⟩ := hw.tracked.current hrun
  rw [(running_of_unstopped hw hcur hon).2] at hlast
  cases hlast
  exact hon

/-- A step keeps the toggle in order exactly if it is no failed start-up of a proxy that is
still wanted. -/
theorem restored_iff_of_next (hw : w.Latest) (hr : w.Restored) (h : w.next act = some w') :
    w'.Restored ↔ w.StartsUp act := by
  have hw' := latest_of_next hw h
  cases act with
  | toggle =>
    refine ⟨fun _ => trivial, fun _ me hlast hend => ?_⟩
    obtain rfl := Option.some.inj h
    rcases handleEvent_cases hw.tracked with ⟨_, heq⟩ | ⟨_, _, _, _, _, _, heq⟩
    · rw [heq, List.getLast?_concat] at hlast
      cases hlast
      cases hend
    · rw [heq]
  | step i turn =>
    obtain ⟨me, me', hme, hentry, rfl⟩ := entry_of_step h
    constructor
    · intro hr'
      cases turn with
      | fail =>
        intro x hx hphase
        rw [hme] at hx
        cases hx
        cases hstopped : me.stopped with
        | true => rfl
        | false =>
          obtain ⟨hlt, _⟩ := List.getElem?_eq_some_iff.mp hme
          have hon := (stopped_of_entry hentry).trans hstopped
          obtain ⟨hrun, hlast⟩ := running_of_unstopped hw' (List.getElem?_set_self hlt) hon
          have hoff := hr' me' hlast (terminated_of_fail hentry hphase)
          rw [hrun] at hoff
          cases hoff
      | _ => trivial
    · intro hok x hlast hend
      cases hrun : w.running with
      | false => rfl
      | true =>
        have hon : x.stopped = false := unstopped_of_running hw' hrun hlast
        rw [List.getLast?_eq_getElem?, List.length_set] at hlast
        rcases getElem?_set_cases hlast with ⟨_, rfl⟩ | hlast
        · have hme' := (stopped_of_entry hentry).symm.trans hon
          rcases terminated_of_entry hentry hend with ⟨rfl, hphase⟩ | ⟨n, hphase⟩
          · rw [hok me hme hphase] at hme'
            cases hme'
          · rw [(hw.heard me (List.mem_of_getElem? hme)).draining n hphase] at hme'
            cases hme'
        · rw [← List.getLast?_eq_getElem?] at hlast
          have hoff := hr x hlast hend
          rw [hrun] at hoff
          cases hoff

theorem startsUp_tight : Tight next StartsUp Latest Restored where
  inv_step _ _ _ hw h := latest_of_next hw h
  keeps_iff _ _ _ hw hr h := restored_iff_of_next hw hr h

theorem restored_start : start.Restored := by
  intro me hlast
  cases hlast

end ProxyWorld

/-- As long as start-up fails only for proxies already asked to stop, the toggle stands at
off whenever the last proxy has terminated; and the first other failure breaks this. -/
theorem restored_iff_startsUp (w : ProxyWorld)
    (h : Reach (Allowed ProxyWorld.next ProxyWorld.StartsUp) .start w) :
    w.Restored ∧
      ∀ act w', w.next act = some w' → (w'.Restored ↔ w.StartsUp act) :=
  ProxyWorld.startsUp_tight.holds ProxyWorld.latest_start ProxyWorld.restored_start h

/-- Started, stopped while it binds its listener, and failed there. -/
def stoppedThenFailed : ProxyWorld := ⟨false, some 0, [⟨.terminated, none, true⟩]⟩

theorem restored_stoppedThenFailed : stoppedThenFailed.Restored :=
  (restored_iff_startsUp stoppedThenFailed
    (reach_runLabels [.toggle, .step 0 .ok, .toggle, .step 0 .fail] rfl)).1

/-- The port is taken: the proxy has ended, and the toggle still stands at on. -/
theorem failed_bind_not_restored :
    ¬ ∀ w, Reach (Steps ProxyWorld.next) .start w → w.Restored := by
  intro h
  have hoff := h ⟨true, some 0, [⟨.terminated, none, false⟩]⟩
    (reach_runLabels [.toggle, .step 0 .ok, .step 0 .fail] rfl) _ rfl rfl
  cases hoff

end AppComponts
