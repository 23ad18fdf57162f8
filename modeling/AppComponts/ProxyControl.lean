import AppComponts.Library.Interleaving

/-!
# Starting and stopping the proxy

The toggle of `handle_event` in `componts.rs` against the threads that run `entry` of
`backend/proxy/http_proxy.rs`. Each start makes a broadcast channel; a send reaches the
receivers subscribed at that moment, and `entry` subscribes only before its accept loop.
-/

namespace AppComponts
open Transition
set_option autoImplicit false

inductive Phase where
  | threadStart
  | bind
  | loadCa
  | subscribe
  | accepting (connections : Nat)
  | draining (connections : Nat)
  | terminated
  deriving DecidableEq, Repr

def Phase.isAccepting : Phase → Bool
  | .accepting _ => true
  | _ => false

/-- A started proxy. The receiver says whether a signal waits in it; `stopped` records that
the toggle has asked this proxy to stop. -/
structure Proxy where
  phase : Phase
  receiver : Option Bool
  stopped : Bool
  deriving DecidableEq, Repr

/-- How the operation a proxy is at turns out; in the accept loop also which arm of the
`select!` is taken. -/
inductive Turn where
  | ok
  | fail
  | shutdown
  deriving DecidableEq, Repr

def Proxy.entry (me : Proxy) : Turn → Option Proxy
  | .ok =>
    match me.phase with
    | .threadStart => some { me with phase := .bind }
    | .bind => some { me with phase := .loadCa }
    | .loadCa => some { me with phase := .subscribe }
    | .subscribe => some { me with phase := .accepting 0, receiver := some false }
    | .accepting n => some { me with phase := .accepting (n + 1) }
    | .draining (n + 1) => some { me with phase := .draining n }
    | .draining 0 => some { me with phase := .terminated }
    | .terminated => none
  | .fail =>
    match me.phase with
    | .threadStart => some { me with phase := .terminated }
    | .bind => some { me with phase := .terminated }
    | .loadCa => some { me with phase := .terminated }
    | .accepting n => some { me with phase := .accepting n }
    | _ => none
  | .shutdown =>
    match me.phase with
    | .accepting n =>
      if me.receiver = some true then
        some { me with phase := .draining n, receiver := some false }
      else none
    | _ => none

def Proxy.signal (me : Proxy) : Proxy :=
  { me with receiver := me.receiver.map fun _ => true, stopped := true }

/-- `sender.send(())` on the channel of the `i`-th proxy. -/
def send (proxies : List Proxy) (i : Nat) : List Proxy :=
  match proxies[i]? with
  | none => proxies
  | some me => proxies.set i me.signal

/-- `PROXY_RUNNING`, `SHUTDOWN_SENDER` by the proxy it belongs to, and the proxies started. -/
structure ProxyWorld where
  running : Bool
  sender : Option Nat
  proxies : List Proxy
  deriving DecidableEq, Repr

inductive ProxyAction where
  | toggle
  | step (i : Nat) (turn : Turn)
  deriving DecidableEq, Repr

namespace ProxyWorld

def start : ProxyWorld := ⟨false, none, []⟩

def handleEvent (w : ProxyWorld) : ProxyWorld :=
  if w.running then
    { w with
      running := false
      proxies := match w.sender with
        | none => w.proxies
        | some i => send w.proxies i }
  else
    { running := true
      sender := some w.proxies.length
      proxies := w.proxies ++ [⟨.threadStart, none, false⟩] }

def next (w : ProxyWorld) : ProxyAction → Option ProxyWorld
  | .toggle => some w.handleEvent
  | .step i turn => do
    let proxy ← w.proxies[i]?
    let proxy ← proxy.entry turn
    return { w with proxies := w.proxies.set i proxy }

/-- No stopped proxy accepts without a signal waiting for it, and when the proxy is off a
signal waits for all that still accept. -/
def StopsHeard (w : ProxyWorld) : Prop :=
  (∀ me ∈ w.proxies, me.stopped = true → me.phase.isAccepting = true →
    me.receiver = some true) ∧
  (w.running = false → ∀ me ∈ w.proxies, me.phase.isAccepting = true →
    me.receiver = some true)

/-- A proxy subscribes to its channel before it is asked to stop. -/
def Prompt (w : ProxyWorld) : ProxyAction → Prop
  | .toggle => True
  | .step i _ => ∀ me ∈ w.proxies[i]?, me.phase = .subscribe → me.stopped = false

instance (w : ProxyWorld) (act : ProxyAction) : Decidable (w.Prompt act) :=
  match act with
  | .toggle => isTrue trivial
  | .step i _ => inferInstanceAs
      (Decidable (∀ me ∈ w.proxies[i]?, me.phase = .subscribe → me.stopped = false))

end ProxyWorld

structure Proxy.Lost (me : Proxy) : Prop where
  stopped : me.stopped = true
  accepting : me.phase.isAccepting = true
  unheard : me.receiver ≠ some true

namespace ProxyWorld

def HasLost (w : ProxyWorld) : Prop := ∃ me ∈ w.proxies, me.Lost

/-- The toggle asks the last started proxy to stop, and each is asked once; a proxy in the
accept loop has subscribed. -/
structure Tracked (w : ProxyWorld) : Prop where
  current : w.running = true → ∃ i me, w.sender = some i ∧ w.proxies[i]? = some me ∧
    me.stopped = false ∧ ∀ other ∈ w.proxies.eraseIdx i, other.stopped = true
  off : w.running = false → ∀ me ∈ w.proxies, me.stopped = true
  subscribed : ∀ me ∈ w.proxies, me.phase.isAccepting = true → me.receiver.isSome = true

end ProxyWorld

inductive EntryStep (me : Proxy) : Turn → Proxy → Prop
  | started {phase : Phase} (hphase : (me.phase, phase) ∈
      [(Phase.threadStart, Phase.bind), (.bind, .loadCa), (.loadCa, .subscribe)]) :
      EntryStep me .ok { me with phase }
  | failed (hphase : me.phase ∈ [Phase.threadStart, .bind, .loadCa]) :
      EntryStep me .fail { me with phase := .terminated }
  | subscribed (hphase : me.phase = .subscribe) :
      EntryStep me .ok { me with phase := .accepting 0, receiver := some false }
  | accepted {turn : Turn} {n m : Nat} (hphase : me.phase = .accepting n) :
      EntryStep me turn { me with phase := .accepting m }
  | signalled {n : Nat} (hphase : me.phase = .accepting n) (hreceiver : me.receiver = some true) :
      EntryStep me .shutdown { me with phase := .draining n, receiver := some false }
  | drained {n : Nat} {phase : Phase} (hphase : me.phase = .draining n)
      (hnext : phase = .terminated ∨ ∃ m, phase = .draining m) :
      EntryStep me .ok { me with phase }

theorem step_of_entry {me me' : Proxy} {turn : Turn} (h : me.entry turn = some me') :
    EntryStep me turn me' := by
  obtain ⟨phase, receiver, stopped⟩ := me
  cases turn with
  | ok =>
    cases phase with
    | subscribe =>
      cases h
      exact .subscribed rfl
    | accepting n =>
      cases h
      exact .accepted rfl
    | draining n =>
      cases n with
      | zero =>
        cases h
        exact .drained rfl (Or.inl rfl)
      | succ n =>
        cases h
        exact .drained rfl (Or.inr ⟨n, rfl⟩)
    | terminated => cases h
    | _ =>
      cases h
      exact .started (by simp)
  | fail =>
    cases phase with
    | accepting n =>
      cases h
      exact .accepted rfl
    | subscribe => cases h
    | draining n => cases h
    | terminated => cases h
    | _ =>
      cases h
      exact .failed (by simp)
  | shutdown =>
    cases phase with
    | accepting n =>
      simp only [Proxy.entry] at h
      split at h
      · rename_i hreceiver
        cases h
        exact .signalled rfl hreceiver
      · cases h
    | _ => cases h

theorem outside_of_startUp {phase : Phase} (h : phase ∈ [Phase.threadStart, .bind, .loadCa]) :
    phase ≠ .subscribe ∧ phase.isAccepting = false := by
  cases phase with
  | subscribe => simp at h
  | accepting n => simp at h
  | _ => exact ⟨by simp, rfl⟩

theorem mem_of_started {phase phase' : Phase} (h : (phase, phase') ∈
    [(Phase.threadStart, Phase.bind), (.bind, .loadCa), (.loadCa, .subscribe)]) :
    phase ∈ [Phase.threadStart, .bind, .loadCa] ∧ phase' ∈ [Phase.bind, .loadCa, .subscribe] := by
  simp only [List.mem_cons, Prod.mk.injEq, List.not_mem_nil, or_false] at h
  rcases h with ⟨rfl, rfl⟩ | ⟨rfl, rfl⟩ | ⟨rfl, rfl⟩ <;> simp

inductive EntryEffect (me : Proxy) : Proxy → Prop
  | outside {me' : Proxy} (hstopped : me'.stopped = me.stopped)
      (hphase : me.phase ≠ .subscribe)
      (hleft : me.phase.isAccepting = true → me.receiver = some true)
      (hout : me'.phase.isAccepting = false) : EntryEffect me me'
  | subscribed (hphase : me.phase = .subscribe) :
      EntryEffect me { me with phase := .accepting 0, receiver := some false }
  | stays {phase : Phase} (hin : me.phase.isAccepting = true)
      (hin' : phase.isAccepting = true) : EntryEffect me { me with phase }

theorem effect_of_entry {me me' : Proxy} {turn : Turn} (h : me.entry turn = some me') :
    EntryEffect me me' := by
  cases step_of_entry h with
  | @started phase hphase =>
    obtain ⟨hbefore, hafter⟩ := mem_of_started hphase
    obtain ⟨hne, hout⟩ := outside_of_startUp hbefore
    refine .outside rfl hne (fun hin => nomatch hin.symm.trans hout) ?_
    cases phase with
    | accepting n => simp at hafter
    | _ => rfl
  | failed hphase =>
    obtain ⟨hne, hout⟩ := outside_of_startUp hphase
    exact .outside rfl hne (fun hin => nomatch hin.symm.trans hout) rfl
  | subscribed hphase => exact .subscribed hphase
  | accepted hphase => exact .stays (by rw [hphase]; rfl) rfl
  | signalled hphase hreceiver =>
    exact .outside rfl (by simp [hphase]) (fun _ => hreceiver) rfl
  | drained hphase hnext =>
    refine .outside rfl (by simp [hphase]) (fun hin => ?_) ?_
    · rw [hphase] at hin
      cases hin
    · rcases hnext with rfl | ⟨m, rfl⟩ <;> rfl

namespace ProxyWorld
variable {w w' : ProxyWorld} {act : ProxyAction}

theorem entry_of_step {i : Nat} {turn : Turn} (h : w.next (.step i turn) = some w') :
    ∃ me me', w.proxies[i]? = some me ∧ me.entry turn = some me' ∧
      w' = { w with proxies := w.proxies.set i me' } := by
  obtain ⟨me, hme, h⟩ := Option.bind_eq_some_iff.mp h
  obtain ⟨me', hentry, h⟩ := Option.bind_eq_some_iff.mp h
  cases h
  exact ⟨me, me', hme, hentry, rfl⟩

theorem step_cases {i : Nat} {turn : Turn} (h : w.next (.step i turn) = some w') :
    ∃ me me', w.proxies[i]? = some me ∧ EntryEffect me me' ∧
      w' = { w with proxies := w.proxies.set i me' } := by
  obtain ⟨me, me', hme, hentry, hw'⟩ := entry_of_step h
  exact ⟨me, me', hme, effect_of_entry hentry, hw'⟩

theorem handleEvent_cases (hw : w.Tracked) :
    (w.running = false ∧ w.handleEvent =
      ⟨true, some w.proxies.length, w.proxies ++ [⟨.threadStart, none, false⟩]⟩) ∨
    (∃ i me, w.running = true ∧ w.proxies[i]? = some me ∧ me.stopped = false ∧
      (∀ other ∈ w.proxies.eraseIdx i, other.stopped = true) ∧
      w.handleEvent = { w with running := false, proxies := w.proxies.set i me.signal }) := by
  cases hrun : w.running with
  | false =>
    refine Or.inl ⟨rfl, ?_⟩
    simp only [handleEvent, hrun]
    rfl
  | true =>
    obtain ⟨i, me, hsender, hme, hstopped, hothers⟩ := hw.current hrun
    refine Or.inr ⟨i, me, rfl, hme, hstopped, hothers, ?_⟩
    simp only [handleEvent, hrun, hsender, send, hme, if_true]

theorem tracked_start : start.Tracked :=
  ⟨fun h => (nomatch h), fun _ _ h => (nomatch h), fun _ h => nomatch h⟩

theorem tracked_of_next (hw : w.Tracked) (h : w.next act = some w') : w'.Tracked := by
  cases act with
  | toggle =>
    obtain rfl := Option.some.inj h
    rcases handleEvent_cases hw with ⟨hrun, heq⟩ | ⟨i, me, hrun, hme, _, hothers, heq⟩
    · rw [heq]
      refine ⟨fun _ => ⟨_, _, rfl, List.getElem?_concat_length, rfl, ?_⟩,
        fun h => (nomatch h), ?_⟩
      · intro other hother
        rw [List.eraseIdx_append_of_length_le (Nat.le_refl _), Nat.sub_self] at hother
        simp only [List.eraseIdx_cons_zero, List.append_nil] at hother
        exact hw.off hrun other hother
      · intro me hme hin
        rcases List.mem_append.mp hme with hme | hme
        · exact hw.subscribed me hme hin
        · rw [List.mem_singleton.mp hme] at hin
          cases hin
    · rw [heq]
      refine ⟨fun h => (nomatch h), fun _ other hother => ?_, fun other hother hin => ?_⟩
      · rcases (mem_set_iff_of_getElem? hme).mp hother with rfl | hother
        · rfl
        · exact hothers other hother
      · rcases (mem_set_iff_of_getElem? hme).mp hother with rfl | hother
        · have hsome := hw.subscribed me (List.mem_of_getElem? hme) hin
          simp only [Proxy.signal, Option.isSome_map, hsome]
        · exact hw.subscribed other
            ((mem_iff_of_getElem? hme).mpr (Or.inr hother)) hin
  | step i turn =>
    obtain ⟨me, me', hme, heffect, rfl⟩ := step_cases h
    have hstopped : me'.stopped = me.stopped := by
      cases heffect with
      | outside hstopped _ _ _ => exact hstopped
      | _ => rfl
    refine ⟨fun hrun => ?_, fun hrun other hother => ?_, fun other hother hin => ?_⟩
    · obtain ⟨j, cur, hsender, hcur, hon, hothers⟩ := hw.current hrun
      by_cases hij : i = j
      · subst hij
        rw [hme] at hcur
        cases hcur
        obtain ⟨hi, _⟩ := List.getElem?_eq_some_iff.mp hme
        refine ⟨i, me', hsender, List.getElem?_set_self hi, hstopped.trans hon, ?_⟩
        rw [List.eraseIdx_set_eq]
        exact hothers
      · refine ⟨j, cur, hsender, ?_, hon, ?_⟩
        · rw [List.getElem?_set_ne hij]
          exact hcur
        · intro other hother
          obtain ⟨k, hkj, hk⟩ := List.mem_eraseIdx_iff_getElem?.mp hother
          by_cases hki : k = i
          · subst hki
            obtain ⟨hlt, _⟩ := List.getElem?_eq_some_iff.mp hme
            rw [List.getElem?_set_self hlt] at hk
            cases hk
            rw [hstopped]
            exact hothers me (List.mem_eraseIdx_iff_getElem?.mpr ⟨k, hkj, hme⟩)
          · rw [List.getElem?_set_ne fun h => hki h.symm] at hk
            exact hothers other (List.mem_eraseIdx_iff_getElem?.mpr ⟨k, hkj, hk⟩)
    · rcases (mem_set_iff_of_getElem? hme).mp hother with rfl | hother
      · exact hstopped.trans (hw.off hrun me (List.mem_of_getElem? hme))
      · exact hw.off hrun other ((mem_iff_of_getElem? hme).mpr (Or.inr hother))
    · rcases (mem_set_iff_of_getElem? hme).mp hother with rfl | hother
      · cases heffect with
        | outside _ _ _ hout =>
          rw [hout] at hin
          cases hin
        | subscribed hphase => rfl
        | stays hin₀ hin₁ => exact hw.subscribed me (List.mem_of_getElem? hme) hin₀
      · exact hw.subscribed other ((mem_iff_of_getElem? hme).mpr (Or.inr hother)) hin

theorem hasLost_of_next (hw : w.Tracked) (hlost : w.HasLost) (h : w.next act = some w') :
    w'.HasLost := by
  obtain ⟨lost, hmem, hl⟩ := hlost
  cases act with
  | toggle =>
    obtain rfl := Option.some.inj h
    rcases handleEvent_cases hw with ⟨_, heq⟩ | ⟨i, me, _, hme, hon, _, heq⟩
    · rw [heq]
      exact ⟨lost, List.mem_append_left _ hmem, hl⟩
    · rw [heq]
      refine ⟨lost, (mem_set_iff_of_getElem? hme).mpr (Or.inr ?_), hl⟩
      refine ((mem_iff_of_getElem? hme).mp hmem).resolve_left fun heq => ?_
      rw [← heq, hl.stopped] at hon
      cases hon
  | step i turn =>
    obtain ⟨me, me', hme, heffect, rfl⟩ := step_cases h
    rcases (mem_iff_of_getElem? hme).mp hmem with rfl | hother
    · refine ⟨me', (mem_set_iff_of_getElem? hme).mpr (Or.inl rfl), ?_⟩
      cases heffect with
      | outside _ _ hleft _ => exact (hl.unheard (hleft hl.accepting)).elim
      | subscribed hphase =>
        have hin := hl.accepting
        rw [hphase] at hin
        cases hin
      | stays hin hin' => exact ⟨hl.stopped, hin', hl.unheard⟩
    · exact ⟨lost, (mem_set_iff_of_getElem? hme).mpr (Or.inr hother), hl⟩

theorem hasLost_of_not_prompt (hok : ¬ w.Prompt act) (h : w.next act = some w') :
    w'.HasLost := by
  cases act with
  | toggle => exact (hok trivial).elim
  | step i turn =>
    obtain ⟨me, me', hme, heffect, rfl⟩ := step_cases h
    have hlate : me.phase = .subscribe ∧ me.stopped = true := by
      cases hs : me.stopped with
      | true =>
        refine ⟨?_, rfl⟩
        by_cases hphase : me.phase = .subscribe
        · exact hphase
        · refine (hok fun x hx hp => ?_).elim
          rw [hme] at hx
          cases hx
          exact (hphase hp).elim
      | false =>
        refine (hok fun x hx _ => ?_).elim
        rw [hme] at hx
        cases hx
        exact hs
    refine ⟨me', (mem_set_iff_of_getElem? hme).mpr (Or.inl rfl), ?_⟩
    cases heffect with
    | outside _ hphase _ _ => exact (hphase hlate.1).elim
    | subscribed hphase => exact ⟨hlate.2, rfl, fun h => nomatch h⟩
    | stays hin hin' =>
      rw [hlate.1] at hin
      cases hin

theorem not_hasLost_of_next (hw : w.Tracked) (hlost : ¬ w.HasLost) (hok : w.Prompt act)
    (h : w.next act = some w') : ¬ w'.HasLost := by
  intro hlost'
  obtain ⟨lost, hmem, hl⟩ := hlost'
  cases act with
  | toggle =>
    obtain rfl := Option.some.inj h
    rcases handleEvent_cases hw with ⟨_, heq⟩ | ⟨i, me, _, hme, _, _, heq⟩
    · rw [heq] at hmem
      rcases List.mem_append.mp hmem with hmem | hmem
      · exact hlost ⟨lost, hmem, hl⟩
      · have hin := hl.accepting
        rw [List.mem_singleton.mp hmem] at hin
        cases hin
    · rw [heq] at hmem
      rcases (mem_set_iff_of_getElem? hme).mp hmem with rfl | hother
      · have hsome := hw.subscribed me (List.mem_of_getElem? hme) hl.accepting
        obtain ⟨waiting, hwaiting⟩ := Option.isSome_iff_exists.mp hsome
        exact hl.unheard (by simp only [Proxy.signal, hwaiting, Option.map_some])
      · exact hlost ⟨lost, (mem_iff_of_getElem? hme).mpr (Or.inr hother), hl⟩
  | step i turn =>
    obtain ⟨me, me', hme, heffect, rfl⟩ := step_cases h
    rcases (mem_set_iff_of_getElem? hme).mp hmem with rfl | hother
    · cases heffect with
      | outside _ _ _ hout =>
        have hin := hl.accepting
        rw [hout] at hin
        cases hin
      | subscribed hphase =>
        have hon := hok me hme hphase
        have hstopped : me.stopped = true := hl.stopped
        rw [hon] at hstopped
        cases hstopped
      | stays hin hin' =>
        exact hlost ⟨me, List.mem_of_getElem? hme, hl.stopped, hin, hl.unheard⟩
    · exact hlost ⟨lost, (mem_iff_of_getElem? hme).mpr (Or.inr hother), hl⟩

theorem prompt_exact : Exact next Prompt Tracked HasLost where
  inv_step _ _ _ hw h := tracked_of_next hw h
  bad_step _ _ _ hw hlost h := hasLost_of_next hw hlost h
  bad_of_not_ok _ _ _ _ hok h := hasLost_of_not_prompt hok h
  not_bad_of_ok _ _ _ hw hlost hok h := not_hasLost_of_next hw hlost hok h

theorem stopsHeard_iff (hw : w.Tracked) : w.StopsHeard ↔ ¬ w.HasLost := by
  constructor
  · intro h hlost
    obtain ⟨hheard, _⟩ := h
    obtain ⟨lost, hmem, hl⟩ := hlost
    exact hl.unheard (hheard lost hmem hl.stopped hl.accepting)
  · intro hlost
    have hheard : ∀ me ∈ w.proxies, me.stopped = true → me.phase.isAccepting = true →
        me.receiver = some true := by
      intro me hmem hstopped hin
      by_cases hr : me.receiver = some true
      · exact hr
      · exact (hlost ⟨me, hmem, hstopped, hin, hr⟩).elim
    exact ⟨hheard, fun hrun me hmem => hheard me hmem (hw.off hrun me hmem)⟩

end ProxyWorld

/-- For any interleaving of toggles with any number of proxies, no stop is lost exactly if
every proxy so far subscribed before it was asked to stop. -/
theorem stopsHeard_iff_prompt (w : ProxyWorld)
    (h : Reach (Steps ProxyWorld.next) .start w) :
    w.StopsHeard ↔ Reach (Allowed ProxyWorld.next ProxyWorld.Prompt) .start w := by
  have htracked : w.Tracked :=
    h.invariant_steps ProxyWorld.prompt_exact.inv_step ProxyWorld.tracked_start
  have hnone : ¬ ProxyWorld.start.HasLost := by
    intro hlost
    obtain ⟨me, hmem, _⟩ := hlost
    cases hmem
  rw [ProxyWorld.stopsHeard_iff htracked]
  exact ProxyWorld.prompt_exact.not_bad_iff ProxyWorld.tracked_start hnone h

/-- Started, and stopped in the accept loop. -/
def stoppedInTime : ProxyWorld := ⟨false, some 0, [⟨.accepting 0, some true, true⟩]⟩

def stoppedInTimeRun : List ProxyAction :=
  [.toggle, .step 0 .ok, .step 0 .ok, .step 0 .ok, .step 0 .ok, .toggle]

theorem stopsHeard_stoppedInTime : stoppedInTime.StopsHeard :=
  (stopsHeard_iff_prompt stoppedInTime (reach_runLabels stoppedInTimeRun rfl)).mpr
    (reach_runLabels stoppedInTimeRun rfl)

/-- Started and stopped at once, before the listener is bound. -/
theorem early_stop_lost :
    ¬ ∀ w, Reach (Steps ProxyWorld.next) .start w → w.StopsHeard := by
  intro h
  have hheard := h ⟨false, some 0, [⟨.accepting 0, some false, true⟩]⟩
    (reach_runLabels [.toggle, .toggle, .step 0 .ok, .step 0 .ok, .step 0 .ok, .step 0 .ok] rfl)
  have hwaiting := hheard.1 _ (List.mem_singleton_self _) rfl rfl
  cases hwaiting

end AppComponts
