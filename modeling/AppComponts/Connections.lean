import AppComponts.ProxyControl

/-!
# The connections of a proxy

`entry` of `backend/proxy/http_proxy.rs` and the tasks it spawns. It keeps a handle to each
task in `active_connections`, and behind the shutdown signal it awaits them in turn. An
await is over only when the task has ended, and a panic ends no task but its own.
-/

namespace AppComponts
open Transition
set_option autoImplicit false

inductive TaskState where
  | running
  | finished
  | panicked
  deriving DecidableEq, Repr

/-- Where `entry` is, and whether it has returned `Ok`. -/
inductive EntryPoint where
  | setProxyPort
  | generateCaCertificate
  | subscribe
  | select
  | closing
  | returned (ok : Bool)
  deriving DecidableEq, Repr

def EntryPoint.isOpening : EntryPoint → Bool
  | .setProxyPort => true
  | .generateCaCertificate => true
  | .subscribe => true
  | _ => false

def EntryPoint.isClosed : EntryPoint → Bool
  | .closing => true
  | .returned _ => true
  | _ => false

inductive EntryEvent where
  | accepted (task : Nat)
  | acceptFailed
  | shutdown
  deriving DecidableEq, Repr

/-- A handle is the number of its task; `events` are the arms that `select!` has taken. -/
structure EntryRun where
  point : EntryPoint
  receiver : Option Bool
  activeConnections : List Nat
  tasks : List TaskState
  events : List EntryEvent
  deriving DecidableEq, Repr

/-- The steps of `entry` with their outcomes, of the tasks, and of who sends the signal. -/
inductive EntryAction where
  | setProxyPort (ok : Bool)
  | generateCaCertificate (ok : Bool)
  | subscribe
  | accept
  | acceptFailed
  | shutdown
  | await
  | returnOk
  | finish (i : Nat)
  | panic (i : Nat)
  | signal
  deriving DecidableEq, Repr

namespace EntryRun

def start : EntryRun := ⟨.setProxyPort, none, [], [], []⟩

def endTask (w : EntryRun) (i : Nat) (state : TaskState) : EntryRun :=
  { w with tasks := w.tasks.set i state }

def next (w : EntryRun) : EntryAction → Option EntryRun
  | .setProxyPort ok =>
    if w.point = .setProxyPort then
      some { w with point := if ok then .generateCaCertificate else .returned false }
    else none
  | .generateCaCertificate ok =>
    if w.point = .generateCaCertificate then
      some { w with point := if ok then .subscribe else .returned false }
    else none
  | .subscribe =>
    if w.point = .subscribe then some { w with point := .select, receiver := some false }
    else none
  | .accept =>
    if w.point = .select then
      some { w with
        activeConnections := w.activeConnections ++ [w.tasks.length]
        tasks := w.tasks ++ [.running]
        events := w.events ++ [.accepted w.tasks.length] }
    else none
  | .acceptFailed =>
    if w.point = .select then some { w with events := w.events ++ [.acceptFailed] } else none
  | .shutdown =>
    if w.point = .select ∧ w.receiver = some true then
      some { w with
        point := .closing, receiver := some false, events := w.events ++ [.shutdown] }
    else none
  | .await =>
    match w.activeConnections with
    | [] => none
    | handle :: handles =>
      -- `let _ = handle.await` makes no difference between the two
      if w.point = .closing ∧
          (w.tasks[handle]? = some .finished ∨ w.tasks[handle]? = some .panicked) then
        some { w with activeConnections := handles }
      else none
  | .returnOk =>
    if w.point = .closing ∧ w.activeConnections = [] then some { w with point := .returned true }
    else none
  -- a running session may end, and need not: it has no timeout
  | .finish i => if w.tasks[i]? = some .running then some (w.endTask i .finished) else none
  | .panic i => if w.tasks[i]? = some .running then some (w.endTask i .panicked) else none
  | .signal => some { w with receiver := w.receiver.map fun _ => true }

variable {w w' : EntryRun} {act : EntryAction} {i : Nat}

theorem next_await (h : w.next .await = some w') :
    ∃ handle handles, w.activeConnections = handle :: handles ∧ w.point = .closing ∧
      (w.tasks[handle]? = some .finished ∨ w.tasks[handle]? = some .panicked) ∧
      w' = { w with activeConnections := handles } := by
  simp only [next] at h
  split at h
  · cases h
  · rename_i handle handles hconnections
    obtain ⟨⟨hpoint, hended⟩, h⟩ := Option.ite_none_right_eq_some.mp h
    exact ⟨handle, handles, hconnections, hpoint, hended, (Option.some.inj h).symm⟩

def tasksAfter (w : EntryRun) : EntryAction → List TaskState
  | .accept => w.tasks ++ [.running]
  | .finish i => w.tasks.set i .finished
  | .panic i => w.tasks.set i .panicked
  | _ => w.tasks

theorem tasks_of_next (h : w.next act = some w') : w'.tasks = w.tasksAfter act := by
  cases act with
  | await =>
    obtain ⟨handle, handles, _, _, _, rfl⟩ := next_await h
    rfl
  | signal =>
    cases h
    rfl
  | _ =>
    obtain ⟨_, h⟩ := Option.ite_none_right_eq_some.mp h
    cases h
    rfl

/-- No task runs whose handle is not held, and nothing is accepted behind the signal. -/
structure Drains (w : EntryRun) : Prop where
  held : ∀ i : Nat, w.tasks[i]? = some .running → i ∈ w.activeConnections
  spawned : ∀ i ∈ w.activeConnections, i < w.tasks.length
  opening : w.point.isOpening = true → w.activeConnections = []
  awaited : w.point = .returned true → w.activeConnections = []
  accepting : w.point.isClosed = false → EntryEvent.shutdown ∉ w.events
  ordered : w.events.Pairwise fun earlier later =>
    earlier = .shutdown → ∀ i, later ≠ .accepted i

theorem drains_start : start.Drains where
  held := by simp [start]
  spawned := by simp [start]
  opening := by simp [start]
  awaited := by simp [start]
  accepting := by simp [start]
  ordered := List.Pairwise.nil

/-- Behind the shutdown signal no arm is taken any more. -/
theorem ordered_append (hw : w.Drains) (hpoint : w.point = .select) (event : EntryEvent) :
    (w.events ++ [event]).Pairwise fun earlier later =>
      earlier = .shutdown → ∀ i, later ≠ .accepted i := by
  rw [List.pairwise_append]
  refine ⟨hw.ordered, List.pairwise_singleton _ _, ?_⟩
  intro earlier hearlier later _ hshutdown
  subst hshutdown
  have hopen : w.point.isClosed = false := by
    rw [hpoint]
    rfl
  exact (hw.accepting hopen hearlier).elim

theorem drains_endTask (hw : w.Drains) {state : TaskState} (hstate : state ≠ .running) :
    (w.endTask i state).Drains where
  held := by
    intro j hj
    rcases getElem?_set_cases hj with ⟨_, heq⟩ | hj
    · exact (hstate heq.symm).elim
    · exact hw.held j hj
  spawned := by
    intro j hj
    rw [endTask, List.length_set]
    exact hw.spawned j hj
  opening := hw.opening
  awaited := hw.awaited
  accepting := hw.accepting
  ordered := hw.ordered

theorem drains_accept (hw : w.Drains) (hpoint : w.point = .select) :
    Drains { w with
      activeConnections := w.activeConnections ++ [w.tasks.length]
      tasks := w.tasks ++ [.running]
      events := w.events ++ [.accepted w.tasks.length] } where
  held := by
    intro i hi
    rcases Nat.lt_or_ge i w.tasks.length with hlt | hge
    · rw [List.getElem?_append_left hlt] at hi
      exact List.mem_append_left _ (hw.held i hi)
    · have hnew : i = w.tasks.length := by
        have := (List.getElem?_eq_some_iff.mp hi).1
        rw [List.length_append, List.length_singleton] at this
        omega
      exact List.mem_append_right _ (List.mem_singleton.mpr hnew)
  spawned := by
    intro i hi
    rw [List.length_append, List.length_singleton]
    rcases List.mem_append.mp hi with hi | hi
    · have := hw.spawned i hi
      omega
    · have := List.mem_singleton.mp hi
      omega
  opening := by
    intro hopening
    rw [hpoint] at hopening
    cases hopening
  awaited := by
    intro hreturned
    rw [hpoint] at hreturned
    cases hreturned
  accepting := by
    intro hopen hmem
    rcases List.mem_append.mp hmem with hmem | hmem
    · exact hw.accepting hopen hmem
    · cases List.mem_singleton.mp hmem
  ordered := ordered_append hw hpoint _

theorem drains_await (hw : w.Drains) {handle : Nat} {handles : List Nat}
    (hconnections : w.activeConnections = handle :: handles) (hpoint : w.point = .closing)
    (hended : w.tasks[handle]? = some .finished ∨ w.tasks[handle]? = some .panicked) :
    Drains { w with activeConnections := handles } where
  held := by
    intro i hi
    have hmem := hw.held i hi
    rw [hconnections] at hmem
    rcases List.mem_cons.mp hmem with rfl | hmem
    · rw [hi] at hended
      rcases hended with hended | hended <;> cases hended
    · exact hmem
  spawned := by
    intro i hi
    apply hw.spawned i
    rw [hconnections]
    exact List.mem_cons_of_mem _ hi
  opening := by
    intro hopening
    rw [hpoint] at hopening
    cases hopening
  awaited := by
    intro hreturned
    rw [hpoint] at hreturned
    cases hreturned
  accepting := hw.accepting
  ordered := hw.ordered

theorem drains_point (hw : w.Drains) {point : EntryPoint} {receiver : Option Bool}
    (hopening : point.isOpening = true → w.point.isOpening = true)
    (hreturned : point = .returned true → w.activeConnections = [])
    (hopen : point.isClosed = false → w.point.isClosed = false) :
    Drains { w with point, receiver } where
  held := hw.held
  spawned := hw.spawned
  opening h := hw.opening (hopening h)
  awaited := hreturned
  accepting h := hw.accepting (hopen h)
  ordered := hw.ordered

/-- Ahead of the accept loop there are no connections to keep. -/
theorem drains_opening (hw : w.Drains) {point : EntryPoint} {receiver : Option Bool}
    (hpoint : w.point.isOpening = true) (hreturned : point ≠ .returned true) :
    Drains { w with point, receiver } := by
  apply drains_point hw
  · exact fun _ => hpoint
  · exact fun h => (hreturned h).elim
  · intro _
    cases hw : w.point with
    | setProxyPort => rfl
    | generateCaCertificate => rfl
    | subscribe => rfl
    | _ =>
      rw [hw] at hpoint
      cases hpoint

theorem drains_of_next (hw : w.Drains) (h : w.next act = some w') : w'.Drains := by
  cases act with
  | setProxyPort ok =>
    obtain ⟨hpoint, h⟩ := Option.ite_none_right_eq_some.mp h
    cases h
    apply drains_opening hw
    · rw [hpoint]
      rfl
    · cases ok <;> simp
  | generateCaCertificate ok =>
    obtain ⟨hpoint, h⟩ := Option.ite_none_right_eq_some.mp h
    cases h
    apply drains_opening hw
    · rw [hpoint]
      rfl
    · cases ok <;> simp
  | subscribe =>
    obtain ⟨hpoint, h⟩ := Option.ite_none_right_eq_some.mp h
    cases h
    apply drains_opening hw
    · rw [hpoint]
      rfl
    · simp
  | accept =>
    obtain ⟨hpoint, h⟩ := Option.ite_none_right_eq_some.mp h
    cases h
    exact drains_accept hw hpoint
  | acceptFailed =>
    obtain ⟨hpoint, h⟩ := Option.ite_none_right_eq_some.mp h
    cases h
    refine ⟨hw.held, hw.spawned, hw.opening, hw.awaited, ?_, ordered_append hw hpoint _⟩
    intro hopen hmem
    rcases List.mem_append.mp hmem with hmem | hmem
    · exact hw.accepting hopen hmem
    · cases List.mem_singleton.mp hmem
  | shutdown =>
    obtain ⟨⟨hpoint, _⟩, h⟩ := Option.ite_none_right_eq_some.mp h
    cases h
    refine ⟨hw.held, hw.spawned, ?_, ?_, ?_, ordered_append hw hpoint _⟩
    · intro hopening
      cases hopening
    · intro hreturned
      cases hreturned
    · intro hopen
      cases hopen
  | await =>
    obtain ⟨handle, handles, hconnections, hpoint, hended, rfl⟩ := next_await h
    exact drains_await hw hconnections hpoint hended
  | returnOk =>
    obtain ⟨⟨hpoint, hconnections⟩, h⟩ := Option.ite_none_right_eq_some.mp h
    cases h
    apply drains_point hw
    · simp [EntryPoint.isOpening]
    · exact fun _ => hconnections
    · simp [EntryPoint.isClosed]
  | finish i =>
    obtain ⟨_, h⟩ := Option.ite_none_right_eq_some.mp h
    cases h
    exact drains_endTask hw (by simp)
  | panic i =>
    obtain ⟨_, h⟩ := Option.ite_none_right_eq_some.mp h
    cases h
    exact drains_endTask hw (by simp)
  | signal =>
    cases h
    exact drains_point hw id hw.awaited id

theorem drains_of_reach (h : Reach (Steps next) .start w) : w.Drains :=
  h.invariant_steps (fun _ _ _ => drains_of_next) drains_start

theorem ended_of_returned (hw : w.Drains) (hpoint : w.point = .returned true) :
    .running ∉ w.tasks := by
  intro hmem
  obtain ⟨i, hi⟩ := List.mem_iff_getElem?.mp hmem
  have hheld := hw.held i hi
  rw [hw.awaited hpoint] at hheld
  cases hheld

theorem endTask_comm {j : Nat} (hne : j ≠ i) (a b : TaskState) :
    (w.endTask i a).endTask j b = (w.endTask j b).endTask i a := by
  simp only [endTask]
  rw [List.set_comm a b hne.symm]

/-- The end of a task is in nobody's way: what `entry` and the other tasks could do before
it they can do after it, with the same effect. -/
theorem next_endTask (hi : w.tasks[i]? = some .running) {state : TaskState}
    (hother : act ≠ .finish i ∧ act ≠ .panic i)
    (h : w.next act = some w') : (w.endTask i state).next act = some (w'.endTask i state) := by
  obtain ⟨hlt, _⟩ := List.getElem?_eq_some_iff.mp hi
  have htasks : ∀ j, j ≠ i → (w.endTask i state).tasks[j]? = w.tasks[j]? :=
    fun j hj => List.getElem?_set_ne hj.symm
  cases act with
  | accept =>
    obtain ⟨hpoint, h⟩ := Option.ite_none_right_eq_some.mp h
    cases h
    simp [next, endTask, hpoint, List.set_append_left _ _ hlt]
  | await =>
    obtain ⟨handle, handles, hconnections, hpoint, hended, rfl⟩ := next_await h
    have hne : handle ≠ i := by
      intro heq
      rw [heq, hi] at hended
      rcases hended with hended | hended <;> cases hended
    rw [← htasks handle hne] at hended
    simp only [next, endTask, hconnections] at hended ⊢
    rw [if_pos ⟨hpoint, hended⟩]
  | finish j =>
    obtain ⟨hrunning, h⟩ := Option.ite_none_right_eq_some.mp h
    cases h
    have hne : j ≠ i := fun heq => hother.1 (heq ▸ rfl)
    rw [← htasks j hne] at hrunning
    exact (if_pos hrunning).trans (congrArg some (endTask_comm hne _ _))
  | panic j =>
    obtain ⟨hrunning, h⟩ := Option.ite_none_right_eq_some.mp h
    cases h
    have hne : j ≠ i := fun heq => hother.2 (heq ▸ rfl)
    rw [← htasks j hne] at hrunning
    exact (if_pos hrunning).trans (congrArg some (endTask_comm hne _ _))
  | signal =>
    cases h
    rfl
  | _ =>
    obtain ⟨hguard, h⟩ := Option.ite_none_right_eq_some.mp h
    cases h
    exact if_pos hguard

/-- When all tasks have ended, the awaits end and `entry` returns. -/
theorem reach_returned (hw : w.Drains) (hpoint : w.point = .closing)
    (hended : .running ∉ w.tasks) :
    ∃ w', Reach (Steps next) w w' ∧ w'.point = .returned true := by
  obtain ⟨handles, hconnections⟩ : ∃ handles, w.activeConnections = handles := ⟨_, rfl⟩
  induction handles generalizing w with
  | nil => exact ⟨_, .single ⟨.returnOk, trivial, if_pos ⟨hpoint, hconnections⟩⟩, rfl⟩
  | cons handle handles ih =>
    have hstate : w.tasks[handle]? = some .finished ∨ w.tasks[handle]? = some .panicked := by
      have hspawned : handle < w.tasks.length := by
        apply hw.spawned
        rw [hconnections]
        exact List.mem_cons_self
      rw [List.getElem?_eq_getElem hspawned]
      cases hstate : w.tasks[handle] with
      | running => exact (hended (List.mem_of_getElem hstate)).elim
      | finished => exact Or.inl rfl
      | panicked => exact Or.inr rfl
    have hawait : w.next .await = some { w with activeConnections := handles } := by
      simp only [next, hconnections]
      exact if_pos ⟨hpoint, hstate⟩
    obtain ⟨w', hreach, hreturned⟩ := @ih { w with activeConnections := handles }
      (drains_of_next hw hawait) hpoint hended rfl
    exact ⟨w', .head ⟨.await, trivial, hawait⟩ hreach, hreturned⟩

def phase (w : EntryRun) : Phase :=
  match w.point with
  | .setProxyPort => .bind
  | .generateCaCertificate => .loadCa
  | .subscribe => .subscribe
  | .select => .accepting w.activeConnections.length
  | .closing => .draining w.activeConnections.length
  | .returned _ => .terminated

def proxy (w : EntryRun) (stopped : Bool) : Proxy := ⟨w.phase, w.receiver, stopped⟩

/-- `entry` with its tasks does the steps of the proxy, and no task is seen from there. -/
theorem proxy_of_next (hw : w.Drains) (h : w.next act = some w') (stopped : Bool) :
    (∃ turn, (w.proxy stopped).entry turn = some (w'.proxy stopped)) ∨
      w'.proxy stopped = w.proxy stopped ∨ w'.proxy true = (w.proxy stopped).signal := by
  cases act with
  | setProxyPort ok =>
    obtain ⟨hpoint, h⟩ := Option.ite_none_right_eq_some.mp h
    cases h
    cases ok with
    | false => exact Or.inl ⟨.fail, by simp [proxy, phase, hpoint, Proxy.entry]⟩
    | true => exact Or.inl ⟨.ok, by simp [proxy, phase, hpoint, Proxy.entry]⟩
  | generateCaCertificate ok =>
    obtain ⟨hpoint, h⟩ := Option.ite_none_right_eq_some.mp h
    cases h
    cases ok with
    | false => exact Or.inl ⟨.fail, by simp [proxy, phase, hpoint, Proxy.entry]⟩
    | true => exact Or.inl ⟨.ok, by simp [proxy, phase, hpoint, Proxy.entry]⟩
  | subscribe =>
    obtain ⟨hpoint, h⟩ := Option.ite_none_right_eq_some.mp h
    cases h
    have hnone : w.activeConnections = [] := by
      apply hw.opening
      rw [hpoint]
      rfl
    exact Or.inl ⟨.ok, by simp [proxy, phase, hpoint, hnone, Proxy.entry]⟩
  | accept =>
    obtain ⟨hpoint, h⟩ := Option.ite_none_right_eq_some.mp h
    cases h
    exact Or.inl ⟨.ok, by simp [proxy, phase, hpoint, Proxy.entry]⟩
  | acceptFailed =>
    obtain ⟨hpoint, h⟩ := Option.ite_none_right_eq_some.mp h
    cases h
    exact Or.inr (Or.inl rfl)
  | shutdown =>
    obtain ⟨⟨hpoint, hreceiver⟩, h⟩ := Option.ite_none_right_eq_some.mp h
    cases h
    exact Or.inl ⟨.shutdown, by simp [proxy, phase, hpoint, hreceiver, Proxy.entry]⟩
  | await =>
    obtain ⟨handle, handles, hconnections, hpoint, _, rfl⟩ := next_await h
    exact Or.inl ⟨.ok, by simp [proxy, phase, hpoint, hconnections, Proxy.entry]⟩
  | returnOk =>
    obtain ⟨⟨hpoint, hconnections⟩, h⟩ := Option.ite_none_right_eq_some.mp h
    cases h
    exact Or.inl ⟨.ok, by simp [proxy, phase, hpoint, hconnections, Proxy.entry]⟩
  | finish i =>
    obtain ⟨_, h⟩ := Option.ite_none_right_eq_some.mp h
    cases h
    exact Or.inr (Or.inl rfl)
  | panic i =>
    obtain ⟨_, h⟩ := Option.ite_none_right_eq_some.mp h
    cases h
    exact Or.inr (Or.inl rfl)
  | signal =>
    cases h
    exact Or.inr (Or.inr rfl)

def ProxyStep (a b : Proxy) : Prop := (∃ turn, a.entry turn = some b) ∨ b = a.signal

theorem reach_proxy (h : Reach (Steps next) .start w) :
    ∃ stopped, Reach ProxyStep ⟨.bind, none, false⟩ (w.proxy stopped) := by
  refine h.invariant_reached (P := fun w => ∃ stopped, Reach ProxyStep ⟨.bind, none, false⟩
    (w.proxy stopped)) ?_ ⟨false, .refl⟩
  intro v v' hv hrun hstep
  obtain ⟨stopped, hrun⟩ := hrun
  obtain ⟨act, _, hnext⟩ := hstep
  rcases proxy_of_next (drains_of_reach hv) hnext stopped with hturn | hsame | hsignal
  · exact ⟨stopped, hrun.tail (Or.inl hturn)⟩
  · rw [← hsame] at hrun
    exact ⟨stopped, hrun⟩
  · exact ⟨true, hrun.tail (Or.inr hsignal)⟩

end EntryRun

/-- When `entry` returns `Ok` no session runs any more. Behind the shutdown signal nothing is
accepted, and the panic of a session changes nothing but the state of its task. -/
theorem entry_drains (w : EntryRun) (h : Reach (Steps EntryRun.next) .start w) :
    (w.point = .returned true → .running ∉ w.tasks) ∧
    (w.events.Pairwise fun earlier later => earlier = .shutdown → ∀ i, later ≠ .accepted i) ∧
    ∀ i w', w.next (.panic i) = some w' → w' = w.endTask i .panicked ∧
      ∀ act v, act ≠ .finish i ∧ act ≠ .panic i → w.next act = some v →
        w'.next act = some (v.endTask i .panicked) := by
  have hw := EntryRun.drains_of_reach h
  refine ⟨EntryRun.ended_of_returned hw, hw.ordered, ?_⟩
  intro i w' hpanic
  obtain ⟨hrunning, hpanic⟩ := Option.ite_none_right_eq_some.mp hpanic
  cases hpanic
  refine ⟨rfl, ?_⟩
  intro act v hother hnext
  exact EntryRun.next_endTask hrunning hother hnext

/-- Two sessions, of which one panics in the accept loop, to the end. -/
def drainedEntry : EntryRun where
  point := .returned true
  receiver := some false
  activeConnections := []
  tasks := [.panicked, .finished]
  events := [.accepted 0, .accepted 1, .shutdown]

def oneSession : EntryRun := ⟨.select, some false, [0], [.running], [.accepted 0]⟩

theorem drains_drainedEntry :
    .running ∉ drainedEntry.tasks ∧
    (oneSession.endTask 0 .panicked).next .accept =
      some ⟨.select, some false, [0, 1], [.panicked, .running], [.accepted 0, .accepted 1]⟩ := by
  have hdrained : Reach (Steps EntryRun.next) .start drainedEntry :=
    reach_runLabels [.setProxyPort true, .generateCaCertificate true, .subscribe, .accept,
      .panic 0, .accept, .signal, .shutdown, .await, .finish 1, .await, .returnOk] rfl
  have hone : Reach (Steps EntryRun.next) .start oneSession :=
    reach_runLabels [.setProxyPort true, .generateCaCertificate true, .subscribe, .accept] rfl
  obtain ⟨hended, _, _⟩ := entry_drains drainedEntry hdrained
  obtain ⟨_, _, hpanic⟩ := entry_drains oneSession hone
  exact ⟨hended rfl, (hpanic 0 _ rfl).2 .accept _ ⟨by simp, by simp⟩ rfl⟩

end AppComponts
