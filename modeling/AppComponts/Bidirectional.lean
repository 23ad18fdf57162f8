import AppComponts.DebugStream

/-!
# Both directions of the tunnel

The future of `copy_bidirectional_impl` in `backend/proxy/debug_stream.rs`. Every poll of
it polls the two transfers one after the other, on the same two streams with the roles
exchanged.
-/

namespace AppComponts
open AsyncIo Rust Transition Text
set_option autoImplicit false

universe u v
variable {A : Type u} {B : Type v}

/-- The count and the text of a transfer. -/
abbrev Tally := UInt64 × Str

/-- One transfer: where it stands, and the calls it has made on its streams. -/
structure Side where
  pc : TransferAt
  trace : List Event
  deriving DecidableEq

def Transfer.side {R : Type u} {W : Type v} (t : Transfer R W) : Side := ⟨t.pc, t.io.trace⟩

/-- Where the future stands: in the poll of a transfer, or back at its caller. In the second
poll it holds what the first has left, `none` for `Pending`. -/
inductive BidirectionalAt where
  | aToB
  | bToA (aToB : Option Tally)
  | returned (result : Poll (Tally × Tally))
  | panicked (p : Panic)
  deriving DecidableEq, Repr

/-- The future with its streams; `reports` are the results of the transfers in this poll. -/
structure Bidirectional (A : Type u) (B : Type v) where
  pc : BidirectionalAt
  a : A
  b : B
  aToB : Side
  bToA : Side
  reports : List (Direction × Poll Tally)
  deriving DecidableEq

/-- The `?` behind the poll of a transfer. -/
def questionMark : Poll Tally → Except IoError (Option Tally)
  | .pending => .ok none
  | .ok tally => .ok (some tally)
  | .err e => .error e

/-- The two `ready!`s. -/
def bothReady (aToB bToA : Option Tally) : Poll (Tally × Tally) :=
  match aToB with
  | none => .pending
  | some aToB =>
    match bToA with
    | none => .pending
    | some bToA => .ok (aToB, bToA)

def afterAToB : TransferAt → BidirectionalAt
  | .returned _ result =>
    match questionMark result with
    | .error e => .returned (.err e)
    | .ok aToB => .bToA aToB
  | .panicked p => .panicked p
  | _ => .aToB

def afterBToA (aToB : Option Tally) : TransferAt → BidirectionalAt
  | .returned _ result =>
    match questionMark result with
    | .error e => .returned (.err e)
    | .ok bToA => .returned (bothReady aToB bToA)
  | .panicked p => .panicked p
  | _ => .bToA aToB

def report (direction : Direction) : TransferAt → List (Direction × Poll Tally)
  | .returned _ result => [(direction, result)]
  | _ => []

namespace Bidirectional

def aToBTransfer (s : Bidirectional A B) : Transfer A B := ⟨s.aToB.pc, ⟨s.a, s.b, s.aToB.trace⟩⟩

def bToATransfer (s : Bidirectional A B) : Transfer B A := ⟨s.bToA.pc, ⟨s.b, s.a, s.bToA.trace⟩⟩

def side (s : Bidirectional A B) : Direction → Side
  | .Request => s.aToB
  | .Response => s.bToA

section Model
variable [CaseTables] [AsyncRead A] [AsyncWrite A] [AsyncRead B] [AsyncWrite B]

def next (s : Bidirectional A B) : Option (Bidirectional A B) :=
  match s.pc with
  | .aToB => do
    let t ← s.aToBTransfer.next
    return { s with
      pc := afterAToB t.pc
      a := t.io.reader
      b := t.io.writer
      aToB := t.side
      reports := s.reports ++ report .Request t.pc }
  | .bToA aToB => do
    let t ← s.bToATransfer.next
    return { s with
      pc := afterBToA aToB t.pc
      a := t.io.writer
      b := t.io.reader
      bToA := t.side
      reports := s.reports ++ report .Response t.pc }
  | .returned .pending => some { s with pc := .aToB, reports := [] }
  | .returned _ => none
  | .panicked _ => none

end Model
end Bidirectional

def copyBidirectionalWithSizes (a : A) (b : B) (aToBBufSize bToABufSize : UInt64) :
    Bidirectional A B where
  pc := .aToB
  a := a
  b := b
  aToB := ⟨.loopHead (.running (.new aToBBufSize .Request)), []⟩
  bToA := ⟨.loopHead (.running (.new bToABufSize .Response)), []⟩
  reports := []

def TransferAt.state? : TransferAt → Option TransferState
  | .loopHead state => some state
  | .copying _ buf => some (.running buf)
  | .returned state _ => some state
  | .panicked _ => none

/-- `Running`, then `ShuttingDown`, then `Done`, with the tally kept from its first. -/
inductive TransferState.Moves : TransferState → TransferState → Prop
  | run {buf buf' : CopyBuffer} : Moves (.running buf) (.running buf')
  | shutDown {buf : CopyBuffer} {count : UInt64} {rawData : Str} :
      Moves (.running buf) (.shuttingDown count rawData)
  | wait {count : UInt64} {rawData : Str} :
      Moves (.shuttingDown count rawData) (.shuttingDown count rawData)
  | finish {count : UInt64} {rawData : Str} :
      Moves (.shuttingDown count rawData) (.done count rawData)
  | stay {count : UInt64} {rawData : Str} : Moves (.done count rawData) (.done count rawData)

theorem TransferState.Moves.refl (state : TransferState) : state.Moves state := by
  cases state with
  | running buf => exact .run
  | shuttingDown count rawData => exact .wait
  | done count rawData => exact .stay

/-- A transfer returns its tally exactly in `Done`. -/
def Truthful (pc : TransferAt) : Prop :=
  ∀ state result, pc = .returned state result →
    ∀ x : Tally, result = .ok x ↔ state = .done x.1 x.2

theorem truthful_returned {state : TransferState} {result : Poll Tally}
    (hstate : ∀ count rawData, state ≠ .done count rawData) (hresult : ∀ x, result ≠ .ok x) :
    Truthful (.returned state result) := by
  intro state' result' heq x
  cases heq
  exact ⟨fun hok => (hresult x hok).elim, fun hdone => (hstate _ _ hdone).elim⟩

section After
variable [CaseTables] {buf : CopyBuffer} {count : UInt64} {rawData : Str}

theorem truthful_afterCopyStep (flow : CopyFlow) : Truthful (afterCopyStep buf flow) := by
  have hafter := afterCopy_of_step buf flow
  generalize afterCopyStep buf flow = pc at hafter
  cases hafter with
  | waits => exact truthful_returned (by simp) (by simp)
  | fails => exact truthful_returned (by simp) (by simp)
  | _ =>
    intro _ _ h
    cases h

theorem state?_afterCopyStep {flow : CopyFlow} {state : TransferState}
    (h : (afterCopyStep buf flow).state? = some state) :
    state = .running buf ∨ ∃ count rawData, state = .shuttingDown count rawData := by
  have hafter := afterCopy_of_step buf flow
  generalize afterCopyStep buf flow = pc at h hafter
  cases hafter with
  | panics => cases h
  | uncaptured hcaptured => cases h
  | finishes hcaptured =>
    cases h
    exact Or.inr ⟨_, _, rfl⟩
  | brokenOff hkind htext =>
    cases h
    exact Or.inr ⟨_, _, rfl⟩
  | _ =>
    cases h
    exact Or.inl rfl

omit [CaseTables] in
theorem truthful_afterPollShutdown (answer : Poll Unit) :
    Truthful (afterPollShutdown count rawData answer) := by
  cases answer with
  | pending => exact truthful_returned (by simp) (by simp)
  | ok value =>
    intro _ _ h
    cases h
  | err e =>
    simp only [afterPollShutdown]
    split
    · intro _ _ h
      cases h
    · exact truthful_returned (by simp) (by simp)

omit [CaseTables] in
theorem state?_afterPollShutdown (answer : Poll Unit) :
    (afterPollShutdown count rawData answer).state? = some (.shuttingDown count rawData) ∨
    (afterPollShutdown count rawData answer).state? = some (.done count rawData) := by
  cases answer with
  | pending => exact Or.inl rfl
  | ok value => exact Or.inr rfl
  | err e =>
    simp only [afterPollShutdown]
    split
    · exact Or.inr rfl
    · exact Or.inl rfl

end After

section Steps
variable {R : Type u} {W : Type v} [CaseTables] [AsyncRead R] [AsyncWrite W]
  {t t' : Transfer R W}

theorem truthful_of_next (h : t.next = some t') : Truthful t'.pc := by
  obtain ⟨pc, io⟩ := t
  cases pc with
  | loopHead state =>
    cases state with
    | running buf =>
      obtain rfl := Option.some.inj h
      exact fun _ _ h => nomatch h
    | shuttingDown count rawData =>
      obtain rfl := Option.some.inj h
      exact truthful_afterPollShutdown _
    | done count rawData =>
      obtain rfl := Option.some.inj h
      intro state result heq x
      cases heq
      constructor
      · intro hok
        cases hok
        rfl
      · intro hdone
        cases hdone
        rfl
  | copying point buf =>
    obtain rfl := Option.some.inj h
    exact truthful_afterCopyStep _
  | returned state result =>
    obtain rfl := Option.some.inj h
    exact fun _ _ h => nomatch h
  | panicked p => cases h

theorem moves_of_next (h : t.next = some t') {state state' : TransferState}
    (ht : t.pc.state? = some state) (ht' : t'.pc.state? = some state') : state.Moves state' := by
  obtain ⟨pc, io⟩ := t
  cases pc with
  | loopHead start =>
    cases start with
    | running buf =>
      obtain rfl := Option.some.inj h
      cases ht
      cases ht'
      exact .run
    | shuttingDown count rawData =>
      obtain rfl := Option.some.inj h
      cases ht
      rcases @state?_afterPollShutdown count rawData io.pollShutdown.1 with heq | heq
      · cases heq.symm.trans ht'
        exact .wait
      · cases heq.symm.trans ht'
        exact .finish
    | done count rawData =>
      obtain rfl := Option.some.inj h
      cases ht
      cases ht'
      exact .stay
  | copying point buf =>
    obtain rfl := Option.some.inj h
    cases ht
    rcases state?_afterCopyStep ht' with rfl | ⟨count, rawData, rfl⟩
    · exact .run
    · exact .shutDown
  | returned start result =>
    obtain rfl := Option.some.inj h
    cases ht
    cases ht'
    exact .refl _
  | panicked p => cases h

theorem done_of_next (h : t.next = some t') {count : UInt64} {rawData : Str}
    (ht : t.pc.state? = some (.done count rawData)) :
    t'.pc.state? = some (.done count rawData) ∧ t'.io = t.io := by
  obtain ⟨pc, io⟩ := t
  cases pc with
  | loopHead start =>
    cases ht
    obtain rfl := Option.some.inj h
    exact ⟨rfl, rfl⟩
  | copying point buf => cases ht
  | returned start result =>
    cases ht
    obtain rfl := Option.some.inj h
    exact ⟨rfl, rfl⟩
  | panicked p => cases h

/-- Once the writer has been asked to shut down, there are only such calls. -/
structure Side.Closing (side : Side) : Prop where
  quiet : side.trace.Pairwise fun e₁ e₂ => e₁.isShutdown = true → e₂.isShutdown = true
  running : ∀ x, side.pc.copy? = some x → ∀ e ∈ side.trace, e.isShutdown = false

theorem closing_of_next {bound : Nat} (hsound : t.Sound bound) (ht : t.side.Closing)
    (h : t.next = some t') : t'.side.Closing := by
  cases transferStep_of_next (fun _ _ => hsound.fits) h with
  | @copy point buf buf' flow hpc hstep hpc' =>
    obtain ⟨⟨p, hp⟩, _⟩ := hsound point buf (by rw [hpc]; rfl)
    have hopen := ht.running (point, buf) (by rw [Transfer.side, hpc]; rfl)
    obtain ⟨es, hes, hno⟩ := (effect_of_step hp.fits hp.drained hstep).not_shutdown
    have hnone : ∀ e ∈ t'.io.trace, e.isShutdown = false := by
      intro e he
      rw [hes] at he
      exact (List.mem_append.mp he).elim (hopen e) (hno e)
    refine ⟨?_, fun _ _ => hnone⟩
    apply List.pairwise_of_forall_mem_list
    intro e he _ _ hdown
    rw [hnone e he] at hdown
    cases hdown
  | call hpc hpc' hio =>
    refine ⟨?_, fun _ _ => ?_⟩
    · rw [Transfer.side, hio]
      exact ht.quiet
    · rw [Transfer.side, hio]
      exact ht.running _ hpc
  | keep hpc hpc' hio =>
    refine ⟨?_, fun x hx => ?_⟩
    · rw [Transfer.side, hio]
      exact ht.quiet
    · have hnone : t'.pc.text? = none := text?_of_copy? hx
      rw [hnone] at hpc'
      cases hpc'
  | shutdown hpc hpc' hio =>
    refine ⟨?_, fun x hx => ?_⟩
    · rw [Transfer.side, hio]
      refine List.pairwise_append.mpr ⟨ht.quiet, List.pairwise_singleton _ _, ?_⟩
      intro _ _ e he _
      rw [List.mem_singleton.mp he]
      rfl
    · rw [Transfer.side, hpc', copy?_afterPollShutdown] at hx
      cases hx

end Steps

def BidirectionalAt.Told (reports : List (Direction × Poll Tally)) : BidirectionalAt → Prop
  | .aToB => reports = []
  | .bToA held => ∃ result, reports = [(.Request, result)] ∧ questionMark result = .ok held
  | .returned (.ok (x, y)) => reports = [(.Request, .ok x), (.Response, .ok y)]
  | .returned (.err e) => ∃ direction, (direction, .err e) ∈ reports
  | .returned .pending => True
  | .panicked _ => True

theorem told_afterAToB (pc : TransferAt) : (afterAToB pc).Told (report .Request pc) := by
  cases pc with
  | returned state result =>
    cases result with
    | err e => exact ⟨.Request, List.mem_singleton_self _⟩
    | _ => exact ⟨_, rfl, rfl⟩
  | panicked p => trivial
  | _ => rfl

theorem told_afterBToA {result : Poll Tally} {aToB : Option Tally}
    (h : questionMark result = .ok aToB) (pc : TransferAt) :
    (afterBToA aToB pc).Told ([(.Request, result)] ++ report .Response pc) := by
  cases pc with
  | returned state result' =>
    cases result' with
    | err e => exact ⟨.Response, List.mem_append_right _ (List.mem_singleton_self _)⟩
    | pending => cases aToB <;> trivial
    | ok y =>
      cases result with
      | err e => cases h
      | pending =>
        cases h
        trivial
      | ok x =>
        cases h
        rfl
  | panicked p => trivial
  | _ => exact ⟨result, rfl, h⟩

theorem mem_report {direction d : Direction} {pc : TransferAt} {result : Poll Tally}
    (h : (d, result) ∈ report direction pc) :
    d = direction ∧ ∃ state, pc = .returned state result := by
  cases pc with
  | returned state result' =>
    cases List.mem_singleton.mp h
    exact ⟨rfl, state, rfl⟩
  | _ => cases h

namespace Bidirectional
section Runs
variable [CaseTables] [AsyncRead A] [AsyncWrite A] [AsyncRead B] [AsyncWrite B]
  {s u : Bidirectional A B}

inductive Step (s u : Bidirectional A B) : Prop
  | aToB {t : Transfer A B} (hpc : s.pc = .aToB) (ht : s.aToBTransfer.next = some t)
      (hside : u.aToB = t.side) (hother : u.bToA = s.bToA) (hflow : u.pc = afterAToB t.pc)
      (hreports : u.reports = s.reports ++ report .Request t.pc)
  | bToA {aToB : Option Tally} {t : Transfer B A} (hpc : s.pc = .bToA aToB)
      (ht : s.bToATransfer.next = some t) (hother : u.aToB = s.aToB) (hside : u.bToA = t.side)
      (hflow : u.pc = afterBToA aToB t.pc)
      (hreports : u.reports = s.reports ++ report .Response t.pc)
  | poll (hpc : s.pc = .returned .pending) (hflow : u.pc = .aToB) (haToB : u.aToB = s.aToB)
      (hbToA : u.bToA = s.bToA) (hreports : u.reports = [])

theorem step_of_next (h : s.next = some u) : Step s u := by
  unfold next at h
  split at h
  · rename_i hpc
    obtain ⟨t, ht, h⟩ := Option.bind_eq_some_iff.mp h
    obtain rfl := Option.some.inj h
    exact .aToB hpc ht rfl rfl rfl rfl
  · rename_i aToB hpc
    obtain ⟨t, ht, h⟩ := Option.bind_eq_some_iff.mp h
    obtain rfl := Option.some.inj h
    exact .bToA hpc ht rfl rfl rfl rfl
  · rename_i hpc
    obtain rfl := Option.some.inj h
    exact .poll hpc rfl rfl rfl rfl
  · cases h
  · cases h

/-- What each transfer keeps in its own steps, both keep in every step of the future. -/
theorem sides_of_next {P Q : Side → Prop}
    (hP : ∀ t t' : Transfer A B, P t.side → t.next = some t' → P t'.side)
    (hQ : ∀ t t' : Transfer B A, Q t.side → t.next = some t' → Q t'.side)
    (hs : P s.aToB ∧ Q s.bToA) (h : s.next = some u) : P u.aToB ∧ Q u.bToA := by
  obtain ⟨hsP, hsQ⟩ := hs
  cases step_of_next h with
  | @aToB t hpc ht hside hother hflow hreports =>
    rw [hside, hother]
    exact ⟨hP s.aToBTransfer t hsP ht, hsQ⟩
  | @bToA _ t hpc ht hother hside hflow hreports =>
    rw [hside, hother]
    exact ⟨hsP, hQ s.bToATransfer t hsQ ht⟩
  | poll hpc hflow haToB hbToA hreports =>
    rw [haToB, hbToA]
    exact ⟨hsP, hsQ⟩

theorem moves_of_step (h : s.next = some u) {direction : Direction}
    {state state' : TransferState} (hs : (s.side direction).pc.state? = some state)
    (hu : (u.side direction).pc.state? = some state') : state.Moves state' := by
  have hsame (heq : u.side direction = s.side direction) : state.Moves state' := by
    rw [heq, hs] at hu
    cases hu
    exact .refl _
  cases step_of_next h with
  | aToB hpc ht hside hother hflow hreports =>
    cases direction with
    | Request =>
      rw [side, hside] at hu
      exact moves_of_next ht hs hu
    | Response => exact hsame hother
  | bToA hpc ht hother hside hflow hreports =>
    cases direction with
    | Request => exact hsame hother
    | Response =>
      rw [side, hside] at hu
      exact moves_of_next ht hs hu
  | poll hpc hflow haToB hbToA hreports =>
    cases direction with
    | Request => exact hsame haToB
    | Response => exact hsame hbToA

/-- What the transfers have returned in this poll, against where the future stands. -/
structure Told (s : Bidirectional A B) : Prop where
  told : s.pc.Told s.reports
  reported : ∀ direction result, (direction, result) ∈ s.reports →
    ∃ state, (s.side direction).pc = .returned state result

theorem told_of_next (hs : s.Told) (h : s.next = some u) : u.Told := by
  cases step_of_next h with
  | @aToB t hpc ht hside hother hflow hreports =>
    have hnone : s.reports = [] := by
      have htold := hs.told
      rw [hpc] at htold
      exact htold
    rw [hnone, List.nil_append] at hreports
    refine ⟨?_, ?_⟩
    · rw [hflow, hreports]
      exact told_afterAToB t.pc
    · intro direction result hmem
      rw [hreports] at hmem
      obtain ⟨rfl, state, hstate⟩ := mem_report hmem
      exact ⟨state, by rw [side, hside]; exact hstate⟩
  | @bToA aToB t hpc ht hother hside hflow hreports =>
    obtain ⟨first, hfirst, hmark⟩ : ∃ result, s.reports = [(.Request, result)] ∧
        questionMark result = .ok aToB := by
      have htold := hs.told
      rw [hpc] at htold
      exact htold
    refine ⟨?_, ?_⟩
    · rw [hflow, hreports, hfirst]
      exact told_afterBToA hmark t.pc
    · intro direction result hmem
      rw [hreports] at hmem
      rcases List.mem_append.mp hmem with hold | hnew
      · obtain ⟨state, hstate⟩ := hs.reported direction result hold
        rw [hfirst] at hold
        cases List.mem_singleton.mp hold
        exact ⟨state, by rw [side, hother]; exact hstate⟩
      · obtain ⟨rfl, state, hstate⟩ := mem_report hnew
        exact ⟨state, by rw [side, hside]; exact hstate⟩
  | poll hpc hflow haToB hbToA hreports =>
    refine ⟨?_, ?_⟩
    · rw [hflow, hreports]
      rfl
    · intro direction result hmem
      rw [hreports] at hmem
      cases hmem

structure Kept (bound : Nat) (side : Side) : Prop where
  sound : ∀ point buf, side.pc.copy? = some (point, buf) →
    (∃ p : Pipe UInt8 bound, Relays point buf side.trace p) ∧ Ledger buf side.trace
  closing : side.Closing
  truthful : Truthful side.pc

omit [CaseTables] in
theorem kept_new (bufSize : UInt64) (direction : Direction) :
    Kept bufSize.toNat ⟨.loopHead (.running (.new bufSize direction)), []⟩ where
  sound point buf h := by
    cases h
    exact ⟨⟨.empty, relays_new bufSize direction⟩, ledger_new bufSize direction⟩
  closing := ⟨.nil, fun _ _ _ h => nomatch h⟩
  truthful _ _ h := nomatch h

theorem kept_of_next {R : Type u} {W : Type v} [AsyncRead R] [AsyncWrite W] {bound : Nat}
    {t t' : Transfer R W} (ht : Kept bound t.side) (h : t.next = some t') :
    Kept bound t'.side where
  sound := transfer_sound_of_next ht.sound h
  closing := closing_of_next ht.sound ht.closing h
  truthful := truthful_of_next h

theorem done_of_step (h : s.next = some u) {direction : Direction} {tally : Tally}
    (hs : (s.side direction).pc.state? = some (.done tally.1 tally.2)) :
    (u.side direction).pc.state? = some (.done tally.1 tally.2) ∧
      (u.side direction).trace = (s.side direction).trace := by
  have hsame (heq : u.side direction = s.side direction) :
      (u.side direction).pc.state? = some (.done tally.1 tally.2) ∧
        (u.side direction).trace = (s.side direction).trace := by
    rw [heq]
    exact ⟨hs, rfl⟩
  cases step_of_next h with
  | aToB hpc ht hside hother hflow hreports =>
    cases direction with
    | Request =>
      obtain ⟨hstate, hio⟩ := done_of_next ht hs
      rw [side, hside]
      exact ⟨hstate, congrArg Io.trace hio⟩
    | Response => exact hsame hother
  | bToA hpc ht hother hside hflow hreports =>
    cases direction with
    | Request => exact hsame hother
    | Response =>
      obtain ⟨hstate, hio⟩ := done_of_next ht hs
      rw [side, hside]
      exact ⟨hstate, congrArg Io.trace hio⟩
  | poll hpc hflow haToB hbToA hreports =>
    cases direction with
    | Request => exact hsame haToB
    | Response => exact hsame hbToA

variable {a : A} {b : B} {aToBBufSize bToABufSize : UInt64}

theorem told_of_reach
    (h : Reach (Next next) (copyBidirectionalWithSizes a b aToBBufSize bToABufSize) s) :
    s.Told := by
  refine h.invariant (fun _ _ => told_of_next) ⟨rfl, ?_⟩
  intro direction result hmem
  cases hmem

theorem kept_of_reach
    (h : Reach (Next next) (copyBidirectionalWithSizes a b aToBBufSize bToABufSize) s) :
    Kept aToBBufSize.toNat s.aToB ∧ Kept bToABufSize.toNat s.bToA := by
  refine h.invariant (P := fun s => Kept aToBBufSize.toNat s.aToB ∧
    Kept bToABufSize.toNat s.bToA) ?_ ⟨kept_new _ _, kept_new _ _⟩
  intro s u hs hsu
  exact sides_of_next (fun _ _ => kept_of_next) (fun _ _ => kept_of_next) hs hsu

/-- A transfer has returned its tally exactly if it stands in `Done`. -/
theorem done_of_reported
    (h : Reach (Next next) (copyBidirectionalWithSizes a b aToBBufSize bToABufSize) s)
    {direction : Direction} {result : Poll Tally} (hmem : (direction, result) ∈ s.reports)
    (x : Tally) :
    result = .ok x ↔ (s.side direction).pc.state? = some (.done x.1 x.2) := by
  obtain ⟨state, hstate⟩ := (told_of_reach h).reported direction result hmem
  obtain ⟨haToB, hbToA⟩ := kept_of_reach h
  have htrue : Truthful (s.side direction).pc := by
    cases direction with
    | Request => exact haToB.truthful
    | Response => exact hbToA.truthful
  rw [htrue state result hstate x, hstate]
  exact Option.some_inj.symm

end Runs
end Bidirectional

section Protocol
variable [CaseTables] [AsyncRead A] [AsyncWrite A] [AsyncRead B] [AsyncWrite B]

/-- The protocol of the tunnel: the states of both transfers only go forward, behind a
shutdown there are only shutdowns, `Done` is final and silent, and the future resolves to
both tallies when both are done, or to an error that a transfer has returned in that poll. -/
theorem copyBidirectional_protocol (a : A) (b : B) (aToBBufSize bToABufSize : UInt64)
    (s : Bidirectional A B)
    (h : Reach (Next Bidirectional.next)
      (copyBidirectionalWithSizes a b aToBBufSize bToABufSize) s) :
    (∀ u, s.next = some u → ∀ direction state state',
      (s.side direction).pc.state? = some state → (u.side direction).pc.state? = some state' →
      state.Moves state') ∧
    (∀ direction, (s.side direction).trace.Pairwise
      fun e₁ e₂ => e₁.isShutdown = true → e₂.isShutdown = true) ∧
    (∀ direction x, (s.side direction).pc.state? = some (.done x.1 x.2) →
      ∀ u, Reach (Next Bidirectional.next) s u →
        (u.side direction).pc.state? = some (.done x.1 x.2) ∧
        (u.side direction).trace = (s.side direction).trace ∧
        ∀ result, (direction, result) ∈ u.reports → result = .ok x) ∧
    (∀ x y, s.pc = .returned (.ok (x, y)) →
      s.reports = [(.Request, .ok x), (.Response, .ok y)] ∧
      s.aToB.pc.state? = some (.done x.1 x.2) ∧ s.bToA.pc.state? = some (.done y.1 y.2)) ∧
    ∀ e, s.pc = .returned (.err e) → ∃ direction, (direction, .err e) ∈ s.reports := by
  have htold := (Bidirectional.told_of_reach h).told
  obtain ⟨haToB, hbToA⟩ := Bidirectional.kept_of_reach h
  refine ⟨?_, ?_, ?_, ?_, ?_⟩
  · intro u hsu direction state state' hs hu
    exact Bidirectional.moves_of_step hsu hs hu
  · intro direction
    cases direction with
    | Request => exact haToB.closing.quiet
    | Response => exact hbToA.closing.quiet
  · intro direction x hdone u hsu
    have hstays : (u.side direction).pc.state? = some (.done x.1 x.2) ∧
        (u.side direction).trace = (s.side direction).trace := by
      refine hsu.invariant (P := fun u => (u.side direction).pc.state? = some (.done x.1 x.2) ∧
        (u.side direction).trace = (s.side direction).trace) ?_ ⟨hdone, rfl⟩
      intro c d hc hcd
      obtain ⟨hstate, htrace⟩ := Bidirectional.done_of_step hcd hc.1
      exact ⟨hstate, htrace.trans hc.2⟩
    refine ⟨hstays.1, hstays.2, ?_⟩
    intro result hmem
    exact (Bidirectional.done_of_reported (h.trans hsu) hmem x).mpr hstays.1
  · intro x y hpc
    rw [hpc] at htold
    have hreports : s.reports = [(.Request, .ok x), (.Response, .ok y)] := htold
    have hx : (Direction.Request, Poll.ok x) ∈ s.reports := by simp [hreports]
    have hy : (Direction.Response, Poll.ok y) ∈ s.reports := by simp [hreports]
    exact ⟨hreports, (Bidirectional.done_of_reported h hx x).mp rfl,
      (Bidirectional.done_of_reported h hy y).mp rfl⟩
  · intro e hpc
    rw [hpc] at htold
    exact htold

end Protocol

/-- A request one way and a word the other, while the target is slow to read. -/
def exchange : Bidirectional Script Script :=
  copyBidirectionalWithSizes
    ⟨[.ok (Utf8.encode "GET / v\nHost: a\n\n".toList), .ok []], [.ok 2], [.ok ()], [.ok ()]⟩
    ⟨[.ok [104, 105], .ok []], [.pending, .ok 20], [.ok ()], [.ok ()]⟩ 20 20

def exchanged : Bidirectional Script Script :=
  runFor (@Bidirectional.next _ _ asciiTables _ _ _ _) 24 exchange

theorem copyBidirectional_protocol_exchanged :
    exchanged.reports = [(.Request, .ok (17, "GET / v\nHost: a\n\n".toList)),
      (.Response, .ok (2, "hi".toList))] ∧
    exchanged.aToB.pc.state? = some (.done 17 "GET / v\nHost: a\n\n".toList) ∧
    exchanged.bToA.pc.state? = some (.done 2 "hi".toList) :=
  (@copyBidirectional_protocol _ _ asciiTables _ _ _ _ _ _ 20 20 exchanged
    (reach_runFor _ 24 _)).2.2.2.1 (17, "GET / v\nHost: a\n\n".toList) (2, "hi".toList)
    (by decide)

end AppComponts
