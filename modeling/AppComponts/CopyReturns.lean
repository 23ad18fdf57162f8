import AppComponts.CopyFlush

/-!
# Calls of the copy loop return

One call of `poll_copy` reads, drains and resets its buffer again and again, and returns as
long as the reader hands out finitely many bytes. With a buffer of no size it neither reads
nor returns.
-/

namespace AppComponts
open AsyncIo Rust Transition
set_option autoImplicit false

universe u v
variable {R : Type u} {W : Type v}

section Measure
variable [AsyncRead R] [AsyncWrite W]

/-- An empty buffer at the head reads, and then returns or brings the end nearer. -/
def pointWeight (buf : CopyBuffer) : CopyPoint → Nat
  | .loopHead => if buf.WantsRead ∧ buf.pos = buf.cap then 0 else 3
  | .whileHead => 2
  | .afterWhile => 1

@[simp] theorem pointWeight_whileHead (buf : CopyBuffer) : pointWeight buf .whileHead = 2 := rfl

@[simp] theorem pointWeight_afterWhile (buf : CopyBuffer) :
    pointWeight buf .afterWhile = 1 := rfl

def readWeight (buf : CopyBuffer) : Nat := if buf.readDone then 0 else 5

def copyWork (total : Nat) (point : CopyPoint) (buf : CopyBuffer) (trace : List Event) : Nat :=
  5 * (total - (produced trace).length) + readWeight buf +
    buf.unsent.length + pointWeight buf point

/-- Inside a call every step of `poll_copy` has less work before it. -/
theorem copyWork_lt {total : Nat} {point point' : CopyPoint} {me me' : CopyBuffer}
    {io io' : Io R W} (hfits : me.Fits) (hroom : 0 < me.buf.length)
    (hdrained : point = .afterWhile → me.pos = me.cap)
    (htotal : (produced io'.trace).length ≤ total)
    (h : CopyStep point me io (.goto point') me' io') :
    copyWork total point' me' io'.trace < copyWork total point me io.trace := by
  cases h with
  | skip hw =>
    have hweight : pointWeight me .loopHead = 3 := if_neg fun h => hw h.1
    simp only [copyWork, hweight, pointWeight_whileHead]
    omega
  | @fill _ _ _ bytes hw hr =>
    have hlen := Io.pollRead_length hr
    have hunsent : (me.fill bytes).unsent.length = me.unsent.length + bytes.length := by
      rw [CopyBuffer.unsent_fill hfits, List.length_append]
    have hprod : (produced io'.trace).length = (produced io.trace).length + bytes.length := by
      simp [Io.pollRead_trace hr, Event.produced]
    have hdone := @CopyBuffer.readDone_fill me bytes
    have hread : readWeight me = 5 := by rw [readWeight, hw.2]; rfl
    simp only [copyWork, hunsent, hprod, hread, pointWeight_whileHead]
    rw [hprod] at htotal
    by_cases hnil : bytes = []
    · have hread' : readWeight (me.fill bytes) = 0 := if_pos (hdone.mpr hnil)
      rw [hread', hnil, List.length_nil]
      omega
    · have hread' : readWeight (me.fill bytes) = 5 := if_neg fun h => hnil (hdone.mp h)
      have hpos := List.length_pos_iff.mpr hnil
      rw [hread']
      omega
  | readStall hw hr hne =>
    have hweight : pointWeight me .loopHead = 3 := if_neg fun h => hne h.2
    have hprod : produced io'.trace = produced io.trace := by
      simp [Io.pollRead_trace hr, Event.produced, Poll.bytes]
    simp only [copyWork, hweight, hprod, pointWeight_whileHead]
    omega
  | emptied hp =>
    simp only [copyWork, pointWeight_whileHead, pointWeight_afterWhile]
    omega
  | @write _ _ _ i hlt hs hi =>
    have hprod : produced io'.trace = produced io.trace := by
      simp [Io.pollWrite_trace hs, Event.produced]
    have hunsent : (me.advance i).unsent.length = me.unsent.length - i := by
      rw [CopyBuffer.unsent_advance, List.length_drop]
    have hle := Io.pollWrite_length hs
    have hread : readWeight (me.advance i) = readWeight me := rfl
    simp only [copyWork, hprod, hunsent, hread, pointWeight_whileHead]
    omega
  | again hd =>
    have hunsent := CopyBuffer.unsent_of_eq (hdrained rfl)
    have hweight : pointWeight me.reset .loopHead = 0 := if_pos ⟨⟨hroom, hd⟩, rfl⟩
    have hread : readWeight me.reset = readWeight me := rfl
    simp only [copyWork, hweight, hunsent, hread, CopyBuffer.unsent_reset,
      pointWeight_afterWhile]
    omega

end Measure

section Call
variable [AsyncRead R] [AsyncWrite W]
variable {here : Option (Poll (List UInt8))} {point point' : CopyPoint} {me me' : CopyBuffer}
  {trace trace' : List Event} {io io' : Io R W} {flow : CopyFlow}

def source (me : CopyBuffer) (io : Io R W) : Option R :=
  if me.readDone then none else some io.reader

def Supplies (a b : Option R) : Prop := ∃ s ∈ a, ∃ r ∈ b, Delivers r s

omit [AsyncRead R] [AsyncWrite W] in
theorem source_of_wantsRead (hw : me.WantsRead) : source me io = some io.reader := by
  rw [source, hw.2]
  rfl

/-- Inside a call a step gets bytes from the reader, or it leaves no more to get. -/
theorem supplies_of_step (h : CopyStep point me io (.goto point') me' io') :
    Supplies (source me' io') (source me io) ∨
      ((∀ x, Supplies x (source me' io') → Supplies x (source me io)) ∧
        produced io'.trace = produced io.trace) := by
  cases h with
  | skip hw => exact Or.inr ⟨fun x h => h, rfl⟩
  | emptied hp => exact Or.inr ⟨fun x h => h, rfl⟩
  | again hd => exact Or.inr ⟨fun x h => h, rfl⟩
  | @fill _ _ _ bytes hw hr =>
    rw [source_of_wantsRead hw]
    by_cases hnil : bytes = []
    · subst hnil
      have hended : source (me.fill []) io' = none := if_pos (CopyBuffer.readDone_fill.mpr rfl)
      refine Or.inr ⟨?_, ?_⟩
      · intro x h
        obtain ⟨s, _, r, hr, _⟩ := h
        rw [hended] at hr
        cases hr
      · simp [Io.pollRead_trace hr, Event.produced]
    · have hopen : source (me.fill bytes) io' = some io'.reader :=
        if_neg fun h => hnil (CopyBuffer.readDone_fill.mp h)
      rw [hopen]
      exact Or.inl ⟨_, rfl, _, rfl, .now (Io.pollRead_reader hr) hnil⟩
  | readStall hw hr hne =>
    rw [source_of_wantsRead hw, source_of_wantsRead hw]
    refine Or.inr ⟨?_, ?_⟩
    · intro x h
      obtain ⟨s, hs, r, hreader, hdelivers⟩ := h
      cases hreader
      exact ⟨s, hs, _, rfl, .later (Io.pollRead_reader hr) hdelivers⟩
    · simp [Io.pollRead_trace hr, Event.produced, Poll.bytes]
  | @write _ _ _ i hlt hs hi =>
    have hsource : source (me.advance i) io' = source me io := by
      unfold source
      rw [Io.pollWrite_reader hs]
      rfl
    rw [hsource]
    refine Or.inr ⟨fun x h => h, ?_⟩
    simp [Io.pollWrite_trace hs, Event.produced]

theorem acc_supplies {reader : R} (h : FiniteReader reader) :
    Acc Supplies (some reader) := by
  unfold FiniteReader at h
  induction h with
  | intro r _ ih =>
    refine Acc.intro _ ?_
    intro x hx
    obtain ⟨s, hs, r', hr', hdelivers⟩ := hx
    cases hr'
    cases hs
    exact ih s hdelivers

namespace CopyRun

def Running (c : CopyRun R W) : Prop := ∃ point, c.pc = .running point

def Returned (c : CopyRun R W) : Prop := ∃ result, c.pc = .returned result

structure InCall (c : CopyRun R W) : Prop where
  running : c.Running
  fits : c.me.Fits
  room : 0 < c.me.buf.length
  drained : c.pc.point = .afterWhile → c.me.pos = c.me.cap

variable {c : CopyRun R W}

/-- A step in a call returns, or it gets bytes from the reader, or there is less to do. -/
theorem exists_next_of_inCall (hc : c.InCall) :
    ∃ d, Guarded (Next next) Running c d ∧ (d.Returned ∨ d.InCall ∧
      (Supplies (source d.me d.io) (source c.me c.io) ∨
        (∀ x, Supplies x (source d.me d.io) → Supplies x (source c.me c.io)) ∧
          copyWork 0 d.pc.point d.me [] < copyWork 0 c.pc.point c.me [])) := by
  obtain ⟨pc, me, io⟩ := c
  obtain ⟨⟨point, hpc⟩, hfits, hroom, hdrained⟩ := hc
  dsimp only at hpc
  subst hpc
  rcases hstep : pollCopyStep point me io with ⟨flow, me', io'⟩
  have hnext : next ⟨.running point, me, io⟩ = some ⟨flow.toAt, me', io'⟩ := by
    simp only [next, hstep]
  have hcopy := copyStep_of_eq hfits hstep
  refine ⟨_, ⟨hnext, ⟨point, rfl⟩⟩, ?_⟩
  cases flow with
  | panic q => exact (not_panic_of_step hcopy rfl).elim
  | ret result => exact Or.inl ⟨result, rfl⟩
  | goto point' =>
    obtain ⟨hfits', hlength⟩ := fits_of_effect hfits (effect_of_step hfits hdrained hcopy)
    refine Or.inr ⟨⟨⟨point', rfl⟩, hfits', ?_, pos_eq_of_step hcopy⟩, ?_⟩
    · rw [hlength]
      exact hroom
    · rcases supplies_of_step hcopy with hsupplies | ⟨hlow, hprod⟩
      · exact Or.inl hsupplies
      · refine Or.inr ⟨hlow, ?_⟩
        have htotal : (produced io'.trace).length ≤ (produced io.trace).length :=
          Nat.le_of_eq (congrArg List.length hprod)
        have hlt := copyWork_lt hfits hroom hdrained htotal hcopy
        simp only [copyWork, hprod, CopyFlow.toAt, CopyAt.point] at hlt ⊢
        omega

theorem reach_returned (hc : c.InCall) (hfinite : FiniteReader c.io.reader) :
    ∃ d, Reach (Guarded (Next next) Running) c d ∧ d.Returned := by
  have hacc : Acc Supplies (source c.me c.io) := by
    unfold source
    split
    · refine Acc.intro _ ?_
      intro x hx
      obtain ⟨_, _, _, hnone, _⟩ := hx
      cases hnone
    · exact acc_supplies hfinite
  apply exists_reach_of_rank (P := InCall) (fun c => source c.me c.io)
    (fun c => copyWork 0 c.pc.point c.me [])
  · intro c hc
    exact exists_next_of_inCall hc
  · exact hacc
  · exact hc

/-- A buffer of no size goes round and round. -/
theorem pollCopyStep_new_zero (direction : Direction) (point : CopyPoint) (io : Io R W) :
    ∃ point', pollCopyStep point (.new 0 direction) io =
      (.goto point', .new 0 direction, io) := by
  cases point with
  | loopHead => exact ⟨.whileHead, rfl⟩
  | whileHead => exact ⟨.afterWhile, rfl⟩
  | afterWhile => exact ⟨.loopHead, rfl⟩

theorem spins_of_reach {direction : Direction} {reader : R} {writer : W}
    (h : Reach (Next next) (.start 0 direction reader writer) c) :
    c.Running ∧ c.me = .new 0 direction ∧ c.io = ⟨reader, writer, []⟩ := by
  induction h with
  | refl => exact ⟨⟨.loopHead, rfl⟩, rfl, rfl⟩
  | @tail a b _ hab ih =>
    obtain ⟨pc, me, io⟩ := a
    obtain ⟨⟨point, hpc⟩, hme, hio⟩ := ih
    dsimp only at hpc hme hio
    subst hpc hme hio
    obtain ⟨point', hstep⟩ := pollCopyStep_new_zero direction point
      (⟨reader, writer, []⟩ : Io R W)
    simp only [Next, next, hstep] at hab
    cases hab
    exact ⟨⟨point', rfl⟩, rfl, rfl⟩

end CopyRun

end Call

/-- On a buffer that is not empty every call of `poll_copy` returns, in whatever state earlier
calls have left the buffer, if the reader is finite. On an empty one it goes on for ever and
polls no stream. -/
theorem pollCopy_returns {R' : Type u} {W' : Type v} [AsyncRead R] [AsyncWrite W]
    [AsyncRead R'] [AsyncWrite W'] (direction : Direction) (reader₀ : R') (writer₀ : W')
    (reader : R) (writer : W) :
    (∀ bufSize : UInt64, 0 < bufSize.toNat → FiniteReader reader →
      ∀ c, Reach (Next CopyCalls.next) (.start bufSize direction reader₀ writer₀) c →
        ∃ d, Reach (Guarded (Next CopyRun.next) CopyRun.Running)
          ⟨.running .loopHead, c.run.me, ⟨reader, writer, []⟩⟩ d ∧ d.Returned) ∧
    ∀ d, Reach (Next CopyRun.next) (.start 0 direction reader writer) d →
      d.Running ∧ d.io.trace = [] ∧ ∃ e, d.next = some e := by
  refine ⟨?_, ?_⟩
  · intro bufSize hsize hfinite c hc
    obtain ⟨p, hp⟩ := (kept_of_reach hc).relays
    apply CopyRun.reach_returned _ hfinite
    refine ⟨⟨.loopHead, rfl⟩, hp.fits, ?_, fun h => nomatch h⟩
    rw [hp.room]
    exact hsize
  · intro d hd
    obtain ⟨⟨point, hpc⟩, hme, hio⟩ := CopyRun.spins_of_reach hd
    refine ⟨⟨point, hpc⟩, by rw [hio], ?_⟩
    simp only [CopyRun.next, hpc]
    exact ⟨_, rfl⟩

/-- One of two bytes is written, and then the writer is pending. -/
def halfDrained : CopyCalls Script Script :=
  runFor CopyCalls.next 4 (.start 3 .Request ⟨[.ok [72, 105]], [], [], []⟩ ⟨[], [.ok 1], [], []⟩)

theorem pollCopy_returns_halfDrained :
    ∃ d, Reach (Guarded (Next CopyRun.next) CopyRun.Running)
      ⟨.running .loopHead, halfDrained.run.me,
        ⟨(⟨[.ok [33], .ok []], [], [], []⟩ : Script),
          (⟨[], [.ok 2], [.ok ()], []⟩ : Script), []⟩⟩ d ∧ d.Returned :=
  (pollCopy_returns .Request _ _ _ _).1 3 (by decide) (Script.finiteReader _) halfDrained
    (reach_runFor _ 4 _)

end AppComponts
