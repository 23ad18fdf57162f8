import AppComponts.Bidirectional

/-!
# What crosses the tunnel

In every state of the two-way future each end has been given the bytes the other has handed
out, in their order, but for those in the buffer between them. A transfer that is past its
copying has passed on the whole stream, or a call of it has failed with `UnexpectedEof`.
-/

namespace AppComponts
open AsyncIo Rust Transition Utf8 Text
set_option autoImplicit false

universe u v
variable {R : Type u} {W : Type v} {A : Type u} {B : Type v}

def eventError : Event → Option IoError
  | .read (.err e) => some e
  | .write _ (.err e) => some e
  | .flush (.err e) => some e
  | .shutdown (.err e) => some e
  | _ => none

/-- A call on the streams, other than the shutdown, has failed with this kind of error. -/
def FailedWith (kind : ErrorKind) (trace : List Event) : Prop :=
  ∃ event ∈ trace, event.isShutdown = false ∧ ∃ e, eventError event = some e ∧ e.kind = kind

theorem FailedWith.append {kind : ErrorKind} {trace : List Event} (h : FailedWith kind trace)
    (es : List Event) : FailedWith kind (trace ++ es) := by
  obtain ⟨event, hmem, hevent⟩ := h
  exact ⟨event, List.mem_append_left _ hmem, hevent⟩

theorem failedWith_last {trace : List Event} {event : Event} {e : IoError}
    (hdown : event.isShutdown = false) (he : eventError event = some e) :
    FailedWith e.kind (trace ++ [event]) :=
  ⟨event, List.mem_append_right _ (List.mem_singleton_self _), hdown, e, he, rfl⟩

theorem failedWith_concat {kind : ErrorKind} {trace : List Event} {event : Event} :
    FailedWith kind (trace ++ [event]) ↔ FailedWith kind trace ∨
      (event.isShutdown = false ∧ ∃ e, eventError event = some e ∧ e.kind = kind) := by
  simp [FailedWith, or_and_right, exists_or]

theorem not_failedWith {kind : ErrorKind} {trace : List Event}
    (h : ∀ event ∈ trace, eventError event = none) : ¬ FailedWith kind trace := by
  intro hfailed
  obtain ⟨event, hmem, _, e, he, _⟩ := hfailed
  rw [h event hmem] at he
  cases he

/-- The stream has ended, and all of it has been taken and flushed. -/
structure WholeStream (trace : List Event) : Prop where
  ended : Event.eof ∈ trace
  taken : accepted trace = produced trace
  flushed : .flush (.ok ()) ∈ trace

/-- What a transfer with a buffer of `bound` bytes has passed on. -/
structure Side.PassedOn (bound : Nat) (side : Side) : Prop where
  ahead : ∃ held, held.length ≤ bound ∧ produced side.trace = accepted side.trace ++ held
  past : ∀ x, side.pc.text? = some x →
    WholeStream side.trace ∨ FailedWith .unexpectedEof side.trace
  closed : ∀ answer, .shutdown answer ∈ side.trace →
    WholeStream side.trace ∨ FailedWith .unexpectedEof side.trace

section Transfers
variable [AsyncRead R] [AsyncWrite W] {a b : Transfer R W} {bound : Nat}

/-- An error `poll_copy` returns comes from a call of this step, but for the zero write. -/
theorem failedWith_of_step {point : CopyPoint} {me me' : CopyBuffer} {io io' : Io R W}
    {e : IoError} (h : CopyStep point me io (.ret (.err e)) me' io')
    (hkind : e.kind ≠ .writeZero) : FailedWith e.kind io'.trace := by
  cases h with
  | readErr hw hr =>
    rw [Io.pollRead_trace hr]
    exact failedWith_last rfl rfl
  | idleFlushErr hw hr he hf hs =>
    rw [Io.pollFlush_trace hs]
    exact failedWith_last rfl rfl
  | writeZero hp hs => exact (hkind rfl).elim
  | writeErr hp hs =>
    rw [Io.pollWrite_trace hs]
    exact failedWith_last rfl rfl
  | topUpErr hp hs hw hr =>
    rw [Io.pollRead_trace hr]
    exact failedWith_last rfl rfl
  | finishErr hd hs =>
    rw [Io.pollFlush_trace hs]
    exact failedWith_last rfl rfl

theorem unfailed_of_step {point : CopyPoint} {me me' : CopyBuffer} {io io' : Io R W}
    {flow : CopyFlow} {kind : ErrorKind} (h : CopyStep point me io flow me' io')
    (hflow : ∀ e, flow ≠ .ret (.err e)) (hfailed : FailedWith kind io'.trace) :
    FailedWith kind io.trace := by
  cases h with
  | skip hw => exact hfailed
  | emptied hp => exact hfailed
  | again hd => exact hfailed
  | fill hw hr => simpa [Io.pollRead_trace hr, failedWith_concat, eventError] using hfailed
  | readStall hw hr hne =>
    simpa [Io.pollRead_trace hr, failedWith_concat, eventError] using hfailed
  | idle hw hr he hf =>
    simpa [Io.pollRead_trace hr, failedWith_concat, eventError] using hfailed
  | idleFlush hw hr he hf hs =>
    rw [Io.pollFlush_trace hs, failedWith_concat, Io.pollRead_trace hr, failedWith_concat]
      at hfailed
    simpa [eventError] using hfailed
  | idleFlushStall hw hr he hf hs =>
    rw [Io.pollFlush_trace hs, failedWith_concat, Io.pollRead_trace hr, failedWith_concat]
      at hfailed
    simpa [eventError] using hfailed
  | write hp hs hi => simpa [Io.pollWrite_trace hs, failedWith_concat, eventError] using hfailed
  | writeStall hp hs hw =>
    simpa [Io.pollWrite_trace hs, failedWith_concat, eventError] using hfailed
  | topUp hp hs hw hr =>
    rw [Io.pollRead_trace hr, failedWith_concat, Io.pollWrite_trace hs, failedWith_concat]
      at hfailed
    simpa [eventError] using hfailed
  | topUpStall hp hs hw hr =>
    rw [Io.pollRead_trace hr, failedWith_concat, Io.pollWrite_trace hs, failedWith_concat]
      at hfailed
    simpa [eventError] using hfailed
  | finish hd hs => simpa [Io.pollFlush_trace hs, failedWith_concat, eventError] using hfailed
  | finishStall hd hs =>
    simpa [Io.pollFlush_trace hs, failedWith_concat, eventError] using hfailed
  | _ => exact (hflow _ rfl).elim

theorem WholeStream.shutdown {trace : List Event} (h : WholeStream trace)
    (answer : Poll Unit) : WholeStream (trace ++ [.shutdown answer]) where
  ended := List.mem_append_left _ h.ended
  taken := by simpa [Event.accepted, Event.produced] using h.taken
  flushed := List.mem_append_left _ h.flushed

variable [CaseTables]

theorem passedOn_of_copy {point : CopyPoint} {buf buf' : CopyBuffer} {flow : CopyFlow}
    (hsound : a.Sound bound) (hclosing : a.side.Closing) (hpc : a.pc = .copying point buf)
    (hstep : CopyStep point buf a.io flow buf' b.io) (hb : b.pc = afterCopyStep buf' flow) :
    b.side.PassedOn bound := by
  obtain ⟨⟨p, hp⟩, hledger⟩ := hsound point buf (by rw [hpc]; rfl)
  have he := effect_of_step hp.fits hp.drained hstep
  obtain ⟨q, _, hq⟩ := relays_of_effect hp (pos_eq_of_step hstep) he
  refine ⟨⟨q.queue, q.bounded, ?_⟩, ?_, ?_⟩
  · rw [hq.queue]
    exact hq.conserved
  · intro x hx
    obtain ⟨count, rawData⟩ := x
    rw [Transfer.side, hb] at hx
    rcases text?_afterCopyStep hx with ⟨rfl, _⟩ | ⟨e, rfl, hkind, _⟩
    · obtain ⟨_, hdone, hreset, _, hflush⟩ := finish_of_step hstep
      have hsplit := hq.conserved
      rw [hreset, CopyBuffer.unsent_reset, List.append_nil] at hsplit
      have hended : buf'.readDone = true := by rw [hreset]; exact hdone
      refine Or.inl ⟨(ledger_of_effect hledger he).eof.mp hended, hsplit.symm, ?_⟩
      rw [Transfer.side, Io.pollFlush_trace hflush]
      exact List.mem_append_right _ (List.mem_singleton_self _)
    · refine Or.inr ?_
      rw [← hkind]
      apply failedWith_of_step hstep
      rw [hkind]
      intro h
      cases h
  · -- no writer is shut down while the copy runs
    intro answer hmem
    obtain ⟨es, hes, hno⟩ := he.not_shutdown
    have hopen := hclosing.running (point, buf) (by rw [Transfer.side, hpc]; rfl)
    rw [Transfer.side, hes] at hmem
    rcases List.mem_append.mp hmem with hold | hnew
    · cases hopen _ hold
    · cases hno _ hnew

theorem passedOn_of_next (hsound : a.Sound bound) (hclosing : a.side.Closing)
    (ha : a.side.PassedOn bound) (h : a.next = some b) : b.side.PassedOn bound := by
  cases transferStep_of_next (fun _ _ => hsound.fits) h with
  | copy hpc hstep hb => exact passedOn_of_copy hsound hclosing hpc hstep hb
  | call hpc hb hio =>
    have htrace : b.side.trace = a.side.trace := congrArg Io.trace hio
    refine ⟨?_, fun x hx => ?_, ?_⟩
    · rw [htrace]
      exact ha.ahead
    · have hnone := text?_of_copy? hb
      rw [Transfer.side, hnone] at hx
      cases hx
    · rw [htrace]
      exact ha.closed
  | keep hpc hb hio =>
    have htrace : b.side.trace = a.side.trace := congrArg Io.trace hio
    refine ⟨?_, fun x _ => ?_, ?_⟩
    · rw [htrace]
      exact ha.ahead
    · rw [htrace]
      exact ha.past _ hpc
    · rw [htrace]
      exact ha.closed
  | @shutdown count rawData answer hpc hb hio =>
    have htrace : b.side.trace = a.side.trace ++ [.shutdown answer] := hio
    have hpast := ha.past (count, rawData) (by rw [Transfer.side, hpc]; rfl)
    have hnow : WholeStream b.side.trace ∨ FailedWith .unexpectedEof b.side.trace := by
      rw [htrace]
      exact hpast.imp (fun h => h.shutdown answer) (fun h => h.append _)
    obtain ⟨held, hheld, hsplit⟩ := ha.ahead
    refine ⟨⟨held, hheld, ?_⟩, fun _ _ => hnow, fun _ _ => hnow⟩
    rw [htrace]
    simpa [Event.accepted, Event.produced] using hsplit

end Transfers

theorem passedOn_new (bufSize : UInt64) (direction : Direction) :
    Side.PassedOn bufSize.toNat ⟨.loopHead (.running (.new bufSize direction)), []⟩ where
  ahead := ⟨[], Nat.zero_le _, rfl⟩
  past _ h := nomatch h
  closed _ h := nomatch h

theorem text?_of_done {pc : TransferAt} {count : UInt64} {rawData : Str}
    (h : pc.state? = some (.done count rawData)) : pc.text? = some (count, rawData) := by
  cases pc with
  | loopHead state =>
    cases h
    rfl
  | copying point buf => cases h
  | returned state result =>
    cases h
    rfl
  | panicked p => cases h

def Direction.bufSize (aToBBufSize bToABufSize : UInt64) : Direction → UInt64
  | .Request => aToBBufSize
  | .Response => bToABufSize

section Tunnel
variable [CaseTables] [AsyncRead A] [AsyncWrite A] [AsyncRead B] [AsyncWrite B]

theorem passedOn_of_reach {a : A} {b : B} {aToBBufSize bToABufSize : UInt64}
    {s : Bidirectional A B}
    (h : Reach (Next Bidirectional.next)
      (copyBidirectionalWithSizes a b aToBBufSize bToABufSize) s) :
    s.aToB.PassedOn aToBBufSize.toNat ∧ s.bToA.PassedOn bToABufSize.toNat := by
  refine h.invariant_reached (P := fun s => s.aToB.PassedOn aToBBufSize.toNat ∧
    s.bToA.PassedOn bToABufSize.toNat) ?_ ⟨passedOn_new _ _, passedOn_new _ _⟩
  intro c d hc hpassed hcd
  obtain ⟨haToB, hbToA⟩ := Bidirectional.kept_of_reach hc
  have hboth := Bidirectional.sides_of_next
    (P := fun side => Bidirectional.Kept aToBBufSize.toNat side ∧
      side.PassedOn aToBBufSize.toNat)
    (Q := fun side => Bidirectional.Kept bToABufSize.toNat side ∧
      side.PassedOn bToABufSize.toNat)
    (fun t t' ht h => ⟨Bidirectional.kept_of_next ht.1 h,
      passedOn_of_next ht.1.sound ht.1.closing ht.2 h⟩)
    (fun t t' ht h => ⟨Bidirectional.kept_of_next ht.1 h,
      passedOn_of_next ht.1.sound ht.1.closing ht.2 h⟩)
    ⟨⟨haToB, hpassed.1⟩, hbToA, hpassed.2⟩ hcd
  exact ⟨hboth.1.2, hboth.2.2⟩

variable {a : A} {b : B} {aToBBufSize bToABufSize : UInt64} {s : Bidirectional A B}

theorem passedOn_side
    (h : Reach (Next Bidirectional.next)
      (copyBidirectionalWithSizes a b aToBBufSize bToABufSize) s) (direction : Direction) :
    (s.side direction).PassedOn (direction.bufSize aToBBufSize bToABufSize).toNat := by
  cases direction with
  | Request => exact (passedOn_of_reach h).1
  | Response => exact (passedOn_of_reach h).2

theorem text?_of_resolved
    (h : Reach (Next Bidirectional.next)
      (copyBidirectionalWithSizes a b aToBBufSize bToABufSize) s)
    {x y : Tally} (hpc : s.pc = .returned (.ok (x, y))) :
    s.aToB.pc.text? = some x ∧ s.bToA.pc.text? = some y := by
  have hreports : s.reports = [(.Request, .ok x), (.Response, .ok y)] := by
    have htold := (Bidirectional.told_of_reach h).told
    rw [hpc] at htold
    exact htold
  have hx : (Direction.Request, Poll.ok x) ∈ s.reports := by simp [hreports]
  have hy : (Direction.Response, Poll.ok y) ∈ s.reports := by simp [hreports]
  exact ⟨text?_of_done ((Bidirectional.done_of_reported h hx x).mp rfl),
    text?_of_done ((Bidirectional.done_of_reported h hy y).mp rfl)⟩

theorem wholeStream_of_resolved
    (h : Reach (Next Bidirectional.next)
      (copyBidirectionalWithSizes a b aToBBufSize bToABufSize) s)
    {x y : Tally} (hpc : s.pc = .returned (.ok (x, y))) (direction : Direction) :
    WholeStream (s.side direction).trace ∨
      FailedWith .unexpectedEof (s.side direction).trace := by
  obtain ⟨hx, hy⟩ := text?_of_resolved h hpc
  cases direction with
  | Request => exact (passedOn_side h .Request).past x hx
  | Response => exact (passedOn_side h .Response).past y hy

end Tunnel

end AppComponts
