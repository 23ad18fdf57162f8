import AppComponts.Library.AsyncIo
import AppComponts.Library.Panics

/-!
# The copy buffer

`CopyBuffer` of `backend/proxy/copy.rs`. `poll_copy` is cut at the heads of its two loops
and behind the inner one: `pollCopyStep` runs from one of these points to the next, or to
the return. The cooperative budget is compiled out of the crate. `amt` wraps at `2 ^ 64`,
as release builds do.
-/

namespace AppComponts
open AsyncIo Rust
set_option autoImplicit false

universe u v
variable {R : Type u} {W : Type v}

inductive Direction where
  | Request
  | Response
  deriving DecidableEq, Repr

structure CopyBuffer where
  readDone : Bool
  needFlush : Bool
  pos : Nat
  cap : Nat
  amt : UInt64
  buf : List UInt8
  direction : Direction
  deriving DecidableEq, Repr

namespace CopyBuffer

/-- `CopyBuffer::new`; a buffer size is a `usize`. -/
def new (bufSize : UInt64) (direction : Direction) : CopyBuffer where
  readDone := false
  needFlush := false
  pos := 0
  cap := 0
  amt := 0
  buf := List.replicate bufSize.toNat 0
  direction := direction

/-- The buffer after a read has appended `bytes` to its first `cap` bytes. -/
def fill (me : CopyBuffer) (bytes : List UInt8) : CopyBuffer :=
  let filledLen := me.cap + bytes.length
  { me with
    buf := me.buf.take me.cap ++ bytes ++ me.buf.drop filledLen
    readDone := me.cap == filledLen
    cap := filledLen }

def advance (me : CopyBuffer) (i : Nat) : CopyBuffer :=
  { me with pos := me.pos + i, amt := me.amt + i.toUInt64, needFlush := true }

def reset (me : CopyBuffer) : CopyBuffer := { me with pos := 0, cap := 0 }

def WantsRead (me : CopyBuffer) : Prop := me.cap < me.buf.length ∧ me.readDone = false

instance (me : CopyBuffer) : Decidable me.WantsRead := inferInstanceAs (Decidable (_ ∧ _))

/-- The bytes read but not yet written. -/
def unsent (me : CopyBuffer) : List UInt8 := (me.buf.take me.cap).drop me.pos

/-- `ReadBuf::set_filled` asserts that `cap` lies within the buffer. -/
def pollFillBuf [AsyncRead R] (me : CopyBuffer) (io : Io R W) :
    Except Panic (Poll Unit) × CopyBuffer × Io R W :=
  if me.cap ≤ me.buf.length then
    match io.pollRead (me.buf.length - me.cap) with
    | (.ok bytes, io) => (.ok (.ok ()), me.fill bytes, io)
    | (.err e, io) => (.ok (.err e), me, io)
    | (.pending, io) => (.ok .pending, me, io)
  else (.error .assertionFailed, me, io)

def pollWriteBuf [AsyncRead R] [AsyncWrite W] (me : CopyBuffer) (io : Io R W) :
    Except Panic (Poll Nat) × CopyBuffer × Io R W :=
  match sliceRange me.buf me.pos me.cap with
  | .error p => (.error p, me, io)
  | .ok slice =>
    match io.pollWrite slice with
    | (.pending, io) =>
      if me.WantsRead then
        match me.pollFillBuf io with
        | (.error p, me, io) => (.error p, me, io)
        | (.ok .pending, me, io) => (.ok .pending, me, io)
        | (.ok (.err e), me, io) => (.ok (.err e), me, io)
        | (.ok (.ok ()), me, io) => (.ok .pending, me, io)
      else (.ok .pending, me, io)
    | (res, io) => (.ok res, me, io)

end CopyBuffer

inductive CopyPoint where
  | loopHead
  | whileHead
  | afterWhile
  deriving DecidableEq, Repr

inductive CopyFlow where
  | goto (point : CopyPoint)
  | ret (result : Poll UInt64)
  | panic (p : Panic)
  deriving DecidableEq, Repr

section PollCopy
variable [AsyncRead R] [AsyncWrite W]

def pollCopyStep (point : CopyPoint) (me : CopyBuffer) (io : Io R W) :
    CopyFlow × CopyBuffer × Io R W :=
  match point with
  | .loopHead =>
    if me.WantsRead then
      match me.pollFillBuf io with
      | (.error p, me, io) => (.panic p, me, io)
      | (.ok (.ok ()), me, io) => (.goto .whileHead, me, io)
      | (.ok (.err e), me, io) => (.ret (.err e), me, io)
      | (.ok .pending, me, io) =>
        if me.pos = me.cap then
          if me.needFlush then
            match io.pollFlush with
            | (.pending, io) => (.ret .pending, me, io)
            | (.err e, io) => (.ret (.err e), me, io)
            | (.ok (), io) => (.ret .pending, { me with needFlush := false }, io)
          else (.ret .pending, me, io)
        else (.goto .whileHead, me, io)
    else (.goto .whileHead, me, io)
  | .whileHead =>
    if me.pos < me.cap then
      match me.pollWriteBuf io with
      | (.error p, me, io) => (.panic p, me, io)
      | (.ok .pending, me, io) => (.ret .pending, me, io)
      | (.ok (.err e), me, io) => (.ret (.err e), me, io)
      | (.ok (.ok i), me, io) =>
        if i = 0 then (.ret (.err ⟨.writeZero, "write zero byte into writer"⟩), me, io)
        else (.goto .whileHead, me.advance i, io)
    else (.goto .afterWhile, me, io)
  | .afterWhile =>
    if me.pos ≤ me.cap then
      let me := me.reset
      if me.readDone then
        match io.pollFlush with
        | (.pending, io) => (.ret .pending, me, io)
        | (.err e, io) => (.ret (.err e), me, io)
        | (.ok (), io) => (.ret (.ok me.amt), me, io)
      else (.goto .loopHead, me, io)
    else (.panic .assertionFailed, me, io)

/-- Where a task that polls `poll_copy` again and again stands. -/
inductive CopyAt where
  | running (point : CopyPoint)
  | returned (result : Poll UInt64)
  | panicked (p : Panic)
  deriving DecidableEq, Repr

/-- The point the task goes on from; a new call starts at the head. -/
def CopyAt.point : CopyAt → CopyPoint
  | .running point => point
  | _ => .loopHead

def CopyFlow.toAt : CopyFlow → CopyAt
  | .goto point => .running point
  | .ret result => .returned result
  | .panic p => .panicked p

structure CopyRun (R : Type u) (W : Type v) where
  pc : CopyAt
  me : CopyBuffer
  io : Io R W

def CopyRun.start (bufSize : UInt64) (direction : Direction) (reader : R) (writer : W) :
    CopyRun R W := ⟨.running .loopHead, .new bufSize direction, ⟨reader, writer, []⟩⟩

def CopyRun.next (c : CopyRun R W) : Option (CopyRun R W) :=
  match c.pc with
  | .running point =>
    let (flow, me, io) := pollCopyStep point c.me c.io
    some ⟨flow.toAt, me, io⟩
  | .returned .pending => some { c with pc := .running .loopHead }
  | .returned _ => none
  | .panicked _ => none

def CopyBuffer.Fits (me : CopyBuffer) : Prop := me.pos ≤ me.cap ∧ me.cap ≤ me.buf.length

inductive CopyStep : CopyPoint → CopyBuffer → Io R W → CopyFlow → CopyBuffer → Io R W → Prop
  | skip {me : CopyBuffer} {io : Io R W} (hw : ¬ me.WantsRead) :
      CopyStep .loopHead me io (.goto .whileHead) me io
  | fill {me : CopyBuffer} {io io' : Io R W} {bytes : List UInt8} (hw : me.WantsRead)
      (hr : io.pollRead (me.buf.length - me.cap) = (.ok bytes, io')) :
      CopyStep .loopHead me io (.goto .whileHead) (me.fill bytes) io'
  | readErr {me : CopyBuffer} {io io' : Io R W} {e : IoError} (hw : me.WantsRead)
      (hr : io.pollRead (me.buf.length - me.cap) = (.err e, io')) :
      CopyStep .loopHead me io (.ret (.err e)) me io'
  | readStall {me : CopyBuffer} {io io' : Io R W} (hw : me.WantsRead)
      (hr : io.pollRead (me.buf.length - me.cap) = (.pending, io')) (hne : me.pos ≠ me.cap) :
      CopyStep .loopHead me io (.goto .whileHead) me io'
  | idle {me : CopyBuffer} {io io' : Io R W} (hw : me.WantsRead)
      (hr : io.pollRead (me.buf.length - me.cap) = (.pending, io')) (he : me.pos = me.cap)
      (hf : me.needFlush = false) : CopyStep .loopHead me io (.ret .pending) me io'
  | idleFlush {me : CopyBuffer} {io io₁ io' : Io R W} (hw : me.WantsRead)
      (hr : io.pollRead (me.buf.length - me.cap) = (.pending, io₁)) (he : me.pos = me.cap)
      (hf : me.needFlush = true) (hs : io₁.pollFlush = (.ok (), io')) :
      CopyStep .loopHead me io (.ret .pending) { me with needFlush := false } io'
  | idleFlushStall {me : CopyBuffer} {io io₁ io' : Io R W} (hw : me.WantsRead)
      (hr : io.pollRead (me.buf.length - me.cap) = (.pending, io₁)) (he : me.pos = me.cap)
      (hf : me.needFlush = true) (hs : io₁.pollFlush = (.pending, io')) :
      CopyStep .loopHead me io (.ret .pending) me io'
  | idleFlushErr {me : CopyBuffer} {io io₁ io' : Io R W} {e : IoError} (hw : me.WantsRead)
      (hr : io.pollRead (me.buf.length - me.cap) = (.pending, io₁)) (he : me.pos = me.cap)
      (hf : me.needFlush = true) (hs : io₁.pollFlush = (.err e, io')) :
      CopyStep .loopHead me io (.ret (.err e)) me io'
  | emptied {me : CopyBuffer} {io : Io R W} (hp : me.pos = me.cap) :
      CopyStep .whileHead me io (.goto .afterWhile) me io
  | write {me : CopyBuffer} {io io' : Io R W} {i : Nat} (hp : me.pos < me.cap)
      (hs : io.pollWrite me.unsent = (.ok i, io')) (hi : 0 < i) :
      CopyStep .whileHead me io (.goto .whileHead) (me.advance i) io'
  | writeZero {me : CopyBuffer} {io io' : Io R W} (hp : me.pos < me.cap)
      (hs : io.pollWrite me.unsent = (.ok 0, io')) :
      CopyStep .whileHead me io
        (.ret (.err ⟨.writeZero, "write zero byte into writer"⟩)) me io'
  | writeErr {me : CopyBuffer} {io io' : Io R W} {e : IoError} (hp : me.pos < me.cap)
      (hs : io.pollWrite me.unsent = (.err e, io')) :
      CopyStep .whileHead me io (.ret (.err e)) me io'
  | writeStall {me : CopyBuffer} {io io' : Io R W} (hp : me.pos < me.cap)
      (hs : io.pollWrite me.unsent = (.pending, io')) (hw : ¬ me.WantsRead) :
      CopyStep .whileHead me io (.ret .pending) me io'
  | topUp {me : CopyBuffer} {io io₁ io' : Io R W} {bytes : List UInt8} (hp : me.pos < me.cap)
      (hs : io.pollWrite me.unsent = (.pending, io₁)) (hw : me.WantsRead)
      (hr : io₁.pollRead (me.buf.length - me.cap) = (.ok bytes, io')) :
      CopyStep .whileHead me io (.ret .pending) (me.fill bytes) io'
  | topUpStall {me : CopyBuffer} {io io₁ io' : Io R W} (hp : me.pos < me.cap)
      (hs : io.pollWrite me.unsent = (.pending, io₁)) (hw : me.WantsRead)
      (hr : io₁.pollRead (me.buf.length - me.cap) = (.pending, io')) :
      CopyStep .whileHead me io (.ret .pending) me io'
  | topUpErr {me : CopyBuffer} {io io₁ io' : Io R W} {e : IoError} (hp : me.pos < me.cap)
      (hs : io.pollWrite me.unsent = (.pending, io₁)) (hw : me.WantsRead)
      (hr : io₁.pollRead (me.buf.length - me.cap) = (.err e, io')) :
      CopyStep .whileHead me io (.ret (.err e)) me io'
  | again {me : CopyBuffer} {io : Io R W} (hd : me.readDone = false) :
      CopyStep .afterWhile me io (.goto .loopHead) me.reset io
  | finish {me : CopyBuffer} {io io' : Io R W} (hd : me.readDone = true)
      (hs : io.pollFlush = (.ok (), io')) :
      CopyStep .afterWhile me io (.ret (.ok me.amt)) me.reset io'
  | finishStall {me : CopyBuffer} {io io' : Io R W} (hd : me.readDone = true)
      (hs : io.pollFlush = (.pending, io')) :
      CopyStep .afterWhile me io (.ret .pending) me.reset io'
  | finishErr {me : CopyBuffer} {io io' : Io R W} {e : IoError} (hd : me.readDone = true)
      (hs : io.pollFlush = (.err e, io')) :
      CopyStep .afterWhile me io (.ret (.err e)) me.reset io'

def readHere (point : CopyPoint) (me : CopyBuffer) (io : Io R W) : Option (Poll (List UInt8)) :=
  match point with
  | .loopHead => if me.WantsRead then some (io.pollRead (me.buf.length - me.cap)).1 else none
  | .whileHead =>
    if me.pos < me.cap then
      match io.pollWrite me.unsent with
      | (.pending, io) =>
        if me.WantsRead then some (io.pollRead (me.buf.length - me.cap)).1 else none
      | _ => none
    else none
  | .afterWhile => none

def writeHere (point : CopyPoint) (me : CopyBuffer) (io : Io R W) : Option (Poll Nat) :=
  match point with
  | .whileHead => if me.pos < me.cap then some (io.pollWrite me.unsent).1 else none
  | _ => none

variable {point : CopyPoint} {me me' : CopyBuffer} {io io' : Io R W} {flow : CopyFlow}

theorem copyStep_loopHead (hfits : me.Fits)
    (h : pollCopyStep .loopHead me io = (flow, me', io')) :
    CopyStep .loopHead me io flow me' io' := by
  simp only [pollCopyStep, CopyBuffer.pollFillBuf, if_pos hfits.2] at h
  by_cases hw : me.WantsRead
  · rw [if_pos hw] at h
    rcases hr : io.pollRead (me.buf.length - me.cap) with ⟨answer, io₁⟩
    rw [hr] at h
    cases answer with
    | ok bytes =>
      cases h
      exact .fill hw hr
    | err e =>
      cases h
      exact .readErr hw hr
    | pending =>
      dsimp only at h
      by_cases he : me.pos = me.cap
      · rw [if_pos he] at h
        cases hf : me.needFlush with
        | false =>
          simp only [hf] at h
          cases h
          exact .idle hw hr he hf
        | true =>
          simp only [hf, if_true] at h
          rcases hs : io₁.pollFlush with ⟨answer, io₂⟩
          rw [hs] at h
          cases answer with
          | ok value =>
            cases h
            exact .idleFlush hw hr he hf hs
          | err e =>
            cases h
            exact .idleFlushErr hw hr he hf hs
          | pending =>
            cases h
            exact .idleFlushStall hw hr he hf hs
      · rw [if_neg he] at h
        cases h
        exact .readStall hw hr he
  · rw [if_neg hw] at h
    cases h
    exact .skip hw

theorem sliceRange_unsent (hfits : me.Fits) :
    sliceRange me.buf me.pos me.cap = .ok me.unsent := sliceRange_of_le me.buf hfits.1 hfits.2

theorem copyStep_whileHead (hfits : me.Fits)
    (h : pollCopyStep .whileHead me io = (flow, me', io')) :
    CopyStep .whileHead me io flow me' io' := by
  simp only [pollCopyStep, CopyBuffer.pollWriteBuf, CopyBuffer.pollFillBuf, if_pos hfits.2,
    sliceRange_unsent hfits] at h
  by_cases hp : me.pos < me.cap
  · rw [if_pos hp] at h
    rcases hs : io.pollWrite me.unsent with ⟨answer, io₁⟩
    rw [hs] at h
    cases answer with
    | ok i =>
      dsimp only at h
      by_cases hi : i = 0
      · rw [if_pos hi] at h
        subst i
        cases h
        exact .writeZero hp hs
      · rw [if_neg hi] at h
        cases h
        exact .write hp hs (Nat.pos_of_ne_zero hi)
    | err e =>
      cases h
      exact .writeErr hp hs
    | pending =>
      dsimp only at h
      by_cases hw : me.WantsRead
      · rw [if_pos hw] at h
        rcases hr : io₁.pollRead (me.buf.length - me.cap) with ⟨answer, io₂⟩
        rw [hr] at h
        cases answer with
        | ok bytes =>
          cases h
          exact .topUp hp hs hw hr
        | err e =>
          cases h
          exact .topUpErr hp hs hw hr
        | pending =>
          cases h
          exact .topUpStall hp hs hw hr
      · rw [if_neg hw] at h
        cases h
        exact .writeStall hp hs hw
  · rw [if_neg hp] at h
    cases h
    have hle := hfits.1
    exact .emptied (by omega)

theorem copyStep_afterWhile (hfits : me.Fits)
    (h : pollCopyStep .afterWhile me io = (flow, me', io')) :
    CopyStep .afterWhile me io flow me' io' := by
  have hdone : me.reset.readDone = me.readDone := rfl
  simp only [pollCopyStep, if_pos hfits.1, hdone] at h
  cases hd : me.readDone with
  | false =>
    simp only [hd] at h
    cases h
    exact .again hd
  | true =>
    simp only [hd, if_true] at h
    rcases hs : io.pollFlush with ⟨answer, io₁⟩
    rw [hs] at h
    cases answer with
    | ok value =>
      cases h
      exact .finish hd hs
    | err e =>
      cases h
      exact .finishErr hd hs
    | pending =>
      cases h
      exact .finishStall hd hs

/-- From indices that fit, no slice or assertion of `poll_copy` panics, and a step is one
of the listed ones. -/
theorem copyStep_of_eq (hfits : me.Fits) (h : pollCopyStep point me io = (flow, me', io')) :
    CopyStep point me io flow me' io' := by
  cases point with
  | loopHead => exact copyStep_loopHead hfits h
  | whileHead => exact copyStep_whileHead hfits h
  | afterWhile => exact copyStep_afterWhile hfits h

theorem step_of_readHere_err {e : IoError} (hfits : me.Fits)
    (h : readHere point me io = some (.err e)) :
    ∃ io', pollCopyStep point me io = (.ret (.err e), me, io') := by
  cases point with
  | loopHead =>
    by_cases hw : me.WantsRead
    · rw [readHere, if_pos hw] at h
      rcases hr : io.pollRead (me.buf.length - me.cap) with ⟨answer, io'⟩
      rw [hr] at h
      cases h
      refine ⟨io', ?_⟩
      simp only [pollCopyStep, CopyBuffer.pollFillBuf, if_pos hw, if_pos hfits.2, hr]
    · rw [readHere, if_neg hw] at h
      cases h
  | whileHead =>
    by_cases hp : me.pos < me.cap
    · rw [readHere, if_pos hp] at h
      rcases hs : io.pollWrite me.unsent with ⟨answer, io₁⟩
      rw [hs] at h
      cases answer with
      | pending =>
        by_cases hw : me.WantsRead
        · simp only [if_pos hw] at h
          rcases hr : io₁.pollRead (me.buf.length - me.cap) with ⟨answer, io'⟩
          rw [hr] at h
          cases h
          refine ⟨io', ?_⟩
          simp only [pollCopyStep, CopyBuffer.pollWriteBuf, CopyBuffer.pollFillBuf, if_pos hp,
            if_pos hw, if_pos hfits.2, sliceRange_unsent hfits, hs, hr]
        · simp only [if_neg hw] at h
          cases h
      | ok i => cases h
      | err e => cases h
    · rw [readHere, if_neg hp] at h
      cases h
  | afterWhile => cases h

theorem step_of_writeHere_err {e : IoError} (hfits : me.Fits)
    (h : writeHere point me io = some (.err e)) :
    ∃ io', pollCopyStep point me io = (.ret (.err e), me, io') := by
  cases point with
  | loopHead => cases h
  | whileHead =>
    by_cases hp : me.pos < me.cap
    · rw [writeHere, if_pos hp] at h
      rcases hs : io.pollWrite me.unsent with ⟨answer, io'⟩
      rw [hs] at h
      cases h
      refine ⟨io', ?_⟩
      simp only [pollCopyStep, CopyBuffer.pollWriteBuf, if_pos hp, sliceRange_unsent hfits, hs]
    · rw [writeHere, if_neg hp] at h
      cases h
  | afterWhile => cases h

theorem err_of_step {e : IoError} (h : CopyStep point me io (.ret (.err e)) me' io') :
    e.kind = .writeZero ∨ me'.pos = me'.cap ∨
    (me' = me ∧
      (readHere point me io = some (.err e) ∨ writeHere point me io = some (.err e))) := by
  cases h with
  | readErr hw hr =>
    refine Or.inr (Or.inr ⟨rfl, Or.inl ?_⟩)
    rw [readHere, if_pos hw, hr]
  | idleFlushErr hw hr he hf hs => exact Or.inr (Or.inl he)
  | writeZero hp hs => exact Or.inl rfl
  | writeErr hp hs =>
    refine Or.inr (Or.inr ⟨rfl, Or.inr ?_⟩)
    rw [writeHere, if_pos hp, hs]
  | topUpErr hp hs hw hr =>
    refine Or.inr (Or.inr ⟨rfl, Or.inl ?_⟩)
    simp only [readHere, if_pos hp, if_pos hw, hs, hr]
  | finishErr hd hs => exact Or.inr (Or.inl rfl)

theorem not_panic_of_step {p : Panic} (h : CopyStep point me io flow me' io') :
    flow ≠ .panic p := by
  cases h <;> exact fun h => nomatch h

theorem pos_eq_of_step (h : CopyStep point me io flow me' io') :
    flow.toAt.point = .afterWhile → me'.pos = me'.cap := by
  cases h with
  | emptied hp => exact fun _ => hp
  | _ => exact fun h => CopyPoint.noConfusion h

theorem direction_of_step (h : CopyStep point me io flow me' io') :
    me'.direction = me.direction := by
  cases h <;> rfl

theorem next_cases {a b : CopyRun R W} (hfits : a.me.Fits) (h : a.next = some b) :
    (∃ point flow, a.pc = .running point ∧ CopyStep point a.me a.io flow b.me b.io ∧
      b.pc = flow.toAt) ∨
    (a.pc = .returned .pending ∧ b.pc = .running .loopHead ∧ b.me = a.me ∧ b.io = a.io) := by
  obtain ⟨pc, me, io⟩ := a
  cases pc with
  | running point =>
    obtain rfl := Option.some.inj h
    exact Or.inl ⟨point, _, rfl, copyStep_of_eq hfits rfl, rfl⟩
  | returned result =>
    cases result with
    | pending =>
      obtain rfl := Option.some.inj h
      exact Or.inr ⟨rfl, rfl, rfl, rfl⟩
    | ok k => cases h
    | err e => cases h
  | panicked p => cases h

end PollCopy

end AppComponts
