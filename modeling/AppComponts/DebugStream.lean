import AppComponts.CopyRelay
import AppComponts.Library.Utf8
import AppComponts.Prelude

/-!
# One direction of the tunnel

`transfer_one_direction` of `backend/proxy/debug_stream.rs`: copy until the stream ends, cut
the captured text out of the buffer, shut the writer down. `usize` has 64 bits.
-/

namespace AppComponts
open AsyncIo Rust Transition Utf8 Text
set_option autoImplicit false

universe u v
variable {R : Type u} {W : Type v}

inductive TransferState where
  | running (buf : CopyBuffer)
  | shuttingDown (count : UInt64) (rawData : Str)
  | done (count : UInt64) (rawData : Str)
  deriving DecidableEq, Repr

/-- Where a task that polls `transfer_one_direction` again and again stands. -/
inductive TransferAt where
  | loopHead (state : TransferState)
  | copying (point : CopyPoint) (buf : CopyBuffer)
  | returned (state : TransferState) (result : Poll (UInt64 × Str))
  | panicked (p : Panic)
  deriving DecidableEq, Repr

structure Transfer (R : Type u) (W : Type v) where
  pc : TransferAt
  io : Io R W
  deriving DecidableEq

section Model
variable [CaseTables]

/-- The text of a finished copy, `&buf.buf[..count as usize]`. -/
def captured (buf : CopyBuffer) (count : UInt64) : Except Panic Str := do
  let slice ← sliceRange buf.buf 0 count.toNat
  let rawData ← orPanic .unwrapErr (fromUtf8 slice)
  match buf.direction with
  | .Request =>
    let req ← Request.fromString rawData
    let _ ← unwrap req
  | .Response =>
    let slice ← sliceRange buf.buf 0 count.toNat
    let _ ← orPanic .unwrapErr (fromUtf8 slice)
  return rawData

/-- The `Running` arm from the result of `poll_copy` on. -/
def afterPollCopy (buf : CopyBuffer) : Poll UInt64 → TransferAt
  | .pending => .returned (.running buf) .pending
  | .err e =>
    if e.kind = .unexpectedEof then
      match fromUtf8 buf.buf with
      | some rawData => .loopHead (.shuttingDown (encode rawData).length.toUInt64 rawData)
      | none => .returned (.running buf) (.err e)
    else .returned (.running buf) (.err e)
  | .ok count =>
    match captured buf count with
    | .ok rawData => .loopHead (.shuttingDown count rawData)
    | .error p => .panicked p

def afterCopyStep (buf : CopyBuffer) : CopyFlow → TransferAt
  | .goto point => .copying point buf
  | .ret result => afterPollCopy buf result
  | .panic p => .panicked p

def afterPollShutdown (count : UInt64) (rawData : Str) : Poll Unit → TransferAt
  | .pending => .returned (.shuttingDown count rawData) .pending
  | .ok () => .loopHead (.done count rawData)
  | .err e =>
    if e.kind = .unexpectedEof then .loopHead (.done count rawData)
    else .returned (.shuttingDown count rawData) (.err e)

variable [AsyncRead R] [AsyncWrite W]

def Transfer.next (t : Transfer R W) : Option (Transfer R W) :=
  match t.pc with
  | .loopHead (.running buf) => some { t with pc := .copying .loopHead buf }
  | .loopHead (.shuttingDown count rawData) =>
    let (answer, io) := t.io.pollShutdown
    some ⟨afterPollShutdown count rawData answer, io⟩
  | .loopHead (.done count rawData) =>
    some { t with pc := .returned (.done count rawData) (.ok (count, rawData)) }
  | .copying point buf =>
    let (flow, buf, io) := pollCopyStep point buf t.io
    some ⟨afterCopyStep buf flow, io⟩
  | .returned state _ => some { t with pc := .loopHead state }
  | .panicked _ => none

end Model

def Transfer.start (bufSize : UInt64) (direction : Direction) (reader : R) (writer : W) :
    Transfer R W :=
  ⟨.loopHead (.running (.new bufSize direction)), ⟨reader, writer, []⟩⟩

def TransferAt.copy? : TransferAt → Option (CopyPoint × CopyBuffer)
  | .loopHead (.running buf) => some (.loopHead, buf)
  | .copying point buf => some (point, buf)
  | .returned (.running buf) _ => some (.loopHead, buf)
  | _ => none

def TransferAt.text? : TransferAt → Option (UInt64 × Str)
  | .loopHead (.shuttingDown count rawData) => some (count, rawData)
  | .loopHead (.done count rawData) => some (count, rawData)
  | .returned (.shuttingDown count rawData) _ => some (count, rawData)
  | .returned (.done count rawData) _ => some (count, rawData)
  | _ => none

theorem text?_of_copy? {pc : TransferAt} {x : CopyPoint × CopyBuffer} (h : pc.copy? = some x) :
    pc.text? = none := by
  cases pc with
  | loopHead state => cases state <;> first | rfl | cases h
  | returned state result => cases state <;> first | rfl | cases h
  | _ => rfl

section After
variable {count : UInt64} {rawData : Str}

@[simp] theorem copy?_afterPollShutdown (answer : Poll Unit) :
    (afterPollShutdown count rawData answer).copy? = none := by
  cases answer with
  | err e =>
    simp only [afterPollShutdown]
    split <;> rfl
  | _ => rfl

@[simp] theorem text?_afterPollShutdown (answer : Poll Unit) :
    (afterPollShutdown count rawData answer).text? = some (count, rawData) := by
  cases answer with
  | err e =>
    simp only [afterPollShutdown]
    split <;> rfl
  | _ => rfl

variable [CaseTables] {buf me : CopyBuffer} {point : CopyPoint} {flow : CopyFlow}

inductive AfterCopy (buf : CopyBuffer) : CopyFlow → TransferAt → Prop
  | goes {point : CopyPoint} : AfterCopy buf (.goto point) (.copying point buf)
  | panics {p : Panic} : AfterCopy buf (.panic p) (.panicked p)
  | waits : AfterCopy buf (.ret .pending) (.returned (.running buf) .pending)
  | finishes {count : UInt64} {rawData : Str} (hcaptured : captured buf count = .ok rawData) :
      AfterCopy buf (.ret (.ok count)) (.loopHead (.shuttingDown count rawData))
  | uncaptured {count : UInt64} {p : Panic} (hcaptured : captured buf count = .error p) :
      AfterCopy buf (.ret (.ok count)) (.panicked p)
  | brokenOff {e : IoError} {rawData : Str} (hkind : e.kind = .unexpectedEof)
      (htext : fromUtf8 buf.buf = some rawData) :
      AfterCopy buf (.ret (.err e))
        (.loopHead (.shuttingDown (encode rawData).length.toUInt64 rawData))
  | fails {e : IoError} : AfterCopy buf (.ret (.err e)) (.returned (.running buf) (.err e))

theorem afterCopy_of_step (buf : CopyBuffer) (flow : CopyFlow) :
    AfterCopy buf flow (afterCopyStep buf flow) := by
  cases flow with
  | goto point => exact .goes
  | panic p => exact .panics
  | ret result =>
    cases result with
    | pending => exact .waits
    | ok count =>
      simp only [afterCopyStep, afterPollCopy]
      split
      · rename_i hcaptured
        exact .finishes hcaptured
      · rename_i hcaptured
        exact .uncaptured hcaptured
    | err e =>
      simp only [afterCopyStep, afterPollCopy]
      split
      · rename_i hkind
        split
        · rename_i htext
          exact .brokenOff hkind htext
        · exact .fails
      · exact .fails

theorem copy?_afterCopyStep (h : (afterCopyStep buf flow).copy? = some (point, me)) :
    point = flow.toAt.point ∧ me = buf := by
  have hafter := afterCopy_of_step buf flow
  generalize afterCopyStep buf flow = pc at h hafter
  cases hafter with
  | goes =>
    cases h
    exact ⟨rfl, rfl⟩
  | waits =>
    cases h
    exact ⟨rfl, rfl⟩
  | fails =>
    cases h
    exact ⟨rfl, rfl⟩
  | _ => cases h

/-- The capture succeeds when the counted bytes lie in the buffer and are text, and in the
request direction also a request. -/
theorem captured_eq_ok_iff : captured buf count = .ok rawData ↔
    count.toNat ≤ buf.buf.length ∧ buf.buf.take count.toNat = encode rawData ∧
    (buf.direction = .Request → ∃ r, Request.fromString rawData = .ok (some r)) := by
  unfold captured
  constructor
  · intro h
    obtain ⟨slice, hslice, h⟩ := bind_eq_ok.mp h
    obtain ⟨_, hle, rfl⟩ := sliceRange_eq_ok.mp hslice
    obtain ⟨text, htext, h⟩ := bind_eq_ok.mp h
    rw [List.drop_zero, orPanic_eq_ok, fromUtf8_eq_some_iff] at htext
    cases hdir : buf.direction with
    | Request =>
      simp only [hdir] at h
      obtain ⟨req, hreq, h⟩ := bind_eq_ok.mp h
      obtain ⟨r, hr, h⟩ := bind_eq_ok.mp h
      cases h
      rw [unwrap_eq_ok.mp hr] at hreq
      exact ⟨hle, htext, fun _ => ⟨r, hreq⟩⟩
    | Response =>
      simp only [hdir] at h
      obtain ⟨_, _, h⟩ := bind_eq_ok.mp h
      obtain ⟨_, _, h⟩ := bind_eq_ok.mp h
      cases h
      exact ⟨hle, htext, fun h => nomatch h⟩
  · intro h
    obtain ⟨hle, htext, hreq⟩ := h
    have hslice := sliceRange_of_le buf.buf (Nat.zero_le count.toNat) hle
    rw [List.drop_zero, htext] at hslice
    refine bind_eq_ok.mpr ⟨_, hslice, bind_eq_ok.mpr ⟨rawData, ?_, ?_⟩⟩
    · rw [fromUtf8_encode, orPanic_some]
    · cases hdir : buf.direction with
      | Request =>
        obtain ⟨r, hr⟩ := hreq hdir
        exact bind_eq_ok.mpr ⟨some r, hr, rfl⟩
      | Response =>
        refine bind_eq_ok.mpr ⟨_, hslice, bind_eq_ok.mpr ⟨rawData, ?_, rfl⟩⟩
        rw [fromUtf8_encode, orPanic_some]

/-- The text comes from a finished copy, or from the whole buffer when a stream has ended
unexpectedly. -/
theorem text?_afterCopyStep (h : (afterCopyStep buf flow).text? = some (count, rawData)) :
    (flow = .ret (.ok count) ∧ captured buf count = .ok rawData) ∨
    (∃ e, flow = .ret (.err e) ∧ e.kind = .unexpectedEof ∧ fromUtf8 buf.buf = some rawData ∧
      count = (encode rawData).length.toUInt64) := by
  have hafter := afterCopy_of_step buf flow
  generalize afterCopyStep buf flow = pc at h hafter
  cases hafter with
  | finishes hcaptured =>
    cases h
    exact Or.inl ⟨rfl, hcaptured⟩
  | @brokenOff e text hkind htext =>
    cases h
    exact Or.inr ⟨e, rfl, hkind, htext, rfl⟩
  | _ => cases h

end After

def Transfer.Sound (bound : Nat) (t : Transfer R W) : Prop :=
  ∀ point buf, t.pc.copy? = some (point, buf) →
    (∃ p : Pipe UInt8 bound, Relays point buf t.io.trace p) ∧ Ledger buf t.io.trace

theorem Transfer.Sound.fits {bound : Nat} {t : Transfer R W} (h : t.Sound bound)
    {point : CopyPoint} {buf : CopyBuffer} (hpc : t.pc.copy? = some (point, buf)) :
    buf.Fits := by
  obtain ⟨⟨p, hp⟩, _⟩ := h point buf hpc
  exact hp.fits

section Steps
variable [CaseTables] [AsyncRead R] [AsyncWrite W] {a b : Transfer R W}

inductive TransferStep (a b : Transfer R W) : Prop
  | copy {point : CopyPoint} {buf buf' : CopyBuffer} {flow : CopyFlow}
      (ha : a.pc = .copying point buf) (hstep : CopyStep point buf a.io flow buf' b.io)
      (hb : b.pc = afterCopyStep buf' flow)
  | call {x : CopyPoint × CopyBuffer} (ha : a.pc.copy? = some x) (hb : b.pc.copy? = some x)
      (hio : b.io = a.io)
  | keep {x : UInt64 × Str} (ha : a.pc.text? = some x) (hb : b.pc.text? = some x)
      (hio : b.io = a.io)
  | shutdown {count : UInt64} {rawData : Str} {answer : Poll Unit}
      (ha : a.pc = .loopHead (.shuttingDown count rawData))
      (hb : b.pc = afterPollShutdown count rawData answer)
      (hio : b.io.trace = a.io.trace ++ [.shutdown answer])

theorem transferStep_of_next (hfits : ∀ point buf, a.pc.copy? = some (point, buf) → buf.Fits)
    (h : a.next = some b) : TransferStep a b := by
  obtain ⟨pc, io⟩ := a
  cases pc with
  | loopHead state =>
    cases state with
    | running buf =>
      obtain rfl := Option.some.inj h
      exact .call rfl rfl rfl
    | shuttingDown count rawData =>
      obtain rfl := Option.some.inj h
      exact .shutdown rfl rfl rfl
    | done count rawData =>
      obtain rfl := Option.some.inj h
      exact .keep rfl rfl rfl
  | copying point buf =>
    obtain rfl := Option.some.inj h
    exact .copy rfl (copyStep_of_eq (hfits _ _ rfl) rfl) rfl
  | returned state result =>
    obtain rfl := Option.some.inj h
    cases state with
    | running buf => exact .call rfl rfl rfl
    | shuttingDown count rawData => exact .keep rfl rfl rfl
    | done count rawData => exact .keep rfl rfl rfl
  | panicked p => cases h

theorem transfer_sound_of_next {bound : Nat} (ha : a.Sound bound) (h : a.next = some b) :
    b.Sound bound := by
  intro point buf hpc
  cases transferStep_of_next (fun _ _ => ha.fits) h with
  | @copy point₀ buf₀ buf' flow hapc hstep hb =>
    obtain ⟨⟨p, hp⟩, hledger⟩ := ha point₀ buf₀ (by rw [hapc]; rfl)
    have he := effect_of_step hp.fits hp.drained hstep
    obtain ⟨q, _, hq⟩ := relays_of_effect hp (pos_eq_of_step hstep) he
    rw [hb] at hpc
    obtain ⟨rfl, rfl⟩ := copy?_afterCopyStep hpc
    exact ⟨⟨q, hq⟩, ledger_of_effect hledger he⟩
  | call hapc hb hio =>
    rw [hio]
    exact ha point buf (by rw [hapc, ← hb, hpc])
  | keep hapc hb hio =>
    rw [text?_of_copy? hpc] at hb
    cases hb
  | shutdown hapc hb hio =>
    rw [hb, copy?_afterPollShutdown] at hpc
    cases hpc

variable {bufSize : UInt64} {direction : Direction} {reader : R} {writer : W}
  {t : Transfer R W}

theorem transfer_sound_of_reach
    (h : Reach (Next Transfer.next) (.start bufSize direction reader writer) t) :
    t.Sound bufSize.toNat := by
  refine h.invariant (fun _ _ => transfer_sound_of_next) ?_
  intro point buf hpc
  cases hpc
  exact ⟨⟨.empty, relays_new bufSize direction⟩, ledger_new bufSize direction⟩

end Steps

end AppComponts
