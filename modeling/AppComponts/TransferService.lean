import AppComponts.Library.Serving
import AppComponts.TunnelPanics
import AppComponts.TunnelRelay

/-!
# Transfers in service

On two streams in service no call of a transfer fails, and each of its steps brings its end
nearer: a phase is over, bytes have come or gone, a stream has been pending once more, or
there is less of the way left to the next call.
-/

namespace AppComponts
open AsyncIo Rust Transition Text
set_option autoImplicit false

universe u v
variable {R : Type u} {W : Type v}

section Service
variable [AsyncRead R] [AsyncWrite R] [AsyncRead W] [AsyncWrite W]
  (sr : Serves R) (sw : Serves W)

structure Good (io : Io R W) : Prop where
  reader : sr.good io.reader
  writer : sw.good io.writer

def inputs (io : Io R W) : Nat := sr.input io.reader + sw.input io.writer

def patience (io : Io R W) : Nat := sr.patience io.reader + sw.patience io.writer

section Calls
variable {sr : Serves R} {sw : Serves W} {io io' : Io R W}

theorem read_in_service (hgood : Good sr sw io) {room : Nat} {answer : Poll (List UInt8)}
    (hroom : 0 < room) (h : io.pollRead room = (answer, io')) : Good sr sw io' ∧
      ((answer = .pending ∧ inputs sr sw io' ≤ inputs sr sw io ∧
          patience sr sw io' < patience sr sw io) ∨
        ∃ bytes, answer = .ok bytes ∧ (bytes = [] ∨ inputs sr sw io' < inputs sr sw io)) := by
  obtain ⟨hreader, hcases⟩ := sr.read hgood.reader hroom (Io.pollRead_reader h)
  have hwriter := Io.pollRead_writer h
  refine ⟨⟨hreader, hwriter ▸ hgood.writer⟩, ?_⟩
  simp only [inputs, patience, hwriter]
  rcases hcases with ⟨hpending, hinput, hlt⟩ | ⟨bytes, hok, hbytes⟩
  · exact Or.inl ⟨hpending, by omega, by omega⟩
  · exact Or.inr ⟨bytes, hok, hbytes.imp_right fun hlt => by omega⟩

theorem write_in_service (hgood : Good sr sw io) {slice : List UInt8} {answer : Poll Nat}
    (hslice : slice ≠ []) (h : io.pollWrite slice = (answer, io')) : Good sr sw io' ∧
      inputs sr sw io' ≤ inputs sr sw io ∧
      ((answer = .pending ∧ patience sr sw io' < patience sr sw io) ∨
        ∃ n, answer = .ok n ∧ 0 < n) := by
  obtain ⟨hwriter, hinput, hcases⟩ := sw.write hgood.writer hslice (Io.pollWrite_writer h)
  have hreader := Io.pollWrite_reader h
  refine ⟨⟨hreader ▸ hgood.reader, hwriter⟩, ?_⟩
  simp only [inputs, patience, hreader]
  refine ⟨by omega, ?_⟩
  rcases hcases with ⟨hpending, hlt⟩ | hok
  · exact Or.inl ⟨hpending, by omega⟩
  · exact Or.inr hok

theorem flush_in_service (hgood : Good sr sw io) {answer : Poll Unit}
    (h : io.pollFlush = (answer, io')) : Good sr sw io' ∧
      inputs sr sw io' ≤ inputs sr sw io ∧
      ((answer = .pending ∧ patience sr sw io' < patience sr sw io) ∨
        answer = .ok () ∧ patience sr sw io' ≤ patience sr sw io) := by
  obtain ⟨hcall, hreader⟩ := Io.pollFlush_ends h
  obtain ⟨hwriter, hinput, hcases⟩ := sw.flush hgood.writer hcall
  refine ⟨⟨hreader ▸ hgood.reader, hwriter⟩, ?_⟩
  simp only [inputs, patience, hreader]
  refine ⟨by omega, ?_⟩
  rcases hcases with ⟨hpending, hlt⟩ | ⟨hok, hle⟩
  · exact Or.inl ⟨hpending, by omega⟩
  · exact Or.inr ⟨hok, by omega⟩

theorem shutdown_in_service (hgood : Good sr sw io) {answer : Poll Unit}
    (h : io.pollShutdown = (answer, io')) : Good sr sw io' ∧
      inputs sr sw io' ≤ inputs sr sw io ∧
      ((answer = .pending ∧ patience sr sw io' < patience sr sw io) ∨ answer = .ok ()) := by
  obtain ⟨hcall, hreader⟩ := Io.pollShutdown_ends h
  obtain ⟨hwriter, hinput, hcases⟩ := sw.shutdown hgood.writer hcall
  refine ⟨⟨hreader ▸ hgood.reader, hwriter⟩, ?_⟩
  simp only [inputs, patience, hreader]
  refine ⟨by omega, ?_⟩
  rcases hcases with ⟨hpending, hlt⟩ | hok
  · exact Or.inl ⟨hpending, by omega⟩
  · exact Or.inr hok

end Calls

inductive CopyProgress (point : CopyPoint) (me : CopyBuffer) (io : Io R W) (flow : CopyFlow)
    (me' : CopyBuffer) (io' : Io R W) : Prop
  | ended (hdone : me.readDone = false) (hdone' : me'.readDone = true)
  | got (hdone : me'.readDone = me.readDone) (hlt : inputs sr sw io' < inputs sr sw io)
  | sent (hdone : me'.readDone = me.readDone) (hinputs : inputs sr sw io' ≤ inputs sr sw io)
      (hlt : me'.unsent.length < me.unsent.length)
  | waited (hdone : me'.readDone = me.readDone) (hinputs : inputs sr sw io' ≤ inputs sr sw io)
      (hunsent : me'.unsent = me.unsent) (hlt : patience sr sw io' < patience sr sw io)
  | went {point' : CopyPoint} (hflow : flow = .goto point')
      (hdone : me'.readDone = me.readDone) (hio : io' = io) (hunsent : me'.unsent = me.unsent)
      (hlt : pointWeight me' point' < pointWeight me point)
  | finished {count : UInt64} (hdone : me.readDone = true) (hflow : flow = .ret (.ok count))

variable {sr sw} {point : CopyPoint} {me me' : CopyBuffer} {io io' : Io R W} {flow : CopyFlow}

theorem progress_of_fill {bytes : List UInt8} (hw : me.WantsRead)
    (h : bytes = [] ∨ inputs sr sw io' < inputs sr sw io) :
    CopyProgress sr sw point me io flow (me.fill bytes) io' := by
  by_cases hnil : bytes = []
  · exact .ended hw.2 (CopyBuffer.readDone_fill.mpr hnil)
  · refine .got ?_ (h.resolve_left hnil)
    rw [hw.2, Bool.eq_false_iff]
    intro hdone
    exact hnil (CopyBuffer.readDone_fill.mp hdone)

theorem unsent_ne_nil (hfits : me.Fits) (hlt : me.pos < me.cap) : me.unsent ≠ [] := by
  intro hnil
  have hlen := CopyBuffer.unsent_length hfits
  rw [hnil, List.length_nil] at hlen
  omega

theorem copy_in_service (hfits : me.Fits) (hroom : 0 < me.buf.length)
    (hdrained : point = .afterWhile → me.pos = me.cap) (hgood : Good sr sw io)
    (h : CopyStep point me io flow me' io') :
    Good sr sw io' ∧ (∀ e, flow ≠ .ret (.err e)) ∧ CopyProgress sr sw point me io flow me' io' := by
  have hempty (hp : point = .afterWhile) : me.reset.unsent = me.unsent := by
    rw [CopyBuffer.unsent_reset, CopyBuffer.unsent_of_eq (hdrained hp)]
  have hfree (hw : me.WantsRead) : 0 < me.buf.length - me.cap := Nat.sub_pos_of_lt hw.1
  cases h with
  | skip hw =>
    have hweight : pointWeight me .loopHead = 3 := if_neg fun h => hw h.1
    refine ⟨hgood, by simp, .went rfl rfl rfl rfl ?_⟩
    rw [hweight]
    exact Nat.lt_succ_self 2
  | emptied hp =>
    exact ⟨hgood, by simp, .went rfl rfl rfl rfl (Nat.lt_succ_self 1)⟩
  | again hd =>
    have hweight : pointWeight me.reset .loopHead = 0 := if_pos ⟨⟨hroom, hd⟩, rfl⟩
    refine ⟨hgood, by simp, .went rfl rfl rfl (hempty rfl) ?_⟩
    rw [hweight]
    exact Nat.zero_lt_one
  | fill hw hr =>
    obtain ⟨hgood', hcases⟩ := read_in_service hgood (hfree hw) hr
    rcases hcases with ⟨hpending, _⟩ | ⟨bytes, hok, hbytes⟩
    · cases hpending
    · cases hok
      exact ⟨hgood', by simp, progress_of_fill hw hbytes⟩
  | readErr hw hr =>
    obtain ⟨_, ⟨hpending, _⟩ | ⟨_, hok, _⟩⟩ := read_in_service hgood (hfree hw) hr
    · cases hpending
    · cases hok
  | readStall hw hr hne =>
    obtain ⟨hgood', ⟨_, hinputs, hlt⟩ | ⟨_, hok, _⟩⟩ := read_in_service hgood (hfree hw) hr
    · exact ⟨hgood', by simp, .waited rfl hinputs rfl hlt⟩
    · cases hok
  | idle hw hr he hf =>
    obtain ⟨hgood', ⟨_, hinputs, hlt⟩ | ⟨_, hok, _⟩⟩ := read_in_service hgood (hfree hw) hr
    · exact ⟨hgood', by simp, .waited rfl hinputs rfl hlt⟩
    · cases hok
  | idleFlush hw hr he hf hs =>
    obtain ⟨hgood₁, ⟨_, hinputs₁, hlt₁⟩ | ⟨_, hok, _⟩⟩ := read_in_service hgood (hfree hw) hr
    · obtain ⟨hgood', hinputs, ⟨hpending, _⟩ | ⟨_, hle⟩⟩ := flush_in_service hgood₁ hs
      · cases hpending
      · exact ⟨hgood', by simp, .waited rfl (by omega) rfl (by omega)⟩
    · cases hok
  | idleFlushStall hw hr he hf hs =>
    obtain ⟨hgood₁, ⟨_, hinputs₁, hlt₁⟩ | ⟨_, hok, _⟩⟩ := read_in_service hgood (hfree hw) hr
    · obtain ⟨hgood', hinputs, ⟨_, hlt⟩ | ⟨hok, _⟩⟩ := flush_in_service hgood₁ hs
      · exact ⟨hgood', by simp, .waited rfl (by omega) rfl (by omega)⟩
      · cases hok
    · cases hok
  | idleFlushErr hw hr he hf hs =>
    obtain ⟨hgood₁, _⟩ := read_in_service hgood (hfree hw) hr
    obtain ⟨_, _, ⟨hpending, _⟩ | ⟨hok, _⟩⟩ := flush_in_service hgood₁ hs
    · cases hpending
    · cases hok
  | write hp hs hi =>
    obtain ⟨hgood', hinputs, _⟩ := write_in_service hgood (unsent_ne_nil hfits hp) hs
    refine ⟨hgood', by simp, .sent rfl hinputs ?_⟩
    have hle := Io.pollWrite_length hs
    rw [CopyBuffer.unsent_advance, List.length_drop]
    omega
  | writeZero hp hs =>
    obtain ⟨_, _, ⟨hpending, _⟩ | ⟨n, hok, hpos⟩⟩ :=
      write_in_service hgood (unsent_ne_nil hfits hp) hs
    · cases hpending
    · cases hok
      exact (Nat.lt_irrefl 0 hpos).elim
  | writeErr hp hs =>
    obtain ⟨_, _, ⟨hpending, _⟩ | ⟨_, hok, _⟩⟩ :=
      write_in_service hgood (unsent_ne_nil hfits hp) hs
    · cases hpending
    · cases hok
  | writeStall hp hs hw =>
    obtain ⟨hgood', hinputs, ⟨_, hlt⟩ | ⟨_, hok, _⟩⟩ :=
      write_in_service hgood (unsent_ne_nil hfits hp) hs
    · exact ⟨hgood', by simp, .waited rfl hinputs rfl hlt⟩
    · cases hok
  | topUp hp hs hw hr =>
    obtain ⟨hgood₁, hinputs₁, _⟩ := write_in_service hgood (unsent_ne_nil hfits hp) hs
    obtain ⟨hgood', ⟨hpending, _⟩ | ⟨bytes, hok, hbytes⟩⟩ :=
      read_in_service hgood₁ (hfree hw) hr
    · cases hpending
    · cases hok
      exact ⟨hgood', by simp, progress_of_fill hw (hbytes.imp_right fun hlt => by omega)⟩
  | topUpStall hp hs hw hr =>
    obtain ⟨hgood₁, hinputs₁, ⟨_, hlt₁⟩ | ⟨_, hok, _⟩⟩ :=
      write_in_service hgood (unsent_ne_nil hfits hp) hs
    · obtain ⟨hgood', ⟨_, hinputs, hlt⟩ | ⟨_, hok, _⟩⟩ :=
        read_in_service hgood₁ (hfree hw) hr
      · exact ⟨hgood', by simp, .waited rfl (by omega) rfl (by omega)⟩
      · cases hok
    · cases hok
  | topUpErr hp hs hw hr =>
    obtain ⟨hgood₁, _⟩ := write_in_service hgood (unsent_ne_nil hfits hp) hs
    obtain ⟨_, ⟨hpending, _⟩ | ⟨_, hok, _⟩⟩ := read_in_service hgood₁ (hfree hw) hr
    · cases hpending
    · cases hok
  | finish hd hs =>
    obtain ⟨hgood', _⟩ := flush_in_service hgood hs
    exact ⟨hgood', by simp, .finished hd rfl⟩
  | finishStall hd hs =>
    obtain ⟨hgood', hinputs, ⟨_, hlt⟩ | ⟨hok, _⟩⟩ := flush_in_service hgood hs
    · exact ⟨hgood', by simp, .waited rfl hinputs (hempty rfl) hlt⟩
    · cases hok
  | finishErr hd hs =>
    obtain ⟨_, _, ⟨hpending, _⟩ | ⟨hok, _⟩⟩ := flush_in_service hgood hs
    · cases hpending
    · cases hok

end Service

/-- How many of its phases a transfer has before it: reading, draining, shutting down. -/
def TransferAt.phase (pc : TransferAt) : Nat :=
  match pc.state? with
  | some (.running buf) => if buf.readDone then 2 else 3
  | some (.shuttingDown _ _) => 1
  | some (.done _ _) => 0
  | none => 0

def TransferAt.held (pc : TransferAt) : Nat :=
  match pc.copy? with
  | some (_, buf) => buf.unsent.length
  | none => 0

/-- The steps before the next call on a stream, or before the tally is returned. -/
def TransferAt.detour : TransferAt → Nat
  | .loopHead (.running buf) => pointWeight buf .loopHead + 1
  | .loopHead (.shuttingDown _ _) => 0
  | .loopHead (.done _ _) => 1
  | .copying point buf => pointWeight buf point
  | .returned (.running buf) _ => pointWeight buf .loopHead + 2
  | .returned (.shuttingDown _ _) _ => 1
  | .returned (.done _ _) _ => 2
  | .panicked _ => 0

section Places
variable {pc : TransferAt} {count : UInt64} {rawData : Str} {result : Poll Tally}

@[simp] theorem phase_loopHead_done : (TransferAt.loopHead (.done count rawData)).phase = 0 := rfl

@[simp] theorem phase_returned_done :
    (TransferAt.returned (.done count rawData) result).phase = 0 := rfl

@[simp] theorem held_loopHead_done : (TransferAt.loopHead (.done count rawData)).held = 0 := rfl

@[simp] theorem held_returned_done :
    (TransferAt.returned (.done count rawData) result).held = 0 := rfl

@[simp] theorem detour_loopHead_done :
    (TransferAt.loopHead (.done count rawData)).detour = 1 := rfl

@[simp] theorem detour_returned_done :
    (TransferAt.returned (.done count rawData) result).detour = 2 := rfl

theorem state?_of_copy? {x : CopyPoint × CopyBuffer} (h : pc.copy? = some x) :
    pc.state? = some (.running x.2) := by
  cases pc with
  | loopHead state =>
    cases state with
    | running buf =>
      cases h
      rfl
    | shuttingDown count rawData => cases h
    | done count rawData => cases h
  | copying point buf =>
    cases h
    rfl
  | returned state result =>
    cases state with
    | running buf =>
      cases h
      rfl
    | shuttingDown count rawData => cases h
    | done count rawData => cases h
  | panicked p => cases h

theorem phase_of_copy? {x : CopyPoint × CopyBuffer} (h : pc.copy? = some x) :
    pc.phase = if x.2.readDone then 2 else 3 := by
  simp only [TransferAt.phase, state?_of_copy? h]

theorem held_of_copy? {x : CopyPoint × CopyBuffer} (h : pc.copy? = some x) :
    pc.held = x.2.unsent.length := by
  simp only [TransferAt.held, h]

end Places

section Transfers
variable [AsyncRead R] [AsyncWrite R] [AsyncRead W] [AsyncWrite W]
  (sr : Serves R) (sw : Serves W)

inductive TransferProgress (a b : Transfer R W) : Prop
  | phase (hlt : b.pc.phase < a.pc.phase)
  | got (hphase : b.pc.phase = a.pc.phase) (hlt : inputs sr sw b.io < inputs sr sw a.io)
  | sent (hphase : b.pc.phase = a.pc.phase) (hinputs : inputs sr sw b.io ≤ inputs sr sw a.io)
      (hlt : b.pc.held < a.pc.held)
  | waited (hphase : b.pc.phase = a.pc.phase)
      (hinputs : inputs sr sw b.io ≤ inputs sr sw a.io) (hheld : b.pc.held = a.pc.held)
      (hlt : patience sr sw b.io < patience sr sw a.io)
  | went (hphase : b.pc.phase = a.pc.phase) (hio : b.io = a.io) (hheld : b.pc.held = a.pc.held)
      (hlt : b.pc.detour < a.pc.detour) (hinside : ¬ b.Returned)
  | told {count : UInt64} {rawData : Str} (hio : b.io = a.io)
      (hpc : a.pc = .loopHead (.done count rawData))
      (hpc' : b.pc = .returned (.done count rawData) (.ok (count, rawData)))

structure ServedStep (a b : Transfer R W) : Prop where
  good : Good sr sw b.io
  noError : ∀ state e, b.pc ≠ .returned state (.err e)
  unfailed : ∀ kind, FailedWith kind b.io.trace → FailedWith kind a.io.trace
  progress : TransferProgress sr sw a b

variable {sr sw} {a b : Transfer R W} {bound : Nat}

theorem progress_of_copy {point point' : CopyPoint} {buf buf' : CopyBuffer} {flow : CopyFlow}
    (h : CopyProgress sr sw point buf a.io flow buf' b.io) (hpc : a.pc = .copying point buf)
    (hpc' : b.pc.copy? = some (point', buf'))
    (hwent : ∀ q, flow = .goto q → b.pc = .copying q buf')
    (hret : ∀ count, flow ≠ .ret (.ok count)) : TransferProgress sr sw a b := by
  have hcopy : a.pc.copy? = some (point, buf) := congrArg TransferAt.copy? hpc
  have hphase (hdone : buf'.readDone = buf.readDone) : b.pc.phase = a.pc.phase := by
    rw [phase_of_copy? hcopy, phase_of_copy? hpc', hdone]
  have hheld (hunsent : buf'.unsent = buf.unsent) : b.pc.held = a.pc.held := by
    rw [held_of_copy? hcopy, held_of_copy? hpc', hunsent]
  cases h with
  | ended hdone hdone' =>
    refine .phase ?_
    rw [phase_of_copy? hcopy, phase_of_copy? hpc', hdone, hdone']
    exact Nat.lt_succ_self 2
  | got hdone hlt => exact .got (hphase hdone) hlt
  | sent hdone hinputs hlt =>
    refine .sent (hphase hdone) hinputs ?_
    rw [held_of_copy? hcopy, held_of_copy? hpc']
    exact hlt
  | waited hdone hinputs hunsent hlt => exact .waited (hphase hdone) hinputs (hheld hunsent) hlt
  | @went q hflow hdone hio hunsent hlt =>
    have hb := hwent q hflow
    refine .went (hphase hdone) hio (hheld hunsent) ?_ ?_
    · rw [hpc, hb]
      exact hlt
    · intro hreturned
      obtain ⟨state, result, hreturned⟩ := hreturned
      rw [hb] at hreturned
      cases hreturned
  | finished hdone hflow => exact (hret _ hflow).elim

variable [CaseTables]

theorem copying_in_service {point : CopyPoint} {buf : CopyBuffer} (hbound : 0 < bound)
    (hsound : a.Sound bound) (hcap : a.Capturable) (hgood : Good sr sw a.io)
    (hpc : a.pc = .copying point buf) (h : a.next = some b) : ServedStep sr sw a b := by
  obtain ⟨⟨p, hp⟩, _⟩ := hsound point buf (by rw [hpc]; rfl)
  rcases hcall : pollCopyStep point buf a.io with ⟨flow, buf', io'⟩
  obtain rfl : ⟨afterCopyStep buf' flow, io'⟩ = b := by
    simp only [Transfer.next, hpc, hcall] at h
    exact Option.some.inj h
  have hstep := copyStep_of_eq hp.fits hcall
  obtain ⟨hgood', hnone, hprogress⟩ :=
    copy_in_service hp.fits (hp.room ▸ hbound) hp.drained hgood hstep
  have hunfailed := fun kind => @unfailed_of_step _ _ _ _ _ _ _ _ _ _ kind hstep hnone
  cases flow with
  | goto point' =>
    refine ⟨hgood', by rintro _ _ ⟨⟩, hunfailed, ?_⟩
    have hpc' : (TransferAt.copying point' buf').copy? = some (point', buf') := rfl
    apply progress_of_copy hprogress hpc hpc'
    · intro q hq
      cases hq
      rfl
    · intro count hcount
      cases hcount
  | panic q => exact (not_panic_of_step hstep rfl).elim
  | ret result =>
    cases result with
    | pending =>
      refine ⟨hgood', by rintro _ _ ⟨⟩, hunfailed, ?_⟩
      have hpc' : (TransferAt.returned (.running buf') .pending).copy? =
          some (.loopHead, buf') := rfl
      apply progress_of_copy hprogress hpc hpc'
      · intro q hq
        cases hq
      · intro count hcount
        cases hcount
    | err e => exact (hnone e rfl).elim
    | ok count =>
      obtain ⟨rfl, hdone, rfl, rfl, hflush⟩ := finish_of_step hstep
      obtain ⟨s, hs⟩ := capturable_iff.mp (hcap buf hpc hdone (by rw [hflush]))
      have hb : afterCopyStep buf.reset (.ret (.ok buf.amt)) =
          .loopHead (.shuttingDown buf.amt s) := by
        simp only [afterCopyStep, afterPollCopy, hs]
      rw [hb]
      refine ⟨hgood', by rintro _ _ ⟨⟩, hunfailed, .phase ?_⟩
      rw [phase_of_copy? (congrArg TransferAt.copy? hpc), if_pos hdone]
      exact Nat.one_lt_two

omit [AsyncWrite R] [AsyncRead W] in
/-- Where no text can be captured, the transfer panics. -/
theorem transfer_panics (hsound : a.Sound bound) (hcap : ¬ a.Capturable) :
    ∃ b p, a.next = some b ∧ b.pc = .panicked p := by
  apply Classical.byContradiction
  intro hno
  refine hcap ?_
  intro buf hpc hdone hflush
  obtain ⟨⟨p, hp⟩, _⟩ := hsound _ _ (by rw [hpc]; rfl)
  rcases hans : a.io.pollFlush with ⟨answer, io'⟩
  rw [hans] at hflush
  subst hflush
  have hreset : buf.reset.readDone = true := hdone
  have hnext : a.next = some ⟨afterPollCopy buf.reset (.ok buf.amt), io'⟩ := by
    simp only [Transfer.next, hpc, pollCopyStep, if_pos hp.fits.1, hreset, if_true, hans]
    rfl
  rw [capturable_iff]
  cases hcaptured : captured buf.reset buf.amt with
  | ok s => exact ⟨s, rfl⟩
  | error q => exact (hno ⟨_, q, hnext, by simp only [afterPollCopy, hcaptured]⟩).elim

/-- On streams in service a transfer does not fail, and each step brings its end nearer. -/
theorem transfer_in_service (hbound : 0 < bound) (hsound : a.Sound bound)
    (hcap : a.Capturable) (hgood : Good sr sw a.io) (h : a.next = some b) :
    ServedStep sr sw a b := by
  obtain ⟨pc, io⟩ := a
  cases pc with
  | copying point buf => exact copying_in_service hbound hsound hcap hgood rfl h
  | loopHead state =>
    cases state with
    | running buf =>
      obtain rfl := Option.some.inj h
      refine ⟨hgood, by rintro _ _ ⟨⟩, fun _ h => h,
        .went rfl rfl rfl (Nat.lt_succ_self _) ?_⟩
      intro hreturned
      obtain ⟨_, _, hreturned⟩ := hreturned
      cases hreturned
    | shuttingDown count rawData =>
      rcases hcall : io.pollShutdown with ⟨answer, io'⟩
      obtain rfl : ⟨afterPollShutdown count rawData answer, io'⟩ = b := by
        simp only [Transfer.next, hcall] at h
        exact Option.some.inj h
      have hunfailed : ∀ kind, FailedWith kind io'.trace → FailedWith kind io.trace := by
        intro kind hfailed
        simpa [Io.pollShutdown_trace hcall, failedWith_concat, Event.isShutdown] using hfailed
      obtain ⟨hgood', hinputs, ⟨rfl, hlt⟩ | rfl⟩ := shutdown_in_service hgood hcall
      · exact ⟨hgood', by rintro _ _ ⟨⟩, hunfailed, .waited rfl hinputs rfl hlt⟩
      · exact ⟨hgood', by rintro _ _ ⟨⟩, hunfailed, .phase Nat.zero_lt_one⟩
    | done count rawData =>
      obtain rfl := Option.some.inj h
      exact ⟨hgood, by rintro _ _ ⟨⟩, fun _ h => h, .told rfl rfl rfl⟩
  | returned state result =>
    obtain rfl := Option.some.inj h
    have hinside : ¬ Transfer.Returned (⟨.loopHead state, io⟩ : Transfer R W) := by
      intro hreturned
      obtain ⟨_, _, hreturned⟩ := hreturned
      cases hreturned
    refine ⟨hgood, by rintro _ _ ⟨⟩, fun _ h => h, ?_⟩
    cases state with
    | running buf => exact .went rfl rfl rfl (Nat.lt_succ_self _) hinside
    | shuttingDown count rawData => exact .went rfl rfl rfl Nat.zero_lt_one hinside
    | done count rawData => exact .went rfl rfl rfl (Nat.lt_succ_self 1) hinside
  | panicked p => cases h

end Transfers

end AppComponts
