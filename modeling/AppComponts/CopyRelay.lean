import AppComponts.Copy
import AppComponts.Library.Pipe

/-!
# The copy loop is a pipe

A step of `poll_copy` appends bytes to the buffer, or hands bytes to the writer, or moves
none; so a run of it refines a run of a bounded pipe, and relays the stream unchanged.
-/

namespace AppComponts
open AsyncIo Rust Transition
set_option autoImplicit false

universe u v
variable {R : Type u} {W : Type v}

namespace CopyBuffer
variable {me : CopyBuffer} {bytes : List UInt8} {i : Nat}

theorem unsent_length (h : me.Fits) : me.unsent.length = me.cap - me.pos := by
  have hle := h.2
  simp [unsent]
  omega

theorem unsent_of_eq (h : me.pos = me.cap) : me.unsent = [] := by
  unfold unsent
  rw [List.drop_eq_nil_iff, List.length_take]
  omega

@[simp] theorem unsent_reset (me : CopyBuffer) : me.reset.unsent = [] := by
  simp [reset, unsent]

@[simp] theorem unsent_advance (me : CopyBuffer) (i : Nat) :
    (me.advance i).unsent = me.unsent.drop i := by
  simp [advance, unsent, List.drop_drop]

theorem buf_fill_length (h : me.Fits) (hb : bytes.length ≤ me.buf.length - me.cap) :
    (me.fill bytes).buf.length = me.buf.length := by
  have hle := h.2
  simp only [fill, List.length_append, List.length_take, List.length_drop]
  omega

theorem unsent_fill (h : me.Fits) : (me.fill bytes).unsent = me.unsent ++ bytes := by
  have hle := h.1
  have htake : (me.buf.take me.cap).length = me.cap := by
    rw [List.length_take]
    exact Nat.min_eq_left h.2
  have hlen : (me.buf.take me.cap ++ bytes).length = me.cap + bytes.length := by
    rw [List.length_append, htake]
  have hcap : ((me.buf.take me.cap ++ bytes) ++ me.buf.drop (me.cap + bytes.length)).take
      (me.cap + bytes.length) = me.buf.take me.cap ++ bytes := by
    rw [← hlen]
    exact List.take_left
  unfold unsent
  simp only [fill, hcap]
  exact List.drop_append_of_le_length (by omega)

theorem fits_fill (h : me.Fits) (hb : bytes.length ≤ me.buf.length - me.cap) :
    (me.fill bytes).Fits := by
  have hle := h.1
  have hlen := buf_fill_length h hb
  refine ⟨?_, ?_⟩
  · simp only [fill]
    omega
  · rw [hlen]
    have hc := h.2
    simp only [fill]
    omega

theorem fits_advance (h : me.Fits) (hi : i ≤ me.unsent.length) : (me.advance i).Fits := by
  rw [unsent_length h] at hi
  have hle := h.1
  refine ⟨?_, h.2⟩
  simp only [advance]
  omega

theorem fits_reset (me : CopyBuffer) : me.reset.Fits := ⟨Nat.le_refl _, Nat.zero_le _⟩

theorem readDone_fill : (me.fill bytes).readDone = true ↔ bytes = [] := by
  simp only [fill, beq_iff_eq, ← List.length_eq_zero_iff]
  omega

end CopyBuffer

/-- A call that moves no byte and ends neither stream. -/
structure Silent (e : Event) : Prop where
  produced : e.produced = []
  accepted : e.accepted = []
  ne_eof : e ≠ Event.eof
  not_shutdown : e.isShutdown = false

@[simp] theorem silent_read_pending : Silent (.read .pending) :=
  ⟨rfl, rfl, fun h => (nomatch h), rfl⟩

@[simp] theorem silent_read_err (e : IoError) : Silent (.read (.err e)) :=
  ⟨rfl, rfl, fun h => (nomatch h), rfl⟩

@[simp] theorem silent_write_pending (slice : List UInt8) : Silent (.write slice .pending) :=
  ⟨rfl, rfl, fun h => (nomatch h), rfl⟩

@[simp] theorem silent_write_err (slice : List UInt8) (e : IoError) :
    Silent (.write slice (.err e)) := ⟨rfl, rfl, fun h => (nomatch h), rfl⟩

@[simp] theorem silent_write_zero (slice : List UInt8) : Silent (.write slice (.ok 0)) :=
  ⟨rfl, rfl, fun h => (nomatch h), rfl⟩

@[simp] theorem silent_flush (answer : Poll Unit) : Silent (.flush answer) :=
  ⟨rfl, rfl, fun h => (nomatch h), rfl⟩

/-- What a step does to the buffer and the history; `here` is the answer to its read. -/
inductive CopyEffect (here : Option (Poll (List UInt8))) (me : CopyBuffer)
    (trace : List Event) : CopyBuffer → List Event → Prop
  | fill {bytes : List UInt8} {pre : List Event} (hhere : here = some (.ok bytes))
      (hw : me.WantsRead)
      (hlen : bytes.length ≤ me.buf.length - me.cap)
      (hpre : ∀ e ∈ pre, Silent e) :
      CopyEffect here me trace (me.fill bytes) (trace ++ pre ++ [.read (.ok bytes)])
  | write {i : Nat} (hi : i ≤ me.unsent.length) :
      CopyEffect here me trace (me.advance i) (trace ++ [.write me.unsent (.ok i)])
  | still {me' : CopyBuffer} {es : List Event} (hes : ∀ e ∈ es, Silent e)
      (hread : ∀ e ∈ es, e.isRead = true → me.WantsRead) (hfits : me'.Fits)
      (hunsent : me'.unsent = me.unsent) (hbuf : me'.buf = me.buf)
      (hdone : me'.readDone = me.readDone) (hamt : me'.amt = me.amt) :
      CopyEffect here me trace me' (trace ++ es)

section Effect
variable {here : Option (Poll (List UInt8))}

theorem CopyEffect.same {me : CopyBuffer} {trace es : List Event} (hfits : me.Fits)
    (hes : ∀ e ∈ es, Silent e) (hread : ∀ e ∈ es, e.isRead = true → me.WantsRead) :
    CopyEffect here me trace me (trace ++ es) :=
  .still hes hread hfits rfl rfl rfl rfl

theorem CopyEffect.unmoved {me me' : CopyBuffer} {trace : List Event} (hfits : me'.Fits)
    (hunsent : me'.unsent = me.unsent) (hbuf : me'.buf = me.buf)
    (hdone : me'.readDone = me.readDone) (hamt : me'.amt = me.amt) :
    CopyEffect here me trace me' trace := by
  have h := @CopyEffect.still here me trace me' [] (by simp) (by simp) hfits hunsent hbuf hdone hamt
  rwa [List.append_nil] at h

theorem CopyEffect.not_shutdown {me me' : CopyBuffer} {trace trace' : List Event}
    (h : CopyEffect here me trace me' trace') :
    ∃ es, trace' = trace ++ es ∧ ∀ e ∈ es, e.isShutdown = false := by
  cases h with
  | @fill bytes pre hhere hw hlen hpre =>
    refine ⟨pre ++ [.read (.ok bytes)], List.append_assoc _ _ _, ?_⟩
    intro e he
    rcases List.mem_append.mp he with he | he
    · exact (hpre e he).not_shutdown
    · rw [List.mem_singleton.mp he]
      rfl
  | @write i hi => exact ⟨_, rfl, by simp [Event.isShutdown]⟩
  | still hes => exact ⟨_, rfl, fun e he => (hes e he).not_shutdown⟩

theorem fits_of_effect {me me' : CopyBuffer} {trace trace' : List Event} (hfits : me.Fits)
    (he : CopyEffect here me trace me' trace') :
    me'.Fits ∧ me'.buf.length = me.buf.length := by
  cases he with
  | fill hhere hw hlen hpre =>
    exact ⟨CopyBuffer.fits_fill hfits hlen, CopyBuffer.buf_fill_length hfits hlen⟩
  | write hi => exact ⟨CopyBuffer.fits_advance hfits hi, rfl⟩
  | still hes hread hfits' hunsent hbuf hdone hamt => exact ⟨hfits', by rw [hbuf]⟩

end Effect

section Step
variable [AsyncRead R] [AsyncWrite W]
variable {point : CopyPoint} {me me' : CopyBuffer} {io io' : Io R W} {flow : CopyFlow}

theorem effect_of_step (hfits : me.Fits) (hdrained : point = .afterWhile → me.pos = me.cap)
    (h : CopyStep point me io flow me' io') :
    CopyEffect (readHere point me io) me io.trace me' io'.trace := by
  have hempty (hp : point = .afterWhile) : me.reset.unsent = me.unsent := by
    rw [CopyBuffer.unsent_reset, CopyBuffer.unsent_of_eq (hdrained hp)]
  cases h with
  | skip hw => exact .unmoved hfits rfl rfl rfl rfl
  | emptied hp => exact .unmoved hfits rfl rfl rfl rfl
  | again hd => exact .unmoved me.fits_reset (hempty rfl) rfl rfl rfl
  | @fill _ _ _ bytes hw hr =>
    have hhere : readHere .loopHead me io = some (.ok bytes) := by
      rw [readHere, if_pos hw, hr]
    have h := @CopyEffect.fill _ me io.trace _ [] hhere hw (Io.pollRead_length hr) (by simp)
    rw [List.append_nil] at h
    rw [Io.pollRead_trace hr]
    exact h
  | @topUp _ _ _ _ bytes hp hs hw hr =>
    rw [Io.pollRead_trace hr, Io.pollWrite_trace hs]
    have hhere : readHere .whileHead me io = some (.ok bytes) := by
      simp only [readHere, if_pos hp, if_pos hw, hs, hr]
    exact .fill hhere hw (Io.pollRead_length hr) (by simp)
  | write hp hs hi =>
    rw [Io.pollWrite_trace hs]
    exact .write (Io.pollWrite_length hs)
  | readErr hw hr =>
    rw [Io.pollRead_trace hr]
    exact .same hfits (by simp) fun _ _ _ => hw
  | readStall hw hr hne =>
    rw [Io.pollRead_trace hr]
    exact .same hfits (by simp) fun _ _ _ => hw
  | idle hw hr he hf =>
    rw [Io.pollRead_trace hr]
    exact .same hfits (by simp) fun _ _ _ => hw
  | idleFlush hw hr he hf hs =>
    rw [Io.pollFlush_trace hs, Io.pollRead_trace hr, List.append_assoc]
    exact .still (by simp) (fun _ _ _ => hw) hfits rfl rfl rfl rfl
  | idleFlushStall hw hr he hf hs =>
    rw [Io.pollFlush_trace hs, Io.pollRead_trace hr, List.append_assoc]
    exact .same hfits (by simp) fun _ _ _ => hw
  | idleFlushErr hw hr he hf hs =>
    rw [Io.pollFlush_trace hs, Io.pollRead_trace hr, List.append_assoc]
    exact .same hfits (by simp) fun _ _ _ => hw
  | writeZero hp hs =>
    rw [Io.pollWrite_trace hs]
    exact .same hfits (by simp) (by simp [Event.isRead])
  | writeErr hp hs =>
    rw [Io.pollWrite_trace hs]
    exact .same hfits (by simp) (by simp [Event.isRead])
  | writeStall hp hs hw =>
    rw [Io.pollWrite_trace hs]
    exact .same hfits (by simp) (by simp [Event.isRead])
  | topUpStall hp hs hw hr =>
    rw [Io.pollRead_trace hr, Io.pollWrite_trace hs, List.append_assoc]
    exact .same hfits (by simp) fun _ _ _ => hw
  | topUpErr hp hs hw hr =>
    rw [Io.pollRead_trace hr, Io.pollWrite_trace hs, List.append_assoc]
    exact .same hfits (by simp) fun _ _ _ => hw
  | finish hd hs =>
    rw [Io.pollFlush_trace hs]
    exact .still (by simp) (by simp [Event.isRead]) me.fits_reset (hempty rfl) rfl rfl rfl
  | finishStall hd hs =>
    rw [Io.pollFlush_trace hs]
    exact .still (by simp) (by simp [Event.isRead]) me.fits_reset (hempty rfl) rfl rfl rfl
  | finishErr hd hs =>
    rw [Io.pollFlush_trace hs]
    exact .still (by simp) (by simp [Event.isRead]) me.fits_reset (hempty rfl) rfl rfl rfl

end Step

theorem produced_of_silent {es : List Event} (h : ∀ e ∈ es, Silent e) : produced es = [] :=
  List.flatMap_eq_nil_iff.mpr fun e he => (h e he).produced

theorem accepted_of_silent {es : List Event} (h : ∀ e ∈ es, Silent e) : accepted es = [] :=
  List.flatMap_eq_nil_iff.mpr fun e he => (h e he).accepted

/-- The buffer at a point of `poll_copy` stands for a pipe: what the reader has handed out
has gone in, and what the writer has taken has come out. -/
structure Relays {bound : Nat} (point : CopyPoint) (me : CopyBuffer) (trace : List Event)
    (p : Pipe UInt8 bound) : Prop where
  fits : me.Fits
  room : me.buf.length = bound
  drained : point = .afterWhile → me.pos = me.cap
  received : p.received = produced trace
  sent : p.sent = accepted trace
  queue : p.queue = me.unsent

section Relay
variable {bound : Nat} {point : CopyPoint} {me me' : CopyBuffer} {trace trace' : List Event}
  {p : Pipe UInt8 bound} {here : Option (Poll (List UInt8))}

theorem relays_new (bufSize : UInt64) (direction : Direction) :
    Relays .loopHead (.new bufSize direction) []
      (Pipe.empty : Pipe UInt8 bufSize.toNat) where
  fits := ⟨Nat.le_refl _, Nat.zero_le _⟩
  room := List.length_replicate
  drained h := nomatch h
  received := rfl
  sent := rfl
  queue := by simp [CopyBuffer.new, CopyBuffer.unsent, Pipe.empty]

theorem Relays.conserved (h : Relays point me trace p) :
    produced trace = accepted trace ++ me.unsent := by
  rw [← h.received, ← h.sent, ← h.queue]
  exact p.conserved

theorem relays_of_effect (h : Relays point me trace p) {point' : CopyPoint}
    (hdrained : point' = .afterWhile → me'.pos = me'.cap)
    (he : CopyEffect here me trace me' trace') :
    ∃ q, Reach Pipe.Step p q ∧ Relays point' me' trace' q := by
  have hcap := h.fits.2
  have hunsent := CopyBuffer.unsent_length h.fits
  have hroom := h.room
  obtain ⟨hfits, hlength⟩ := fits_of_effect h.fits he
  have hroom' := hlength.trans hroom
  cases he with
  | @fill bytes pre hhere hw hlen hpre =>
    have hle : p.queue.length + bytes.length ≤ bound := by
      rw [h.queue]
      omega
    refine ⟨p.push bytes hle, .single (.push p bytes hle), hfits, hroom', hdrained, ?_, ?_, ?_⟩
    · have hp := produced_of_silent hpre
      simp [Pipe.push, h.received, hp, Event.produced]
    · have hp := accepted_of_silent hpre
      simp [Pipe.push, h.sent, hp, Event.accepted]
    · rw [CopyBuffer.unsent_fill h.fits, ← h.queue]
      rfl
  | @write i hi =>
    refine ⟨p.pop i, .single (.pop p i), hfits, hroom', hdrained, ?_, ?_, ?_⟩
    · simp [Pipe.pop, h.received, Event.produced]
    · simp [Pipe.pop, h.sent, h.queue, Event.accepted]
    · rw [CopyBuffer.unsent_advance, ← h.queue]
      rfl
  | still hes hread hfits' hunsent hbuf hdone hamt =>
    refine ⟨p, .refl, hfits, hroom', hdrained, ?_, ?_, h.queue.trans hunsent.symm⟩
    · rw [produced_append, produced_of_silent hes, List.append_nil]
      exact h.received
    · rw [accepted_append, accepted_of_silent hes, List.append_nil]
      exact h.sent

end Relay

structure Ledger (me : CopyBuffer) (trace : List Event) : Prop where
  amt : me.amt.toNat = (accepted trace).length % UInt64.size
  eof : me.readDone = true ↔ Event.eof ∈ trace
  quiet : trace.Pairwise fun a b => a = Event.eof → b.isRead = false

section Ledger
variable {me me' : CopyBuffer} {trace trace' : List Event}
  {here : Option (Poll (List UInt8))}

theorem ledger_new (bufSize : UInt64) (direction : Direction) :
    Ledger (.new bufSize direction) [] :=
  ⟨rfl, by simp [CopyBuffer.new], .nil⟩

theorem Ledger.eof_not_mem (h : Ledger me trace) (hw : me.WantsRead) :
    Event.eof ∉ trace := by
  intro hmem
  have hdone := h.eof.mpr hmem
  rw [hw.2] at hdone
  cases hdone

theorem quiet_append {es : List Event}
    (h : trace.Pairwise fun a b => a = Event.eof → b.isRead = false)
    (hes : es.Pairwise fun a b => a = Event.eof → b.isRead = false)
    (hread : Event.eof ∈ trace → ∀ e ∈ es, e.isRead = false) :
    (trace ++ es).Pairwise fun a b => a = Event.eof → b.isRead = false := by
  refine List.pairwise_append.mpr ⟨h, hes, ?_⟩
  intro a ha b hb he
  exact hread (he ▸ ha) b hb

theorem quiet_of_silent {es : List Event} (h : ∀ e ∈ es, Silent e) :
    es.Pairwise fun a b => a = Event.eof → b.isRead = false :=
  List.pairwise_of_forall_mem_list fun a ha _ _ he => ((h a ha).ne_eof he).elim

theorem eof_eq_read_iff {bytes : List UInt8} :
    Event.eof = .read (.ok bytes) ↔ bytes = [] := by
  simp [Event.eof, eq_comm]

theorem eof_mem_append {es : List Event} (h : ∀ e ∈ es, Silent e) :
    Event.eof ∈ trace ++ es ↔ Event.eof ∈ trace := by
  rw [List.mem_append]
  exact ⟨fun hm => hm.resolve_right fun hes => (h _ hes).ne_eof rfl, Or.inl⟩

theorem ledger_of_effect (h : Ledger me trace) (he : CopyEffect here me trace me' trace') :
    Ledger me' trace' := by
  cases he with
  | @fill bytes pre hhere hw hlen hpre =>
    have hnone := h.eof_not_mem hw
    refine ⟨?_, ?_, ?_⟩
    · simp [accepted_of_silent hpre, Event.accepted, CopyBuffer.fill, h.amt]
    · rw [CopyBuffer.readDone_fill, List.mem_append, eof_mem_append hpre,
        List.mem_singleton, eof_eq_read_iff]
      exact ⟨Or.inr, fun hm => hm.resolve_left hnone⟩
    · refine quiet_append (quiet_append h.quiet (quiet_of_silent hpre) ?_) (by simp) ?_
      · exact fun hm => (hnone hm).elim
      · exact fun hm => (hnone ((eof_mem_append hpre).mp hm)).elim
  | @write i hi =>
    refine ⟨?_, ?_, quiet_append h.quiet (by simp) (by simp [Event.isRead])⟩
    · have htake : (me.unsent.take i).length = i := by
        rw [List.length_take]
        exact Nat.min_eq_left hi
      simp [CopyBuffer.advance, Event.accepted, htake, h.amt]
    · rw [List.mem_append]
      simp [CopyBuffer.advance, h.eof, Event.eof]
  | still hes hread hfits hunsent hbuf hdone hamt =>
    refine ⟨?_, ?_, quiet_append h.quiet (quiet_of_silent hes) ?_⟩
    · rw [hamt, accepted_append, accepted_of_silent hes, List.append_nil]
      exact h.amt
    · rw [hdone, eof_mem_append hes]
      exact h.eof
    · intro hm e he
      cases hr : e.isRead with
      | false => rfl
      | true => exact (h.eof_not_mem (hread e he hr) hm).elim

/-- Unless it has wrapped, the counter counts what has left the buffer. -/
theorem amt_add_unsent {bound : Nat} {point : CopyPoint} {p : Pipe UInt8 bound}
    (hp : Relays point me trace p) (hledger : Ledger me trace)
    (htotal : (produced trace).length < UInt64.size) :
    me.amt.toNat + me.unsent.length = (produced trace).length := by
  have hsplit := congrArg List.length hp.conserved
  have hamt := hledger.amt
  rw [List.length_append] at hsplit
  rw [Nat.mod_eq_of_lt (by omega)] at hamt
  omega

end Ledger

section Run
variable [AsyncRead R] [AsyncWrite W] {bound : Nat}
variable {point : CopyPoint} {me me' : CopyBuffer} {io io' : Io R W} {flow : CopyFlow}

/-- `poll_copy` returns a count only where a flush follows the end of the stream. -/
theorem finish_of_step {k : UInt64} (h : CopyStep point me io (.ret (.ok k)) me' io') :
    point = .afterWhile ∧ me.readDone = true ∧ me' = me.reset ∧ k = me.amt ∧
      io.pollFlush = (.ok (), io') := by
  cases h with
  | finish hd hs => exact ⟨rfl, hd, rfl, rfl, hs⟩

/-- The task that polls `poll_copy`, against the pipe it stands for. -/
structure CopyRun.Refines {bound : Nat} (c : CopyRun R W) (p : Pipe UInt8 bound) : Prop where
  relays : Relays c.pc.point c.me c.io.trace p
  ledger : Ledger c.me c.io.trace
  finished : ∀ k, c.pc = .returned (.ok k) → c.me.readDone = true ∧ p.queue = [] ∧
    k = c.me.amt ∧ c.io.trace.getLast? = some (.flush (.ok ()))

omit [AsyncRead R] [AsyncWrite W] in
theorem refines_start (bufSize : UInt64) (direction : Direction) (reader : R) (writer : W) :
    (CopyRun.start bufSize direction reader writer).Refines
      (Pipe.empty : Pipe UInt8 bufSize.toNat) where
  relays := relays_new bufSize direction
  ledger := ledger_new bufSize direction
  finished _ h := nomatch h

theorem refines_of_next {a b : CopyRun R W} {p : Pipe UInt8 bound} (ha : a.Refines p)
    (h : a.next = some b) : ∃ q, Reach Pipe.Step p q ∧ b.Refines q := by
  have hp := ha.relays
  rcases next_cases hp.fits h with ⟨point, flow, hpc, hstep, hflow⟩ | ⟨hpc, hb, hme, hio⟩
  · rw [hpc] at hp
    have he := effect_of_step hp.fits hp.drained hstep
    obtain ⟨q, hpq, hq⟩ := relays_of_effect hp (pos_eq_of_step hstep) he
    refine ⟨q, hpq, hflow ▸ hq, ledger_of_effect ha.ledger he, ?_⟩
    intro k hk
    obtain rfl : flow = .ret (.ok k) := by
      rw [hflow] at hk
      cases flow <;> cases hk
      rfl
    obtain ⟨_, hdone, hreset, hcount, hflush⟩ := finish_of_step hstep
    rw [hq.queue, hreset, Io.pollFlush_trace hflush]
    exact ⟨hdone, a.me.unsent_reset, hcount, List.getLast?_concat⟩
  · refine ⟨p, .refl, ?_, ?_, ?_⟩
    · rw [hpc] at hp
      rw [hb, hme, hio]
      exact hp
    · rw [hme, hio]
      exact ha.ledger
    · intro k hk
      rw [hb] at hk
      cases hk

variable {reader : R} {writer : W} {bufSize : UInt64} {direction : Direction}
  {c : CopyRun R W}

/-- Every run of the copy loop refines a run of the pipe. -/
theorem copyRun_refines_pipe
    (h : Reach (Next CopyRun.next) (.start bufSize direction reader writer) c) :
    ∃ p : Pipe UInt8 bufSize.toNat, Reach Pipe.Step .empty p ∧ c.Refines p := by
  apply h.simulate (R := fun c p => CopyRun.Refines c p)
  · exact refines_start bufSize direction reader writer
  · intro a b p ha hab
    exact refines_of_next ha hab

/-- The copy loop relays the stream: at every point of every run the bytes read are those
written and those still in the buffer, and a finished copy has written and flushed all. -/
theorem pollCopy_relays (reader : R) (writer : W) (bufSize : UInt64) (direction : Direction)
    (c : CopyRun R W)
    (h : Reach (Next CopyRun.next) (.start bufSize direction reader writer) c)
    (htotal : (produced c.io.trace).length < UInt64.size) :
    (c.me.pos ≤ c.me.cap ∧ c.me.cap ≤ c.me.buf.length) ∧
    produced c.io.trace = accepted c.io.trace ++ (c.me.buf.take c.me.cap).drop c.me.pos ∧
    c.me.amt.toNat = (accepted c.io.trace).length ∧
    c.io.trace.Pairwise (fun a b => a = Event.eof → b.isRead = false) ∧
    ∀ n, c.pc = .returned (.ok n) →
      Event.eof ∈ c.io.trace ∧ accepted c.io.trace = produced c.io.trace ∧
      n.toNat = (produced c.io.trace).length ∧
      c.io.trace.getLast? = some (.flush (.ok ())) := by
  obtain ⟨p, _, hc⟩ := copyRun_refines_pipe h
  have hp := hc.relays
  have hsplit := hp.conserved
  have hamt : c.me.amt.toNat = (accepted c.io.trace).length := by
    rw [hc.ledger.amt]
    apply Nat.mod_eq_of_lt
    rw [hsplit, List.length_append] at htotal
    omega
  refine ⟨hp.fits, hsplit, hamt, hc.ledger.quiet, ?_⟩
  intro n hn
  obtain ⟨hdone, hempty, rfl, hflush⟩ := hc.finished n hn
  have hall : accepted c.io.trace = produced c.io.trace := by
    rw [← hp.sent, ← hp.received]
    exact Pipe.sent_of_queue_nil hempty
  refine ⟨hc.ledger.eof.mp hdone, hall, ?_, hflush⟩
  rw [hamt, hall]

end Run

/-- A write that stalls while more bytes arrive. -/
def lateWriter : CopyRun Script Script :=
  runFor CopyRun.next 12 (.start 3 .Request
    ⟨[.ok [72, 105], .pending, .ok [33], .ok []], [], [], []⟩
    ⟨[], [.pending, .ok 2, .ok 1], [.ok ()], []⟩)

theorem pollCopy_relays_lateWriter :
    Event.eof ∈ lateWriter.io.trace ∧
    accepted lateWriter.io.trace = produced lateWriter.io.trace ∧
    (3 : UInt64).toNat = (produced lateWriter.io.trace).length ∧
    lateWriter.io.trace.getLast? = some (.flush (.ok ())) :=
  (pollCopy_relays _ _ 3 .Request lateWriter (reach_runFor _ 12 _) (by decide)).2.2.2.2 3
    (by decide)

end AppComponts
