import AppComponts.DebugStream

/-!
# The captured text

The text of a finished transfer is cut from the start of the copy buffer with the count of
all bytes. It is the relayed data as long as no read starts the buffer over: a read behind
a drained round must bring nothing but NUL bytes, and on top of NUL bytes.
-/

namespace AppComponts
open AsyncIo Rust Transition Utf8 Text
set_option autoImplicit false

universe u v
variable {R : Type u} {W : Type v}

/-- A zeroed buffer of `bound` bytes after `bytes` were written from its start. -/
def padded (bound : Nat) (bytes : List UInt8) : List UInt8 :=
  (bytes ++ List.replicate bound 0).take bound

section Padded
variable {bound : Nat} {bytes more : List UInt8}

theorem padded_of_le (h : bytes.length ≤ bound) :
    padded bound bytes = bytes ++ List.replicate (bound - bytes.length) 0 := by
  rw [padded, List.take_append, List.take_of_length_le h, List.take_replicate,
    Nat.min_eq_left (Nat.sub_le _ _)]

theorem padded_append_zeros (bound : Nat) (bytes : List UInt8) (k : Nat) :
    padded bound (bytes ++ List.replicate k 0) = padded bound bytes := by
  simp only [padded, List.append_assoc, List.replicate_append_replicate]
  simp only [List.take_append, List.take_replicate]
  have hmin : min (bound - bytes.length) (k + bound) = min (bound - bytes.length) bound := by
    omega
  rw [hmin]

theorem take_padded (h : bytes.length ≤ bound) :
    (padded bound bytes).take bytes.length = bytes := by
  rw [padded_of_le h]
  exact List.take_left

theorem padded_append (h : bytes.length + more.length ≤ bound) :
    (padded bound bytes).take bytes.length ++ more ++
      (padded bound bytes).drop (bytes.length + more.length) = padded bound (bytes ++ more) := by
  have hle : bytes.length ≤ bound := by omega
  have happ : (bytes ++ more).length ≤ bound := by
    rw [List.length_append]
    exact h
  have hdrop : (padded bound bytes).drop (bytes.length + more.length) =
      List.replicate (bound - (bytes ++ more).length) 0 := by
    rw [padded_of_le hle, ← List.drop_drop, List.drop_left, List.drop_replicate,
      List.length_append]
    congr 1
    omega
  rw [take_padded hle, hdrop, padded_of_le happ]

end Padded

/-- The copying has ended with a flush, and not with an error. -/
def CleanEnd (trace : List Event) : Prop :=
  (trace.filter fun e => !e.isShutdown).getLast? = some (.flush (.ok ()))

instance (trace : List Event) : Decidable (CleanEnd trace) :=
  inferInstanceAs (Decidable (_ = _))

theorem cleanEnd_append_shutdowns {trace es : List Event}
    (hes : ∀ e ∈ es, e.isShutdown = true) : CleanEnd (trace ++ es) ↔ CleanEnd trace := by
  have hnone : es.filter (fun e => !e.isShutdown) = [] := by
    rw [List.filter_eq_nil_iff]
    intro e he
    simp [hes e he]
  rw [CleanEnd, CleanEnd, List.filter_append, hnone, List.append_nil]

theorem cleanEnd_shutdown {trace : List Event} {answer : Poll Unit} :
    CleanEnd (trace ++ [.shutdown answer]) ↔ CleanEnd trace :=
  cleanEnd_append_shutdowns (by simp [Event.isShutdown])

theorem cleanEnd_flush {trace : List Event} : CleanEnd (trace ++ [.flush (.ok ())]) := by
  simp [CleanEnd, Event.isShutdown]

theorem not_cleanEnd {trace : List Event} {e : Event} (hs : e.isShutdown = false)
    (hne : e ≠ .flush (.ok ())) : ¬ CleanEnd (trace ++ [e]) := by
  simp [CleanEnd, hs, hne]

section Transfers
variable [AsyncRead R] [AsyncWrite W]

/-- A read of this step fills the buffer behind all the bytes read so far, or changes none
of its bytes. -/
def Transfer.ReadsInPlace (t : Transfer R W) : Prop :=
  ∀ x ∈ t.pc.copy?, ∀ answer ∈ readHere x.1 x.2 t.io,
    answer.bytes = [] ∨ x.2.amt.toNat = x.2.pos ∨
    ((∀ b ∈ answer.bytes, b = 0) ∧ answer.bytes <+: x.2.buf.drop x.2.cap)

instance (t : Transfer R W) : Decidable t.ReadsInPlace :=
  inferInstanceAs (Decidable (∀ x ∈ t.pc.copy?, ∀ answer ∈ readHere x.1 x.2 t.io, _ ∨ _ ∨ _))

variable {a b t : Transfer R W} {bound : Nat}

theorem buf_fill_same {me : CopyBuffer} {bytes : List UInt8} (h : bytes <+: me.buf.drop me.cap) :
    (me.fill bytes).buf = me.buf := by
  obtain ⟨rest, hrest⟩ := h
  have hdrop : me.buf.drop (me.cap + bytes.length) = rest := by
    rw [← List.drop_drop, ← hrest]
    exact List.drop_left
  simp only [CopyBuffer.fill]
  rw [hdrop, List.append_assoc, hrest]
  exact List.take_append_drop _ _

theorem fill_padded {point : CopyPoint} {me : CopyBuffer} {trace : List Event}
    {bytes : List UInt8} {p : Pipe UInt8 bound} (hp : Relays point me trace p)
    (hledger : Ledger me trace) (hbound : bound < UInt64.size)
    (hlen : bytes.length ≤ me.buf.length - me.cap)
    (hbuf : me.buf = padded bound (produced trace))
    (hplace : bytes = [] ∨ me.amt.toNat = me.pos ∨
      ((∀ b ∈ bytes, b = 0) ∧ bytes <+: me.buf.drop me.cap))
    (htotal : (produced trace).length ≤ bound) :
    (me.fill bytes).buf = padded bound (produced trace ++ bytes) := by
  have hsame (hzero : ∀ b ∈ bytes, b = 0) (hpre : bytes <+: me.buf.drop me.cap) :
      (me.fill bytes).buf = padded bound (produced trace ++ bytes) := by
    rw [List.eq_replicate_of_mem hzero, padded_append_zeros, ← List.eq_replicate_of_mem hzero,
      buf_fill_same hpre, hbuf]
  rcases hplace with rfl | hpos | ⟨hzero, hpre⟩
  · exact hsame (fun _ hb => (List.not_mem_nil hb).elim) (List.nil_prefix)
  · have hcount := amt_add_unsent hp hledger (by omega)
    have hunsent := CopyBuffer.unsent_length hp.fits
    have hle := hp.fits.1
    have hcap := hp.fits.2
    have hroom := hp.room
    have hfill : me.cap = (produced trace).length := by omega
    simp only [CopyBuffer.fill]
    rw [hfill, hbuf]
    exact padded_append (by omega)
  · exact hsame hzero hpre

structure Transfer.Copied (bound : Nat) (t : Transfer R W) : Prop where
  running : ∀ x, t.pc.copy? = some x → (produced t.io.trace).length ≤ bound →
    x.2.buf = padded bound (produced t.io.trace)
  past : ∀ x, t.pc.text? = some x → (produced t.io.trace).length ≤ bound →
    CleanEnd t.io.trace → encode x.2 = accepted t.io.trace ∧
      x.1.toNat = (accepted t.io.trace).length

theorem err_not_cleanEnd {point : CopyPoint} {me me' : CopyBuffer} {io io' : Io R W}
    {e : IoError} (h : CopyStep point me io (.ret (.err e)) me' io') : ¬ CleanEnd io'.trace := by
  cases h with
  | readErr hw hr =>
    rw [Io.pollRead_trace hr]
    exact not_cleanEnd rfl fun h => nomatch h
  | idleFlushErr hw hr he hf hs =>
    rw [Io.pollFlush_trace hs]
    exact not_cleanEnd rfl fun h => nomatch h
  | writeZero hp hs =>
    rw [Io.pollWrite_trace hs]
    exact not_cleanEnd rfl fun h => nomatch h
  | writeErr hp hs =>
    rw [Io.pollWrite_trace hs]
    exact not_cleanEnd rfl fun h => nomatch h
  | topUpErr hp hs hw hr =>
    rw [Io.pollRead_trace hr]
    exact not_cleanEnd rfl fun h => nomatch h
  | finishErr hd hs =>
    rw [Io.pollFlush_trace hs]
    exact not_cleanEnd rfl fun h => nomatch h

variable [CaseTables]

theorem copied_of_copy (hbound : bound < UInt64.size) {point : CopyPoint} {buf buf' : CopyBuffer}
    {flow : CopyFlow} (hsound : a.Sound bound) (ha : a.Copied bound) (hin : a.ReadsInPlace)
    (hpc : a.pc = .copying point buf) (hstep : CopyStep point buf a.io flow buf' b.io)
    (hb : b.pc = afterCopyStep buf' flow) : b.Copied bound := by
  have hcopy : a.pc.copy? = some (point, buf) := congrArg TransferAt.copy? hpc
  obtain ⟨⟨p, hp⟩, hledger⟩ := hsound point buf hcopy
  have he := effect_of_step hp.fits hp.drained hstep
  obtain ⟨q, hpq, hq⟩ := relays_of_effect hp (pos_eq_of_step hstep) he
  have hgrows := (Pipe.reach_grows hpq).1.length_le
  rw [hp.received, hq.received] at hgrows
  have hbuf : (produced b.io.trace).length ≤ bound →
      buf'.buf = padded bound (produced b.io.trace) := by
    intro htotal
    have hold := ha.running _ hcopy (by omega)
    generalize htrace : b.io.trace = trace' at he ⊢
    cases he with
    | @fill bytes pre hhere hw hlen hpre =>
      have hplace := hin _ hcopy _ hhere
      have hprod : produced (a.io.trace ++ pre ++ [.read (.ok bytes)]) =
          produced a.io.trace ++ bytes := by
        simp [produced_of_silent hpre, Event.produced]
      rw [hprod]
      exact fill_padded hp hledger hbound hlen hold hplace (by omega)
    | @write i hi => simpa [Event.produced, CopyBuffer.advance] using hold
    | still hes hread hfits hunsent hsame hdone hamt =>
      rw [hsame, produced_append, produced_of_silent hes, List.append_nil]
      exact hold
  refine ⟨?_, ?_⟩
  · intro x hx
    obtain ⟨point', me⟩ := x
    rw [hb] at hx
    obtain ⟨_, rfl⟩ := copy?_afterCopyStep hx
    exact hbuf
  · intro x hx htotal hclean
    obtain ⟨count, rawData⟩ := x
    rw [hb] at hx
    rcases text?_afterCopyStep hx with ⟨rfl, hcap⟩ | ⟨e, rfl, _, _⟩
    · obtain ⟨_, _, hreset, rfl, _⟩ := finish_of_step hstep
      obtain ⟨hle, htake, _⟩ := captured_eq_ok_iff.mp hcap
      have hsplit := hq.conserved
      rw [hreset, CopyBuffer.unsent_reset, List.append_nil] at hsplit
      have hamt : buf.amt.toNat = (accepted b.io.trace).length % UInt64.size := by
        rw [← (ledger_of_effect hledger he).amt, hreset]
        rfl
      rw [← hsplit, Nat.mod_eq_of_lt (by omega)] at hamt
      rw [hamt, hbuf htotal, take_padded htotal] at htake
      rw [← hsplit]
      exact ⟨htake.symm, hamt⟩
    · exact (err_not_cleanEnd hstep hclean).elim

theorem copied_of_next (hbound : bound < UInt64.size) (hsound : a.Sound bound)
    (ha : a.Copied bound) (hin : a.ReadsInPlace) (h : a.next = some b) : b.Copied bound := by
  cases transferStep_of_next (fun _ _ => hsound.fits) h with
  | copy hpc hstep hb => exact copied_of_copy hbound hsound ha hin hpc hstep hb
  | call hpc hb hio =>
    refine ⟨?_, ?_⟩
    · intro x hx
      rw [hio]
      exact ha.running x (by rw [hpc, ← hb, hx])
    · intro x hx
      rw [text?_of_copy? hb] at hx
      cases hx
  | keep hpc hb hio =>
    refine ⟨?_, ?_⟩
    · intro x hx
      rw [text?_of_copy? hx] at hb
      cases hb
    · intro x hx
      rw [hio]
      exact ha.past x (by rw [hpc, ← hb, hx])
  | @shutdown count rawData answer hpc hb hio =>
    refine ⟨?_, ?_⟩
    · intro x hx
      rw [hb, copy?_afterPollShutdown] at hx
      cases hx
    · intro x hx
      rw [hb, text?_afterPollShutdown] at hx
      cases hx
      have hold := ha.past (count, rawData) (by rw [hpc]; rfl)
      rw [hio, cleanEnd_shutdown]
      simpa [Event.accepted, Event.produced] using hold

theorem copied_of_reach {reader : R} {writer : W} {bufSize : UInt64} {direction : Direction}
    (h : Reach (Guarded (Next Transfer.next) Transfer.ReadsInPlace)
      (.start bufSize direction reader writer) t) : t.Copied bufSize.toNat := by
  refine h.invariant_reached (P := Transfer.Copied bufSize.toNat) ?_ ⟨?_, ?_⟩
  · intro c d hc hcopied hcd
    have hsound := transfer_sound_of_reach (reach_of_guarded hc)
    exact copied_of_next bufSize.toNat_lt hsound hcopied hcd.2 hcd.1
  · intro x hx _
    cases hx
    simp [CopyBuffer.new, padded, Transfer.start]
  · intro x hx
    cases hx

end Transfers

end AppComponts
