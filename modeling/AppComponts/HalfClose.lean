import AppComponts.DebugStream

/-!
# Half-close

A transfer that shuts its writer down has normally written all it has read. It has not when
a stream ends unexpectedly over unwritten bytes: the transfer then takes the text in the
buffer for its result and goes on to the shutdown.
-/

namespace AppComponts
open AsyncIo Rust Transition Utf8 Text
set_option autoImplicit false

universe u v
variable {R : Type u} {W : Type v}

/-- At every shutdown the writer has taken what the reader had handed out. -/
def DrainedAtShutdown (trace : List Event) : Prop :=
  ∀ before e after, trace = before ++ e :: after → e.isShutdown = true →
    accepted before = produced before

theorem drained_append {trace es : List Event} (h : DrainedAtShutdown trace)
    (hes : ∀ e ∈ es, e.isShutdown = false) : DrainedAtShutdown (trace ++ es) := by
  intro before e after heq he
  rcases List.append_eq_append_iff.mp heq with ⟨mid, rfl, hmid⟩ | ⟨mid, rfl, hmid⟩
  · have hmem : e ∈ es := by simp [hmid]
    rw [hes e hmem] at he
    cases he
  · cases mid with
    | nil =>
      have hmem : e ∈ es := by
        rw [← List.nil_append es, ← hmid]
        exact List.mem_cons_self
      rw [hes e hmem] at he
      cases he
    | cons e' mid =>
      obtain ⟨rfl, rfl⟩ := List.cons.inj hmid
      exact h before e mid rfl he

theorem drained_shutdown {trace : List Event} (h : DrainedAtShutdown trace)
    (heq : accepted trace = produced trace) (answer : Poll Unit) :
    DrainedAtShutdown (trace ++ [.shutdown answer]) := by
  intro before e after hsplit he
  rcases List.append_eq_append_iff.mp hsplit with ⟨mid, rfl, hmid⟩ | ⟨mid, rfl, hmid⟩
  · cases mid with
    | nil =>
      rw [List.append_nil]
      exact heq
    | cons e' mid => simp at hmid
  · cases mid with
    | nil =>
      rw [List.append_nil] at heq
      exact heq
    | cons e' mid =>
      obtain ⟨rfl, rfl⟩ := List.cons.inj hmid
      exact h before e mid rfl he

section Transfers
variable [CaseTables] [AsyncRead R] [AsyncWrite W]

/-- A read or a write of this step fails with `UnexpectedEof` while bytes are unwritten,
and the whole buffer is text. -/
def Transfer.CutShort (t : Transfer R W) : Prop :=
  ∃ point buf e, t.pc = .copying point buf ∧
    (readHere point buf t.io = some (.err e) ∨ writeHere point buf t.io = some (.err e)) ∧
    e.kind = .unexpectedEof ∧ buf.pos < buf.cap ∧ (fromUtf8 buf.buf).isSome

structure Transfer.Drained (t : Transfer R W) : Prop where
  shutdowns : DrainedAtShutdown t.io.trace
  past : ∀ x, t.pc.text? = some x → accepted t.io.trace = produced t.io.trace

variable {a b t : Transfer R W} {bound : Nat}

theorem drained_of_copy {point : CopyPoint} {buf buf' : CopyBuffer} {flow : CopyFlow}
    (hsound : a.Sound bound) (ha : a.Drained) (hcut : ¬ a.CutShort)
    (hpc : a.pc = .copying point buf) (hstep : CopyStep point buf a.io flow buf' b.io)
    (hb : b.pc = afterCopyStep buf' flow) : b.Drained := by
  obtain ⟨⟨p, hp⟩, _⟩ := hsound point buf (by rw [hpc]; rfl)
  have he := effect_of_step hp.fits hp.drained hstep
  obtain ⟨q, _, hq⟩ := relays_of_effect hp (pos_eq_of_step hstep) he
  obtain ⟨es, hes, hno⟩ := he.not_shutdown
  refine ⟨hes ▸ drained_append ha.shutdowns hno, ?_⟩
  intro x htext
  obtain ⟨count, rawData⟩ := x
  rw [hb] at htext
  have hunsent : buf'.unsent = [] := by
    rcases text?_afterCopyStep htext with ⟨rfl, _⟩ | ⟨e, rfl, hkind, hs, _⟩
    · obtain ⟨_, _, hreset, _⟩ := finish_of_step hstep
      rw [hreset]
      exact buf.unsent_reset
    · rcases err_of_step hstep with hzero | hpos | ⟨rfl, hhere⟩
      · rw [hkind] at hzero
        cases hzero
      · exact CopyBuffer.unsent_of_eq hpos
      · have hle := hp.fits.1
        apply CopyBuffer.unsent_of_eq
        apply Nat.le_antisymm hle
        apply Nat.le_of_not_lt
        intro hlt
        exact hcut ⟨point, buf', e, hpc, hhere, hkind, hlt, by rw [hs]; rfl⟩
  have hsplit := hq.conserved
  rw [hunsent, List.append_nil] at hsplit
  exact hsplit.symm

theorem drained_of_next (hsound : a.Sound bound) (ha : a.Drained) (hcut : ¬ a.CutShort)
    (h : a.next = some b) : b.Drained := by
  cases transferStep_of_next (fun _ _ => hsound.fits) h with
  | copy hpc hstep hb => exact drained_of_copy hsound ha hcut hpc hstep hb
  | call hpc hb hio =>
    refine ⟨hio ▸ ha.shutdowns, ?_⟩
    intro x hx
    rw [text?_of_copy? hb] at hx
    cases hx
  | keep hpc hb hio =>
    refine ⟨hio ▸ ha.shutdowns, ?_⟩
    intro x hx
    rw [hio]
    exact ha.past _ hpc
  | @shutdown count rawData answer hpc hb hio =>
    have heq := ha.past (count, rawData) (by rw [hpc]; rfl)
    refine ⟨hio ▸ drained_shutdown ha.shutdowns heq answer, ?_⟩
    intro x hx
    rw [hio]
    simpa [Event.accepted, Event.produced] using heq

/-- Two steps on, a transfer that is cut short has shut the writer down too early. -/
theorem reach_undrained (hsound : t.Sound bound) (h : t.CutShort) :
    ∃ c, Reach (Next Transfer.next) t c ∧ ¬ DrainedAtShutdown c.io.trace := by
  obtain ⟨point, buf, e, hpc, hhere, hkind, hlt, hsome⟩ := h
  obtain ⟨s, hs⟩ := Option.isSome_iff_exists.mp hsome
  obtain ⟨⟨p, hp⟩, _⟩ := hsound point buf (by rw [hpc]; rfl)
  obtain ⟨io', hstep⟩ : ∃ io', pollCopyStep point buf t.io = (.ret (.err e), buf, io') := by
    rcases hhere with hhere | hhere
    · exact step_of_readHere_err hp.fits hhere
    · exact step_of_writeHere_err hp.fits hhere
  have hcopy := copyStep_of_eq hp.fits hstep
  obtain ⟨q, _, hq⟩ := relays_of_effect hp (pos_eq_of_step hcopy)
    (effect_of_step hp.fits hp.drained hcopy)
  let mid : Transfer R W :=
    ⟨.loopHead (.shuttingDown (encode s).length.toUInt64 s), io'⟩
  have hmid : t.next = some mid := by
    simp only [Transfer.next, hpc, hstep, afterCopyStep, afterPollCopy, if_pos hkind, hs, mid]
  rcases hans : io'.pollShutdown with ⟨answer, io₂⟩
  let last : Transfer R W := ⟨afterPollShutdown (encode s).length.toUInt64 s answer, io₂⟩
  have hlast : mid.next = some last := by
    simp only [Transfer.next, mid, hans, last]
  refine ⟨last, .tail (.single hmid) hlast, ?_⟩
  intro hdrained
  have heq := hdrained io'.trace (.shutdown answer) [] (Io.pollShutdown_trace hans) rfl
  have hsplit := hq.conserved
  have hlen := CopyBuffer.unsent_length hp.fits
  rw [← heq, List.self_eq_append_right] at hsplit
  rw [hsplit, List.length_nil] at hlen
  omega

/-- No byte is lost at a shutdown exactly when the transfer is never cut short. -/
theorem drainedAtShutdown_iff (reader : R) (writer : W) (bufSize : UInt64)
    (direction : Direction) :
    (∀ t, Reach (Next Transfer.next) (.start bufSize direction reader writer) t →
      DrainedAtShutdown t.io.trace) ↔
    ∀ t, Reach (Next Transfer.next) (.start bufSize direction reader writer) t →
      ¬ t.CutShort := by
  constructor
  · intro h t ht hcut
    obtain ⟨c, hc, hno⟩ := reach_undrained (transfer_sound_of_reach ht) hcut
    exact hno (h c (ht.trans hc))
  · intro hcut t ht
    have hdrained : t.Drained := by
      refine ht.invariant_reached (P := Transfer.Drained) ?_ ⟨?_, ?_⟩
      · intro c d hc hd hnext
        exact drained_of_next (transfer_sound_of_reach hc) hd (hcut c hc) hnext
      · intro before e after heq
        simp [Transfer.start] at heq
      · intro x hx
        cases hx
    exact hdrained.shutdowns

end Transfers

/-- The peer sends two bytes and breaks off while the other side is not ready to write. -/
def brokenOff : Transfer Script Script :=
  .start 4 .Response
    ⟨[.ok [104, 105], .err ⟨.unexpectedEof, "peer closed connection"⟩], [], [], []⟩
    ⟨[], [.pending], [], [.ok ()]⟩

theorem brokenOff_loses_bytes :
    ¬ ∀ t, Reach (Next (@Transfer.next _ _ asciiTables _ _)) brokenOff t →
      DrainedAtShutdown t.io.trace := by
  intro h
  have hlost := h _ (reach_runFor _ 5 brokenOff)
    [.read (.ok [104, 105]), .write [104, 105] .pending,
      .read (.err ⟨.unexpectedEof, "peer closed connection"⟩)] (.shutdown (.ok ())) [] rfl rfl
  cases hlost

end AppComponts
