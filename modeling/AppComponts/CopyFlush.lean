import AppComponts.CopyRelay

/-!
# Pending calls of the copy loop

A call of `poll_copy` that returns `Pending` has been told so by the writer, or it has left
nothing to write and nothing to flush behind a reader that is pending. The link is
`need_flush`: while it is off, every byte taken by the writer has been flushed.
-/

namespace AppComponts
open AsyncIo Rust Transition
set_option autoImplicit false

universe u v
variable {R : Type u} {W : Type v}

def writerPending : Event → Bool
  | .write _ .pending => true
  | .flush .pending => true
  | _ => false

def streamPending (e : Event) : Bool := e == .read .pending || writerPending e

/-- Every byte the writer has accepted has been followed by a completed flush. -/
def Flushed (trace : List Event) : Prop :=
  ∀ before e after, trace = before ++ e :: after → e.accepted ≠ [] → .flush (.ok ()) ∈ after

theorem flushed_append {trace es : List Event} (h : Flushed trace)
    (hes : ∀ e ∈ es, e.accepted = []) : Flushed (trace ++ es) := by
  intro before e after heq he
  rcases List.append_eq_append_iff.mp heq with ⟨mid, rfl, hmid⟩ | ⟨mid, rfl, hmid⟩
  · exact (he (hes e (by simp [hmid]))).elim
  · cases mid with
    | nil => exact (he (hes e (by rw [List.nil_append] at hmid; simp [← hmid]))).elim
    | cons e' mid =>
      obtain ⟨rfl, rfl⟩ := List.cons.inj hmid
      exact List.mem_append_left _ (h before e mid rfl he)

theorem flushed_flush (trace : List Event) : Flushed (trace ++ [.flush (.ok ())]) := by
  intro before e after heq he
  rcases List.append_eq_append_iff.mp heq with ⟨mid, rfl, hmid⟩ | ⟨mid, rfl, hmid⟩
  · have hmem : e ∈ [Event.flush (.ok ())] := by simp [hmid]
    rw [List.mem_singleton.mp hmem] at he
    exact (he rfl).elim
  · cases mid with
    | nil =>
      obtain ⟨rfl, _⟩ := List.cons.inj hmid
      exact (he rfl).elim
    | cons e' mid =>
      obtain ⟨_, rfl⟩ := List.cons.inj hmid
      simp

def ReadStalled (call : List Event) : Prop :=
  (call.filter Event.isRead).getLast? = some (.read .pending)

instance (call : List Event) : Decidable (ReadStalled call) :=
  inferInstanceAs (Decidable (_ = _))

theorem readStalled_append {call es : List Event} (h : ReadStalled es) :
    ReadStalled (call ++ es) := by
  unfold ReadStalled at h ⊢
  rw [List.filter_append, List.getLast?_append, h]
  rfl

def PutOff (call : List Event) (me : CopyBuffer) : Prop :=
  (∃ e ∈ call, writerPending e = true) ∨
    (ReadStalled call ∧ me.pos = me.cap ∧ me.needFlush = false)

section Step
variable [AsyncRead R] [AsyncWrite W]
variable {point : CopyPoint} {me me' : CopyBuffer} {io io' : Io R W} {flow : CopyFlow}

theorem putOff_of_step (h : CopyStep point me io (.ret .pending) me' io') :
    ∃ es, io'.trace = io.trace ++ es ∧ PutOff es me' := by
  cases h with
  | idle hw hr he hf =>
    exact ⟨_, Io.pollRead_trace hr, Or.inr ⟨rfl, he, hf⟩⟩
  | idleFlush hw hr he hf hs =>
    rw [Io.pollFlush_trace hs, Io.pollRead_trace hr, List.append_assoc]
    exact ⟨_, rfl, Or.inr ⟨rfl, he, rfl⟩⟩
  | idleFlushStall hw hr he hf hs =>
    rw [Io.pollFlush_trace hs, Io.pollRead_trace hr, List.append_assoc]
    exact ⟨_, rfl, Or.inl ⟨.flush .pending, by simp, rfl⟩⟩
  | writeStall hp hs hw =>
    exact ⟨_, Io.pollWrite_trace hs, Or.inl ⟨.write me.unsent .pending, by simp, rfl⟩⟩
  | topUp hp hs hw hr =>
    rw [Io.pollRead_trace hr, Io.pollWrite_trace hs, List.append_assoc]
    exact ⟨_, rfl, Or.inl ⟨.write me.unsent .pending, by simp, rfl⟩⟩
  | topUpStall hp hs hw hr =>
    rw [Io.pollRead_trace hr, Io.pollWrite_trace hs, List.append_assoc]
    exact ⟨_, rfl, Or.inl ⟨.write me.unsent .pending, by simp, rfl⟩⟩
  | finishStall hd hs =>
    exact ⟨_, Io.pollFlush_trace hs, Or.inl ⟨.flush .pending, by simp, rfl⟩⟩

/-- What a step does to `need_flush`: a write sets it, a flush that clears it comes last,
and the other steps leave it as it is and write nothing. -/
inductive FlushEffect (me : CopyBuffer) (trace : List Event) :
    CopyBuffer → List Event → Prop
  | wrote {me' : CopyBuffer} {e : Event} (hneed : me'.needFlush = true) :
      FlushEffect me trace me' (trace ++ [e])
  | flushed {me' : CopyBuffer} {es : List Event} :
      FlushEffect me trace me' (trace ++ es ++ [.flush (.ok ())])
  | kept {me' : CopyBuffer} {es : List Event} (hneed : me'.needFlush = me.needFlush)
      (hes : ∀ e ∈ es, e.accepted = []) : FlushEffect me trace me' (trace ++ es)

theorem FlushEffect.same {me me' : CopyBuffer} {trace : List Event}
    (hneed : me'.needFlush = me.needFlush) : FlushEffect me trace me' trace := by
  have h := @FlushEffect.kept me trace me' [] hneed (by simp)
  rwa [List.append_nil] at h

theorem flushEffect_of_step (h : CopyStep point me io flow me' io') :
    FlushEffect me io.trace me' io'.trace := by
  cases h with
  | skip hw => exact .same rfl
  | emptied hp => exact .same rfl
  | again hd => exact .same rfl
  | fill hw hr =>
    rw [Io.pollRead_trace hr]
    exact .kept rfl (by simp [Event.accepted])
  | readErr hw hr =>
    rw [Io.pollRead_trace hr]
    exact .kept rfl (by simp [Event.accepted])
  | readStall hw hr hne =>
    rw [Io.pollRead_trace hr]
    exact .kept rfl (by simp [Event.accepted])
  | idle hw hr he hf =>
    rw [Io.pollRead_trace hr]
    exact .kept rfl (by simp [Event.accepted])
  | idleFlush hw hr he hf hs =>
    rw [Io.pollFlush_trace hs, Io.pollRead_trace hr]
    exact .flushed
  | idleFlushStall hw hr he hf hs =>
    rw [Io.pollFlush_trace hs, Io.pollRead_trace hr, List.append_assoc]
    exact .kept rfl (by simp [Event.accepted])
  | idleFlushErr hw hr he hf hs =>
    rw [Io.pollFlush_trace hs, Io.pollRead_trace hr, List.append_assoc]
    exact .kept rfl (by simp [Event.accepted])
  | write hp hs hi =>
    rw [Io.pollWrite_trace hs]
    exact .wrote rfl
  | writeZero hp hs =>
    rw [Io.pollWrite_trace hs]
    exact .kept rfl (by simp [Event.accepted])
  | writeErr hp hs =>
    rw [Io.pollWrite_trace hs]
    exact .kept rfl (by simp [Event.accepted])
  | writeStall hp hs hw =>
    rw [Io.pollWrite_trace hs]
    exact .kept rfl (by simp [Event.accepted])
  | topUp hp hs hw hr =>
    rw [Io.pollRead_trace hr, Io.pollWrite_trace hs, List.append_assoc]
    exact .kept rfl (by simp [Event.accepted])
  | topUpStall hp hs hw hr =>
    rw [Io.pollRead_trace hr, Io.pollWrite_trace hs, List.append_assoc]
    exact .kept rfl (by simp [Event.accepted])
  | topUpErr hp hs hw hr =>
    rw [Io.pollRead_trace hr, Io.pollWrite_trace hs, List.append_assoc]
    exact .kept rfl (by simp [Event.accepted])
  | finish hd hs =>
    rw [Io.pollFlush_trace hs]
    exact .kept rfl (by simp [Event.accepted])
  | finishStall hd hs =>
    rw [Io.pollFlush_trace hs]
    exact .kept rfl (by simp [Event.accepted])
  | finishErr hd hs =>
    rw [Io.pollFlush_trace hs]
    exact .kept rfl (by simp [Event.accepted])

theorem flushed_of_effect {trace trace' : List Event} (h : me.needFlush = false → Flushed trace)
    (he : FlushEffect me trace me' trace') : me'.needFlush = false → Flushed trace' := by
  intro hneed
  cases he with
  | wrote hset =>
    rw [hneed] at hset
    cases hset
  | flushed => exact flushed_flush _
  | kept hsame hes => exact flushed_append (h (hsame ▸ hneed)) hes

theorem FlushEffect.extends {trace trace' : List Event} (he : FlushEffect me trace me' trace') :
    trace <+: trace' := by
  cases he with
  | wrote _ => exact List.prefix_append _ _
  | flushed =>
    rw [List.append_assoc]
    exact List.prefix_append _ _
  | kept _ _ => exact List.prefix_append _ _

end Step

/-- A task that calls `poll_copy` again and again, whatever it returns; with the history
its current call has begun with. -/
structure CopyCalls (R : Type u) (W : Type v) where
  run : CopyRun R W
  before : List Event

def CopyCalls.start (bufSize : UInt64) (direction : Direction) (reader : R) (writer : W) :
    CopyCalls R W := ⟨.start bufSize direction reader writer, []⟩

section Calls
variable [AsyncRead R] [AsyncWrite W]

def CopyCalls.next (c : CopyCalls R W) : Option (CopyCalls R W) :=
  match c.run.pc with
  | .running point =>
    let (flow, me, io) := pollCopyStep point c.run.me c.run.io
    some { c with run := ⟨flow.toAt, me, io⟩ }
  | .returned _ => some ⟨{ c.run with pc := .running .loopHead }, c.run.io.trace⟩
  | .panicked _ => none

structure CopyCalls.Kept (bound : Nat) (c : CopyCalls R W) : Prop where
  relays : ∃ p : Pipe UInt8 bound, Relays c.run.pc.point c.run.me c.run.io.trace p
  begun : c.before <+: c.run.io.trace
  flushed : c.run.me.needFlush = false → Flushed c.run.io.trace
  putOff : c.run.pc = .returned .pending →
    ∃ call, c.run.io.trace = c.before ++ call ∧ PutOff call c.run.me

theorem PutOff.append {call es : List Event} {me : CopyBuffer} (h : PutOff es me) :
    PutOff (call ++ es) me := by
  rcases h with ⟨e, he, hpending⟩ | ⟨hstalled, hempty, hneed⟩
  · exact Or.inl ⟨e, List.mem_append_right _ he, hpending⟩
  · exact Or.inr ⟨readStalled_append hstalled, hempty, hneed⟩

theorem kept_of_next {bound : Nat} {a b : CopyCalls R W} (ha : a.Kept bound)
    (h : a.next = some b) : b.Kept bound := by
  obtain ⟨p, hp⟩ := ha.relays
  obtain ⟨⟨pc, me, io⟩, before⟩ := a
  cases pc with
  | running point =>
    rcases hstep : pollCopyStep point me io with ⟨flow, me', io'⟩
    obtain rfl : ⟨⟨flow.toAt, me', io'⟩, before⟩ = b := by
      simp only [CopyCalls.next, hstep] at h
      exact Option.some.inj h
    have hcopy := copyStep_of_eq hp.fits hstep
    have he := effect_of_step hp.fits hp.drained hcopy
    obtain ⟨q, _, hq⟩ := relays_of_effect hp (pos_eq_of_step hcopy) he
    have hflush := flushEffect_of_step hcopy
    refine ⟨⟨q, hq⟩, ha.begun.trans hflush.extends, flushed_of_effect ha.flushed hflush, ?_⟩
    intro hpending
    obtain rfl : flow = .ret .pending := by
      cases flow <;> cases hpending
      rfl
    obtain ⟨es, hes, hput⟩ := putOff_of_step hcopy
    obtain ⟨call, hcall⟩ := ha.begun
    refine ⟨call ++ es, ?_, hput.append⟩
    rw [← List.append_assoc, hcall]
    exact hes
  | returned result =>
    obtain rfl := Option.some.inj h
    exact ⟨⟨p, hp⟩, List.prefix_refl _, ha.flushed, fun hpending => nomatch hpending⟩
  | panicked q => cases h

theorem kept_of_reach {reader : R} {writer : W} {bufSize : UInt64} {direction : Direction}
    {c : CopyCalls R W}
    (h : Reach (Next CopyCalls.next) (.start bufSize direction reader writer) c) :
    c.Kept bufSize.toNat := by
  refine h.invariant (fun _ _ => kept_of_next) ⟨?_, List.prefix_refl _, ?_, ?_⟩
  · exact ⟨.empty, relays_new bufSize direction⟩
  · intro _ before e after heq
    simp [CopyCalls.start, CopyRun.start] at heq
  · exact fun hpending => nomatch hpending

/-- Whenever `poll_copy` returns `Pending`, a stream was pending in this call, and if the
writer was not, then the last read was, and nothing is left to write or to flush. -/
theorem pollCopy_pending (reader : R) (writer : W) (bufSize : UInt64) (direction : Direction)
    (c : CopyCalls R W)
    (h : Reach (Next CopyCalls.next) (.start bufSize direction reader writer) c)
    (hpending : c.run.pc = .returned .pending) :
    ∃ call, c.run.io.trace = c.before ++ call ∧ (∃ e ∈ call, streamPending e = true) ∧
      ((∃ e ∈ call, writerPending e = true) ∨
        (ReadStalled call ∧ c.run.me.pos = c.run.me.cap ∧ Flushed c.run.io.trace)) := by
  have hkept := kept_of_reach h
  obtain ⟨call, hcall, hput⟩ := hkept.putOff hpending
  refine ⟨call, hcall, ?_⟩
  rcases hput with ⟨e, he, hstall⟩ | ⟨hstalled, hempty, hneed⟩
  · exact ⟨⟨e, he, by simp [streamPending, hstall]⟩, Or.inl ⟨e, he, hstall⟩⟩
  · have hread : Event.read .pending ∈ call :=
      (List.mem_filter.mp (List.mem_of_getLast? hstalled)).1
    exact ⟨⟨_, hread, rfl⟩, Or.inr ⟨hstalled, hempty, hkept.flushed hneed⟩⟩

end Calls

/-- Two bytes are relayed and flushed, and then the reader is pending. -/
def caughtUp : CopyCalls Script Script :=
  runFor CopyCalls.next 6 (.start 3 .Request ⟨[.ok [72, 105], .pending], [], [], []⟩
    ⟨[], [.ok 1, .ok 1], [.ok ()], []⟩)

theorem pollCopy_pending_caughtUp :
    ∃ call, caughtUp.run.io.trace = caughtUp.before ++ call ∧
      (∃ e ∈ call, streamPending e = true) ∧
      ((∃ e ∈ call, writerPending e = true) ∨
        (ReadStalled call ∧ caughtUp.run.me.pos = caughtUp.run.me.cap ∧
          Flushed caughtUp.run.io.trace)) :=
  pollCopy_pending _ _ 3 .Request caughtUp (reach_runFor _ 6 _) (by decide)

end AppComponts
