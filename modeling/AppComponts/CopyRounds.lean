import AppComponts.CopyRelay
import AppComponts.Library.Overlay

/-!
# The rounds of the copy buffer

`poll_copy` starts its buffer over when all of it is written. So what the reader hands out
falls into rounds, each written over what those before it have left there, and the calls on
the two streams alone say what the buffer shows.
-/

namespace AppComponts
open AsyncIo Transition Overlay
set_option autoImplicit false

universe u v
variable {R : Type u} {W : Type v}

/-- What was read in each round, the newest first, and how much of it is not yet written. -/
structure Rounds where
  layers : List (List UInt8)
  unwritten : Nat
  deriving DecidableEq

/-- Bytes that are read when all is written start a round. -/
def Rounds.after (r : Rounds) (e : Event) : Rounds where
  layers :=
    if e.produced = [] then r.layers
    else if r.unwritten = 0 then e.produced :: r.layers
    else (r.layers.headD [] ++ e.produced) :: r.layers.tail
  unwritten := r.unwritten + e.produced.length - e.accepted.length

def rounds (trace : List Event) : Rounds := trace.foldl .after ⟨[], 0⟩

section Rounds
variable {r : Rounds} {e : Event} {trace es : List Event} {bytes slice : List UInt8} {i : Nat}

theorem Rounds.after_quiet (hproduced : e.produced = []) (haccepted : e.accepted = []) :
    r.after e = r := by
  simp [after, hproduced, haccepted]

@[simp] theorem rounds_concat (trace : List Event) (e : Event) :
    rounds (trace ++ [e]) = (rounds trace).after e := by
  simp [rounds]

theorem rounds_append_silent (h : ∀ e ∈ es, Silent e) : rounds (trace ++ es) = rounds trace := by
  induction es generalizing trace with
  | nil => rw [List.append_nil]
  | cons e es ih =>
    have he := h e List.mem_cons_self
    rw [List.append_cons, ih fun x hx => h x (List.mem_cons_of_mem e hx), rounds_concat]
    exact Rounds.after_quiet he.produced he.accepted

theorem Rounds.after_write (hi : i ≤ slice.length) : r.after (.write slice (.ok i)) =
    { r with unwritten := r.unwritten - i } := by
  simp [after, Event.produced, Event.accepted, Nat.min_eq_left hi]

theorem Rounds.after_first (hr : r.unwritten = 0) (hbytes : bytes ≠ []) :
    r.after (.read (.ok bytes)) = ⟨bytes :: r.layers, bytes.length⟩ := by
  simp [after, Event.produced, Event.accepted, hr, hbytes]

theorem Rounds.after_more {layer : List UInt8} {layers : List (List UInt8)}
    (hr : r.unwritten ≠ 0) (hlayers : r.layers = layer :: layers) (hbytes : bytes ≠ []) :
    r.after (.read (.ok bytes)) =
      ⟨(layer ++ bytes) :: layers, r.unwritten + bytes.length⟩ := by
  simp [after, Event.produced, Event.accepted, hr, hlayers, hbytes]

end Rounds

/-- The buffer at a point of `poll_copy`, against the rounds behind it. -/
structure Rounded (bound : Nat) (point : CopyPoint) (me : CopyBuffer) (r : Rounds) : Prop where
  shown : me.buf = overlay (List.replicate bound 0) r.layers
  unwritten : r.unwritten = me.cap - me.pos
  newest : me.pos < me.cap → ∃ layer layers, r.layers = layer :: layers ∧ layer.length = me.cap
  fresh : point = .loopHead → me.pos = me.cap → me.cap = 0

section Window
variable {bound : Nat} {point point' : CopyPoint} {me : CopyBuffer} {r : Rounds}
  {bytes : List UInt8} {i : Nat}

theorem rounded_new (bufSize : UInt64) (direction : Direction) :
    Rounded bufSize.toNat .loopHead (.new bufSize direction) (rounds []) where
  shown := rfl
  unwritten := rfl
  newest h := (Nat.lt_irrefl _ h).elim
  fresh _ _ := rfl

/-- A read goes behind the bytes of its round, or starts one on an empty window. -/
theorem rounded_fill (h : Rounded bound point me r) (hfits : me.Fits)
    (hplace : point = .loopHead ∨ me.pos < me.cap)
    (hpoint : point' = .loopHead → me.pos < me.cap) :
    Rounded bound point' (me.fill bytes) (r.after (.read (.ok bytes))) := by
  have hle := hfits.1
  have hunwritten := h.unwritten
  have hshown : (me.fill bytes).buf = patch me.buf me.cap bytes := rfl
  have hcap : (me.fill bytes).cap = me.cap + bytes.length := rfl
  have hpos : (me.fill bytes).pos = me.pos := rfl
  have hfresh : point' = .loopHead → (me.fill bytes).pos = (me.fill bytes).cap →
      (me.fill bytes).cap = 0 := by
    intro hhead heq
    have hlt := hpoint hhead
    omega
  by_cases hbytes : bytes = []
  · subst hbytes
    rw [Rounds.after_quiet rfl rfl]
    rw [List.length_nil, Nat.add_zero] at hcap
    refine ⟨?_, by omega, ?_, hfresh⟩
    · rw [hshown, patch_nil, h.shown]
    · rw [hcap, hpos]
      exact h.newest
  by_cases hlt : me.pos < me.cap
  · obtain ⟨layer, layers, hlayers, hlength⟩ := h.newest hlt
    rw [Rounds.after_more (by omega) hlayers hbytes]
    refine ⟨?_, by dsimp only; omega, fun _ => ⟨_, _, rfl, ?_⟩, hfresh⟩
    · rw [hshown, overlay_append, ← hlayers, ← h.shown, hlength]
    · rw [List.length_append, hlength, hcap]
  · have hzero : me.cap = 0 := h.fresh (hplace.resolve_right hlt) (by omega)
    rw [Rounds.after_first (by omega) hbytes]
    refine ⟨?_, by dsimp only; omega, fun _ => ⟨_, _, rfl, ?_⟩, hfresh⟩
    · rw [hshown, overlay_cons, ← h.shown, hzero]
    · rw [hcap, hzero, Nat.zero_add]

theorem rounded_advance (h : Rounded bound point me r) (hi : i ≤ me.unsent.length) :
    Rounded bound .whileHead (me.advance i) (r.after (.write me.unsent (.ok i))) := by
  have hpos : (me.advance i).pos = me.pos + i := rfl
  have hcap : (me.advance i).cap = me.cap := rfl
  have hunwritten := h.unwritten
  rw [Rounds.after_write hi]
  refine ⟨h.shown, by dsimp only; omega, ?_, fun hhead => nomatch hhead⟩
  intro hlt
  exact h.newest (by omega)

theorem rounded_reset (h : Rounded bound point me r) (hdrained : me.pos = me.cap) :
    Rounded bound point' me.reset r where
  shown := h.shown
  unwritten := by
    rw [h.unwritten, hdrained, Nat.sub_self]
    rfl
  newest hlt := (Nat.lt_irrefl 0 hlt).elim
  fresh _ _ := rfl

theorem Rounded.same (h : Rounded bound point me r)
    (hpoint : point' = .loopHead → point = .loopHead ∨ me.pos < me.cap) :
    Rounded bound point' me r := by
  refine ⟨h.shown, h.unwritten, h.newest, ?_⟩
  intro hhead heq
  rcases hpoint hhead with hloop | hlt
  · exact h.fresh hloop heq
  · omega

end Window

section Step
variable [AsyncRead R] [AsyncWrite W] {bound : Nat}
variable {point : CopyPoint} {me me' : CopyBuffer} {io io' : Io R W} {flow : CopyFlow}

theorem rounded_of_step (hfits : me.Fits) (hdrained : point = .afterWhile → me.pos = me.cap)
    (hr : Rounded bound point me (rounds io.trace)) (h : CopyStep point me io flow me' io') :
    Rounded bound flow.toAt.point me' (rounds io'.trace) := by
  cases h with
  | skip hw => exact hr.same fun hhead => nomatch hhead
  | emptied hp => exact hr.same fun hhead => nomatch hhead
  | again hd => exact rounded_reset hr (hdrained rfl)
  | fill hw hread =>
    rw [Io.pollRead_trace hread, rounds_concat]
    exact rounded_fill hr hfits (Or.inl rfl) fun hhead => nomatch hhead
  | topUp hp hs hw hread =>
    rw [Io.pollRead_trace hread, Io.pollWrite_trace hs, rounds_concat,
      rounds_append_silent (by simp)]
    exact rounded_fill hr hfits (Or.inr hp) fun _ => hp
  | write hp hs hi =>
    rw [Io.pollWrite_trace hs, rounds_concat]
    exact rounded_advance hr (Io.pollWrite_length hs)
  | readErr hw hread =>
    rw [Io.pollRead_trace hread, rounds_append_silent (by simp)]
    exact hr
  | readStall hw hread hne =>
    rw [Io.pollRead_trace hread, rounds_append_silent (by simp)]
    exact hr.same fun hhead => nomatch hhead
  | idle hw hread he hf =>
    rw [Io.pollRead_trace hread, rounds_append_silent (by simp)]
    exact hr
  | idleFlush hw hread he hf hs =>
    rw [Io.pollFlush_trace hs, Io.pollRead_trace hread, List.append_assoc,
      rounds_append_silent (by simp)]
    exact ⟨hr.shown, hr.unwritten, hr.newest, hr.fresh⟩
  | idleFlushStall hw hread he hf hs =>
    rw [Io.pollFlush_trace hs, Io.pollRead_trace hread, List.append_assoc,
      rounds_append_silent (by simp)]
    exact hr
  | idleFlushErr hw hread he hf hs =>
    rw [Io.pollFlush_trace hs, Io.pollRead_trace hread, List.append_assoc,
      rounds_append_silent (by simp)]
    exact hr
  | writeZero hp hs =>
    rw [Io.pollWrite_trace hs, rounds_append_silent (by simp)]
    exact hr.same fun _ => Or.inr hp
  | writeErr hp hs =>
    rw [Io.pollWrite_trace hs, rounds_append_silent (by simp)]
    exact hr.same fun _ => Or.inr hp
  | writeStall hp hs hw =>
    rw [Io.pollWrite_trace hs, rounds_append_silent (by simp)]
    exact hr.same fun _ => Or.inr hp
  | topUpStall hp hs hw hread =>
    rw [Io.pollRead_trace hread, Io.pollWrite_trace hs, List.append_assoc,
      rounds_append_silent (by simp)]
    exact hr.same fun _ => Or.inr hp
  | topUpErr hp hs hw hread =>
    rw [Io.pollRead_trace hread, Io.pollWrite_trace hs, List.append_assoc,
      rounds_append_silent (by simp)]
    exact hr.same fun _ => Or.inr hp
  | finish hd hs =>
    rw [Io.pollFlush_trace hs, rounds_append_silent (by simp)]
    exact rounded_reset hr (hdrained rfl)
  | finishStall hd hs =>
    rw [Io.pollFlush_trace hs, rounds_append_silent (by simp)]
    exact rounded_reset hr (hdrained rfl)
  | finishErr hd hs =>
    rw [Io.pollFlush_trace hs, rounds_append_silent (by simp)]
    exact rounded_reset hr (hdrained rfl)

end Step

end AppComponts
