import AppComponts.TransferService
import AppComponts.TunnelRelay

/-!
# The tunnel resolves

On two ends in service the future of the tunnel can be polled to its end. It resolves with
both tallies exactly if no capture panics, and both streams have then been passed on whole.
-/

namespace AppComponts
open AsyncIo Rust Transition Text
set_option autoImplicit false

universe u v
variable {A : Type u} {B : Type v}

abbrev LexLt : Nat × Nat × Nat × Nat × Nat → Nat × Nat × Nat × Nat × Nat → Prop :=
  Prod.Lex (· < ·) (Prod.Lex (· < ·) (Prod.Lex (· < ·) (Prod.Lex (· < ·) (· < ·))))

theorem lexLt_wf : WellFounded LexLt :=
  (Prod.lex Nat.lt_wfRel (Prod.lex Nat.lt_wfRel (Prod.lex Nat.lt_wfRel
    (Prod.lex Nat.lt_wfRel Nat.lt_wfRel)))).wf

def BidirectionalAt.Open : BidirectionalAt → Prop
  | .aToB => True
  | .bToA _ => True
  | .returned .pending => True
  | _ => False

namespace Bidirectional

def Resolved (s : Bidirectional A B) : Prop := ∃ x y, s.pc = .returned (.ok (x, y))

/-- The steps before the next call on a stream. While one transfer only tells its tally again
the other one is to make the next call. -/
def detour (s : Bidirectional A B) : Nat :=
  match s.pc with
  | .aToB => s.aToB.pc.detour + if s.aToB.pc.phase = 0 then s.bToA.pc.detour + 20 else 0
  | .bToA _ => s.bToA.pc.detour + if s.bToA.pc.phase = 0 then s.aToB.pc.detour + 10 else 0
  | .returned _ =>
    1 + s.aToB.pc.detour + if s.aToB.pc.phase = 0 then s.bToA.pc.detour + 20 else 0
  | .panicked _ => 0

end Bidirectional

section After
variable {pc : TransferAt}

theorem open_afterAToB (herr : ∀ state e, pc ≠ .returned state (.err e))
    (hpanic : ∀ p, pc ≠ .panicked p) : (afterAToB pc).Open := by
  cases pc with
  | returned state result =>
    cases result with
    | err e => exact (herr state e rfl).elim
    | _ => trivial
  | panicked p => exact (hpanic p rfl).elim
  | _ => trivial

theorem open_afterBToA (herr : ∀ state e, pc ≠ .returned state (.err e))
    (hpanic : ∀ p, pc ≠ .panicked p) (aToB : Option Tally) :
    (∃ x y, afterBToA aToB pc = .returned (.ok (x, y))) ∨ (afterBToA aToB pc).Open := by
  cases pc with
  | returned state result =>
    cases result with
    | err e => exact (herr state e rfl).elim
    | pending =>
      refine Or.inr ?_
      cases aToB <;> trivial
    | ok y =>
      cases aToB with
      | none => exact Or.inr trivial
      | some x => exact Or.inl ⟨x, y, rfl⟩
  | panicked p => exact (hpanic p rfl).elim
  | _ => exact Or.inr trivial

theorem afterAToB_inside (hpanic : ∀ p, pc ≠ .panicked p)
    (hinside : ∀ state result, pc ≠ .returned state result) : afterAToB pc = .aToB := by
  cases pc with
  | returned state result => exact (hinside state result rfl).elim
  | panicked p => exact (hpanic p rfl).elim
  | _ => rfl

theorem afterBToA_inside (hpanic : ∀ p, pc ≠ .panicked p)
    (hinside : ∀ state result, pc ≠ .returned state result) (aToB : Option Tally) :
    afterBToA aToB pc = .bToA aToB := by
  cases pc with
  | returned state result => exact (hinside state result rfl).elim
  | panicked p => exact (hpanic p rfl).elim
  | _ => rfl

end After

theorem phase_pos {pc : TransferAt} {state : TransferState} {result : Poll Tally}
    (htruthful : Truthful pc) (hpc : pc = .returned state result)
    (hresult : ∀ x, result ≠ .ok x) : 0 < pc.phase := by
  subst hpc
  cases state with
  | running buf =>
    simp only [TransferAt.phase, TransferAt.state?]
    split <;> omega
  | shuttingDown count rawData => exact Nat.zero_lt_one
  | done count rawData =>
    exact (hresult _ ((htruthful _ _ rfl (count, rawData)).mpr rfl)).elim

namespace Bidirectional
section Service
variable [CaseTables] [AsyncRead A] [AsyncWrite A] [AsyncRead B] [AsyncWrite B]

structure Capturable (s : Bidirectional A B) : Prop where
  aToB : s.pc = .aToB → s.aToBTransfer.Capturable
  bToA : ∀ aToB, s.pc = .bToA aToB → s.bToATransfer.Capturable

variable (sA : Serves A) (sB : Serves B)

def rank (s : Bidirectional A B) : Nat × Nat × Nat × Nat × Nat :=
  (s.aToB.pc.phase + s.bToA.pc.phase, sA.input s.a + sB.input s.b,
    s.aToB.pc.held + s.bToA.pc.held, sA.patience s.a + sB.patience s.b, s.detour)

/-- A future of the tunnel on two ends in service that has not resolved. -/
structure InService (a : A) (b : B) (aToBBufSize bToABufSize : UInt64)
    (s : Bidirectional A B) : Prop where
  reached : Reach (Next next) (copyBidirectionalWithSizes a b aToBBufSize bToABufSize) s
  goodA : sA.good s.a
  goodB : sB.good s.b
  sound : ∀ direction p, (s.side direction).pc ≠ .panicked p
  unfailed : ∀ direction kind, ¬ FailedWith kind (s.side direction).trace
  running : s.pc.Open

variable {sA sB} {a : A} {b : B} {aToBBufSize bToABufSize : UInt64} {s u : Bidirectional A B}

omit [CaseTables] in
theorem rank_lt_of_aToB {t : Transfer A B} (hprogress : TransferProgress sA sB s.aToBTransfer t)
    (hpanic : ∀ p, t.pc ≠ .panicked p) (hpc : s.pc = .aToB) (hu : u.pc = afterAToB t.pc)
    (ha : u.a = t.io.reader) (hb : u.b = t.io.writer) (haToB : u.aToB = t.side)
    (hbToA : u.bToA = s.bToA) : LexLt (u.rank sA sB) (s.rank sA sB) := by
  simp only [LexLt, rank, Prod.lex_def, ha, hb, haToB, hbToA, Transfer.side]
  cases hprogress with
  | phase hlt =>
    simp only [aToBTransfer] at hlt
    omega
  | got hphase hlt =>
    simp only [aToBTransfer, inputs] at hphase hlt
    omega
  | sent hphase hinputs hlt =>
    simp only [aToBTransfer, inputs] at hphase hinputs hlt
    omega
  | waited hphase hinputs hheld hlt =>
    simp only [aToBTransfer, inputs, patience] at hphase hinputs hheld hlt
    omega
  | went hphase hio hheld hlt hinside =>
    have hstays := afterAToB_inside hpanic fun state result h => hinside ⟨state, result, h⟩
    rw [hio]
    simp only [aToBTransfer, true_and] at hphase hheld hlt ⊢
    have hdetour : u.detour < s.detour := by
      simp only [detour, hpc, hu, hstays, haToB, hbToA, Transfer.side, hphase]
      omega
    omega
  | @told count rawData hio hpc' ht =>
    rw [hio]
    simp only [aToBTransfer] at hpc' ⊢
    have hdetour : u.detour < s.detour := by
      simp only [detour, hpc, hu, ht, haToB, hbToA, Transfer.side, hpc', afterAToB,
        questionMark, phase_loopHead_done, detour_loopHead_done, detour_returned_done, if_true]
      split <;> omega
    simp only [hpc', ht, phase_loopHead_done, phase_returned_done, held_loopHead_done,
      held_returned_done, true_and]
    omega

omit [CaseTables] in
theorem rank_lt_of_bToA {t : Transfer B A} {aToB : Option Tally}
    (hprogress : TransferProgress sB sA s.bToATransfer t) (hpanic : ∀ p, t.pc ≠ .panicked p)
    (hpc : s.pc = .bToA aToB) (hu : u.pc = afterBToA aToB t.pc)
    (hheldBack : aToB = none → 0 < s.aToB.pc.phase) (hopen : ¬ u.Resolved)
    (ha : u.a = t.io.writer) (hb : u.b = t.io.reader) (haToB : u.aToB = s.aToB)
    (hbToA : u.bToA = t.side) : LexLt (u.rank sA sB) (s.rank sA sB) := by
  simp only [LexLt, rank, Prod.lex_def, ha, hb, haToB, hbToA, Transfer.side]
  cases hprogress with
  | phase hlt =>
    simp only [bToATransfer] at hlt
    omega
  | got hphase hlt =>
    simp only [bToATransfer, inputs] at hphase hlt
    omega
  | sent hphase hinputs hlt =>
    simp only [bToATransfer, inputs] at hphase hinputs hlt
    omega
  | waited hphase hinputs hheld hlt =>
    simp only [bToATransfer, inputs, patience] at hphase hinputs hheld hlt
    omega
  | went hphase hio hheld hlt hinside =>
    have hstays := afterBToA_inside hpanic (fun state result h => hinside ⟨state, result, h⟩) aToB
    rw [hio]
    simp only [bToATransfer, true_and] at hphase hheld hlt ⊢
    have hdetour : u.detour < s.detour := by
      simp only [detour, hpc, hu, hstays, haToB, hbToA, Transfer.side, hphase]
      omega
    omega
  | @told count rawData hio hpc' ht =>
    rw [hio]
    simp only [bToATransfer] at hpc' ⊢
    cases aToB with
    | some x =>
      refine (hopen ⟨x, (count, rawData), ?_⟩).elim
      rw [hu, ht]
      rfl
    | none =>
      have hpos := hheldBack rfl
      have hdetour : u.detour < s.detour := by
        simp only [detour, hpc, hu, ht, haToB, hbToA, Transfer.side, hpc', afterBToA,
          questionMark, bothReady, phase_loopHead_done, detour_loopHead_done, if_true]
        split <;> omega
      simp only [hpc', ht, phase_loopHead_done, phase_returned_done, held_loopHead_done,
        held_returned_done, true_and]
      omega

/-- What the first transfer is waiting for keeps it from its end. -/
theorem phase_pos_of_held
    (h : Reach (Next next) (copyBidirectionalWithSizes a b aToBBufSize bToABufSize) s)
    (hpc : s.pc = .bToA none) : 0 < s.aToB.pc.phase := by
  have htold := told_of_reach h
  obtain ⟨result, hreports, hmark⟩ : ∃ result, s.reports = [(.Request, result)] ∧
      questionMark result = .ok none := by
    have h := htold.told
    rw [hpc] at h
    exact h
  obtain ⟨state, hstate⟩ := htold.reported .Request result (by simp [hreports])
  refine phase_pos (kept_of_reach h).1.truthful hstate ?_
  intro x hx
  rw [hx] at hmark
  cases hmark

theorem poll_in_service (hs : InService sA sB a b aToBBufSize bToABufSize s)
    (hpc : s.pc = .returned .pending) :
    ∃ u, Next next s u ∧ InService sA sB a b aToBBufSize bToABufSize u ∧
      LexLt (u.rank sA sB) (s.rank sA sB) := by
  have hnext : s.next = some { s with pc := .aToB, reports := [] } := by
    simp only [next, hpc]
  have hdetour : detour { s with pc := .aToB, reports := [] } < s.detour := by
    simp only [detour, hpc]
    omega
  refine ⟨_, hnext, ⟨hs.reached.tail hnext, hs.goodA, hs.goodB, ?_, ?_, trivial⟩, ?_⟩
  · intro direction
    cases direction with
    | Request => exact hs.sound .Request
    | Response => exact hs.sound .Response
  · intro direction
    cases direction with
    | Request => exact hs.unfailed .Request
    | Response => exact hs.unfailed .Response
  · simp only [LexLt, rank, Prod.lex_def, true_and]
    omega

theorem aToB_in_service (hsize : 0 < aToBBufSize.toNat)
    (hs : InService sA sB a b aToBBufSize bToABufSize s) (hpc : s.pc = .aToB)
    (hcap : s.aToBTransfer.Capturable) :
    ∃ u, Next next s u ∧ InService sA sB a b aToBBufSize bToABufSize u ∧
      LexLt (u.rank sA sB) (s.rank sA sB) := by
  have hkept : s.aToBTransfer.Sound aToBBufSize.toNat := (kept_of_reach hs.reached).1.sound
  obtain ⟨t, ht⟩ := exists_next (t := s.aToBTransfer) (hs.sound .Request)
  obtain ⟨hgood, herr, hfailed, hprogress⟩ :=
    transfer_in_service hsize hkept hcap ⟨hs.goodA, hs.goodB⟩ ht
  have hpanic := not_panicked_of_next hkept hcap ht
  have hnext : s.next = some { s with
      pc := afterAToB t.pc, a := t.io.reader, b := t.io.writer, aToB := t.side
      reports := s.reports ++ report .Request t.pc } := by
    simp only [next, hpc, ht]
    rfl
  refine ⟨_, hnext, ?_, rank_lt_of_aToB hprogress hpanic hpc rfl rfl rfl rfl rfl⟩
  refine ⟨hs.reached.tail hnext, hgood.reader, hgood.writer, ?_, ?_, open_afterAToB herr hpanic⟩
  · intro direction
    cases direction with
    | Request => exact hpanic
    | Response => exact hs.sound .Response
  · intro direction kind
    cases direction with
    | Request => exact fun h => hs.unfailed .Request kind (hfailed kind h)
    | Response => exact hs.unfailed .Response kind

theorem bToA_in_service (hsize : 0 < bToABufSize.toNat)
    (hs : InService sA sB a b aToBBufSize bToABufSize s) {aToB : Option Tally}
    (hpc : s.pc = .bToA aToB) (hcap : s.bToATransfer.Capturable) :
    ∃ u, Next next s u ∧
      ((u.Resolved ∧ ∀ direction kind, ¬ FailedWith kind (u.side direction).trace) ∨
        InService sA sB a b aToBBufSize bToABufSize u ∧
          LexLt (u.rank sA sB) (s.rank sA sB)) := by
  have hkept : s.bToATransfer.Sound bToABufSize.toNat := (kept_of_reach hs.reached).2.sound
  obtain ⟨t, ht⟩ := exists_next (t := s.bToATransfer) (hs.sound .Response)
  obtain ⟨hgood, herr, hfailed, hprogress⟩ :=
    transfer_in_service hsize hkept hcap ⟨hs.goodB, hs.goodA⟩ ht
  have hpanic := not_panicked_of_next hkept hcap ht
  have hnext : s.next = some { s with
      pc := afterBToA aToB t.pc, a := t.io.writer, b := t.io.reader, bToA := t.side
      reports := s.reports ++ report .Response t.pc } := by
    simp only [next, hpc, ht]
    rfl
  have hunfailed (direction : Direction) (kind : ErrorKind) : ¬ FailedWith kind
      (side { s with
        pc := afterBToA aToB t.pc, a := t.io.writer, b := t.io.reader, bToA := t.side
        reports := s.reports ++ report .Response t.pc } direction).trace := by
    cases direction with
    | Request => exact hs.unfailed .Request kind
    | Response => exact fun h => hs.unfailed .Response kind (hfailed kind h)
  refine ⟨_, hnext, ?_⟩
  by_cases hresolved : ∃ x y, afterBToA aToB t.pc = .returned (.ok (x, y))
  · exact Or.inl ⟨hresolved, hunfailed⟩
  · have hopen := (open_afterBToA herr hpanic aToB).resolve_left hresolved
    refine Or.inr ⟨⟨hs.reached.tail hnext, hgood.writer, hgood.reader, ?_, hunfailed, hopen⟩, ?_⟩
    · intro direction
      cases direction with
      | Request => exact hs.sound .Request
      | Response => exact hpanic
    · refine rank_lt_of_bToA hprogress hpanic hpc rfl ?_ hresolved rfl rfl rfl rfl
      intro hnone
      exact phase_pos_of_held hs.reached (hnone ▸ hpc)

/-- A step of a future in service resolves it, or brings it nearer to that. -/
theorem step_in_service (hsizeA : 0 < aToBBufSize.toNat) (hsizeB : 0 < bToABufSize.toNat)
    (hs : InService sA sB a b aToBBufSize bToABufSize s) (hcap : s.Capturable) :
    ∃ u, Next next s u ∧
      ((u.Resolved ∧ ∀ direction kind, ¬ FailedWith kind (u.side direction).trace) ∨
        InService sA sB a b aToBBufSize bToABufSize u ∧
          LexLt (u.rank sA sB) (s.rank sA sB)) := by
  have hopen := hs.running
  cases hpc : s.pc with
  | panicked p =>
    rw [hpc] at hopen
    exact hopen.elim
  | returned result =>
    cases result with
    | ok x =>
      rw [hpc] at hopen
      exact hopen.elim
    | err e =>
      rw [hpc] at hopen
      exact hopen.elim
    | pending =>
      obtain ⟨u, hnext, hu⟩ := poll_in_service hs hpc
      exact ⟨u, hnext, Or.inr hu⟩
  | aToB =>
    obtain ⟨u, hnext, hu⟩ := aToB_in_service hsizeA hs hpc (hcap.aToB hpc)
    exact ⟨u, hnext, Or.inr hu⟩
  | bToA aToB => exact bToA_in_service hsizeB hs hpc (hcap.bToA aToB hpc)

theorem inService_start (hgoodA : sA.good a) (hgoodB : sB.good b) :
    InService sA sB a b aToBBufSize bToABufSize
      (copyBidirectionalWithSizes a b aToBBufSize bToABufSize) where
  reached := .refl
  goodA := hgoodA
  goodB := hgoodB
  sound direction p := by cases direction <;> exact fun h => nomatch h
  unfailed direction kind h := by
    obtain ⟨event, hmem, _⟩ := h
    cases direction <;> cases hmem
  running := trivial

/-- A poll panics where the capture fails. -/
theorem panics_of_not_capturable
    (h : Reach (Next next) (copyBidirectionalWithSizes a b aToBBufSize bToABufSize) s)
    (hcap : ¬ s.Capturable) : ∃ u p, s.next = some u ∧ u.pc = .panicked p := by
  obtain ⟨haToB, hbToA⟩ := kept_of_reach h
  have hsoundA : s.aToBTransfer.Sound aToBBufSize.toNat := haToB.sound
  have hsoundB : s.bToATransfer.Sound bToABufSize.toNat := hbToA.sound
  cases hpc : s.pc with
  | aToB =>
    have hnot : ¬ s.aToBTransfer.Capturable := by
      intro hok
      refine hcap ⟨fun _ => hok, fun _ h => ?_⟩
      rw [hpc] at h
      cases h
    obtain ⟨t, p, ht, hp⟩ := transfer_panics hsoundA hnot
    refine ⟨_, p, by simp only [next, hpc, ht]; rfl, ?_⟩
    simp only [hp, afterAToB]
  | bToA aToB =>
    have hnot : ¬ s.bToATransfer.Capturable := by
      intro hok
      refine hcap ⟨fun h => ?_, fun _ _ => hok⟩
      rw [hpc] at h
      cases h
    obtain ⟨t, p, ht, hp⟩ := transfer_panics hsoundB hnot
    refine ⟨_, p, by simp only [next, hpc, ht]; rfl, ?_⟩
    simp only [hp, afterBToA]
  | returned result =>
    refine (hcap ⟨fun h => ?_, fun _ h => ?_⟩).elim
    · rw [hpc] at h
      cases h
    · rw [hpc] at h
      cases h
  | panicked p =>
    refine (hcap ⟨fun h => ?_, fun _ h => ?_⟩).elim
    · rw [hpc] at h
      cases h
    · rw [hpc] at h
      cases h

/-- A future that resolves has met no failing capture. -/
theorem capturable_of_resolved {c : Bidirectional A B}
    (hs : Reach (Next next) (copyBidirectionalWithSizes a b aToBBufSize bToABufSize) s)
    (hresolved : s.Resolved)
    (hc : Reach (Next next) (copyBidirectionalWithSizes a b aToBBufSize bToABufSize) c) :
    c.Capturable := by
  obtain ⟨x, y, hpc⟩ := hresolved
  apply Classical.byContradiction
  intro hcap
  obtain ⟨u, p, hnext, hu⟩ := panics_of_not_capturable hc hcap
  have hhalted : s.next = none := by simp only [next, hpc]
  have hdead : u.next = none := by simp only [next, hu]
  have hreach := hc.tail (show Next next c u from hnext)
  -- the runs of a machine are linear, and both ends are final
  obtain rfl := reach_halted_unique hs hreach hhalted hdead
  rw [hpc] at hu
  cases hu

end Service
end Bidirectional

section Resolves
variable [CaseTables] [AsyncRead A] [AsyncWrite A] [AsyncRead B] [AsyncWrite B]

/-- On two ends in service and with buffers that are not empty, the future comes to its
tallies exactly if each capture it meets succeeds, and then both streams have been passed on
from their first byte to their end. -/
theorem tunnel_resolves_iff (sA : Serves A) (sB : Serves B) (a : A) (b : B)
    (hgoodA : sA.good a) (hgoodB : sB.good b) (aToBBufSize bToABufSize : UInt64)
    (hsizeA : 0 < aToBBufSize.toNat) (hsizeB : 0 < bToABufSize.toNat) :
    (∃ s, Reach (Next Bidirectional.next)
        (copyBidirectionalWithSizes a b aToBBufSize bToABufSize) s ∧ s.Resolved ∧
        WholeStream s.aToB.trace ∧ WholeStream s.bToA.trace) ↔
      ∀ s, Reach (Next Bidirectional.next)
        (copyBidirectionalWithSizes a b aToBBufSize bToABufSize) s → s.Capturable := by
  constructor
  · intro h c hc
    obtain ⟨s, hs, hresolved, _⟩ := h
    exact Bidirectional.capturable_of_resolved hs hresolved hc
  · intro hcap
    have hstep (s : Bidirectional A B)
        (hs : Bidirectional.InService sA sB a b aToBBufSize bToABufSize s) :
        ∃ u, Next Bidirectional.next s u ∧
          ((u.Resolved ∧ ∀ direction kind, ¬ FailedWith kind (u.side direction).trace) ∨
            Bidirectional.InService sA sB a b aToBBufSize bToABufSize u ∧
              (LexLt (u.rank sA sB) (s.rank sA sB) ∨
                (∀ x, LexLt x (u.rank sA sB) → LexLt x (s.rank sA sB)) ∧ 0 < 0)) := by
      obtain ⟨u, hsu, hgoal | ⟨hu, hlt⟩⟩ :=
        Bidirectional.step_in_service hsizeA hsizeB hs (hcap s hs.reached)
      · exact ⟨u, hsu, Or.inl hgoal⟩
      · exact ⟨u, hsu, Or.inr ⟨hu, Or.inl hlt⟩⟩
    obtain ⟨s, hreach, hresolved, hunfailed⟩ :=
      exists_reach_of_rank (Bidirectional.rank sA sB) (fun _ => 0) hstep _ (lexLt_wf.apply _)
        (Bidirectional.inService_start hgoodA hgoodB)
    obtain ⟨x, y, hpc⟩ := hresolved
    refine ⟨s, hreach, ⟨x, y, hpc⟩, ?_, ?_⟩
    · exact (wholeStream_of_resolved hreach hpc .Request).resolve_right (hunfailed .Request _)
    · exact (wholeStream_of_resolved hreach hpc .Response).resolve_right (hunfailed .Response _)

end Resolves

/-- A request and an answer between two ends that are pending now and then. -/
def servedEnds : Bidirectional Peer Peer :=
  copyBidirectionalWithSizes ⟨[none, some (Utf8.encode "GET / v\nHost: a\n\n".toList)], 1⟩
    ⟨[some [104], none, some [105]], 1⟩ 20 20

def servedEnd : Bidirectional Peer Peer :=
  runFor (@Bidirectional.next _ _ asciiTables _ _ _ _) 40 servedEnds

theorem tunnel_resolves_servedEnds :
    servedEnd.pc = .returned (.ok ((17, "GET / v\nHost: a\n\n".toList), (2, "hi".toList))) ∧
      ∀ s, Reach (Next (@Bidirectional.next _ _ asciiTables _ _ _ _)) servedEnds s →
        @Bidirectional.Capturable _ _ asciiTables _ _ s :=
  ⟨by decide, (@tunnel_resolves_iff _ _ asciiTables _ _ _ _ Peer.serves Peer.serves _ _ trivial
    trivial 20 20 (by decide) (by decide)).mp
      ⟨servedEnd, reach_runFor _ 40 servedEnds,
        ⟨(17, "GET / v\nHost: a\n\n".toList), (2, "hi".toList), by decide⟩,
        ⟨by decide, by decide, by decide⟩, ⟨by decide, by decide, by decide⟩⟩⟩

end AppComponts
