import AppComponts.Capture
import AppComponts.CopyReturns
import AppComponts.CopyRounds

/-!
# Panics of the tunnel

Every poll of a transfer returns when the stream is finite, and the one place where it may
panic is the capture behind a finished copy. Whether it does is decided by the rounds in which
the stream was read: their bytes lie over each other in the buffer that is captured.
-/

namespace AppComponts
open AsyncIo Rust Transition Utf8 Text Overlay
set_option autoImplicit false

universe u v
variable {R : Type u} {W : Type v}

def TransferAt.work (total : Nat) (trace : List Event) : TransferAt → Nat
  | .loopHead (.running buf) => copyWork total .loopHead buf trace + 4
  | .copying point buf => copyWork total point buf trace + 3
  | .loopHead (.shuttingDown _ _) => 2
  | .loopHead (.done _ _) => 1
  | _ => 0

def Transfer.work (total : Nat) (t : Transfer R W) : Nat := t.pc.work total t.io.trace

theorem work_afterPollShutdown (total : Nat) (trace : List Event) (count : UInt64)
    (rawData : Str) (answer : Poll Unit) :
    (afterPollShutdown count rawData answer).work total trace ≤ 1 := by
  cases answer with
  | pending => exact Nat.zero_le _
  | ok value => exact Nat.le_refl _
  | err e =>
    simp only [afterPollShutdown]
    split
    · exact Nat.le_refl _
    · exact Nat.zero_le _

theorem work_afterPollCopy [CaseTables] (total : Nat) (trace : List Event) (buf : CopyBuffer)
    (result : Poll UInt64) : (afterPollCopy buf result).work total trace ≤ 2 := by
  cases result with
  | pending => exact Nat.zero_le _
  | ok count =>
    simp only [afterPollCopy]
    split
    · exact Nat.le_refl _
    · exact Nat.zero_le _
  | err e =>
    simp only [afterPollCopy]
    split
    · split
      · exact Nat.le_refl _
      · exact Nat.zero_le _
    · exact Nat.zero_le _

def Transfer.Returned (t : Transfer R W) : Prop := ∃ state result, t.pc = .returned state result

section Transfers
variable [CaseTables] [AsyncRead R] [AsyncWrite W] {a b t : Transfer R W} {bound : Nat}

/-- Where the copy is about to finish, the counted bytes lie in the buffer and are text,
and in the request direction they are a request. -/
def Transfer.Capturable (t : Transfer R W) : Prop :=
  ∀ buf, t.pc = .copying .afterWhile buf → buf.readDone = true →
    t.io.pollFlush.1 = .ok () →
    buf.amt.toNat ≤ buf.buf.length ∧ ∃ s, buf.buf.take buf.amt.toNat = encode s ∧
      (buf.direction = .Request → ∃ r, Request.fromString s = .ok (some r))

theorem capturable_iff {buf : CopyBuffer} :
    (buf.amt.toNat ≤ buf.buf.length ∧ ∃ s, buf.buf.take buf.amt.toNat = encode s ∧
      (buf.direction = .Request → ∃ r, Request.fromString s = .ok (some r))) ↔
    ∃ s, captured buf.reset buf.amt = .ok s := by
  constructor
  · intro h
    obtain ⟨hle, s, htake, hreq⟩ := h
    exact ⟨s, captured_eq_ok_iff.mpr ⟨hle, htake, hreq⟩⟩
  · intro h
    obtain ⟨s, hs⟩ := h
    obtain ⟨hle, htake, hreq⟩ := captured_eq_ok_iff.mp hs
    exact ⟨hle, s, htake, hreq⟩

theorem not_panicked_of_next (hsound : a.Sound bound) (hcap : a.Capturable)
    (h : a.next = some b) (p : Panic) : b.pc ≠ .panicked p := by
  intro hpanic
  cases transferStep_of_next (fun _ _ => hsound.fits) h with
  | @copy point buf buf' flow hpc hstep hb =>
    rw [hb] at hpanic
    cases flow with
    | goto point' => cases hpanic
    | panic q => exact not_panic_of_step hstep rfl
    | ret result =>
      cases result with
      | pending => cases hpanic
      | err e =>
        simp only [afterCopyStep, afterPollCopy] at hpanic
        split at hpanic
        · split at hpanic <;> cases hpanic
        · cases hpanic
      | ok k =>
        obtain ⟨rfl, hdone, rfl, rfl, hflush⟩ := finish_of_step hstep
        obtain ⟨s, hs⟩ := capturable_iff.mp (hcap buf hpc hdone (by rw [hflush]))
        simp only [afterCopyStep, afterPollCopy, hs] at hpanic
        cases hpanic
  | call hpc hb hio =>
    rw [hpanic] at hb
    cases hb
  | keep hpc hb hio =>
    rw [hpanic] at hb
    cases hb
  | @shutdown count rawData answer hpc hb hio =>
    have htext := @text?_afterPollShutdown count rawData answer
    rw [← hb, hpanic] at htext
    cases htext

theorem work_lt {total : Nat} (hbound : 0 < bound) (hsound : a.Sound bound)
    (hret : ¬ a.Returned) (htotal : (produced b.io.trace).length ≤ total)
    (h : a.next = some b) : b.work total < a.work total := by
  obtain ⟨pc, io⟩ := a
  cases pc with
  | loopHead state =>
    cases state with
    | running buf =>
      obtain rfl := Option.some.inj h
      exact Nat.lt_succ_self _
    | shuttingDown count rawData =>
      obtain rfl := Option.some.inj h
      exact Nat.lt_succ_of_le (work_afterPollShutdown _ _ _ _ _)
    | done count rawData =>
      obtain rfl := Option.some.inj h
      exact Nat.zero_lt_one
  | copying point buf =>
    obtain ⟨⟨p, hp⟩, _⟩ := hsound point buf rfl
    rcases hstep : pollCopyStep point buf io with ⟨flow, buf', io'⟩
    obtain rfl : ⟨afterCopyStep buf' flow, io'⟩ = b := by
      simp only [Transfer.next, hstep] at h
      exact Option.some.inj h
    have hpos : 3 ≤ Transfer.work total ⟨.copying point buf, io⟩ := Nat.le_add_left _ _
    cases flow with
    | goto point' =>
      have hroom : 0 < buf.buf.length := hp.room ▸ hbound
      have hlt := copyWork_lt hp.fits hroom hp.drained htotal (copyStep_of_eq hp.fits hstep)
      exact Nat.add_lt_add_right hlt 3
    | panic q => exact Nat.lt_of_lt_of_le (Nat.zero_lt_succ _) hpos
    | ret result =>
      have hle := work_afterPollCopy total io'.trace buf' result
      exact Nat.lt_of_le_of_lt hle hpos
  | returned state result => exact (hret ⟨state, result, rfl⟩).elim
  | panicked p => cases h

theorem exists_next (h : ∀ p, t.pc ≠ .panicked p) : ∃ c, t.next = some c := by
  obtain ⟨pc, io⟩ := t
  cases pc with
  | loopHead state => cases state <;> exact ⟨_, rfl⟩
  | copying point buf => exact ⟨_, rfl⟩
  | returned state result => exact ⟨_, rfl⟩
  | panicked p => exact (h p rfl).elim

/-- On a finite stream, no poll panics and every poll returns, exactly when the capture
succeeds wherever the copy finishes. -/
theorem returns_iff_capturable {reader : R} {writer : W} {bufSize : UInt64}
    {direction : Direction} (hsize : 0 < bufSize.toNat) {total : Nat}
    (hfinite : ∀ t, Reach (Next Transfer.next) (.start bufSize direction reader writer) t →
      (produced t.io.trace).length ≤ total) :
    (∀ t, Reach (Next Transfer.next) (.start bufSize direction reader writer) t →
      (∀ p, t.pc ≠ .panicked p) ∧ ∃ c, Reach (Next Transfer.next) t c ∧ c.Returned) ↔
    ∀ t, Reach (Next Transfer.next) (.start bufSize direction reader writer) t →
      t.Capturable := by
  constructor
  · intro h t ht buf hpc hdone hflush
    obtain ⟨⟨p, hp⟩, _⟩ := transfer_sound_of_reach ht _ _ (by rw [hpc]; rfl)
    have hnext : t.next = some ⟨afterPollCopy buf.reset (.ok buf.amt), t.io.pollFlush.2⟩ := by
      rcases hans : t.io.pollFlush with ⟨answer, io'⟩
      rw [hans] at hflush
      subst hflush
      have hreset : buf.reset.readDone = true := hdone
      simp only [Transfer.next, hpc, pollCopyStep, if_pos hp.fits.1, hreset, if_true, hans]
      rfl
    obtain ⟨hno, _⟩ := h _ (ht.tail hnext)
    rw [capturable_iff]
    cases hcap : captured buf.reset buf.amt with
    | ok s => exact ⟨s, rfl⟩
    | error q =>
      refine (hno q ?_).elim
      simp only [afterPollCopy, hcap]
  · intro hcap
    have hno : ∀ t, Reach (Next Transfer.next) (.start bufSize direction reader writer) t →
        ∀ p, t.pc ≠ .panicked p := by
      intro t ht
      refine ht.invariant_reached (P := fun t => ∀ p, t.pc ≠ .panicked p) ?_ ?_
      · intro c d hc _ hnext
        exact not_panicked_of_next (transfer_sound_of_reach hc) (hcap c hc) hnext
      · intro p hp
        cases hp
    intro t ht
    refine ⟨hno t ht, ?_⟩
    apply exists_reach_of_measure (P := fun t =>
      Reach (Next Transfer.next) (.start bufSize direction reader writer) t)
      (Transfer.work total) ?_ t ht
    intro c hc hret
    obtain ⟨d, hd⟩ := exists_next (hno c hc)
    have hreach := hc.tail hd
    exact ⟨d, hd, hreach,
      work_lt hsize (transfer_sound_of_reach hc) hret (hfinite d hreach) hd⟩

end Transfers

section Finish
variable [AsyncRead R] [AsyncWrite W]

/-- A copy ends cleanly behind the end of its stream where it finishes. -/
theorem finish_of_cleanEnd {point : CopyPoint} {me me' : CopyBuffer} {io io' : Io R W}
    {flow : CopyFlow} (hledger : Ledger me io.trace) (h : CopyStep point me io flow me' io')
    (heof : Event.eof ∈ io'.trace) (hclean : CleanEnd io'.trace) :
    io'.trace = io.trace ∨
      (point = .afterWhile ∧ me.readDone = true ∧ io.pollFlush = (.ok (), io')) := by
  have hquiet {trace : List Event} {e : Event} (htrace : io'.trace = trace ++ [e])
      (hs : e.isShutdown = false) (hne : e ≠ .flush (.ok ())) :
      io'.trace = io.trace ∨
        (point = .afterWhile ∧ me.readDone = true ∧ io.pollFlush = (.ok (), io')) := by
    rw [htrace] at hclean
    exact (not_cleanEnd hs hne hclean).elim
  cases h with
  | skip hw => exact Or.inl rfl
  | emptied hp => exact Or.inl rfl
  | again hd => exact Or.inl rfl
  | finish hd hs => exact Or.inr ⟨rfl, hd, hs⟩
  | idleFlush hw hr he hf hs =>
    have hnone := hledger.eof_not_mem hw
    rw [Io.pollFlush_trace hs, Io.pollRead_trace hr, List.append_assoc,
      eof_mem_append (by simp)] at heof
    exact (hnone heof).elim
  | fill hw hr => exact hquiet (Io.pollRead_trace hr) rfl fun h => nomatch h
  | readErr hw hr => exact hquiet (Io.pollRead_trace hr) rfl fun h => nomatch h
  | readStall hw hr hne => exact hquiet (Io.pollRead_trace hr) rfl fun h => nomatch h
  | idle hw hr he hf => exact hquiet (Io.pollRead_trace hr) rfl fun h => nomatch h
  | idleFlushStall hw hr he hf hs => exact hquiet (Io.pollFlush_trace hs) rfl fun h => nomatch h
  | idleFlushErr hw hr he hf hs => exact hquiet (Io.pollFlush_trace hs) rfl fun h => nomatch h
  | write hp hs hi => exact hquiet (Io.pollWrite_trace hs) rfl fun h => nomatch h
  | writeZero hp hs => exact hquiet (Io.pollWrite_trace hs) rfl fun h => nomatch h
  | writeErr hp hs => exact hquiet (Io.pollWrite_trace hs) rfl fun h => nomatch h
  | writeStall hp hs hw => exact hquiet (Io.pollWrite_trace hs) rfl fun h => nomatch h
  | topUp hp hs hw hr => exact hquiet (Io.pollRead_trace hr) rfl fun h => nomatch h
  | topUpStall hp hs hw hr => exact hquiet (Io.pollRead_trace hr) rfl fun h => nomatch h
  | topUpErr hp hs hw hr => exact hquiet (Io.pollRead_trace hr) rfl fun h => nomatch h
  | finishStall hd hs => exact hquiet (Io.pollFlush_trace hs) rfl fun h => nomatch h
  | finishErr hd hs => exact hquiet (Io.pollFlush_trace hs) rfl fun h => nomatch h

end Finish

/-- What was read can be captured: as many bytes as were counted fit in the buffer, and where
the rounds lie over each other they are text, and for the server a request. -/
def Legible [CaseTables] (bound : Nat) (direction : Direction) (trace : List Event) : Prop :=
  (produced trace).length % UInt64.size ≤ bound ∧
    ∃ s, (overlay (List.replicate bound 0) (rounds trace).layers).take
        ((produced trace).length % UInt64.size) = encode s ∧
      (direction = .Request → ∃ r, Request.fromString s = .ok (some r))

def Transfer.InRounds (bound : Nat) (direction : Direction) (t : Transfer R W) : Prop :=
  ∀ point buf, t.pc.copy? = some (point, buf) →
    Rounded bound point buf (rounds t.io.trace) ∧ buf.direction = direction

section Rounds
variable [CaseTables] {bound : Nat} {direction : Direction} {trace : List Event} {e : Event}

theorem legible_concat (hproduced : e.produced = []) (haccepted : e.accepted = []) :
    Legible bound direction (trace ++ [e]) ↔ Legible bound direction trace := by
  simp only [Legible, produced_append, produced_singleton, hproduced, List.append_nil,
    rounds_concat, Rounds.after_quiet hproduced haccepted]

/-- What a finishing copy captures is what the history says. -/
theorem capturable_iff_legible {t : Transfer R W} {buf : CopyBuffer}
    (hsound : t.Sound bound) (hrounds : t.InRounds bound direction)
    (hpc : t.pc = .copying .afterWhile buf) :
    (buf.amt.toNat ≤ buf.buf.length ∧ ∃ s, buf.buf.take buf.amt.toNat = encode s ∧
      (buf.direction = .Request → ∃ r, Request.fromString s = .ok (some r))) ↔
    Legible bound direction t.io.trace := by
  obtain ⟨⟨p, hp⟩, hledger⟩ := hsound _ _ (by rw [hpc]; rfl)
  obtain ⟨hrounded, hdirection⟩ := hrounds _ _ (by rw [hpc]; rfl)
  have hall := hp.conserved
  rw [CopyBuffer.unsent_of_eq (hp.drained rfl), List.append_nil] at hall
  rw [hledger.amt, hp.room, hrounded.shown, hdirection, ← hall]
  rfl

variable [AsyncRead R] [AsyncWrite W] {a b t : Transfer R W}

theorem inRounds_of_next (hsound : a.Sound bound) (ha : a.InRounds bound direction)
    (h : a.next = some b) : b.InRounds bound direction := by
  intro point buf hpc
  cases transferStep_of_next (fun _ _ => hsound.fits) h with
  | @copy point₀ buf₀ buf' flow hapc hstep hb =>
    obtain ⟨⟨p, hp⟩, _⟩ := hsound point₀ buf₀ (by rw [hapc]; rfl)
    obtain ⟨hrounded, hdirection⟩ := ha point₀ buf₀ (by rw [hapc]; rfl)
    rw [hb] at hpc
    obtain ⟨rfl, rfl⟩ := copy?_afterCopyStep hpc
    exact ⟨rounded_of_step hp.fits hp.drained hrounded hstep,
      (direction_of_step hstep).trans hdirection⟩
  | call hapc hb hio =>
    rw [hio]
    exact ha point buf (by rw [hapc, ← hb, hpc])
  | keep hapc hb hio =>
    rw [text?_of_copy? hpc] at hb
    cases hb
  | shutdown hapc hb hio =>
    rw [hb, copy?_afterPollShutdown] at hpc
    cases hpc

theorem legible_of_next (hsound : a.Sound bound) (hrounds : a.InRounds bound direction)
    (hcap : a.Capturable)
    (ha : Event.eof ∈ a.io.trace → CleanEnd a.io.trace → Legible bound direction a.io.trace)
    (h : a.next = some b) (heof : Event.eof ∈ b.io.trace) (hclean : CleanEnd b.io.trace) :
    Legible bound direction b.io.trace := by
  cases transferStep_of_next (fun _ _ => hsound.fits) h with
  | @copy point buf buf' flow hpc hstep hb =>
    obtain ⟨_, hledger⟩ := hsound point buf (by rw [hpc]; rfl)
    rcases finish_of_cleanEnd hledger hstep heof hclean with hsame | ⟨rfl, hdone, hflush⟩
    · rw [hsame] at heof hclean ⊢
      exact ha heof hclean
    · rw [Io.pollFlush_trace hflush, legible_concat rfl rfl,
        ← capturable_iff_legible hsound hrounds hpc]
      exact hcap buf hpc hdone (by rw [hflush])
  | call hpc hb hio =>
    rw [hio] at heof hclean ⊢
    exact ha heof hclean
  | keep hpc hb hio =>
    rw [hio] at heof hclean ⊢
    exact ha heof hclean
  | @shutdown count rawData answer hpc hb hio =>
    rw [hio, List.mem_append, List.mem_singleton] at heof
    rw [hio, cleanEnd_shutdown] at hclean
    rw [hio, legible_concat rfl rfl]
    exact ha (heof.resolve_right fun h => nomatch h) hclean

theorem capturable_of_legible (hsound : a.Sound bound) (hrounds : a.InRounds bound direction)
    (h : ∀ b, a.next = some b → Event.eof ∈ b.io.trace → CleanEnd b.io.trace →
      Legible bound direction b.io.trace) : a.Capturable := by
  intro buf hpc hdone hflush
  obtain ⟨⟨p, hp⟩, hledger⟩ := hsound _ _ (by rw [hpc]; rfl)
  rcases hans : a.io.pollFlush with ⟨answer, io'⟩
  rw [hans] at hflush
  subst hflush
  have hreset : buf.reset.readDone = true := hdone
  have hnext : a.next = some ⟨afterPollCopy buf.reset (.ok buf.amt), io'⟩ := by
    simp only [Transfer.next, hpc, pollCopyStep, if_pos hp.fits.1, hreset, if_true, hans]
    rfl
  have hlegible := h _ hnext
  rw [Io.pollFlush_trace hans, legible_concat rfl rfl] at hlegible
  rw [capturable_iff_legible hsound hrounds hpc]
  exact hlegible (List.mem_append_left _ (hledger.eof.mp hdone)) cleanEnd_flush

section Reach
variable {reader : R} {writer : W} {bufSize : UInt64}

theorem inRounds_of_reach
    (h : Reach (Next Transfer.next) (.start bufSize direction reader writer) t) :
    t.InRounds bufSize.toNat direction := by
  refine h.invariant_reached (P := Transfer.InRounds bufSize.toNat direction) ?_ ?_
  · intro c d hc hrounds hnext
    exact inRounds_of_next (transfer_sound_of_reach hc) hrounds hnext
  · intro point buf hpc
    cases hpc
    exact ⟨rounded_new bufSize direction, rfl⟩

theorem capturable_iff_legible_runs :
    (∀ t, Reach (Next Transfer.next) (.start bufSize direction reader writer) t →
      t.Capturable) ↔
    ∀ t, Reach (Next Transfer.next) (.start bufSize direction reader writer) t →
      Event.eof ∈ t.io.trace → CleanEnd t.io.trace →
      Legible bufSize.toNat direction t.io.trace := by
  constructor
  · intro hcap t ht
    refine ht.invariant_reached (P := fun t => Event.eof ∈ t.io.trace → CleanEnd t.io.trace →
      Legible bufSize.toNat direction t.io.trace) ?_ ?_
    · intro c d hc hlegible hnext
      exact legible_of_next (transfer_sound_of_reach hc) (inRounds_of_reach hc) (hcap c hc)
        hlegible hnext
    · intro heof
      cases heof
  · intro hlegible t ht
    exact capturable_of_legible (transfer_sound_of_reach ht) (inRounds_of_reach ht)
      fun b hnext => hlegible b (ht.tail hnext)

end Reach

/-- On a finite stream, no poll panics and every poll returns, exactly when wherever the stream
has come to its end and all is flushed the bytes that were read can be captured. -/
theorem transfer_total_iff (reader : R) (writer : W) (bufSize : UInt64) (direction : Direction)
    (hsize : 0 < bufSize.toNat) (total : Nat)
    (hfinite : ∀ t, Reach (Next Transfer.next) (.start bufSize direction reader writer) t →
      (produced t.io.trace).length ≤ total) :
    (∀ t, Reach (Next Transfer.next) (.start bufSize direction reader writer) t →
      (∀ p, t.pc ≠ .panicked p) ∧ ∃ c, Reach (Next Transfer.next) t c ∧ c.Returned) ↔
    ∀ t, Reach (Next Transfer.next) (.start bufSize direction reader writer) t →
      Event.eof ∈ t.io.trace → CleanEnd t.io.trace →
      Legible bufSize.toNat direction t.io.trace :=
  (returns_iff_capturable hsize hfinite).trans capturable_iff_legible_runs

end Rounds

/-- A request in two reads, the second of them while the first is not yet written. -/
def splitRequest : Transfer Script Script :=
  .start 32 .Request
    ⟨[.ok (encode "GET / v\n".toList), .ok (encode "Host: a\n\n".toList), .ok []], [], [], []⟩
    ⟨[], [.pending, .ok 9, .ok 8], [.ok ()], [.ok ()]⟩

def splitRequestStates : List (Transfer Script Script) :=
  (List.range 17).map fun k => runFor (@Transfer.next _ _ asciiTables _ _) k splitRequest

theorem splitRequest_states {t : Transfer Script Script}
    (h : Reach (Next (@Transfer.next _ _ asciiTables _ _)) splitRequest t) :
    t ∈ splitRequestStates := by
  have hclosed : ∀ a ∈ splitRequestStates, ∀ b ∈ @Transfer.next _ _ asciiTables _ _ a,
      b ∈ splitRequestStates := by decide +kernel
  exact h.invariant (fun a b ha hab => hclosed a ha b hab) (by decide +kernel)

/-- Both reads are of one round, and the request is captured. -/
theorem transfer_total_splitRequest :
    (runFor (@Transfer.next _ _ asciiTables _ _) 16 splitRequest).pc.text? =
        some (17, "GET / v\nHost: a\n\n".toList) ∧
      ∀ t, Reach (Next (@Transfer.next _ _ asciiTables _ _)) splitRequest t →
        (∀ p, t.pc ≠ .panicked p) ∧
        ∃ c, Reach (Next (@Transfer.next _ _ asciiTables _ _)) t c ∧ c.Returned := by
  have hfinite : ∀ t ∈ splitRequestStates, (produced t.io.trace).length ≤ 17 := by
    decide +kernel
  have hrounds : ∀ t ∈ splitRequestStates, Event.eof ∈ t.io.trace →
      (produced t.io.trace).length = 17 ∧
        (rounds t.io.trace).layers = [encode "GET / v\nHost: a\n\n".toList] := by
    decide +kernel
  refine ⟨by decide +kernel, (@transfer_total_iff _ _ asciiTables _ _ _ _ 32 .Request (by decide) 17
    fun t ht => hfinite t (splitRequest_states ht)).mpr ?_⟩
  intro t ht heof _
  obtain ⟨hlength, hlayers⟩ := hrounds t (splitRequest_states ht) heof
  unfold Legible
  rw [hlength, hlayers]
  exact ⟨by decide, "GET / v\nHost: a\n\n".toList, by decide, fun _ => ⟨_, rfl⟩⟩

/-- Five bytes through a buffer of four. -/
def overlong : Transfer Script Script :=
  .start 4 .Response ⟨[.ok [65, 65, 65, 65], .ok [65], .ok []], [], [], []⟩
    ⟨[], [.ok 4, .ok 1], [.ok ()], []⟩

theorem overlong_panics :
    ¬ ∀ t, Reach (Next (@Transfer.next _ _ asciiTables _ _)) overlong t →
      (∀ p, t.pc ≠ .panicked p) ∧
      ∃ c, Reach (Next (@Transfer.next _ _ asciiTables _ _)) t c ∧ c.Returned := by
  intro h
  have hno := (h _ (reach_runFor _ 13 overlong)).1 .sliceOutOfRange
  exact hno (by decide)

end AppComponts
