import AppComponts.Capture
import AppComponts.Library.Overlay

/-!
# When the captured text is right

The text of a finished copy is the relayed data in no other runs than those whose reads are
all in place. When a stream ends unexpectedly, the text of the transfer is the whole buffer; it
is the data already read if moreover this data fills the buffer.
-/

namespace AppComponts
open AsyncIo Rust Transition Utf8 Text Overlay
set_option autoImplicit false

universe u v
variable {R : Type u} {W : Type v}

/-- What a step does to the window of the buffer; `here` is the answer to its read. -/
inductive WindowStep (here : Option (Poll (List UInt8))) (me : CopyBuffer) :
    List UInt8 → CopyBuffer → Prop
  | fill {bytes : List UInt8} (hhere : here = some (.ok bytes))
      (hlen : bytes.length ≤ me.buf.length - me.cap) : WindowStep here me bytes (me.fill bytes)
  | advance {i : Nat} (hhere : ∀ answer ∈ here, answer.bytes = [])
      (hi : i ≤ me.unsent.length) : WindowStep here me [] (me.advance i)
  | reset (hhere : ∀ answer ∈ here, answer.bytes = []) (hdrained : me.pos = me.cap) :
      WindowStep here me [] me.reset
  | same {me' : CopyBuffer} (hhere : ∀ answer ∈ here, answer.bytes = [])
      (hpos : me'.pos = me.pos) (hbuf : me'.buf = me.buf) (hamt : me'.amt = me.amt) :
      WindowStep here me [] me'

section Step
variable [AsyncRead R] [AsyncWrite W]
variable {point : CopyPoint} {me me' : CopyBuffer} {io io' : Io R W} {flow : CopyFlow}

theorem window_of_step (hdrained : point = .afterWhile → me.pos = me.cap)
    (h : CopyStep point me io flow me' io') :
    ∃ bytes, WindowStep (readHere point me io) me bytes me' ∧
      produced io'.trace = produced io.trace ++ bytes := by
  have hafter : ∀ answer ∈ readHere .afterWhile me io, answer.bytes = [] := by
    simp [readHere]
  cases h with
  | skip hw =>
    exact ⟨[], .same (by simp [readHere, hw]) rfl rfl rfl, (List.append_nil _).symm⟩
  | @fill _ _ _ bytes hw hr =>
    refine ⟨bytes, .fill ?_ (Io.pollRead_length hr), ?_⟩
    · rw [readHere, if_pos hw, hr]
    · simp [Io.pollRead_trace hr, Event.produced]
  | readErr hw hr =>
    refine ⟨[], .same ?_ rfl rfl rfl, ?_⟩
    · simp [readHere, hw, hr, Poll.bytes]
    · simp [Io.pollRead_trace hr, Event.produced, Poll.bytes]
  | readStall hw hr hne =>
    refine ⟨[], .same ?_ rfl rfl rfl, ?_⟩
    · simp [readHere, hw, hr, Poll.bytes]
    · simp [Io.pollRead_trace hr, Event.produced, Poll.bytes]
  | idle hw hr he hf =>
    refine ⟨[], .same ?_ rfl rfl rfl, ?_⟩
    · simp [readHere, hw, hr, Poll.bytes]
    · simp [Io.pollRead_trace hr, Event.produced, Poll.bytes]
  | idleFlush hw hr he hf hs =>
    refine ⟨[], .same ?_ rfl rfl rfl, ?_⟩
    · simp [readHere, hw, hr, Poll.bytes]
    · simp [Io.pollFlush_trace hs, Io.pollRead_trace hr, produced, Event.produced, Poll.bytes]
  | idleFlushStall hw hr he hf hs =>
    refine ⟨[], .same ?_ rfl rfl rfl, ?_⟩
    · simp [readHere, hw, hr, Poll.bytes]
    · simp [Io.pollFlush_trace hs, Io.pollRead_trace hr, produced, Event.produced, Poll.bytes]
  | idleFlushErr hw hr he hf hs =>
    refine ⟨[], .same ?_ rfl rfl rfl, ?_⟩
    · simp [readHere, hw, hr, Poll.bytes]
    · simp [Io.pollFlush_trace hs, Io.pollRead_trace hr, produced, Event.produced, Poll.bytes]
  | emptied hp =>
    exact ⟨[], .same (by simp [readHere, hp]) rfl rfl rfl, (List.append_nil _).symm⟩
  | write hp hs hi =>
    refine ⟨[], .advance ?_ (Io.pollWrite_length hs), ?_⟩
    · simp [readHere, hp, hs]
    · simp [Io.pollWrite_trace hs, Event.produced]
  | writeZero hp hs =>
    refine ⟨[], .same ?_ rfl rfl rfl, ?_⟩
    · simp [readHere, hp, hs]
    · simp [Io.pollWrite_trace hs, Event.produced]
  | writeErr hp hs =>
    refine ⟨[], .same ?_ rfl rfl rfl, ?_⟩
    · simp [readHere, hp, hs]
    · simp [Io.pollWrite_trace hs, Event.produced]
  | writeStall hp hs hw =>
    refine ⟨[], .same ?_ rfl rfl rfl, ?_⟩
    · simp [readHere, hp, hs, hw]
    · simp [Io.pollWrite_trace hs, Event.produced]
  | @topUp _ _ _ _ bytes hp hs hw hr =>
    refine ⟨bytes, .fill ?_ (Io.pollRead_length hr), ?_⟩
    · simp only [readHere, if_pos hp, if_pos hw, hs, hr]
    · simp [Io.pollRead_trace hr, Io.pollWrite_trace hs, produced, Event.produced]
  | topUpStall hp hs hw hr =>
    refine ⟨[], .same ?_ rfl rfl rfl, ?_⟩
    · simp [readHere, hp, hs, hw, hr, Poll.bytes]
    · simp [Io.pollRead_trace hr, Io.pollWrite_trace hs, produced, Event.produced, Poll.bytes]
  | topUpErr hp hs hw hr =>
    refine ⟨[], .same ?_ rfl rfl rfl, ?_⟩
    · simp [readHere, hp, hs, hw, hr, Poll.bytes]
    · simp [Io.pollRead_trace hr, Io.pollWrite_trace hs, produced, Event.produced, Poll.bytes]
  | again hd => exact ⟨[], .reset hafter (hdrained rfl), (List.append_nil _).symm⟩
  | finish hd hs =>
    refine ⟨[], .reset hafter (hdrained rfl), ?_⟩
    simp [Io.pollFlush_trace hs, Event.produced]
  | finishStall hd hs =>
    refine ⟨[], .reset hafter (hdrained rfl), ?_⟩
    simp [Io.pollFlush_trace hs, Event.produced]
  | finishErr hd hs =>
    refine ⟨[], .reset hafter (hdrained rfl), ?_⟩
    simp [Io.pollFlush_trace hs, Event.produced]

end Step

/-- The answer to a read leaves the bytes read so far where they are. -/
def CopyBuffer.TakesInPlace (me : CopyBuffer) (answer : Poll (List UInt8)) : Prop :=
  answer.bytes = [] ∨ me.amt.toNat = me.pos ∨
    ((∀ b ∈ answer.bytes, b = 0) ∧ answer.bytes <+: me.buf.drop me.cap)

/-- The buffer in its first round, and after it was started over behind `first`. -/
inductive Layers (bound : Nat) (me : CopyBuffer) (stream : List UInt8) : Prop
  | first (hround : me.amt.toNat = me.pos) (hbuf : me.buf = padded bound stream)
  | later {first rest : List UInt8} (hstream : stream = first ++ rest) (hne : first ≠ [])
      (hlag : me.pos + first.length ≤ me.amt.toNat) (hlayered : Layered 0 first rest me.buf)

theorem getD_padded {bound : Nat} {bytes : List UInt8} (h : bytes.length ≤ bound) (j : Nat) :
    (padded bound bytes).getD j 0 = bytes.getD j 0 := by
  rw [padded_of_le h]
  exact getD_append_replicate bytes 0 _ j

/-- A buffer that begins with the whole stream has blanks behind it. -/
theorem Layers.padded_of_take {bound : Nat} {me : CopyBuffer} {stream : List UInt8}
    (h : Layers bound me stream) (hroom : me.buf.length = bound) (hle : stream.length ≤ bound)
    (htake : me.buf.take stream.length = stream) : me.buf = padded bound stream := by
  cases h with
  | first hround hbuf => exact hbuf
  | @later first rest hstream hne hlag hlayered =>
    have hblank := blank_of_layered hlayered
    rw [← List.length_append, ← hstream] at hblank
    rw [padded_of_le hle, ← List.take_append_drop stream.length me.buf, htake,
      List.eq_replicate_of_mem hblank, List.length_drop, hroom]

section Window
variable {bound : Nat} {point : CopyPoint} {me me' : CopyBuffer} {trace : List Event}
  {bytes : List UInt8} {here : Option (Poll (List UInt8))} {p : Pipe UInt8 bound}

theorem amt_advance {i : Nat} (h : me.amt.toNat + i < UInt64.size) :
    (me.advance i).amt.toNat = me.amt.toNat + i := by
  have hi : i < UInt64.size := by omega
  simp only [CopyBuffer.advance, UInt64.toNat_add, Nat.toUInt64_eq, UInt64.toNat_ofNat']
  rw [Nat.mod_eq_of_lt hi, Nat.mod_eq_of_lt h]

/-- In a later round the window ends short of what has been read. -/
theorem cap_lt_of_lag {first rest : List UInt8} (hp : Relays point me trace p)
    (hledger : Ledger me trace) (htotal : (produced trace).length < UInt64.size)
    (hstream : produced trace = first ++ rest) (hne : first ≠ [])
    (hlag : me.pos + first.length ≤ me.amt.toNat) : me.cap < first.length + rest.length := by
  have hcount := amt_add_unsent hp hledger htotal
  have hunsent := CopyBuffer.unsent_length hp.fits
  have hle := hp.fits.1
  have hpos := List.length_pos_iff.mpr hne
  have hlength := congrArg List.length hstream
  rw [List.length_append] at hlength
  omega

theorem layers_of_window (hp : Relays point me trace p) (hledger : Ledger me trace)
    (hbound : bound < UInt64.size) (htotal : (produced trace ++ bytes).length ≤ bound)
    (hlayers : Layers bound me (produced trace)) (h : WindowStep here me bytes me') :
    Layers bound me' (produced trace ++ bytes) := by
  rw [List.length_append] at htotal
  have hcount := amt_add_unsent hp hledger (by omega)
  have hunsent := CopyBuffer.unsent_length hp.fits
  have hle := hp.fits.1
  have hcap := hp.fits.2
  have hroom := hp.room
  cases h with
  | fill hhere hlen =>
    cases hlayers with
    | first hround hbuf =>
      refine .first hround ?_
      exact fill_padded hp hledger hbound hlen hbuf (Or.inr (Or.inl hround)) (by omega)
    | @later first rest hstream hne hlag hlayered =>
      refine .later (by rw [hstream, List.append_assoc]) hne hlag ?_
      apply layered_patch hlayered
      · omega
      · exact cap_lt_of_lag hp hledger (by omega) hstream hne hlag
  | @advance i hhere hi =>
    rw [List.append_nil]
    have hamt : (me.advance i).amt.toNat = me.amt.toNat + i := amt_advance (by omega)
    cases hlayers with
    | first hround hbuf =>
      refine .first ?_ hbuf
      rw [hamt, hround]
      rfl
    | later hstream hne hlag hlayered =>
      refine .later hstream hne ?_ hlayered
      rw [hamt]
      simp only [CopyBuffer.advance]
      omega
  | reset hhere hdrained =>
    rw [List.append_nil]
    have hamt : me.reset.amt.toNat = me.amt.toNat := rfl
    have hpos : me.reset.pos = 0 := rfl
    cases hlayers with
    | first hround hbuf =>
      by_cases hnil : produced trace = []
      · refine .first ?_ hbuf
        rw [hnil, List.length_nil] at hcount
        omega
      · refine .later (List.append_nil _).symm hnil (by omega) (layered_first ?_)
        intro j
        have hsame : me.reset.buf = padded bound (produced trace) := hbuf
        rw [hsame]
        exact getD_padded (by omega) j
    | later hstream hne hlag hlayered => exact .later hstream hne (by omega) hlayered
  | same hhere hpos hbuf hamt =>
    rw [List.append_nil]
    cases hlayers with
    | first hround hold =>
      refine .first ?_ (hbuf.trans hold)
      rw [hamt, hpos]
      exact hround
    | later hstream hne hlag hlayered =>
      refine .later hstream hne ?_ ?_
      · rw [hamt, hpos]
        exact hlag
      · rw [hbuf]
        exact hlayered

/-- Behind a fill the buffer shows the stream only if it did before, and the fill is in place. -/
theorem takesInPlace_of_fill (hp : Relays point me trace p) (hledger : Ledger me trace)
    (hbound : bound < UInt64.size) (htotal : (produced trace ++ bytes).length ≤ bound)
    (hlayers : Layers bound me (produced trace)) (hlen : bytes.length ≤ me.buf.length - me.cap)
    (hbuf : (me.fill bytes).buf = padded bound (produced trace ++ bytes)) :
    me.TakesInPlace (.ok bytes) ∧ me.buf = padded bound (produced trace) := by
  cases hlayers with
  | first hround hold => exact ⟨Or.inr (Or.inl hround), hold⟩
  | @later first rest hstream hne hlag hlayered =>
    have hcap := hp.fits.2
    have hsum := htotal
    rw [List.length_append] at hsum
    have hshown : ∀ j, (patch me.buf me.cap bytes).getD j 0 =
        (first ++ (rest ++ bytes)).getD j 0 := by
      intro j
      rw [← List.append_assoc, ← hstream, ← getD_padded htotal j, ← hbuf]
      rfl
    have hlate : me.cap < first.length + rest.length :=
      cap_lt_of_lag hp hledger (by omega) hstream hne hlag
    -- blanks over blanks: the fill has changed nothing
    obtain ⟨hblank, hpre⟩ := patch_in_place hlayered (by omega) hlate hshown
    refine ⟨Or.inr (Or.inr ⟨hblank, hpre⟩), ?_⟩
    rw [buf_fill_same hpre, List.eq_replicate_of_mem hblank, padded_append_zeros] at hbuf
    exact hbuf

/-- Behind a step the buffer shows the stream exactly if it did before, and the step has read
in place. -/
theorem padded_window_iff (hp : Relays point me trace p) (hledger : Ledger me trace)
    (hbound : bound < UInt64.size) (htotal : (produced trace ++ bytes).length ≤ bound)
    (hlayers : Layers bound me (produced trace)) (h : WindowStep here me bytes me') :
    me'.buf = padded bound (produced trace ++ bytes) ↔
      me.buf = padded bound (produced trace) ∧ ∀ answer ∈ here, me.TakesInPlace answer := by
  have hsum := htotal
  rw [List.length_append] at hsum
  have hquiet (hhere : ∀ answer ∈ here, answer.bytes = []) (answer : Poll (List UInt8))
      (hanswer : answer ∈ here) : me.TakesInPlace answer := Or.inl (hhere answer hanswer)
  cases h with
  | fill hhere hlen =>
    subst hhere
    constructor
    · intro hbuf
      have hplace := takesInPlace_of_fill hp hledger hbound htotal hlayers hlen hbuf
      refine ⟨hplace.2, ?_⟩
      intro answer hanswer
      cases hanswer
      exact hplace.1
    · intro h
      exact fill_padded hp hledger hbound hlen h.1 (h.2 _ rfl) (by omega)
  | advance hhere hi =>
    rw [List.append_nil]
    exact ⟨fun hbuf => ⟨hbuf, hquiet hhere⟩, fun h => h.1⟩
  | reset hhere hdrained =>
    rw [List.append_nil]
    exact ⟨fun hbuf => ⟨hbuf, hquiet hhere⟩, fun h => h.1⟩
  | same hhere hpos hbuf hamt =>
    rw [List.append_nil, hbuf]
    exact ⟨fun hold => ⟨hold, hquiet hhere⟩, fun h => h.1⟩

end Window

theorem exists_eq_shutdown {e : Event} (h : e.isShutdown = true) :
    ∃ answer, e = .shutdown answer := by
  cases e with
  | shutdown answer => exact ⟨answer, rfl⟩
  | _ => cases h

theorem produced_append_shutdowns {trace es : List Event}
    (hes : ∀ e ∈ es, e.isShutdown = true) : produced (trace ++ es) = produced trace := by
  have hnone : produced es = [] := by
    rw [produced, List.flatMap_eq_nil_iff]
    intro e he
    obtain ⟨answer, rfl⟩ := exists_eq_shutdown (hes e he)
    rfl
  rw [produced_append, hnone, List.append_nil]

theorem accepted_append_shutdowns {trace es : List Event}
    (hes : ∀ e ∈ es, e.isShutdown = true) : accepted (trace ++ es) = accepted trace := by
  have hnone : accepted es = [] := by
    rw [accepted, List.flatMap_eq_nil_iff]
    intro e he
    obtain ⟨answer, rfl⟩ := exists_eq_shutdown (hes e he)
    rfl
  rw [accepted_append, hnone, List.append_nil]

theorem eof_not_mem {trace : List Event} {e : IoError}
    (hquiet : trace.Pairwise fun a b => a = Event.eof → b.isRead = false)
    (hlast : (trace.filter Event.isRead).getLast? = some (.read (.err e))) :
    Event.eof ∉ trace := by
  intro hmem
  obtain ⟨front, hfront⟩ := List.getLast?_eq_some_iff.mp hlast
  have heof : Event.eof ∈ front ++ [.read (.err e)] := by
    rw [← hfront]
    exact List.mem_filter.mpr ⟨hmem, rfl⟩
  have hreads := hquiet.filter Event.isRead
  rw [hfront] at hreads
  rcases List.mem_append.mp heof with hbefore | hlast
  · have hnot := (List.pairwise_append.mp hreads).2.2 _ hbefore _ (List.mem_singleton_self _) rfl
    cases hnot
  · cases List.mem_singleton.mp hlast

section Transfers
variable [CaseTables] [AsyncRead R] [AsyncWrite W] {s a b t : Transfer R W} {bound : Nat}

/-- What every run from `s` keeps: a buffer that shows the stream shows that all reads were
in place, and so does a text that was taken from one. -/
structure Transfer.Overlaid (bound : Nat) (t s : Transfer R W) : Prop where
  quiet : t.io.trace.Pairwise fun a b => a = Event.eof → b.isRead = false
  running : ∀ x, t.pc.copy? = some x → (produced t.io.trace).length ≤ bound →
    Layers bound x.2 (produced t.io.trace) ∧
      (x.2.buf = padded bound (produced t.io.trace) → t.ReadsInPlace →
        Reach (Guarded (Next Transfer.next) Transfer.ReadsInPlace) s t)
  past : ∀ x, t.pc.text? = some x → (produced t.io.trace).length ≤ bound →
    Event.eof ∉ t.io.trace → x.1.toNat = bound ∧ (encode x.2).length = bound ∧
      (encode x.2 = padded bound (produced t.io.trace) →
        Reach (Guarded (Next Transfer.next) Transfer.ReadsInPlace) s t)
  finished : ∀ x, t.pc.text? = some x → (produced t.io.trace).length ≤ bound →
    CleanEnd t.io.trace → encode x.2 = accepted t.io.trace →
      Reach (Guarded (Next Transfer.next) Transfer.ReadsInPlace) s t

omit [CaseTables] in
theorem readsInPlace_of_text? {x : UInt64 × Str} (h : t.pc.text? = some x) :
    t.ReadsInPlace := by
  intro y hy
  rw [text?_of_copy? hy] at h
  cases h

theorem text?_of_copy {point : CopyPoint} {buf buf' : CopyBuffer} {flow : CopyFlow}
    {count : UInt64} {rawData : Str} (hledger : Ledger buf a.io.trace)
    (hstep : CopyStep point buf a.io flow buf' b.io) (heof : Event.eof ∉ b.io.trace)
    (htext : (afterCopyStep buf' flow).text? = some (count, rawData)) :
    encode rawData = buf'.buf ∧ count = buf'.buf.length.toUInt64 := by
  rcases text?_afterCopyStep htext with ⟨rfl, _⟩ | ⟨e, _, _, hutf8, hcount⟩
  · obtain ⟨_, hdone, _, _, hflush⟩ := finish_of_step hstep
    rw [Io.pollFlush_trace hflush] at heof
    exact (heof (List.mem_append_left _ (hledger.eof.mp hdone))).elim
  · have hencode := fromUtf8_eq_some_iff.mp hutf8
    rw [hencode]
    exact ⟨rfl, hcount⟩

/-- A text that is the relayed data was taken from a buffer that shows the stream. -/
theorem padded_of_captured {point : CopyPoint} {me me' : CopyBuffer} {io io' : Io R W}
    {flow : CopyFlow} {p : Pipe UInt8 bound} {count : UInt64} {rawData : Str}
    (hp : Relays flow.toAt.point me' io'.trace p) (hledger : Ledger me' io'.trace)
    (hbound : bound < UInt64.size) (htotal : (produced io'.trace).length ≤ bound)
    (hlayers : Layers bound me' (produced io'.trace))
    (hstep : CopyStep point me io flow me' io')
    (htext : (afterCopyStep me' flow).text? = some (count, rawData))
    (hclean : CleanEnd io'.trace) (hright : encode rawData = accepted io'.trace) :
    me'.buf = padded bound (produced io'.trace) := by
  rcases text?_afterCopyStep htext with ⟨rfl, hcaptured⟩ | ⟨e, rfl, _, _⟩
  · obtain ⟨_, _, hreset, hcount, _⟩ := finish_of_step hstep
    obtain ⟨_, htake, _⟩ := captured_eq_ok_iff.mp hcaptured
    have hall := hp.conserved
    have hamt := amt_add_unsent hp hledger (by omega)
    rw [hreset, CopyBuffer.unsent_reset, List.append_nil] at hall
    rw [hreset, CopyBuffer.unsent_reset, List.length_nil, Nat.add_zero] at hamt
    have hlength : count.toNat = (produced io'.trace).length := hcount ▸ hamt
    rw [hlength, hright, ← hall] at htake
    exact hlayers.padded_of_take hp.room htotal htake
  · exact (err_not_cleanEnd hstep hclean).elim

theorem overlaid_of_copy (hbound : bound < UInt64.size) {point : CopyPoint}
    {buf buf' : CopyBuffer} {flow : CopyFlow} (hsound : a.Sound bound)
    (ha : a.Overlaid bound s) (hnext : a.next = some b) (hpc : a.pc = .copying point buf)
    (hstep : CopyStep point buf a.io flow buf' b.io) (hb : b.pc = afterCopyStep buf' flow) :
    b.Overlaid bound s := by
  have hcopy : a.pc.copy? = some (point, buf) := congrArg TransferAt.copy? hpc
  obtain ⟨⟨p, hp⟩, hledger⟩ := hsound point buf hcopy
  have he := effect_of_step hp.fits hp.drained hstep
  have hlength := (fits_of_effect hp.fits he).2.trans hp.room
  obtain ⟨q, _, hq⟩ := relays_of_effect hp (pos_eq_of_step hstep) he
  obtain ⟨bytes, hwindow, hprod⟩ := window_of_step hp.drained hstep
  have hlayers (htotal : (produced b.io.trace).length ≤ bound) :
      Layers bound buf (produced a.io.trace) := by
    refine (ha.running _ hcopy ?_).1
    rw [hprod, List.length_append] at htotal
    omega
  have hkept (htotal : (produced b.io.trace).length ≤ bound)
      (hbuf : buf'.buf = padded bound (produced b.io.trace)) :
      Reach (Guarded (Next Transfer.next) Transfer.ReadsInPlace) s b := by
    have hall := htotal
    rw [hprod] at hall hbuf
    obtain ⟨hold, hplace⟩ :=
      (padded_window_iff hp hledger hbound hall (hlayers htotal) hwindow).mp hbuf
    have hin : a.ReadsInPlace := by
      intro x hx
      rw [hcopy] at hx
      cases hx
      exact hplace
    rw [List.length_append] at hall
    exact ((ha.running _ hcopy (by omega)).2 hold hin).tail ⟨hnext, hin⟩
  have hlayers' (htotal : (produced b.io.trace).length ≤ bound) :
      Layers bound buf' (produced b.io.trace) := by
    have hall := htotal
    rw [hprod] at hall ⊢
    exact layers_of_window hp hledger hbound hall (hlayers htotal) hwindow
  refine ⟨(ledger_of_effect hledger he).quiet, ?_, ?_, ?_⟩
  · intro x hx htotal
    obtain ⟨point', me⟩ := x
    rw [hb] at hx
    obtain ⟨_, rfl⟩ := copy?_afterCopyStep hx
    exact ⟨hlayers' htotal, fun hbuf _ => hkept htotal hbuf⟩
  · intro x hx htotal heof
    obtain ⟨count, rawData⟩ := x
    rw [hb] at hx
    obtain ⟨hencode, hcount⟩ := text?_of_copy hledger hstep heof hx
    refine ⟨?_, hencode ▸ hlength, ?_⟩
    · rw [hcount, hlength]
      simpa using Nat.mod_eq_of_lt hbound
    · intro hshown
      exact hkept htotal (hencode ▸ hshown)
  · intro x hx htotal hclean hright
    obtain ⟨count, rawData⟩ := x
    rw [hb] at hx
    exact hkept htotal (padded_of_captured hq (ledger_of_effect hledger he) hbound htotal
      (hlayers' htotal) hstep hx hclean hright)

theorem overlaid_of_text {x : UInt64 × Str} {es : List Event} (ha : a.Overlaid bound s)
    (hnext : a.next = some b) (htext : a.pc.text? = some x) (hb : b.pc.text? = some x)
    (hio : b.io.trace = a.io.trace ++ es) (hes : ∀ e ∈ es, e.isShutdown = true) :
    b.Overlaid bound s := by
  have hprod : produced b.io.trace = produced a.io.trace := by
    rw [hio, produced_append_shutdowns hes]
  have hnoread : ∀ e ∈ es, e.isRead = false := by
    intro e he
    obtain ⟨answer, rfl⟩ := exists_eq_shutdown (hes e he)
    rfl
  refine ⟨?_, ?_, ?_, ?_⟩
  · rw [hio]
    apply quiet_append ha.quiet
    · exact List.pairwise_of_forall_mem_list fun _ _ e he _ => hnoread e he
    · exact fun _ => hnoread
  · intro y hy
    rw [text?_of_copy? hy] at hb
    cases hb
  · intro y hy htotal heof
    rw [hb] at hy
    cases hy
    rw [hprod] at htotal ⊢
    have hopen : Event.eof ∉ a.io.trace := by
      intro hmem
      exact heof (hio ▸ List.mem_append_left es hmem)
    obtain ⟨hcount, hlength, hreach⟩ := ha.past x htext htotal hopen
    refine ⟨hcount, hlength, ?_⟩
    intro hshown
    exact (hreach hshown).tail ⟨hnext, readsInPlace_of_text? htext⟩
  · intro y hy htotal hclean hright
    rw [hb] at hy
    cases hy
    rw [hprod] at htotal
    rw [hio, cleanEnd_append_shutdowns hes] at hclean
    rw [hio, accepted_append_shutdowns hes] at hright
    exact (ha.finished x htext htotal hclean hright).tail ⟨hnext, readsInPlace_of_text? htext⟩

theorem overlaid_of_next (hbound : bound < UInt64.size) (hsound : a.Sound bound)
    (ha : a.Overlaid bound s) (h : a.next = some b) : b.Overlaid bound s := by
  cases transferStep_of_next (fun _ _ => hsound.fits) h with
  | copy hpc hstep hb => exact overlaid_of_copy hbound hsound ha h hpc hstep hb
  | call hpc hb hio =>
    refine ⟨?_, ?_, ?_, ?_⟩
    · rw [hio]
      exact ha.quiet
    · intro x hx htotal
      have hcopy : a.pc.copy? = some x := by rw [hpc, ← hb, hx]
      rw [hio] at htotal ⊢
      obtain ⟨hlayers, hreach⟩ := ha.running x hcopy htotal
      refine ⟨hlayers, ?_⟩
      intro hbuf hin
      -- the call polls the same reader with the same buffer
      have hin' : a.ReadsInPlace := by
        intro y hy
        have hy' : b.pc.copy? = some y := by rw [hb, ← hpc, hy]
        have hread := hin y hy'
        rw [hio] at hread
        exact hread
      exact (hreach hbuf hin').tail ⟨h, hin'⟩
    · intro x hx
      rw [text?_of_copy? hb] at hx
      cases hx
    · intro x hx
      rw [text?_of_copy? hb] at hx
      cases hx
  | keep hpc hb hio =>
    have hsame : b.io.trace = a.io.trace ++ [] := by rw [hio, List.append_nil]
    exact overlaid_of_text ha h hpc hb hsame (by simp)
  | @shutdown count rawData answer hpc hb hio =>
    have htext : a.pc.text? = some (count, rawData) := by
      rw [hpc]
      rfl
    refine overlaid_of_text ha h htext ?_ hio (by simp [Event.isShutdown])
    rw [hb, text?_afterPollShutdown]

theorem padded_of_copy (hbound : bound < UInt64.size) {point : CopyPoint}
    {buf buf' : CopyBuffer} {flow : CopyFlow} {x : UInt64 × Str} (hsound : a.Sound bound)
    (ha : a.Overlaid bound s) (hcopied : a.Copied bound) (hin : a.ReadsInPlace)
    (hpc : a.pc = .copying point buf) (hstep : CopyStep point buf a.io flow buf' b.io)
    (htext : (afterCopyStep buf' flow).text? = some x)
    (htotal : (produced b.io.trace).length ≤ bound) (heof : Event.eof ∉ b.io.trace) :
    encode x.2 = padded bound (produced b.io.trace) := by
  have hcopy : a.pc.copy? = some (point, buf) := congrArg TransferAt.copy? hpc
  obtain ⟨⟨p, hp⟩, hledger⟩ := hsound point buf hcopy
  obtain ⟨bytes, hwindow, hprod⟩ := window_of_step hp.drained hstep
  rw [(text?_of_copy hledger hstep heof htext).1, hprod]
  rw [hprod] at htotal
  have hbefore : (produced a.io.trace).length ≤ bound := by
    rw [List.length_append] at htotal
    omega
  have hlayers := (ha.running _ hcopy hbefore).1
  have hshown := hcopied.running _ hcopy hbefore
  exact (padded_window_iff hp hledger hbound htotal hlayers hwindow).mpr ⟨hshown, hin _ hcopy⟩

section Run
variable {reader : R} {writer : W} {bufSize : UInt64} {direction : Direction}

theorem overlaid_of_reach
    (h : Reach (Next Transfer.next) (.start bufSize direction reader writer) t) :
    t.Overlaid bufSize.toNat (.start bufSize direction reader writer) := by
  refine h.invariant_reached
    (P := fun t => t.Overlaid bufSize.toNat (.start bufSize direction reader writer)) ?_
    ⟨.nil, ?_, ?_, ?_⟩
  · intro c d hc hoverlaid hcd
    exact overlaid_of_next bufSize.toNat_lt (transfer_sound_of_reach hc) hoverlaid hcd
  · intro x hx _
    cases hx
    refine ⟨.first rfl ?_, fun _ _ => .refl⟩
    simp [CopyBuffer.new, padded, Transfer.start]
  · intro x hx
    cases hx
  · intro x hx
    cases hx

/-- In a run whose reads are all in place, a text that is the whole buffer is the stream, as
far as it fills the buffer. -/
theorem padded_of_reach
    (h : Reach (Guarded (Next Transfer.next) Transfer.ReadsInPlace)
      (.start bufSize direction reader writer) t) (x : UInt64 × Str)
    (htext : t.pc.text? = some x) (htotal : (produced t.io.trace).length ≤ bufSize.toNat)
    (heof : Event.eof ∉ t.io.trace) :
    encode x.2 = padded bufSize.toNat (produced t.io.trace) := by
  revert x
  refine h.invariant_reached (P := fun t => (produced t.io.trace).length ≤ bufSize.toNat →
    Event.eof ∉ t.io.trace → ∀ x, t.pc.text? = some x →
    encode x.2 = padded bufSize.toNat (produced t.io.trace)) ?_ ?_ htotal heof
  · intro c d hc hold hcd htotal heof x hx
    obtain ⟨hnext, hin⟩ := hcd
    have hreach := reach_of_guarded hc
    have hsound := transfer_sound_of_reach hreach
    cases transferStep_of_next (fun _ _ => hsound.fits) hnext with
    | copy hpc hstep hd =>
      rw [hd] at hx
      exact padded_of_copy bufSize.toNat_lt hsound (overlaid_of_reach hreach)
        (copied_of_reach hc) hin hpc hstep hx htotal heof
    | call hpc hd hio =>
      rw [text?_of_copy? hd] at hx
      cases hx
    | keep hpc hd hio =>
      rw [hio] at htotal heof ⊢
      exact hold htotal heof x (by rw [hpc, ← hd, hx])
    | @shutdown count rawData answer hpc hd hio =>
      have hprod : produced d.io.trace = produced c.io.trace := by
        rw [hio, produced_append_shutdowns (by simp [Event.isShutdown])]
      have hopen : Event.eof ∉ c.io.trace := by
        intro hmem
        exact heof (hio ▸ List.mem_append_left _ hmem)
      rw [hd, text?_afterPollShutdown] at hx
      cases hx
      rw [hprod] at htotal ⊢
      exact hold htotal hopen _ (by rw [hpc]; rfl)
  · intro _ _ x hx
    cases hx

end Run

/-- Behind a clean end of a stream that fits in the buffer, the captured text is the data the
writer took, and the count its length, exactly if all reads were in place. -/
theorem captured_eq_accepted_iff (reader : R) (writer : W) (bufSize : UInt64)
    (direction : Direction) (t : Transfer R W)
    (h : Reach (Next Transfer.next) (.start bufSize direction reader writer) t)
    (htotal : (produced t.io.trace).length ≤ bufSize.toNat) (hclean : CleanEnd t.io.trace)
    (count : UInt64) (rawData : Str) (htext : t.pc.text? = some (count, rawData)) :
    (encode rawData = accepted t.io.trace ∧ count.toNat = (accepted t.io.trace).length) ↔
      Reach (Guarded (Next Transfer.next) Transfer.ReadsInPlace)
        (.start bufSize direction reader writer) t := by
  constructor
  · intro hright
    exact (overlaid_of_reach h).finished _ htext htotal hclean hright.1
  · intro hguarded
    exact (copied_of_reach hguarded).past _ htext htotal hclean

/-- The text of a stream that breaks off is the data already read exactly if this data fills
the buffer, and all reads were in place. -/
theorem captured_eq_produced_iff (reader : R) (writer : W) (bufSize : UInt64)
    (direction : Direction) (t : Transfer R W)
    (h : Reach (Next Transfer.next) (.start bufSize direction reader writer) t)
    (htotal : (produced t.io.trace).length ≤ bufSize.toNat) (e : IoError)
    (hlast : (t.io.trace.filter Event.isRead).getLast? = some (.read (.err e)))
    (count : UInt64) (rawData : Str) (htext : t.pc.text? = some (count, rawData)) :
    (encode rawData = produced t.io.trace ∧ count.toNat = (produced t.io.trace).length) ↔
      (produced t.io.trace).length = bufSize.toNat ∧
        Reach (Guarded (Next Transfer.next) Transfer.ReadsInPlace)
          (.start bufSize direction reader writer) t := by
  have hoverlaid := overlaid_of_reach h
  have heof := eof_not_mem hoverlaid.quiet hlast
  obtain ⟨hcount, hlength, hreach⟩ := hoverlaid.past _ htext htotal heof
  have hfull (hall : (produced t.io.trace).length = bufSize.toNat) :
      padded bufSize.toNat (produced t.io.trace) = produced t.io.trace := by
    rw [padded_of_le htotal, hall, Nat.sub_self]
    exact List.append_nil _
  constructor
  · intro hright
    have hall : (produced t.io.trace).length = bufSize.toNat := hright.2.symm.trans hcount
    exact ⟨hall, hreach (hright.1.trans (hfull hall).symm)⟩
  · intro hcondition
    obtain ⟨hall, hguarded⟩ := hcondition
    exact ⟨(padded_of_reach hguarded _ htext htotal heof).trans (hfull hall),
      hcount.trans hall.symm⟩

end Transfers

/-- Two reads, the second of them while the writer stalls on the first. -/
def toppedUp : Transfer Script Script :=
  .start 4 .Response ⟨[.ok [104], .ok [105], .ok []], [], [], []⟩
    ⟨[], [.pending, .ok 1, .ok 1], [.ok ()], [.ok ()]⟩

theorem captured_eq_accepted_iff_toppedUp :
    encode "hi".toList = [104, 105] ∧ (2 : UInt64).toNat = 2 :=
  (@captured_eq_accepted_iff _ _ asciiTables _ _ _ _ 4 .Response _
    (reach_runFor _ 15 toppedUp) (by decide) (by decide) 2 "hi".toList (by decide)).mpr
    (guarded_runFor _ 15 toppedUp (by decide))

def twoReads : Transfer Script Script :=
  .start 4 .Response ⟨[.ok [65], .ok [66], .ok []], [], [], []⟩
    ⟨[], [.ok 1, .ok 1], [.ok ()], [.ok ()]⟩

theorem twoReads_captured_wrong :
    ¬ ∀ t, Reach (Next (@Transfer.next _ _ asciiTables _ _)) twoReads t →
      (produced t.io.trace).length ≤ 4 → CleanEnd t.io.trace →
      ∀ count rawData, t.pc.text? = some (count, rawData) →
      encode rawData = accepted t.io.trace ∧ count.toNat = (accepted t.io.trace).length := by
  intro h
  have hwrong := h _ (reach_runFor _ 15 twoReads) (by decide) (by decide) 2 "B\x00".toList
    (by decide)
  exact absurd hwrong.1 (by decide)

def cutOff (bufSize : UInt64) : Transfer Script Script :=
  .start bufSize .Response ⟨[.ok [104, 105], .err ⟨.unexpectedEof, "eof"⟩], [], [], []⟩
    ⟨[], [.ok 2], [.ok ()], [.ok ()]⟩

theorem captured_eq_produced_iff_full :
    (encode "hi".toList = [104, 105] ∧ (2 : UInt64).toNat = 2) ↔
      (2 = (2 : UInt64).toNat ∧
        Reach (Guarded (Next (@Transfer.next _ _ asciiTables _ _)) Transfer.ReadsInPlace)
          (cutOff 2) (runFor (@Transfer.next _ _ asciiTables _ _) 7 (cutOff 2))) :=
  @captured_eq_produced_iff _ _ asciiTables _ _ _ _ 2 .Response _
    (reach_runFor _ 7 (cutOff 2)) (by decide) ⟨.unexpectedEof, "eof"⟩ (by decide) 2
    "hi".toList (by decide)

theorem cutOff_captured_wrong :
    ¬ ∀ t, Reach (Next (@Transfer.next _ _ asciiTables _ _)) (cutOff 4) t →
      (produced t.io.trace).length ≤ 4 → (fromUtf8 (produced t.io.trace)).isSome →
      ∀ e : IoError, e.kind = .unexpectedEof →
      (t.io.trace.filter Event.isRead).getLast? = some (.read (.err e)) →
      ∀ count rawData, t.pc = .loopHead (.done count rawData) →
      encode rawData = produced t.io.trace ∧ count.toNat = (produced t.io.trace).length := by
  intro h
  have hwrong := h _ (reach_runFor _ 7 (cutOff 4)) (by decide) (by decide)
    ⟨.unexpectedEof, "eof"⟩ rfl (by decide) 4 "hi\x00\x00".toList rfl
  exact absurd hwrong.2 (by decide)

end AppComponts
