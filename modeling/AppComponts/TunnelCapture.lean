import AppComponts.TunnelSession

/-!
# What the session knows of its tunnel

When the reads of both copies are in place and no stream breaks off, the two texts are all
that has crossed the tunnel, so the session's request is the one the client has sent and its
response the one the server has answered with.
-/

namespace AppComponts
open AsyncIo Rust Transition Utf8 Text
set_option autoImplicit false

universe u v
variable {A : Type u} {B : Type v}

/-- Past its copying a transfer has ended cleanly, or a stream has broken off. -/
def Side.Settled (side : Side) : Prop :=
  ∀ x, side.pc.text? = some x → CleanEnd side.trace ∨ FailedWith .unexpectedEof side.trace

section Transfers
variable {R : Type u} {W : Type v} [CaseTables] [AsyncRead R] [AsyncWrite W]
  {a b : Transfer R W} {bound : Nat}

omit [CaseTables] [AsyncRead R] [AsyncWrite W] in
theorem copied_of_side {a' : Transfer R W} (hside : a'.side = a.side) (ha : a.Copied bound) :
    a'.Copied bound := by
  have hpc : a'.pc = a.pc := congrArg Side.pc hside
  have htrace : a'.io.trace = a.io.trace := congrArg Side.trace hside
  refine ⟨?_, ?_⟩
  · rw [hpc, htrace]
    exact ha.running
  · rw [hpc, htrace]
    exact ha.past

omit [CaseTables] in
theorem cleanEnd_of_finish {point : CopyPoint} {me me' : CopyBuffer} {io io' : Io R W}
    {count : UInt64} (h : CopyStep point me io (.ret (.ok count)) me' io') :
    CleanEnd io'.trace := by
  obtain ⟨_, _, _, _, hflush⟩ := finish_of_step h
  rw [Io.pollFlush_trace hflush]
  exact cleanEnd_flush

theorem settled_of_next (hsound : a.Sound bound) (ha : a.side.Settled) (h : a.next = some b) :
    b.side.Settled := by
  cases transferStep_of_next (fun _ _ => hsound.fits) h with
  | copy hpc hstep hb =>
    intro x hx
    obtain ⟨count, rawData⟩ := x
    rw [Transfer.side, hb] at hx
    rcases text?_afterCopyStep hx with ⟨rfl, _⟩ | ⟨e, rfl, hkind, _⟩
    · exact Or.inl (cleanEnd_of_finish hstep)
    · refine Or.inr ?_
      rw [← hkind]
      apply failedWith_of_step hstep
      rw [hkind]
      intro h
      cases h
  | call hpc hb hio =>
    intro x hx
    rw [Transfer.side, text?_of_copy? hb] at hx
    cases hx
  | keep hpc hb hio =>
    intro x _
    rw [Transfer.side, hio]
    exact ha _ hpc
  | @shutdown count rawData answer hpc hb hio =>
    intro x _
    have hold := ha (count, rawData) (by rw [Transfer.side, hpc]; rfl)
    rw [Transfer.side, hio, cleanEnd_shutdown]
    exact hold.imp_right fun h => h.append _

end Transfers

namespace Bidirectional
section Runs
variable [CaseTables] [AsyncRead A] [AsyncWrite A] [AsyncRead B] [AsyncWrite B]
  {a : A} {b : B} {aToBBufSize bToABufSize : UInt64} {s u : Bidirectional A B}

theorem settled_of_reach
    (h : Reach (Next next) (copyBidirectionalWithSizes a b aToBBufSize bToABufSize) s) :
    s.aToB.Settled ∧ s.bToA.Settled := by
  refine h.invariant_reached (P := fun s => s.aToB.Settled ∧ s.bToA.Settled) ?_
    ⟨fun _ h => (nomatch h), fun _ h => nomatch h⟩
  intro c d hc hsettled hcd
  obtain ⟨haToB, hbToA⟩ := kept_of_reach hc
  have hboth := sides_of_next
    (P := fun side => Kept aToBBufSize.toNat side ∧ side.Settled)
    (Q := fun side => Kept bToABufSize.toNat side ∧ side.Settled)
    (fun t t' ht h => ⟨kept_of_next ht.1 h, settled_of_next ht.1.sound ht.2 h⟩)
    (fun t t' ht h => ⟨kept_of_next ht.1 h, settled_of_next ht.1.sound ht.2 h⟩)
    ⟨⟨haToB, hsettled.1⟩, hbToA, hsettled.2⟩ hcd
  exact ⟨hboth.1.2, hboth.2.2⟩

omit [CaseTables] in
/-- The transfer whose turn it is reads in place. -/
structure ReadsInPlace (s : Bidirectional A B) : Prop where
  aToB : s.pc = .aToB → s.aToBTransfer.ReadsInPlace
  bToA : ∀ aToB, s.pc = .bToA aToB → s.bToATransfer.ReadsInPlace

instance (s : Bidirectional A B) : Decidable s.ReadsInPlace :=
  match hpc : s.pc with
  | .aToB => decidable_of_iff s.aToBTransfer.ReadsInPlace
      ⟨fun h => ⟨fun _ => h, fun _ h' => nomatch hpc.symm.trans h'⟩, fun h => h.aToB hpc⟩
  | .bToA held => decidable_of_iff s.bToATransfer.ReadsInPlace
      ⟨fun h => ⟨fun h' => (nomatch hpc.symm.trans h'), fun _ _ => h⟩, fun h => h.bToA held hpc⟩
  | .returned _ => isTrue
      ⟨fun h => (nomatch hpc.symm.trans h), fun _ h => nomatch hpc.symm.trans h⟩
  | .panicked _ => isTrue
      ⟨fun h => (nomatch hpc.symm.trans h), fun _ h => nomatch hpc.symm.trans h⟩

theorem copied_of_step (hs : Kept aToBBufSize.toNat s.aToB ∧ Kept bToABufSize.toNat s.bToA)
    (hcopied : s.aToBTransfer.Copied aToBBufSize.toNat ∧
      s.bToATransfer.Copied bToABufSize.toNat)
    (hin : s.ReadsInPlace) (h : s.next = some u) :
    u.aToBTransfer.Copied aToBBufSize.toNat ∧ u.bToATransfer.Copied bToABufSize.toNat := by
  obtain ⟨haToB, hbToA⟩ := hcopied
  cases step_of_next h with
  | @aToB t hpc ht hside hother hflow hreports =>
    have hsound : s.aToBTransfer.Sound aToBBufSize.toNat := hs.1.sound
    have ht := copied_of_next aToBBufSize.toNat_lt hsound haToB (hin.aToB hpc) ht
    exact ⟨copied_of_side hside ht, copied_of_side (a := s.bToATransfer) hother hbToA⟩
  | @bToA held t hpc ht hother hside hflow hreports =>
    have hsound : s.bToATransfer.Sound bToABufSize.toNat := hs.2.sound
    have ht := copied_of_next bToABufSize.toNat_lt hsound hbToA (hin.bToA held hpc) ht
    exact ⟨copied_of_side (a := s.aToBTransfer) hother haToB, copied_of_side hside ht⟩
  | poll hpc hflow haToB' hbToA' hreports =>
    exact ⟨copied_of_side (a := s.aToBTransfer) haToB' haToB,
      copied_of_side (a := s.bToATransfer) hbToA' hbToA⟩

omit [CaseTables] in
theorem copied_new {R : Type u} {W : Type v} [AsyncRead R] [AsyncWrite W] (bufSize : UInt64)
    (direction : Direction) (io : Io R W) (hio : io.trace = []) :
    Transfer.Copied bufSize.toNat ⟨.loopHead (.running (.new bufSize direction)), io⟩ := by
  refine ⟨?_, fun _ h => nomatch h⟩
  intro x hx _
  cases hx
  simp [CopyBuffer.new, padded, hio]

theorem copied_of_reach
    (h : Reach (Guarded (Next next) ReadsInPlace)
      (copyBidirectionalWithSizes a b aToBBufSize bToABufSize) s) :
    s.aToBTransfer.Copied aToBBufSize.toNat ∧ s.bToATransfer.Copied bToABufSize.toNat := by
  refine h.invariant_reached (P := fun s => s.aToBTransfer.Copied aToBBufSize.toNat ∧
    s.bToATransfer.Copied bToABufSize.toNat) ?_
    ⟨copied_new _ _ _ rfl, copied_new _ _ _ rfl⟩
  intro c d hc hcopied hcd
  exact copied_of_step (kept_of_reach (reach_of_guarded hc)) hcopied hcd.2 hcd.1

/-- Of a tunnel whose reads were in place and whose streams ended, the tallies hold what was
read at one end and taken at the other. -/
theorem texts_of_resolved
    (h : Reach (Guarded (Next next) ReadsInPlace)
      (copyBidirectionalWithSizes a b aToBBufSize bToABufSize) s)
    {x y : Tally} (hpc : s.pc = .returned (.ok (x, y)))
    (hsmall : ∀ direction : Direction, (produced (s.side direction).trace).length ≤
      (direction.bufSize aToBBufSize bToABufSize).toNat)
    (hended : ∀ direction, ¬ FailedWith .unexpectedEof (s.side direction).trace) :
    (encode x.2 = produced s.aToB.trace ∧ encode x.2 = accepted s.aToB.trace) ∧
      encode y.2 = produced s.bToA.trace ∧ encode y.2 = accepted s.bToA.trace := by
  have hreach := reach_of_guarded h
  obtain ⟨hx, hy⟩ := text?_of_resolved hreach hpc
  obtain ⟨haToB, hbToA⟩ := copied_of_reach h
  obtain ⟨hsettledA, hsettledB⟩ := settled_of_reach hreach
  have hcleanA := (hsettledA x hx).resolve_right (hended .Request)
  have hcleanB := (hsettledB y hy).resolve_right (hended .Response)
  have hwholeA := (wholeStream_of_resolved hreach hpc .Request).resolve_right (hended .Request)
  have hwholeB := (wholeStream_of_resolved hreach hpc .Response).resolve_right (hended .Response)
  obtain ⟨htextA, _⟩ := haToB.past x hx (hsmall .Request) hcleanA
  obtain ⟨htextB, _⟩ := hbToA.past y hy (hsmall .Response) hcleanB
  exact ⟨⟨htextA.trans hwholeA.taken, htextA⟩, htextB.trans hwholeB.taken, htextB⟩

end Runs
end Bidirectional

section Session
variable [CaseTables] [AsyncRead A] [AsyncWrite A] [AsyncRead B] [AsyncWrite B]

/-- The request of the session is the one that was sent through its tunnel and its response
the one that came back, when the copies' reads were in place, either way fits the buffer and
no stream has broken off. -/
theorem handleHttps_records (me : Session) (a : A) (b : B) (s : Bidirectional A B)
    (h : Reach (Guarded (Next Bidirectional.next) Bidirectional.ReadsInPlace)
      (copyBidirectional a b) s)
    (x y : Tally) (hpc : s.pc = .returned (.ok (x, y)))
    (hsmall : ∀ direction, (produced (s.side direction).trace).length ≤ defaultBufSize.toNat)
    (hended : ∀ direction, ¬ FailedWith .unexpectedEof (s.side direction).trace) :
    ∃ sent answered r, encode sent = produced s.aToB.trace ∧
      encode sent = accepted s.aToB.trace ∧ encode answered = produced s.bToA.trace ∧
      encode answered = accepted s.bToA.trace ∧ Request.fromString sent = .ok (some r) ∧
      me.afterCopyBidirectional (.ok (x, y)) =
        match Response.fromString answered with
        | .error _ => (.error .unwrapErr, { me with request := r })
        | .ok resp => (.ok (.ok ()), { me with request := r, response := resp }) := by
  have hreach := reach_of_guarded h
  have hsmall' (direction : Direction) : (produced (s.side direction).trace).length ≤
      (direction.bufSize defaultBufSize defaultBufSize).toNat := by
    cases direction with
    | Request => exact hsmall .Request
    | Response => exact hsmall .Response
  obtain ⟨⟨hsent, htaken⟩, hanswered, hgiven⟩ :=
    Bidirectional.texts_of_resolved h hpc hsmall' hended
  obtain ⟨r, hr⟩ := ((checked_of_reach hreach).text x
    (text?_of_resolved hreach hpc).1).resolve_right (hended .Request)
  refine ⟨x.2, y.2, r, hsent, htaken, hanswered, hgiven, hr, ?_⟩
  obtain ⟨count, fromClientData⟩ := x
  obtain ⟨count', fromServerData⟩ := y
  have hreq : Request.fromString fromClientData >>= unwrap = .ok r := by
    rw [hr]
    rfl
  cases hresp : Response.fromString fromServerData with
  | error e => simp only [Session.afterCopyBidirectional, hreq, hresp]
  | ok resp => simp only [Session.afterCopyBidirectional, hreq, hresp]

end Session

/-- A request, and an answer that comes while the client is slow to take it. -/
def recordedClient : Peer := ⟨[none, some (encode "GET / v\nHost: a\n\n".toList)], 0⟩

def recordedServer : Peer := ⟨[some (encode "HTTP/1.1 200 OK\n".toList)], 1⟩

def recordedEnd : Bidirectional Peer Peer :=
  runFor (@Bidirectional.next _ _ asciiTables _ _ _ _) 33
    (copyBidirectional recordedClient recordedServer)

theorem handleHttps_records_tunnel :
    ∃ sent answered r, encode sent = produced recordedEnd.aToB.trace ∧
      encode sent = accepted recordedEnd.aToB.trace ∧
      encode answered = produced recordedEnd.bToA.trace ∧
      encode answered = accepted recordedEnd.bToA.trace ∧
      @Request.fromString asciiTables sent = .ok (some r) ∧
      @Session.afterCopyBidirectional asciiTables wordSession
          (.ok ((17, "GET / v\nHost: a\n\n".toList), (16, "HTTP/1.1 200 OK\n".toList))) =
        match Response.fromString answered with
        | .error _ => (.error .unwrapErr, { wordSession with request := r })
        | .ok resp => (.ok (.ok ()), { wordSession with request := r, response := resp }) := by
  have hrun : Reach (Guarded (Next (@Bidirectional.next _ _ asciiTables _ _ _ _))
      Bidirectional.ReadsInPlace) (copyBidirectional recordedClient recordedServer)
      recordedEnd := guarded_runFor _ 33 _ (by decide +kernel)
  refine @handleHttps_records _ _ asciiTables _ _ _ _ wordSession recordedClient recordedServer
    recordedEnd hrun (17, "GET / v\nHost: a\n\n".toList) (16, "HTTP/1.1 200 OK\n".toList) ?_ ?_ ?_
  · decide +kernel
  · intro direction
    cases direction <;> decide +kernel
  · intro direction
    apply not_failedWith
    cases direction <;> decide +kernel

end AppComponts
