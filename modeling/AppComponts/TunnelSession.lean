import AppComponts.Capture
import AppComponts.Library.Serving
import AppComponts.Routing
import AppComponts.TunnelRelay

/-!
# The session behind the tunnel

`handle_https` from the connection to the target on: the two handshakes, the tunnel between
their streams, and the request and the response the session takes from its texts. The TLS
library is a parameter; what it does to the connections beneath its streams is not seen.
-/

namespace AppComponts
open AsyncIo Rust Transition Utf8 Text
set_option autoImplicit false

universe u v
variable {A : Type u} {B : Type v}

def defaultBufSize : UInt64 := 8192

def copyBidirectional (a : A) (b : B) : Bidirectional A B :=
  copyBidirectionalWithSizes a b defaultBufSize defaultBufSize

/-- `ServerName::try_from`, and the handshakes of connector and acceptor. -/
structure Tls (A : Type u) (B : Type v) where
  serverName : Str → Except IoError Unit
  connect : Str → TcpStream → Except IoError B
  accept : TcpStream → Except IoError A

inductive HttpsAt (A : Type u) (B : Type v) where
  | connected
  | copying (future : Bidirectional A B)
  | ended (result : Except Panic (Except IoError Unit)) (session : Session)

section Model
variable [CaseTables]

/-- What the session makes of the tunnel's result. -/
def Session.afterCopyBidirectional (me : Session) :
    Except IoError (Tally × Tally) → Except Panic (Except IoError Unit) × Session
  | .error _ => (.ok (.ok ()), me)
  | .ok ((_, fromClientData), (_, fromServerData)) =>
    match Request.fromString fromClientData >>= unwrap with
    | .error p => (.error p, me)
    | .ok req =>
      let me := { me with request := req }
      match Response.fromString fromServerData with
      | .error _ => (.error .unwrapErr, me)
      | .ok resp => (.ok (.ok ()), { me with response := resp })

variable [AsyncRead A] [AsyncWrite A] [AsyncRead B] [AsyncWrite B]

def HttpsAt.next (tls : Tls A B) (me : Session) (host : Str) (target : TcpStream) :
    HttpsAt A B → Option (HttpsAt A B)
  | .connected =>
    match tls.serverName host with
    | .error e => some (.ended (.ok (.error e)) me)
    | .ok () =>
      match tls.connect host target with
      | .error _ => some (.ended (.ok (.ok ())) me)
      | .ok targetTlsStream =>
        match me.stream with
        | none => some (.ended (.error .unwrapNone) me)
        | some client =>
          match tls.accept client with
          | .error _ => some (.ended (.ok (.ok ())) me)
          | .ok tlsStream => some (.copying (copyBidirectional tlsStream targetTlsStream))
  | .copying future =>
    match future.pc with
    | .returned (.ok tallies) =>
      let (result, session) := me.afterCopyBidirectional (.ok tallies)
      some (.ended result session)
    | .returned (.err e) =>
      let (result, session) := me.afterCopyBidirectional (.error e)
      some (.ended result session)
    | .panicked p => some (.ended (.error p) me)
    | _ => future.next.map .copying
  | .ended _ _ => none

end Model

def Tls.Opens (tls : Tls A B) (me : Session) (host : Str) (target : TcpStream) (a : A) (b : B) :
    Prop :=
  tls.serverName host = .ok () ∧ tls.connect host target = .ok b ∧
    ∃ client, me.stream = some client ∧ tls.accept client = .ok a

section Checked
variable [CaseTables]

structure Side.Checked (side : Side) : Prop where
  direction : ∀ x, side.pc.copy? = some x → x.2.direction = .Request
  text : ∀ x, side.pc.text? = some x →
    (∃ r, Request.fromString x.2 = .ok (some r)) ∨ FailedWith .unexpectedEof side.trace

theorem checked_of_next {R : Type u} {W : Type v} [AsyncRead R] [AsyncWrite W]
    {a b : Transfer R W} {bound : Nat} (hsound : a.Sound bound) (ha : a.side.Checked)
    (h : a.next = some b) : b.side.Checked := by
  cases transferStep_of_next (fun _ _ => hsound.fits) h with
  | @copy point buf buf' flow hpc hstep hb =>
    have hdirection : buf'.direction = .Request := by
      rw [direction_of_step hstep]
      exact ha.direction (point, buf) (by rw [Transfer.side, hpc]; rfl)
    refine ⟨?_, ?_⟩
    · intro x hx
      obtain ⟨point', me⟩ := x
      rw [Transfer.side, hb] at hx
      obtain ⟨_, rfl⟩ := copy?_afterCopyStep hx
      exact hdirection
    · intro x hx
      obtain ⟨count, rawData⟩ := x
      rw [Transfer.side, hb] at hx
      rcases text?_afterCopyStep hx with ⟨_, hcaptured⟩ | ⟨e, rfl, hkind, _⟩
      · exact Or.inl ((captured_eq_ok_iff.mp hcaptured).2.2 hdirection)
      · refine Or.inr ?_
        rw [← hkind]
        apply failedWith_of_step hstep
        rw [hkind]
        intro h
        cases h
  | call hpc hb hio =>
    refine ⟨?_, ?_⟩
    · intro x hx
      exact ha.direction x (by rw [Transfer.side, hpc, ← hb]; exact hx)
    · intro x hx
      rw [Transfer.side, text?_of_copy? hb] at hx
      cases hx
  | keep hpc hb hio =>
    refine ⟨?_, ?_⟩
    · intro x hx
      have hnone : b.pc.text? = none := text?_of_copy? hx
      rw [hnone] at hb
      cases hb
    · intro x hx
      have htext := ha.text x (by rw [Transfer.side, hpc, ← hb]; exact hx)
      rw [Transfer.side, hio]
      exact htext
  | @shutdown count rawData answer hpc hb hio =>
    refine ⟨?_, ?_⟩
    · intro x hx
      rw [Transfer.side, hb, copy?_afterPollShutdown] at hx
      cases hx
    · intro x hx
      rw [Transfer.side, hb, text?_afterPollShutdown] at hx
      cases hx
      have htext := ha.text (count, rawData) (by rw [Transfer.side, hpc]; rfl)
      rw [Transfer.side, hio]
      exact htext.imp_right fun h => h.append _

end Checked

section Tunnel
variable [CaseTables] [AsyncRead A] [AsyncWrite A] [AsyncRead B] [AsyncWrite B]
  {a : A} {b : B} {aToBBufSize bToABufSize : UInt64} {s : Bidirectional A B}

theorem checked_of_reach
    (h : Reach (Next Bidirectional.next)
      (copyBidirectionalWithSizes a b aToBBufSize bToABufSize) s) : s.aToB.Checked := by
  refine h.invariant_reached (P := fun s => s.aToB.Checked) ?_ ⟨?_, fun _ h => nomatch h⟩
  · intro c d hc hchecked hcd
    obtain ⟨haToB, _⟩ := Bidirectional.kept_of_reach hc
    have hboth := Bidirectional.sides_of_next
      (P := fun side => Bidirectional.Kept aToBBufSize.toNat side ∧ side.Checked)
      (Q := fun _ => True)
      (fun t t' ht h => ⟨Bidirectional.kept_of_next ht.1 h, checked_of_next ht.1.sound ht.2 h⟩)
      (fun _ _ _ _ => trivial) ⟨⟨haToB, hchecked⟩, trivial⟩ hcd
    exact hboth.1.2
  · intro x hx
    cases hx
    rfl

variable {x y : Tally}

def HttpsAt.Opened (tls : Tls A B) (me : Session) (host : Str) (target : TcpStream) :
    HttpsAt A B → Prop
  | .connected => True
  | .copying future => ∃ a b, tls.Opens me host target a b ∧
      Reach (Next Bidirectional.next) (copyBidirectional a b) future
  | .ended result session => (∃ res, result = .ok res ∧ session = me) ∨
      (me.stream = none ∧ result = .error .unwrapNone) ∨
      ∃ a b future, tls.Opens me host target a b ∧
        Reach (Next Bidirectional.next) (copyBidirectional a b) future ∧
        ((∃ p, future.pc = .panicked p ∧ result = .error p ∧ session = me) ∨
          ∃ tallies, future.pc = .returned (.ok tallies) ∧
            me.afterCopyBidirectional (.ok tallies) = (result, session))

variable {tls : Tls A B} {me session : Session} {host : Str} {target : TcpStream}
  {stage stage' : HttpsAt A B}

theorem next_copying {u : Bidirectional A B} (h : s.next = some u) :
    HttpsAt.next tls me host target (.copying s) = some (.copying u) := by
  cases Bidirectional.step_of_next h with
  | aToB hpc => simp only [HttpsAt.next, hpc, h, Option.map_some]
  | bToA hpc => simp only [HttpsAt.next, hpc, h, Option.map_some]
  | poll hpc => simp only [HttpsAt.next, hpc, h, Option.map_some]

theorem reach_copying {u : Bidirectional A B} (h : Reach (Next Bidirectional.next) s u) :
    Reach (Next (HttpsAt.next tls me host target)) (.copying s) (.copying u) := by
  induction h with
  | refl => exact .refl
  | tail _ hstep ih => exact ih.tail (next_copying hstep)

theorem next_connected (h : tls.Opens me host target a b) :
    HttpsAt.next tls me host target .connected = some (.copying (copyBidirectional a b)) := by
  obtain ⟨hname, hconnect, client, hclient, haccept⟩ := h
  simp only [HttpsAt.next, hname, hconnect, hclient, haccept]

theorem opened_of_connected (h : HttpsAt.next tls me host target .connected = some stage') :
    stage'.Opened tls me host target := by
  simp only [HttpsAt.next] at h
  split at h
  · cases h
    exact Or.inl ⟨_, rfl, rfl⟩
  · rename_i hname
    split at h
    · cases h
      exact Or.inl ⟨_, rfl, rfl⟩
    · rename_i targetTlsStream hconnect
      split at h
      · rename_i hnone
        cases h
        exact Or.inr (Or.inl ⟨hnone, rfl⟩)
      · rename_i client hclient
        split at h
        · cases h
          exact Or.inl ⟨_, rfl, rfl⟩
        · rename_i tlsStream haccept
          cases h
          exact ⟨_, _, ⟨hname, hconnect, client, hclient, haccept⟩, .refl⟩

theorem opened_of_next (ha : stage.Opened tls me host target)
    (h : HttpsAt.next tls me host target stage = some stage') :
    stage'.Opened tls me host target := by
  cases stage with
  | connected => exact opened_of_connected h
  | ended result session => cases h
  | copying future =>
    obtain ⟨a, b, hopens, hreach⟩ := ha
    simp only [HttpsAt.next] at h
    split at h
    · rename_i tallies hpc
      cases h
      exact Or.inr (Or.inr ⟨a, b, future, hopens, hreach, Or.inr ⟨tallies, hpc, rfl⟩⟩)
    · cases h
      exact Or.inl ⟨_, rfl, rfl⟩
    · rename_i p hpc
      cases h
      exact Or.inr (Or.inr ⟨a, b, future, hopens, hreach, Or.inl ⟨p, hpc, rfl, rfl⟩⟩)
    · obtain ⟨future', hnext, rfl⟩ := Option.map_eq_some_iff.mp h
      exact ⟨a, b, hopens, hreach.tail hnext⟩

theorem opened_of_reach (h : Reach (Next (HttpsAt.next tls me host target)) .connected stage) :
    stage.Opened tls me host target :=
  h.invariant (fun _ _ => opened_of_next) trivial

omit [AsyncRead A] [AsyncWrite A] [AsyncRead B] [AsyncWrite B] in
theorem afterCopyBidirectional_panics {x y : Tally}
    (hchecked : (∃ r, Request.fromString x.2 = .ok (some r)) ∨
      FailedWith .unexpectedEof s.aToB.trace) :
    (∃ p, (me.afterCopyBidirectional (.ok (x, y))).1 = .error p) ↔
      (FailedWith .unexpectedEof s.aToB.trace ∧
        ∀ r, Request.fromString x.2 ≠ .ok (some r)) ∨
      ∃ e, Response.fromString y.2 = .error e := by
  obtain ⟨count, fromClientData⟩ := x
  obtain ⟨count', fromServerData⟩ := y
  simp only [Session.afterCopyBidirectional]
  cases hreq : Request.fromString fromClientData >>= unwrap with
  | error p =>
    have hnone : ∀ r, Request.fromString fromClientData ≠ .ok (some r) := by
      intro r hr
      rw [hr] at hreq
      cases hreq
    refine ⟨fun _ => Or.inl ⟨?_, hnone⟩, fun _ => ⟨p, rfl⟩⟩
    apply hchecked.resolve_left
    intro hrequest
    obtain ⟨r, hr⟩ := hrequest
    exact hnone r hr
  | ok req =>
    obtain ⟨r, hr, hunwrap⟩ := bind_eq_ok.mp hreq
    rw [unwrap_eq_ok.mp hunwrap] at hr
    cases hresp : Response.fromString fromServerData with
    | error e => exact ⟨fun _ => Or.inr ⟨e, rfl⟩, fun _ => ⟨.unwrapErr, rfl⟩⟩
    | ok resp =>
      constructor
      · intro hpanic
        obtain ⟨p, hp⟩ := hpanic
        cases hp
      · intro hcause
        rcases hcause with ⟨_, hnone⟩ | ⟨e, he⟩
        · exact (hnone req hr).elim
        · cases he

end Tunnel

section Session
variable [CaseTables] [AsyncRead A] [AsyncWrite A] [AsyncRead B] [AsyncWrite B]

/-- A session with its client at hand panics behind its two handshakes exactly if the capture
of a copy does, or the text of the client is no request after a stream has broken off, or the
text of the server has a first line of fewer than two words. -/
theorem handleHttps_panics_iff (tls : Tls A B) (me session : Session) (host : Str)
    (target : TcpStream) (result : Except Panic (Except IoError Unit))
    (hstream : me.stream.isSome = true)
    (h : Reach (Next (HttpsAt.next tls me host target)) .connected (.ended result session)) :
    (∃ p, result = .error p) ↔
      ∃ a b s, tls.Opens me host target a b ∧
        Reach (Next Bidirectional.next) (copyBidirectional a b) s ∧
        ((∃ p, s.pc = .panicked p) ∨ ∃ x y, s.pc = .returned (.ok (x, y)) ∧
          ((FailedWith .unexpectedEof s.aToB.trace ∧
            ∀ r, Request.fromString x.2 ≠ .ok (some r)) ∨
          ∃ e, Response.fromString y.2 = .error e)) := by
  constructor
  · intro hpanic
    obtain ⟨p, rfl⟩ := hpanic
    rcases opened_of_reach h with ⟨_, hok, _⟩ | ⟨hnone, _⟩ | ⟨a, b, s, hopens, hreach, hend⟩
    · cases hok
    · rw [hnone] at hstream
      cases hstream
    · refine ⟨a, b, s, hopens, hreach, ?_⟩
      rcases hend with ⟨q, hpc, _, _⟩ | ⟨⟨x, y⟩, hpc, hafter⟩
      · exact Or.inl ⟨q, hpc⟩
      · have hchecked := (checked_of_reach hreach).text x (text?_of_resolved hreach hpc).1
        exact Or.inr ⟨x, y, hpc,
          (afterCopyBidirectional_panics hchecked).mp ⟨p, congrArg Prod.fst hafter⟩⟩
  · intro hcause
    obtain ⟨a, b, s, hopens, hreach, hcause⟩ := hcause
    have hcopying : Reach (Next (HttpsAt.next tls me host target)) .connected (.copying s) :=
      .head (next_connected hopens) (reach_copying hreach)
    have hlast (session' : Session) {result' : Except Panic (Except IoError Unit)}
        (hnext : HttpsAt.next tls me host target (.copying s) =
          some (.ended result' session')) : result = result' := by
      have heq := reach_halted_unique h (hcopying.tail hnext) rfl rfl
      cases heq
      rfl
    rcases hcause with ⟨p, hpc⟩ | ⟨x, y, hpc, hcause⟩
    · exact ⟨p, hlast me (by simp only [HttpsAt.next, hpc])⟩
    · have hchecked := (checked_of_reach hreach).text x (text?_of_resolved hreach hpc).1
      obtain ⟨p, hp⟩ : ∃ p, (me.afterCopyBidirectional (.ok (x, y))).1 = .error p :=
        (afterCopyBidirectional_panics hchecked).mpr hcause
      refine ⟨p, ?_⟩
      rw [← hp]
      exact hlast (me.afterCopyBidirectional (.ok (x, y))).2
        (by simp only [HttpsAt.next, hpc])

end Session

def HttpsAt.panics : HttpsAt A B → Bool
  | .ended (.error _) _ => true
  | _ => false

theorem ended_of_panics (stage : HttpsAt A B) (h : stage.panics = true) :
    ∃ p session, stage = .ended (.error p) session := by
  cases stage with
  | ended result session =>
    cases result with
    | error p => exact ⟨p, session, rfl⟩
    | ok res => cases h
  | _ => cases h

/-- The server answers with a single word. -/
def wordTls : Tls Peer Peer where
  serverName _ := .ok ()
  connect _ _ := .ok ⟨[some (encode "pong\n".toList)], 1⟩
  accept _ := .ok ⟨[none, some (encode "GET / v\nHost: a\n\n".toList)], 0⟩

def wordSession : Session := ⟨default, default, some ⟨[], [], []⟩, []⟩

theorem handleHttps_panics_word :
    ∃ a b s, wordTls.Opens wordSession "a".toList ⟨[], [], []⟩ a b ∧
      Reach (Next (@Bidirectional.next _ _ asciiTables _ _ _ _)) (copyBidirectional a b) s ∧
      ((∃ p, s.pc = .panicked p) ∨ ∃ x y, s.pc = .returned (.ok (x, y)) ∧
        ((FailedWith .unexpectedEof s.aToB.trace ∧
          ∀ r, @Request.fromString asciiTables x.2 ≠ .ok (some r)) ∨
        ∃ e, Response.fromString y.2 = .error e)) := by
  have hrun := reach_runFor (@HttpsAt.next _ _ asciiTables _ _ _ _ wordTls wordSession
    "a".toList ⟨[], [], []⟩) 40 .connected
  obtain ⟨p, session, hended⟩ := ended_of_panics (runFor (@HttpsAt.next _ _ asciiTables
    _ _ _ _ wordTls wordSession "a".toList ⟨[], [], []⟩) 40 .connected) (by decide +kernel)
  rw [hended] at hrun
  exact (@handleHttps_panics_iff _ _ asciiTables _ _ _ _ wordTls wordSession session "a".toList
    ⟨[], [], []⟩ _ rfl hrun).mp ⟨p, rfl⟩

end AppComponts
