import AppComponts.PlainLog
import AppComponts.TunnelCapture

/-!
# The row of a tunnelled session

What the task of a connection logs behind `handle_https`. When the tunnel has resolved, the row
names the request that was sent through it and the status of what came back; else it names the
`CONNECT` itself, with no status.
-/

namespace AppComponts
open AsyncIo Rust Transition Utf8 Text
set_option autoImplicit false

universe u v
variable {A : Type u} {B : Type v}

section Row
variable [CaseTables] {me session : Session} {toBytes : Response → List UInt8}
  {timestamp id : Str}

theorem afterCopyBidirectional_eq_ok {x y : Tally} {res : Except IoError Unit}
    (h : me.afterCopyBidirectional (.ok (x, y)) = (.ok res, session)) :
    ∃ r resp, Request.fromString x.2 = .ok (some r) ∧ Response.fromString y.2 = .ok resp ∧
      session = { me with request := r, response := resp } := by
  obtain ⟨count, fromClientData⟩ := x
  obtain ⟨count', fromServerData⟩ := y
  simp only [Session.afterCopyBidirectional] at h
  split at h
  · cases h
  · rename_i r hreq
    split at h
    · cases h
    · rename_i resp hresp
      cases h
      obtain ⟨o, ho, hunwrap⟩ := bind_eq_ok.mp hreq
      rw [unwrap_eq_ok.mp hunwrap] at ho
      exact ⟨r, resp, ho, hresp, rfl⟩

omit [CaseTables] in
theorem rowOf_texts {r : Request} {resp : Response} {answered : Str} {entry : ProxyLogEntry}
    (hresp : Response.fromString answered = .ok resp)
    (hentry : entry = proxyInfo toBytes timestamp id
      { me with request := r, response := resp }) :
    RowOf r (fun part => part = encode answered ∧ part ≠ []) entry := by
  subst hentry
  have hstatus (hne : answered ≠ []) := statusCode_of_fromString hne hresp
  refine ⟨rfl, rfl, rfl, ⟨?_, ?_⟩, ?_⟩
  · intro hcode
    refine ⟨encode answered, rfl, ?_⟩
    intro hnil
    rw [encode_eq_nil.mp hnil] at hresp
    cases hresp
    exact hcode rfl
  · intro hpart
    obtain ⟨part, rfl, hne⟩ := hpart
    exact (hstatus fun hnil => hne (encode_eq_nil.mpr hnil)).2
  · intro part hpart
    obtain ⟨rfl, hne⟩ := hpart
    rw [fromUtf8Lossy_encode]
    exact (hstatus fun hnil => hne (encode_eq_nil.mpr hnil)).1

omit [CaseTables] in
theorem rowOf_untouched {entry : ProxyLogEntry} (hstatus : me.response.statusCode = [])
    (hentry : entry = proxyInfo toBytes timestamp id me) :
    RowOf me.request (fun _ => False) entry := by
  subst hentry
  refine ⟨rfl, rfl, rfl, ⟨fun hcode => (hcode hstatus).elim, ?_⟩, fun _ h => h.elim⟩
  intro hpart
  obtain ⟨_, hpart⟩ := hpart
  exact hpart.elim

omit [CaseTables] in
theorem Handled.entry_eq_some {handled : Handled} {entry : ProxyLogEntry}
    (h : entry ∈ handled.entry toBytes timestamp id) :
    Returns handled.result ∧ entry = proxyInfo toBytes timestamp id handled.session := by
  unfold Handled.entry at h
  split at h
  · cases h
  · rename_i res hres
    cases h
    exact ⟨⟨res, hres⟩, rfl⟩

end Row

section Session
variable [CaseTables] [AsyncRead A] [AsyncWrite A] [AsyncRead B] [AsyncWrite B]
  {tls : Tls A B} {me session : Session} {host : Str} {target : TcpStream} {a : A} {b : B}
  {s : Bidirectional A B} {x y : Tally} {result : Except Panic (Except IoError Unit)}

structure Tls.Resolves (tls : Tls A B) (me : Session) (host : Str) (target : TcpStream) (a : A)
    (b : B) (s : Bidirectional A B) (x y : Tally) : Prop where
  opens : tls.Opens me host target a b
  reach : Reach (Next Bidirectional.next) (copyBidirectional a b) s
  pc : s.pc = .returned (.ok (x, y))

/-- The reads of the copies were in place, either way fits its buffer, and no stream has
broken off. -/
structure Undisturbed (a : A) (b : B) (s : Bidirectional A B) : Prop where
  inPlace : Reach (Guarded (Next Bidirectional.next) Bidirectional.ReadsInPlace)
    (copyBidirectional a b) s
  small : ∀ direction, (produced (s.side direction).trace).length ≤ defaultBufSize.toNat
  ended : ∀ direction, ¬ FailedWith .unexpectedEof (s.side direction).trace

/-- Behind a tunnel that has resolved there is one end. -/
theorem ended_of_resolves (hresolves : tls.Resolves me host target a b s x y)
    (h : Reach (Next (HttpsAt.next tls me host target)) .connected (.ended result session)) :
    me.afterCopyBidirectional (.ok (x, y)) = (result, session) := by
  have hcopying : Reach (Next (HttpsAt.next tls me host target)) .connected (.copying s) :=
    .head (next_connected hresolves.opens) (reach_copying hresolves.reach)
  have hnext : HttpsAt.next tls me host target (.copying s) =
      some (.ended (me.afterCopyBidirectional (.ok (x, y))).1
        (me.afterCopyBidirectional (.ok (x, y))).2) := by
    simp only [HttpsAt.next, hresolves.pc]
  have heq := reach_halted_unique (hcopying.tail hnext) h rfl rfl
  cases heq
  rfl

theorem untouched_of_ended (hnone : ∀ a b s x y, ¬ tls.Resolves me host target a b s x y)
    (hreturns : Returns result)
    (h : Reach (Next (HttpsAt.next tls me host target)) .connected (.ended result session)) :
    session = me := by
  obtain ⟨res, rfl⟩ := hreturns
  rcases opened_of_reach h with ⟨_, _, hsame⟩ | ⟨_, hpanic⟩ | ⟨a, b, s, hopens, hreach, hend⟩
  · exact hsame
  · cases hpanic
  · rcases hend with ⟨_, _, hpanic, _⟩ | ⟨⟨x, y⟩, hpc, _⟩
    · cases hpanic
    · exact (hnone a b s x y ⟨hopens, hreach, hpc⟩).elim

theorem texts_of_undisturbed (hresolves : tls.Resolves me host target a b s x y)
    (h : Undisturbed a b s) :
    (encode x.2 = produced s.aToB.trace ∧ encode x.2 = accepted s.aToB.trace) ∧
      encode y.2 = produced s.bToA.trace ∧ encode y.2 = accepted s.bToA.trace := by
  refine Bidirectional.texts_of_resolved h.inPlace hresolves.pc ?_ h.ended
  intro direction
  cases direction with
  | Request => exact h.small .Request
  | Response => exact h.small .Response

/-- The row of a session that comes to its tunnel with no status, as `Session::new` makes it: the
request that was sent through the tunnel and the status of the answer, if it has resolved, and
else the `CONNECT` without a status. In a tunnel that was not disturbed the two texts are what
was read at one end and taken at the other. -/
theorem tunnelSession_row (tls : Tls A B) (me session : Session) (host : Str)
    (target : TcpStream) (result : Except Panic (Except IoError Unit))
    (toBytes : Response → List UInt8) (timestamp id : Str) (entry : ProxyLogEntry)
    (hstatus : me.response.statusCode = [])
    (h : Reach (Next (HttpsAt.next tls me host target)) .connected (.ended result session))
    (hentry : entry ∈ Handled.entry toBytes timestamp id ⟨result, session, none⟩) :
    (∃ a b s x y r, tls.Resolves me host target a b s x y ∧
      Request.fromString x.2 = .ok (some r) ∧
      RowOf r (fun part => part = encode y.2 ∧ part ≠ []) entry ∧
      (Undisturbed a b s →
        (encode x.2 = produced s.aToB.trace ∧ encode x.2 = accepted s.aToB.trace) ∧
          encode y.2 = produced s.bToA.trace ∧ encode y.2 = accepted s.bToA.trace)) ∨
    ((∀ a b s x y, ¬ tls.Resolves me host target a b s x y) ∧
      RowOf me.request (fun _ => False) entry) := by
  obtain ⟨hreturns, hrow⟩ := Handled.entry_eq_some hentry
  by_cases hresolves : ∃ a b s x y, tls.Resolves me host target a b s x y
  · obtain ⟨a, b, s, x, y, hresolves⟩ := hresolves
    have hend := ended_of_resolves hresolves h
    obtain ⟨res, rfl⟩ := hreturns
    obtain ⟨r, resp, hreq, hresp, rfl⟩ := afterCopyBidirectional_eq_ok hend
    exact Or.inl ⟨a, b, s, x, y, r, hresolves, hreq, rowOf_texts hresp hrow,
      texts_of_undisturbed hresolves⟩
  · have hnone : ∀ a b s x y, ¬ tls.Resolves me host target a b s x y :=
      fun a b s x y hr => hresolves ⟨a, b, s, x, y, hr⟩
    have hsame := untouched_of_ended hnone hreturns h
    rw [hsame] at hrow
    exact Or.inr ⟨hnone, rowOf_untouched hstatus hrow⟩

end Session

def HttpsAt.returns : HttpsAt A B → Bool
  | .ended (.ok _) _ => true
  | _ => false

theorem ended_of_returns (stage : HttpsAt A B) (h : stage.returns = true) :
    ∃ res session, stage = .ended (.ok res) session := by
  cases stage with
  | ended result session =>
    cases result with
    | error p => cases h
    | ok res => exact ⟨res, session, rfl⟩
  | _ => cases h

def recordedTls : Tls Peer Peer where
  serverName _ := .ok ()
  connect _ _ := .ok recordedServer
  accept _ := .ok recordedClient

theorem tunnelSession_row_recorded : ∃ entry,
    (∃ a b s x y r,
      @Tls.Resolves _ _ asciiTables _ _ _ _ recordedTls wordSession "a".toList ⟨[], [], []⟩
        a b s x y ∧
      @Request.fromString asciiTables x.2 = .ok (some r) ∧
      RowOf r (fun part => part = encode y.2 ∧ part ≠ []) entry ∧
      (@Undisturbed _ _ asciiTables _ _ _ _ a b s →
        (encode x.2 = produced s.aToB.trace ∧ encode x.2 = accepted s.aToB.trace) ∧
          encode y.2 = produced s.bToA.trace ∧ encode y.2 = accepted s.bToA.trace)) ∨
    ((∀ a b s x y, ¬ @Tls.Resolves _ _ asciiTables _ _ _ _ recordedTls wordSession "a".toList
        ⟨[], [], []⟩ a b s x y) ∧
      RowOf wordSession.request (fun _ => False) entry) := by
  have hrun := reach_runFor (@HttpsAt.next _ _ asciiTables _ _ _ _ recordedTls wordSession
    "a".toList ⟨[], [], []⟩) 40 .connected
  obtain ⟨res, session, hended⟩ := ended_of_returns (runFor (@HttpsAt.next _ _ asciiTables
    _ _ _ _ recordedTls wordSession "a".toList ⟨[], [], []⟩) 40 .connected) (by decide +kernel)
  rw [hended] at hrun
  exact ⟨_, @tunnelSession_row _ _ asciiTables _ _ _ _ recordedTls wordSession session
    "a".toList ⟨[], [], []⟩ (.ok res) (fun _ => []) "t".toList "1".toList _ rfl hrun rfl⟩

end AppComponts
