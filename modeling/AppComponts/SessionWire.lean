import AppComponts.PlainLog

/-!
# What a session writes

The bytes that the task of a connection has passed on wherever it ends. Whatever fails, the
target of a plain request has a beginning of what the client sends, and the client a beginning
of what the target sends, which it gets only behind the whole request.
-/

namespace AppComponts
open AsyncIo Rust Utf8 Text
set_option autoImplicit false

def TcpStream.sent (s : TcpStream) : List UInt8 :=
  (s.arrivals.filterMap fun arrival => arrival.toOption).flatten

def established : List UInt8 := encode "HTTP/1.1 200 Connection established\r\n\r\n".toList

namespace TcpStream
variable {s t : TcpStream} {room : Nat} {part : List UInt8}

theorem read_prefix (h : (s.read room).1 = .ok part) : part <+: s.sent := by
  unfold read at h
  split at h
  · cases h
    exact List.nil_prefix
  · cases h
  · rename_i bytes rest harrivals
    have hsent : bytes <+: s.sent := by
      rw [sent, harrivals]
      exact List.prefix_append _ _
    split at h
    · cases h
      exact hsent
    · cases h
      exact (List.take_prefix room bytes).trans hsent

theorem sent_congr (h : s.arrivals = t.arrivals) : s.sent = t.sent := by
  rw [sent, sent, h]

theorem writeAll_prefix (s : TcpStream) (bytes : List UInt8) :
    (s.writeAll bytes).2.arrivals = s.arrivals ∧
      ∃ part, part <+: bytes ∧ (s.writeAll bytes).2.written = s.written ++ part ∧
        ((s.writeAll bytes).1 = .ok () → part = bytes) := by
  unfold writeAll
  split
  · rename_i hbytes
    exact ⟨rfl, [], List.nil_prefix, (List.append_nil _).symm, fun _ => hbytes.symm⟩
  split
  · rename_i n e rest hfaults
    exact ⟨rfl, bytes.take n, List.take_prefix n bytes, rfl, fun h => by cases h⟩
  · exact ⟨rfl, bytes, List.prefix_refl bytes, rfl, fun _ => rfl⟩
  · exact ⟨rfl, bytes, List.prefix_refl bytes, rfl, fun _ => rfl⟩

end TcpStream

/-- What has passed between a client and the target that was dialled for it, if there is one. -/
structure Passed (connect : Str → Except IoError TcpStream) (address : Str)
    (client : TcpStream) (bytes : List UInt8) (handled : Handled)
    (toTarget toClient : List UInt8) : Prop where
  request : toTarget <+: bytes
  given : ∃ client' ∈ handled.session.stream, client'.written = client.written ++ toClient
  undialled : handled.target = none → toTarget = [] ∧ toClient = []
  dialled : ∀ target' ∈ handled.target, ∃ target, connect address = .ok target ∧
    target'.written = target.written ++ toTarget ∧ toClient <+: target.sent
  whole : toClient ≠ [] → toTarget = bytes

section HandleHttp
variable {me : Session} {connect : Str → Except IoError TcpStream} {address host port : Str}
  {bytes toTarget toClient : List UInt8} {client client' target target' : TcpStream}
  {handled : Handled}

theorem passed_of_dialled (hstream : handled.session.stream = some client')
    (htarget : handled.target = some target') (hdialled : connect address = .ok target)
    (hrequest : toTarget <+: bytes) (hwritten : target'.written = target.written ++ toTarget)
    (hgiven : client'.written = client.written ++ toClient) (hsent : toClient <+: target.sent)
    (hwhole : toClient ≠ [] → toTarget = bytes) :
    Passed connect address client bytes handled toTarget toClient where
  request := hrequest
  given := ⟨client', hstream, hgiven⟩
  undialled h := by
    rw [htarget] at h
    cases h
  dialled target'' h := by
    rw [htarget] at h
    cases h
    exact ⟨target, hdialled, hwritten, hsent⟩
  whole := hwhole

/-- The answer to a request that the target has taken. -/
theorem passed_relayResponse (hclient : me.stream = some client)
    (hdialled : connect address = .ok target) (harrivals : target'.arrivals = target.arrivals)
    (hwritten : target'.written = target.written ++ bytes) :
    ∃ toClient, Passed connect address client bytes (me.relayResponse target') bytes toClient := by
  have hwritten' := (TcpStream.written_read target' 8192).trans hwritten
  have hbegins {part : List UInt8} (h : (target'.read 8192).1 = .ok part) :
      part <+: target.sent := by
    rw [← TcpStream.sent_congr harrivals]
    exact TcpStream.read_prefix h
  rcases hread : target'.read 8192 with ⟨res, target''⟩
  rw [hread] at hwritten' hbegins
  have hsilent : Passed connect address client bytes ⟨.ok (.ok ()), me, some target''⟩ bytes [] :=
    passed_of_dialled hclient rfl hdialled (List.prefix_refl bytes) hwritten'
      (List.append_nil client.written).symm List.nil_prefix fun _ => rfl
  unfold Session.relayResponse
  simp only [hclient, hread]
  cases res with
  | error e => exact ⟨[], hsilent⟩
  | ok part =>
    cases part with
    | nil => exact ⟨[], hsilent⟩
    | cons b bs =>
      obtain ⟨_, toClient, htoClient, hgiven, _⟩ := client.writeAll_prefix (b :: bs)
      have hsent := htoClient.trans (hbegins rfl)
      rcases hwrite : client.writeAll (b :: bs) with ⟨written, client'⟩
      rw [hwrite] at hgiven
      simp only [hwrite]
      refine ⟨toClient, ?_⟩
      cases written with
      | error e =>
        exact passed_of_dialled rfl rfl hdialled (List.prefix_refl bytes) hwritten' hgiven hsent
          fun _ => rfl
      | ok _ =>
        cases Response.fromString (fromUtf8Lossy (b :: bs)) with
        | error e =>
          exact passed_of_dialled rfl rfl hdialled (List.prefix_refl bytes) hwritten' hgiven hsent
            fun _ => rfl
        | ok resp =>
          exact passed_of_dialled rfl rfl hdialled (List.prefix_refl bytes) hwritten' hgiven hsent
            fun _ => rfl

theorem passed_handleHttp (hclient : me.stream = some client) :
    ∃ toTarget toClient, Passed connect (host ++ ':' :: port) client bytes
      (me.handleHttp connect host port bytes) toTarget toClient := by
  have hnothing : client.written = client.written ++ [] := (List.append_nil _).symm
  cases hdialled : connect (host ++ ':' :: port) with
  | error e =>
    simp only [Session.handleHttp, hdialled]
    exact ⟨[], [], List.nil_prefix, ⟨client, hclient, hnothing⟩, fun _ => ⟨rfl, rfl⟩,
      fun _ h => (by cases h), fun h => (h rfl).elim⟩
  | ok target =>
    obtain ⟨harrivals, toTarget, hrequest, hwritten, hall⟩ := target.writeAll_prefix bytes
    rcases hwrite : target.writeAll bytes with ⟨taken, target'⟩
    rw [hwrite] at harrivals hwritten hall
    simp only [Session.handleHttp, hdialled, hwrite]
    cases taken with
    | error e =>
      exact ⟨toTarget, [], passed_of_dialled hclient rfl hdialled hrequest hwritten hnothing
        List.nil_prefix fun h => (h rfl).elim⟩
    | ok _ =>
      obtain rfl := hall rfl
      exact ⟨toTarget, passed_relayResponse hclient hdialled harrivals hwritten⟩

end HandleHttp

section HandleHttps
variable {me : Session} {connect : Str → Except IoError TcpStream}
  {certify : Str → Except Panic (Except IoError Unit)}
  {tunnel : Session → Str → TcpStream → Handled} {host port : Str} {client : TcpStream}

/-- Until there is a tunnel the client is given the answer to its `CONNECT`, and the target
nothing. -/
theorem answered_handleHttps (hclient : me.stream = some client) :
    ((me.handleHttps connect certify tunnel host port).target = none ∧
      ∃ client' ∈ (me.handleHttps connect certify tunnel host port).session.stream,
        ∃ toClient, toClient <+: established ∧ client'.written = client.written ++ toClient) ∨
    ∃ client' target, client'.written = client.written ++ established ∧
      connect (host ++ ':' :: port) = .ok target ∧
      me.handleHttps connect certify tunnel host port =
        tunnel { me with stream := some client' } host target := by
  obtain ⟨_, toClient, hbegins, hgiven, hall⟩ := client.writeAll_prefix established
  rcases hwrite : client.writeAll established with ⟨written, client'⟩
  rw [hwrite] at hgiven hall
  unfold established at hwrite
  simp only [Session.handleHttps, hclient, hwrite]
  cases written with
  | error e => exact Or.inl ⟨rfl, client', rfl, toClient, hbegins, hgiven⟩
  | ok _ =>
    cases hcertify : certify host with
    | error p => exact Or.inl ⟨rfl, client', rfl, toClient, hbegins, hgiven⟩
    | ok certified =>
      cases certified with
      | error e => exact Or.inl ⟨rfl, client', rfl, toClient, hbegins, hgiven⟩
      | ok _ =>
        cases hdialled : connect (host ++ ':' :: port) with
        | error e => exact Or.inl ⟨rfl, client', rfl, toClient, hbegins, hgiven⟩
        | ok target =>
          obtain rfl := hall rfl
          exact Or.inr ⟨client', target, hgiven, rfl, rfl⟩

end HandleHttps

theorem route_tunnel {r : Request} {way : Route} (hmethod : r.method = .CONNECT)
    (h : route r = .ok way) : ∃ host port, way = .https host port := by
  simp only [route, hmethod] at h
  obtain ⟨host, _, h⟩ := bind_eq_ok.mp h
  obtain ⟨port, _, h⟩ := bind_eq_ok.mp h
  cases h
  exact ⟨host, port, rfl⟩

section Task
variable [CaseTables] {connect : Str → Except IoError TcpStream}
  {certify : Str → Except Panic (Except IoError Unit)}
  {tunnel : Session → Str → TcpStream → Handled} {s : TcpStream} {session : Session} {raw : Str}
  {r : Request}

theorem passed_sessionTask {handleHttps : Session → Str → Str → Handled}
    (hnew : session ∈ Session.new s) (hreceived : Received s raw r)
    (hplain : r.method ≠ .CONNECT) : ∃ way toTarget toClient, route r = .ok way ∧
      Passed connect way.address s (encode raw) (sessionTask connect handleHttps session)
        toTarget toClient := by
  obtain ⟨host, port, hroute⟩ := route_plain hplain
  have hconnect := sessionConnect_of_received hnew hreceived
  simp only [sessionTask, hconnect, hroute]
  obtain ⟨toTarget, toClient, hpassed⟩ := @passed_handleHttp { session with
    stream := some (s.read 8192).2, initialData := encode raw, request := r }
    connect host port (encode raw) _ rfl
  refine ⟨.http host port, toTarget, toClient, rfl, hpassed.request, ?_, hpassed.undialled,
    hpassed.dialled, hpassed.whole⟩
  rw [← TcpStream.written_read s 8192]
  exact hpassed.given

theorem answered_sessionTask (hnew : session ∈ Session.new s) (hreceived : Received s raw r)
    (hmethod : r.method = .CONNECT) {handled : Handled} (hhandled : handled =
      sessionTask connect (fun me => me.handleHttps connect certify tunnel) session) :
    (handled.target = none ∧ ∃ client ∈ handled.session.stream,
      ∃ toClient, toClient <+: established ∧ client.written = s.written ++ toClient) ∨
    ∃ host port client target, route r = .ok (.https host port) ∧
      client.written = s.written ++ established ∧
      connect (host ++ ':' :: port) = .ok target ∧
      handled = tunnel { session with
        stream := some client, initialData := encode raw, request := r } host target := by
  subst hhandled
  have hconnect := sessionConnect_of_received hnew hreceived
  have hread := TcpStream.written_read s 8192
  cases hroute : route r with
  | error p =>
    simp only [sessionTask, hconnect, hroute]
    refine Or.inl ⟨trivial, _, rfl, [], List.nil_prefix, ?_⟩
    rw [hread, List.append_nil]
  | ok way =>
    obtain ⟨host, port, rfl⟩ := route_tunnel hmethod hroute
    simp only [sessionTask, hconnect, hroute]
    rw [← hread]
    have hanswered := @answered_handleHttps { session with
      stream := some (s.read 8192).2, initialData := encode raw, request := r }
      connect certify tunnel host port _ rfl
    rcases hanswered with hended | ⟨client, target, hgiven, hdialled, heq⟩
    · exact Or.inl hended
    · exact Or.inr ⟨host, port, client, target, rfl, hgiven, hdialled, heq⟩

/-- What the task of a connection has written when it ends. Without a request nothing. For a
plain request the target that its route leads to has a beginning of this request, and the client
a beginning of what that target sends, none as long as the request is not written whole. For a
`CONNECT` the client has the answer to it, or a beginning of that and no target is held, and the
tunnel starts with a target that nothing was written to. -/
theorem session_passes (connect : Str → Except IoError TcpStream)
    (certify : Str → Except Panic (Except IoError Unit))
    (tunnel : Session → Str → TcpStream → Handled) (s : TcpStream) (session : Session)
    (hnew : session ∈ Session.new s) (handled : Handled)
    (hhandled : handled =
      sessionTask connect (fun me => me.handleHttps connect certify tunnel) session) :
    ((∀ raw r, ¬ Received s raw r) → handled.target = none ∧ handled.session = session) ∧
    ∀ raw r, Received s raw r → encode raw <+: s.sent ∧
      (r.method ≠ .CONNECT → ∃ way toTarget toClient, route r = .ok way ∧
        Passed connect way.address s (encode raw) handled toTarget toClient) ∧
      (r.method = .CONNECT →
        (handled.target = none ∧ ∃ client ∈ handled.session.stream,
          ∃ toClient, toClient <+: established ∧ client.written = s.written ++ toClient) ∨
        ∃ host port client target, route r = .ok (.https host port) ∧
          client.written = s.written ++ established ∧
          connect (host ++ ':' :: port) = .ok target ∧
          handled = tunnel { session with
            stream := some client, initialData := encode raw, request := r } host target) := by
  constructor
  · intro hnone
    rw [hhandled]
    cases hconnect : session.sessionConnect with
    | error p => simp only [sessionTask, hconnect, and_self]
    | ok session' =>
      obtain ⟨raw, r, hreceived⟩ := received_of_sessionConnect hnew hconnect
      exact (hnone raw r hreceived).elim
  · intro raw r hreceived
    refine ⟨TcpStream.read_prefix hreceived.read, ?_, ?_⟩
    · intro hplain
      rw [hhandled]
      exact passed_sessionTask hnew hreceived hplain
    · intro hmethod
      exact answered_sessionTask hnew hreceived hmethod hhandled

end Task

/-- A client that takes two bytes of the answer to it. -/
def leavingStream : TcpStream :=
  ⟨[.ok (encode "GET /u v\nHost: a:8\n\n".toList)], [some (2, ⟨.other 32, "Broken pipe"⟩)], []⟩

theorem session_passes_leaving : ∃ toTarget toClient,
    Passed (fun _ => .ok (answering ["x 404 Not Found\n".toList])) "a:8".toList leavingStream
      (encode "GET /u v\nHost: a:8\n\n".toList)
      (@sessionTask asciiTables (fun _ => .ok (answering ["x 404 Not Found\n".toList]))
        (fun me => me.handleHttps (fun _ => .ok (answering ["x 404 Not Found\n".toList]))
          (fun _ => .ok (.ok ())) (fun me _ _ => ⟨.ok (.ok ()), me, none⟩))
        ⟨default, default, some leavingStream, []⟩) toTarget toClient := by
  obtain ⟨_, hplain, _⟩ := (@session_passes asciiTables
    (fun _ => .ok (answering ["x 404 Not Found\n".toList])) (fun _ => .ok (.ok ()))
    (fun me _ _ => ⟨.ok (.ok ()), me, none⟩) leavingStream
    ⟨default, default, some leavingStream, []⟩ rfl _ rfl).2 "GET /u v\nHost: a:8\n\n".toList
    ⟨.GET, "/u".toList, "v".toList, ["Host: a:8".toList], [], "a:8".toList⟩
    (@Received.mk asciiTables _ _ _ rfl rfl)
  obtain ⟨way, toTarget, toClient, hroute, hpassed⟩ := hplain (by decide)
  cases hroute
  exact ⟨toTarget, toClient, hpassed⟩

end AppComponts
