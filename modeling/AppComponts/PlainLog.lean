import AppComponts.Logs
import AppComponts.PlainHttp
import AppComponts.ResponseText
import AppComponts.Routing

/-!
# The row of a plain session

What the task of a connection logs behind `handle_http`. The row names the request of the
client's first read, and a status exactly if a part of an answer was passed on to the client.
The time, the id and the JSON of the response, of which the row has the length, are parameters.
-/

namespace AppComponts
open AsyncIo Rust Utf8 Text
set_option autoImplicit false

/-- The entry `proxy_info!` makes of a session. -/
def proxyInfo (toBytes : Response → List UInt8) (timestamp id : Str) (session : Session) :
    ProxyLogEntry where
  timestamp := timestamp
  id := id
  host := session.request.host
  method := session.request.method.asStr
  url := session.request.url
  statusCode := session.response.statusCode
  length := (toBytes session.response).length.repr.toList

def Handled.entry (toBytes : Response → List UInt8) (timestamp id : Str) (handled : Handled) :
    Option ProxyLogEntry :=
  match handled.result with
  | .error _ => none
  | .ok _ => some (proxyInfo toBytes timestamp id handled.session)

structure Relayed (connect : Str → Except IoError TcpStream) (address : Str)
    (client target : TcpStream) (part : List UInt8) : Prop where
  dialled : connect address = .ok target
  taken : ¬ target.Refuses
  read : (target.read 8192).1 = .ok part
  nonempty : part ≠ []
  given : ¬ client.Refuses

section Response
variable {raw : Str} {resp : Response}

theorem statusCode_of_fromString (hne : raw ≠ []) (h : Response.fromString raw = .ok resp) :
    (splitWhitespace (firstLine raw))[1]? = some resp.statusCode ∧ resp.statusCode ≠ [] := by
  obtain ⟨line, rest, version, statusCode, words, hlines, hparts, rfl⟩ :=
    Response.fromString_eq_ok hne h
  have hfirst : firstLine raw = line := by
    rw [firstLine_eq, hlines]
    rfl
  rw [hfirst]
  constructor
  · rw [hparts]
    rfl
  · have hword : IsWord statusCode := by
      apply isWord_of_mem_splitWhitespace (s := line)
      rw [hparts]
      exact List.mem_cons_of_mem version List.mem_cons_self
    exact hword.1

end Response

inductive HttpEnd (me : Session) (connect : Str → Except IoError TcpStream) (address : Str)
    (bytes : List UInt8) (client : TcpStream) (handled : Handled) : Prop where
  | relayed (target target' client' : TcpStream) (part : List UInt8)
      (h : Relayed connect address client target part)
      (hclient : client'.written = client.written ++ part)
      (htarget : target'.written = target.written ++ bytes)
      (hhandled : handled = match Response.fromString (fromUtf8Lossy part) with
        | .error _ => ⟨.error .unwrapErr, { me with stream := some client' }, some target'⟩
        | .ok resp =>
          ⟨.ok (.ok ()), { me with stream := some client', response := resp }, some target'⟩)
  | silent (h : ∀ target part, ¬ Relayed connect address client target part)
      (hreturns : Returns handled.result) (hrequest : handled.session.request = me.request)
      (hresponse : handled.session.response = me.response)

section HandleHttp
variable {me : Session} {connect : Str → Except IoError TcpStream} {host port : Str}
  {bytes : List UInt8} {client target : TcpStream}

theorem Relayed.unique {address : Str} {target' : TcpStream} {part part' : List UInt8}
    (h : Relayed connect address client target part)
    (h' : Relayed connect address client target' part') : target = target' ∧ part = part' := by
  obtain rfl : target = target' := Except.ok.inj (h.dialled.symm.trans h'.dialled)
  exact ⟨rfl, Except.ok.inj (h.read.symm.trans h'.read)⟩

theorem httpEnd_relayResponse {address : Str} {target' : TcpStream}
    (hclient : me.stream = some client) (hdialled : connect address = .ok target)
    (htaken : ¬ target.Refuses) (hwritten : target'.written = target.written ++ bytes)
    (harrivals : target'.arrivals = target.arrivals) :
    HttpEnd me connect address bytes client (me.relayResponse target') := by
  have hsame : (target'.read 8192).1 = (target.read 8192).1 := TcpStream.read_congr harrivals
  have hwritten' := (TcpStream.written_read target' 8192).trans hwritten
  rcases hread : target'.read 8192 with ⟨res, target''⟩
  rw [hread] at hsame hwritten'
  have hpart {target₁ : TcpStream} {part : List UInt8}
      (h : Relayed connect address client target₁ part) : res = .ok part := by
    obtain rfl : target = target₁ := Except.ok.inj (hdialled.symm.trans h.dialled)
    exact hsame.trans h.read
  unfold Session.relayResponse
  simp only [hclient, hread]
  cases res with
  | error e =>
    refine .silent ?_ ⟨_, rfl⟩ rfl rfl
    intro target₁ part h
    cases hpart h
  | ok part =>
    cases part with
    | nil =>
      refine .silent ?_ ⟨_, rfl⟩ rfl rfl
      intro target₁ part h
      cases hpart h
      exact h.nonempty rfl
    | cons b bs =>
      by_cases hrefuses : client.Refuses
      · obtain ⟨e, client', hwrite⟩ :=
          TcpStream.writeAll_refused hrefuses (List.cons_ne_nil b bs)
        simp only [hwrite]
        exact .silent (fun _ _ h => h.given hrefuses) ⟨_, rfl⟩ rfl rfl
      · obtain ⟨client', hwrite, hclient', _⟩ :=
          TcpStream.writeAll_ok fun _ : b :: bs ≠ [] => hrefuses
        simp only [hwrite]
        refine .relayed target target'' client' (b :: bs)
          ⟨hdialled, htaken, hsame.symm, List.cons_ne_nil b bs, hrefuses⟩ hclient' hwritten' ?_
        cases Response.fromString (fromUtf8Lossy (b :: bs)) <;> rfl

theorem httpEnd_handleHttp (hclient : me.stream = some client) (hbytes : bytes ≠ []) :
    HttpEnd me connect (host ++ ':' :: port) bytes client
      (me.handleHttp connect host port bytes) := by
  cases hdialled : connect (host ++ ':' :: port) with
  | error e =>
    simp only [Session.handleHttp, hdialled]
    refine .silent ?_ ⟨_, rfl⟩ rfl rfl
    intro target part h
    cases hdialled.symm.trans h.dialled
  | ok target =>
    by_cases hrefuses : target.Refuses
    · obtain ⟨e, target', hwrite⟩ := TcpStream.writeAll_refused hrefuses hbytes
      simp only [Session.handleHttp, hdialled, hwrite]
      refine .silent ?_ ⟨_, rfl⟩ rfl rfl
      intro target₁ part h
      obtain rfl : target = target₁ := Except.ok.inj (hdialled.symm.trans h.dialled)
      exact h.taken hrefuses
    · obtain ⟨target', hwrite, hwritten, harrivals⟩ :=
        TcpStream.writeAll_ok fun _ : bytes ≠ [] => hrefuses
      simp only [Session.handleHttp, hdialled, hwrite]
      exact httpEnd_relayResponse hclient hdialled hrefuses hwritten harrivals

end HandleHttp

/-- The row names the request and the status of the answer, if one was relayed. -/
structure RowOf (r : Request) (relayed : List UInt8 → Prop) (entry : ProxyLogEntry) : Prop where
  host : entry.host = r.host
  method : entry.method = r.method.asStr
  url : entry.url = r.url
  status_iff : entry.statusCode ≠ [] ↔ ∃ part, relayed part
  status : ∀ part, relayed part →
    (splitWhitespace (firstLine (fromUtf8Lossy part)))[1]? = some entry.statusCode

section Ends
variable {me : Session} {connect : Str → Except IoError TcpStream} {address : Str}
  {bytes : List UInt8} {client : TcpStream} {handled : Handled}
  {toBytes : Response → List UInt8} {timestamp id : Str}

/-- A session logs nothing exactly if what it has passed on is no response. -/
theorem HttpEnd.entry_eq_none_iff (h : HttpEnd me connect address bytes client handled) :
    handled.entry toBytes timestamp id = none ↔
      ∃ target part e, Relayed connect address client target part ∧
        Response.fromString (fromUtf8Lossy part) = .error e := by
  cases h with
  | relayed target target' client' part h hclient htarget hhandled =>
    cases hresp : Response.fromString (fromUtf8Lossy part) with
    | error e =>
      rw [hresp] at hhandled
      rw [hhandled]
      exact ⟨fun _ => ⟨target, part, e, h, hresp⟩, fun _ => rfl⟩
    | ok resp =>
      rw [hresp] at hhandled
      rw [hhandled]
      constructor
      · intro hnone
        cases hnone
      · intro hbad
        obtain ⟨target₁, part₁, e, h₁, hno⟩ := hbad
        rw [← (h.unique h₁).2, hresp] at hno
        cases hno
  | silent h hreturns hrequest hresponse =>
    obtain ⟨res, hres⟩ := hreturns
    rw [Handled.entry, hres]
    constructor
    · intro hnone
      cases hnone
    · intro hbad
      obtain ⟨target, part, e, hrelayed, _⟩ := hbad
      exact (h target part hrelayed).elim

theorem HttpEnd.rowOf (h : HttpEnd me connect address bytes client handled)
    (hstatus : me.response.statusCode = []) {entry : ProxyLogEntry}
    (hentry : entry ∈ handled.entry toBytes timestamp id) :
    RowOf me.request (fun part => ∃ target, Relayed connect address client target part)
      entry := by
  cases h with
  | relayed target target' client' part h hclient htarget hhandled =>
    have hne := fromUtf8Lossy_ne_nil h.nonempty
    cases hresp : Response.fromString (fromUtf8Lossy part) with
    | error e =>
      rw [hresp] at hhandled
      rw [hhandled] at hentry
      cases hentry
    | ok resp =>
      obtain ⟨hword, hcode⟩ := statusCode_of_fromString hne hresp
      rw [hresp] at hhandled
      rw [hhandled] at hentry
      cases hentry
      refine ⟨rfl, rfl, rfl, ⟨fun _ => ⟨part, target, h⟩, fun _ => hcode⟩, ?_⟩
      intro part₁ h₁
      obtain ⟨target₁, h₁⟩ := h₁
      rw [← (h.unique h₁).2]
      exact hword
  | silent h hreturns hrequest hresponse =>
    obtain ⟨res, hres⟩ := hreturns
    rw [Handled.entry, hres] at hentry
    cases hentry
    simp only [proxyInfo, hrequest, hresponse]
    refine ⟨rfl, rfl, rfl, ⟨fun hcode => (hcode hstatus).elim, ?_⟩, ?_⟩
    · intro hsome
      obtain ⟨part, target, hrelayed⟩ := hsome
      exact (h target part hrelayed).elim
    · intro part hsome
      obtain ⟨target, hrelayed⟩ := hsome
      exact (h target part hrelayed).elim

/-- What was read of the answer is with the client, and the request with the target. -/
theorem HttpEnd.delivered (h : HttpEnd me connect address bytes client handled)
    {target : TcpStream} {part : List UInt8}
    (hrelayed : Relayed connect address client target part) :
    (∃ client' ∈ handled.session.stream, client'.written = client.written ++ part) ∧
      ∃ target' ∈ handled.target, target'.written = target.written ++ bytes := by
  cases h with
  | relayed target₁ target' client' part₁ h hclient htarget hhandled =>
    obtain ⟨rfl, rfl⟩ := h.unique hrelayed
    rw [hhandled]
    cases Response.fromString (fromUtf8Lossy part₁) with
    | error e => exact ⟨⟨client', rfl, hclient⟩, target', rfl, htarget⟩
    | ok resp => exact ⟨⟨client', rfl, hclient⟩, target', rfl, htarget⟩
  | silent h hreturns hrequest hresponse => exact (h target part hrelayed).elim

theorem relayed_read {s target : TcpStream} {part : List UInt8} {room : Nat} :
    Relayed connect address (s.read room).2 target part ↔
      Relayed connect address s target part := by
  constructor
  · intro h
    exact ⟨h.dialled, h.taken, h.read, h.nonempty,
      fun hrefuses => h.given ((TcpStream.refuses_read s room).mpr hrefuses)⟩
  · intro h
    exact ⟨h.dialled, h.taken, h.read, h.nonempty,
      fun hrefuses => h.given ((TcpStream.refuses_read s room).mp hrefuses)⟩

end Ends

theorem route_plain {r : Request} (h : r.method ≠ .CONNECT) :
    ∃ host port, route r = .ok (.http host port) := by
  unfold route
  split
  · rename_i hconnect
    exact (h hconnect).elim
  · split
    · exact ⟨_, _, rfl⟩
    · exact ⟨_, _, rfl⟩
    · exact ⟨_, _, rfl⟩

section Task
variable [CaseTables]

/-- The first read of a connection brings the request, as this text. -/
structure Received (s : TcpStream) (raw : Str) (r : Request) : Prop where
  read : (s.read 8192).1 = .ok (encode raw)
  parsed : Request.fromString raw = .ok (some r)

variable {connect : Str → Except IoError TcpStream}
  {handleHttps : Session → Str → Str → Handled} {toBytes : Response → List UInt8}
  {timestamp id : Str} {s : TcpStream} {session : Session} {raw : Str} {r : Request}

theorem received_of_sessionConnect {session' : Session} (hnew : session ∈ Session.new s)
    (h : session.sessionConnect = .ok session') : ∃ raw r, Received s raw r := by
  cases hnew
  obtain ⟨stream, stream', bytes, raw, hstream, hread, rfl, hparse, _⟩ := sessionConnect_eq_ok h
  cases hstream
  exact ⟨raw, session'.request, by rw [hread], hparse⟩

theorem sessionConnect_of_received (hnew : session ∈ Session.new s) (h : Received s raw r) :
    session.sessionConnect = .ok { session with
      stream := some (s.read 8192).2, initialData := encode raw, request := r } := by
  cases hnew
  refine sessionConnect_of_read rfl ?_ h.parsed
  rw [← h.read]

theorem received_of_isSome (hnew : session ∈ Session.new s)
    (h : ((sessionTask connect handleHttps session).entry toBytes timestamp id).isSome = true) :
    ∃ raw r, Received s raw r := by
  cases hconnect : session.sessionConnect with
  | error p =>
    simp only [sessionTask, hconnect, Handled.entry, Option.isSome_none] at h
    cases h
  | ok session' => exact received_of_sessionConnect hnew hconnect

/-- The task of a plain request ends as `handle_http` does. -/
theorem httpEnd_sessionTask (hnew : session ∈ Session.new s) (hreceived : Received s raw r)
    (hplain : r.method ≠ .CONNECT) : ∃ way, route r = .ok way ∧
      HttpEnd { session with
          stream := some (s.read 8192).2, initialData := encode raw, request := r }
        connect way.address (encode raw) (s.read 8192).2
        (sessionTask connect handleHttps session) := by
  obtain ⟨host, port, hroute⟩ := route_plain hplain
  have hconnect := sessionConnect_of_received hnew hreceived
  refine ⟨.http host port, hroute, ?_⟩
  simp only [sessionTask, hconnect, hroute]
  exact httpEnd_handleHttp rfl (mt encode_eq_nil.mp (ne_nil_of_fromString hreceived.parsed))

theorem rowOf_sessionTask {address : Str} (hnew : session ∈ Session.new s)
    (hend : HttpEnd { session with
        stream := some (s.read 8192).2, initialData := encode raw, request := r }
      connect address (encode raw) (s.read 8192).2 (sessionTask connect handleHttps session))
    {entry : ProxyLogEntry}
    (hentry : entry ∈ (sessionTask connect handleHttps session).entry toBytes timestamp id) :
    RowOf r (fun part => ∃ target, Relayed connect address s target part) entry := by
  have hstatus : session.response.statusCode = [] := by
    cases hnew
    rfl
  have hrow := hend.rowOf hstatus hentry
  simp only [relayed_read] at hrow
  exact hrow

theorem plainSession_row (connect : Str → Except IoError TcpStream)
    (handleHttps : Session → Str → Str → Handled) (toBytes : Response → List UInt8)
    (timestamp id : Str) (s : TcpStream) (session : Session) (hnew : session ∈ Session.new s) :
    (((sessionTask connect handleHttps session).entry toBytes timestamp id).isSome = true →
      ∃ raw r, Received s raw r) ∧
    ∀ raw r, Received s raw r → r.method ≠ .CONNECT →
      ∃ way, route r = .ok way ∧
        ((sessionTask connect handleHttps session).entry toBytes timestamp id = none ↔
          ∃ target part e, Relayed connect way.address s target part ∧
            Response.fromString (fromUtf8Lossy part) = .error e) ∧
        (∀ entry ∈ (sessionTask connect handleHttps session).entry toBytes timestamp id,
          RowOf r (fun part => ∃ target, Relayed connect way.address s target part) entry) ∧
        ∀ target part, Relayed connect way.address s target part →
          (∃ client ∈ (sessionTask connect handleHttps session).session.stream,
            client.written = s.written ++ part) ∧
          ∃ target' ∈ (sessionTask connect handleHttps session).target,
            target'.written = target.written ++ encode raw := by
  refine ⟨received_of_isSome hnew, ?_⟩
  intro raw r hreceived hplain
  obtain ⟨way, hroute, hend⟩ := httpEnd_sessionTask hnew hreceived hplain
  refine ⟨way, hroute, ?_, fun entry hentry => rowOf_sessionTask hnew hend hentry, ?_⟩
  · rw [hend.entry_eq_none_iff]
    simp only [relayed_read]
  · intro target part hrelayed
    have hdelivered := hend.delivered (relayed_read.mpr hrelayed)
    rw [TcpStream.written_read] at hdelivered
    exact hdelivered

end Task

/-- A session whose target answers in two parts. -/
def answeredStream : TcpStream :=
  ⟨[.ok (encode "GET /u v\nHost: a:8\n\n".toList)], [], []⟩

theorem plainSession_row_answered :
    RowOf ⟨.GET, "/u".toList, "v".toList, ["Host: a:8".toList], [], "a:8".toList⟩
      (fun part => ∃ target, Relayed
        (fun _ => .ok (answering ["x 404 Not Found\n".toList, "more".toList])) "a:8".toList
        answeredStream target part)
      ⟨"t".toList, "1".toList, "a:8".toList, "GET".toList, "/u".toList, "404".toList,
        "3".toList⟩ := by
  have hrow := (@plainSession_row asciiTables
    (fun _ => .ok (answering ["x 404 Not Found\n".toList, "more".toList]))
    (fun s _ _ => ⟨.ok (.ok ()), s, none⟩) (fun resp => encode resp.statusCode) "t".toList
    "1".toList answeredStream ⟨default, default, some answeredStream, []⟩ rfl).2
    "GET /u v\nHost: a:8\n\n".toList
    ⟨.GET, "/u".toList, "v".toList, ["Host: a:8".toList], [], "a:8".toList⟩
    (@Received.mk asciiTables _ _ _ rfl rfl) (by decide)
  obtain ⟨way, hroute, _, hrow, _⟩ := hrow
  cases hroute
  exact hrow _ rfl

end AppComponts
