import AppComponts.Session

/-!
# Segmentation on the plain path

Both halves of the plain path take what one read brings for the whole message. So a
response is relayed, and a request taken in and forwarded, when it comes in one part.
-/

namespace AppComponts
open AsyncIo Rust Utf8 Text
set_option autoImplicit false

theorem flatten_eq_head_iff {room : Nat} {bytes part : List UInt8} {rest : List (List UInt8)}
    (c : Chunking room bytes) (h : c.parts = part :: rest) : part = bytes ↔ rest = [] := by
  have hjoined := c.joined
  rw [h, List.flatten_cons] at hjoined
  constructor
  · intro hpart
    rw [hpart] at hjoined
    have hnil := List.self_eq_append_right.mp hjoined.symm
    cases rest with
    | nil => rfl
    | cons next rest =>
      have hnext := (c.sized next (by rw [h]; simp)).1
      rw [List.flatten_cons, List.append_eq_nil_iff] at hnil
      exact (hnext hnil.1).elim
  · intro hrest
    rw [hrest, List.flatten_nil, List.append_nil] at hjoined
    exact hjoined

section Response
variable {me : Session} {target client : TcpStream} {bytes : List UInt8}

theorem relayResponse_nil (hclient : me.stream = some client)
    (harrivals : target.arrivals = []) :
    me.relayResponse target = ⟨.ok (.ok ()), me, some target⟩ := by
  simp only [Session.relayResponse, hclient, read_nil harrivals]

/-- One part is relayed; then the call returns, or panics on a part that is no response. -/
theorem relayResponse_cons {part : List UInt8} {rest : List (Except IoError (List UInt8))}
    (hclient : me.stream = some client) (hwrites : client.Accepts)
    (harrivals : target.arrivals = .ok part :: rest) (hpart : part ≠ [])
    (hlen : part.length ≤ 8192) :
    ∃ client', client'.written = client.written ++ part ∧
      (me.relayResponse target).session.stream = some client' ∧
      ((me.relayResponse target).result = .ok (.ok ()) ↔
        ∃ resp, Response.fromString (fromUtf8Lossy part) = .ok resp) := by
  obtain ⟨b, bs, rfl⟩ := List.exists_cons_of_ne_nil hpart
  obtain ⟨client', hwrite, hwritten, _⟩ :=
    TcpStream.writeAll_ok fun _ : b :: bs ≠ [] => hwrites.not_refuses
  refine ⟨client', hwritten, ?_⟩
  have hread := read_cons harrivals hlen
  cases hresp : Response.fromString (fromUtf8Lossy (b :: bs)) with
  | error e => simp [Session.relayResponse, hclient, hread, hwrite, hresp]
  | ok resp => simp [Session.relayResponse, hclient, hread, hwrite, hresp]

theorem handleHttp_of_connect {connect : Str → Except IoError TcpStream} {host port : Str}
    (hconnect : connect (host ++ ':' :: port) = .ok target)
    (htarget : bytes ≠ [] → ¬ target.Refuses) :
    ∃ target', target'.written = target.written ++ bytes ∧
      target'.arrivals = target.arrivals ∧
      me.handleHttp connect host port bytes = me.relayResponse target' := by
  obtain ⟨target', hwrite, hwritten, harrivals⟩ := TcpStream.writeAll_ok htarget
  refine ⟨target', hwritten, harrivals, ?_⟩
  simp only [Session.handleHttp, hconnect, hwrite]

theorem handleHttp_refused {connect : Str → Except IoError TcpStream} {host port : Str}
    (hconnect : connect (host ++ ':' :: port) = .ok target) (htarget : target.Refuses)
    (hbytes : bytes ≠ []) : (me.handleHttp connect host port bytes).result ≠ .ok (.ok ()) := by
  obtain ⟨e, target', hwrite⟩ := TcpStream.writeAll_refused htarget hbytes
  simp only [Session.handleHttp, hconnect, hwrite]
  exact fun h => nomatch h

/-- `handle_http` relays a whole response when it comes in one part, and else only where it
does not return `Ok`: the target takes no request, or the first part is no response. -/
theorem handleHttp_relays_iff (me : Session) (connect : Str → Except IoError TcpStream)
    (host port : Str) (initialData : List UInt8) (target client : TcpStream)
    (response : List UInt8) (c : Chunking 8192 response)
    (hconnect : connect (host ++ ':' :: port) = .ok target)
    (harrivals : target.arrivals = c.arrivals) (hclient : me.stream = some client)
    (hwrites : client.Accepts) :
    ((me.handleHttp connect host port initialData).result = .ok (.ok ()) →
      ∃ client', (me.handleHttp connect host port initialData).session.stream = some client' ∧
        client'.written = client.written ++ response) ↔
    (c.parts.length ≤ 1 ∨ (initialData ≠ [] ∧ target.Refuses) ∨
      ∃ part ∈ c.parts.head?, ∀ resp, Response.fromString (fromUtf8Lossy part) ≠ .ok resp) := by
  by_cases hrefuses : initialData ≠ [] ∧ target.Refuses
  · have hfail := @handleHttp_refused me target initialData _ _ _ hconnect hrefuses.2 hrefuses.1
    exact ⟨fun _ => Or.inr (Or.inl hrefuses), fun _ h => (hfail h).elim⟩
  obtain ⟨target', _, harrivals', hhandle⟩ :=
    @handleHttp_of_connect me target initialData _ _ _ hconnect fun hdata h => hrefuses ⟨hdata, h⟩
  rw [hhandle]
  rw [harrivals, Chunking.arrivals] at harrivals'
  cases hparts : c.parts with
  | nil =>
    have hempty : response = [] := by
      rw [← c.joined, hparts]
      rfl
    rw [hparts] at harrivals'
    rw [relayResponse_nil hclient harrivals', hempty, List.append_nil]
    exact ⟨fun _ => Or.inl (Nat.zero_le _), fun _ _ => ⟨client, hclient, rfl⟩⟩
  | cons part rest =>
    have hsized := c.sized part (by rw [hparts]; exact List.mem_cons_self)
    rw [hparts] at harrivals'
    obtain ⟨client', hwritten, hstream, hresult⟩ :=
      relayResponse_cons hclient hwrites harrivals' hsized.1 hsized.2
    rw [hresult, hstream]
    constructor
    · intro h
      by_cases hresp : ∃ resp, Response.fromString (fromUtf8Lossy part) = .ok resp
      · obtain ⟨client'', hsome, hall⟩ := h hresp
        cases hsome
        rw [hwritten, List.append_cancel_left_eq, flatten_eq_head_iff c hparts] at hall
        rw [hall]
        exact Or.inl (Nat.le_refl _)
      · exact Or.inr (Or.inr ⟨part, rfl, fun resp hr => hresp ⟨resp, hr⟩⟩)
    · intro h hresp
      rcases h with hlen | hrefused | ⟨part', hpart', hno⟩
      · have hrest : rest = [] := by
          rw [← List.length_eq_zero_iff]
          rw [List.length_cons] at hlen
          omega
        refine ⟨client', rfl, ?_⟩
        rw [hwritten, (flatten_eq_head_iff c hparts).mpr hrest]
      · exact (hrefuses hrefused).elim
      · cases hpart'
        obtain ⟨resp, hr⟩ := hresp
        exact (hno resp hr).elim

end Response

def getRequest : List UInt8 := encode "GET / v\nHost: a\n\n".toList

def getSession : Session where
  request := ⟨.GET, "/".toList, "v".toList, ["Host: a".toList], [], "a".toList⟩
  response := default
  stream := some ⟨[], [], []⟩
  initialData := getRequest

/-- A target that answers with the given parts. -/
def answering (parts : List Str) : TcpStream := ⟨parts.map fun part => .ok (encode part), [], []⟩

theorem handleHttp_relays_one_part :
    ∃ client', (getSession.handleHttp
      (fun _ => .ok (answering ["HTTP/1.1 200 OK\n\nhi".toList]))
      "a".toList "80".toList getRequest).session.stream = some client' ∧
      client'.written = [] ++ encode "HTTP/1.1 200 OK\n\nhi".toList :=
  (handleHttp_relays_iff getSession _ _ _ getRequest _ ⟨[], [], []⟩
    (encode "HTTP/1.1 200 OK\n\nhi".toList)
    ⟨[encode "HTTP/1.1 200 OK\n\nhi".toList], by simp, by decide⟩ rfl rfl rfl
    (by decide)).mpr (Or.inl (by decide)) rfl

theorem handleHttp_drops_second_part :
    ¬ ((getSession.handleHttp
        (fun _ => .ok (answering ["HTTP/1.1 200 OK\n\n".toList, "hi".toList]))
        "a".toList "80".toList getRequest).result = .ok (.ok ()) →
      ∃ client', (getSession.handleHttp
        (fun _ => .ok (answering ["HTTP/1.1 200 OK\n\n".toList, "hi".toList]))
        "a".toList "80".toList getRequest).session.stream = some client' ∧
        client'.written = [] ++ encode "HTTP/1.1 200 OK\n\nhi".toList) := by
  intro h
  obtain ⟨client', hstream, hwritten⟩ := h rfl
  cases hstream
  exact absurd hwritten (by decide)

section Request
variable [CaseTables] {connect : Str → Except IoError TcpStream}
  {handleHttps : Session → Str → Str → Handled} {raw : Str} {r : Request} {s : TcpStream}

/-- The task of a connection takes in the whole request, and forwards all of it. -/
structure Intake (connect : Str → Except IoError TcpStream)
    (handleHttps : Session → Str → Str → Handled) (bytes : List UInt8) (r : Request)
    (s : TcpStream) : Prop where
  connected : ∃ session ∈ Session.new s, ∃ session', session.sessionConnect = .ok session' ∧
    session'.initialData = bytes ∧ session'.request = r
  forwarded : ∀ session ∈ Session.new s, ∀ host port target,
    route r = .ok (.http host port) → connect (host ++ ':' :: port) = .ok target →
    ¬ target.Refuses → ∃ target' ∈ (sessionTask connect handleHttps session).target,
      target'.written = target.written ++ bytes

theorem intake_of_single (hparse : Request.fromString raw = .ok (some r))
    (c : Chunking 8192 (encode raw)) (harrivals : s.arrivals = c.arrivals)
    (hsingle : c.parts.length = 1) : Intake connect handleHttps (encode raw) r s := by
  obtain ⟨part, hparts⟩ := List.length_eq_one_iff.mp hsingle
  have hsized := c.sized part (by rw [hparts]; exact List.mem_cons_self)
  obtain rfl := (flatten_eq_head_iff c hparts).mpr rfl
  rw [Chunking.arrivals, hparts] at harrivals
  have hread := read_cons harrivals hsized.2
  have hconnect := fun session (h : session ∈ Session.new s) =>
    @sessionConnect_of_read _ session s _ raw r (by cases h; rfl) hread hparse
  refine ⟨⟨_, rfl, _, hconnect _ rfl, rfl, rfl⟩, ?_⟩
  intro session hnew host port target hroute hreach haccepts
  simp only [sessionTask, hconnect session hnew, hroute]
  obtain ⟨target', hwritten, _, hhandle⟩ := handleHttp_of_connect hreach fun _ => haccepts
  rw [hhandle, ← hwritten]
  exact target_relayResponse

theorem single_of_intake {bytes : List UInt8} (c : Chunking 8192 bytes)
    (harrivals : s.arrivals = c.arrivals) (hne : bytes ≠ [])
    (h : Intake connect handleHttps bytes r s) : c.parts.length = 1 := by
  obtain ⟨session, hnew, session', hconnect, hdata, _⟩ := h.connected
  cases hnew
  obtain ⟨stream, stream', bytes', _, hstream, hread, _, _, hs⟩ := sessionConnect_eq_ok hconnect
  cases hstream
  have hbytes : bytes' = bytes := by
    rw [← hdata, hs]
  rw [hbytes] at hread
  cases hparts : c.parts with
  | nil =>
    have hjoined := c.joined
    rw [hparts, List.flatten_nil] at hjoined
    exact (hne hjoined.symm).elim
  | cons part rest =>
    have hsized := c.sized part (by rw [hparts]; exact List.mem_cons_self)
    rw [Chunking.arrivals, hparts] at harrivals
    rw [read_cons harrivals hsized.2] at hread
    have hpart : part = bytes := by
      cases hread
      rfl
    rw [(flatten_eq_head_iff c hparts).mp hpart]
    rfl

theorem accepted_of_intake {bytes : List UInt8} (h : Intake connect handleHttps bytes r s) :
    ∃ raw, bytes = encode raw ∧ Request.fromString raw = .ok (some r) := by
  obtain ⟨session, hnew, session', hconnect, hdata, hrequest⟩ := h.connected
  obtain ⟨stream, stream', bytes', raw, _, _, hraw, hparse, hs⟩ := sessionConnect_eq_ok hconnect
  have hbytes : bytes' = bytes := by
    rw [← hdata, hs]
  exact ⟨raw, hbytes.symm.trans hraw, hrequest ▸ hparse⟩

theorem ne_nil_of_fromString (h : Request.fromString raw = .ok (some r)) : raw ≠ [] := by
  intro hnil
  subst hnil
  have hblank := (fromString_eq_some_iff.mp h).blank
  simp at hblank

/-- Two ways of splitting a request have the same outcome, the one for the complete request,
exactly when it is text that `from_string` accepts and each brings it in one part. -/
theorem intake_iff (connect : Str → Except IoError TcpStream)
    (handleHttps : Session → Str → Str → Handled) (bytes : List UInt8)
    (c₁ c₂ : Chunking 8192 bytes) (s₁ s₂ : TcpStream)
    (h₁ : s₁.arrivals = c₁.arrivals) (h₂ : s₂.arrivals = c₂.arrivals) :
    (∃ r, Intake connect handleHttps bytes r s₁ ∧ Intake connect handleHttps bytes r s₂) ↔
    (∃ raw r, bytes = encode raw ∧ Request.fromString raw = .ok (some r)) ∧
      c₁.parts.length = 1 ∧ c₂.parts.length = 1 := by
  constructor
  · intro h
    obtain ⟨r, hi₁, hi₂⟩ := h
    obtain ⟨raw, rfl, hparse⟩ := accepted_of_intake hi₁
    have hne := mt encode_eq_nil.mp (ne_nil_of_fromString hparse)
    exact ⟨⟨raw, r, rfl, hparse⟩, single_of_intake c₁ h₁ hne hi₁, single_of_intake c₂ h₂ hne hi₂⟩
  · intro h
    obtain ⟨⟨raw, r, rfl, hparse⟩, hs₁, hs₂⟩ := h
    exact ⟨r, intake_of_single hparse c₁ h₁ hs₁, intake_of_single hparse c₂ h₂ hs₂⟩

end Request

def postRequest : Request :=
  ⟨.POST, "/".toList, "v".toList, ["Host: a".toList], ["b".toList], "a".toList⟩

theorem intake_one_part :
    ∃ r, @Intake asciiTables (fun _ => .ok (answering [])) (fun s _ _ => ⟨.ok (.ok ()), s, none⟩)
        (encode "POST / v\nHost: a\n\nb".toList) r
        (answering ["POST / v\nHost: a\n\nb".toList]) ∧
      @Intake asciiTables (fun _ => .ok (answering [])) (fun s _ _ => ⟨.ok (.ok ()), s, none⟩)
        (encode "POST / v\nHost: a\n\nb".toList) r
        (answering ["POST / v\nHost: a\n\nb".toList]) :=
  (@intake_iff asciiTables _ _ (encode "POST / v\nHost: a\n\nb".toList)
    ⟨[encode "POST / v\nHost: a\n\nb".toList], by simp, by decide⟩
    ⟨[encode "POST / v\nHost: a\n\nb".toList], by simp, by decide⟩
    _ _ rfl rfl).mpr ⟨⟨_, postRequest, rfl, rfl⟩, rfl, rfl⟩

/-- Without its body the request still parses, and the body is left on the connection. -/
theorem intake_drops_second_part :
    @Request.fromString asciiTables "POST / v\nHost: a\n\nb".toList =
      .ok (some postRequest) ∧
    ¬ ∃ r, @Intake asciiTables (fun _ => .ok (answering []))
        (fun s _ _ => ⟨.ok (.ok ()), s, none⟩) (encode "POST / v\nHost: a\n\nb".toList) r
        (answering ["POST / v\nHost: a\n\nb".toList]) ∧
      @Intake asciiTables (fun _ => .ok (answering [])) (fun s _ _ => ⟨.ok (.ok ()), s, none⟩)
        (encode "POST / v\nHost: a\n\nb".toList) r
        (answering ["POST / v\nHost: a\n\n".toList, "b".toList]) := by
  refine ⟨rfl, ?_⟩
  intro h
  obtain ⟨r, _, h⟩ := h
  have hsingle := @single_of_intake asciiTables _ _ _ _ _
    ⟨[encode "POST / v\nHost: a\n\n".toList, encode "b".toList], by decide, by decide⟩ rfl
    (by decide) h
  cases hsingle

end AppComponts
