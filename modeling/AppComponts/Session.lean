import AppComponts.Library.AsyncIo
import AppComponts.Library.Utf8
import AppComponts.Prelude

/-!
# Sessions

The plain path of `backend/proxy/session.rs`, and the task `entry` of
`backend/proxy/http_proxy.rs` runs for each connection. The network is a function from
addresses to connections; the tunnel for `CONNECT` is a parameter of the task.
-/

namespace AppComponts
open AsyncIo Rust Utf8 Text
set_option autoImplicit false

/-- A connection: what its reads will bring, which of its writes will fail and after how
many bytes, and what has been written to it. -/
structure TcpStream where
  arrivals : List (Except IoError (List UInt8))
  faults : List (Option (Nat × IoError))
  written : List UInt8

namespace TcpStream

/-- A read into `room` free bytes; a read of no bytes is the end of the stream. -/
def read (s : TcpStream) (room : Nat) : Except IoError (List UInt8) × TcpStream :=
  match s.arrivals with
  | [] => (.ok [], s)
  | .error e :: rest => (.error e, { s with arrivals := rest })
  | .ok bytes :: rest =>
    if bytes.length ≤ room then (.ok bytes, { s with arrivals := rest })
    else (.ok (bytes.take room), { s with arrivals := .ok (bytes.drop room) :: rest })

def writeAll (s : TcpStream) (bytes : List UInt8) : Except IoError Unit × TcpStream :=
  -- no bytes, no write
  if bytes = [] then (.ok (), s) else
  match s.faults with
  | some (n, e) :: rest =>
    (.error e, { s with faults := rest, written := s.written ++ bytes.take n })
  | none :: rest => (.ok (), { s with faults := rest, written := s.written ++ bytes })
  | [] => (.ok (), { s with written := s.written ++ bytes })

/-- The next write fails, if there is a byte to write. -/
def Refuses (s : TcpStream) : Prop := ∃ fault rest, s.faults = some fault :: rest

def Accepts (s : TcpStream) : Prop := ∀ fault ∈ s.faults, fault = none

instance (s : TcpStream) : Decidable s.Accepts :=
  inferInstanceAs (Decidable (∀ fault ∈ s.faults, fault = none))

section Read
variable {s t : TcpStream} {room : Nat}

theorem written_read (s : TcpStream) (room : Nat) : (s.read room).2.written = s.written := by
  unfold read
  split
  · rfl
  · rfl
  · split <;> rfl

theorem refuses_read (s : TcpStream) (room : Nat) :
    (s.read room).2.Refuses ↔ s.Refuses := by
  have hfaults : (s.read room).2.faults = s.faults := by
    unfold read
    split
    · rfl
    · rfl
    · split <;> rfl
  rw [Refuses, Refuses, hfaults]

theorem read_congr (h : s.arrivals = t.arrivals) : (s.read room).1 = (t.read room).1 := by
  unfold read
  rw [h]
  split
  · rfl
  · rfl
  · split <;> rfl

end Read

theorem Accepts.not_refuses {s : TcpStream} (h : s.Accepts) : ¬ s.Refuses := by
  intro hrefuses
  obtain ⟨fault, rest, hs⟩ := hrefuses
  have hnone := h (some fault) (by rw [hs]; exact List.mem_cons_self)
  cases hnone

@[simp] theorem writeAll_nil (s : TcpStream) : s.writeAll [] = (.ok (), s) := if_pos rfl

theorem writeAll_refused {s : TcpStream} (h : s.Refuses) {bytes : List UInt8}
    (hbytes : bytes ≠ []) : ∃ e s', s.writeAll bytes = (.error e, s') := by
  obtain ⟨⟨n, e⟩, rest, hs⟩ := h
  exact ⟨e, _, by rw [writeAll, if_neg hbytes, hs]⟩

theorem writeAll_ok {s : TcpStream} {bytes : List UInt8} (h : bytes ≠ [] → ¬ s.Refuses) :
    ∃ s', s.writeAll bytes = (.ok (), s') ∧ s'.written = s.written ++ bytes ∧
      s'.arrivals = s.arrivals := by
  by_cases hbytes : bytes = []
  · subst hbytes
    exact ⟨s, writeAll_nil s, (List.append_nil _).symm, rfl⟩
  cases hs : s.faults with
  | nil =>
    refine ⟨{ s with written := s.written ++ bytes }, ?_, rfl, rfl⟩
    simp only [writeAll, if_neg hbytes, hs]
  | cons fault rest =>
    cases fault with
    | none =>
      refine ⟨{ s with faults := rest, written := s.written ++ bytes }, ?_, rfl, rfl⟩
      simp only [writeAll, if_neg hbytes, hs]
    | some fault => exact (h hbytes ⟨fault, rest, hs⟩).elim

end TcpStream

/-- A way in which reads of at most `room` bytes split a byte string. -/
structure Chunking (room : Nat) (bytes : List UInt8) where
  parts : List (List UInt8)
  joined : parts.flatten = bytes
  sized : ∀ part ∈ parts, part ≠ [] ∧ part.length ≤ room

def Chunking.arrivals {room : Nat} {bytes : List UInt8} (c : Chunking room bytes) :
    List (Except IoError (List UInt8)) := c.parts.map .ok

theorem read_nil {s : TcpStream} (h : s.arrivals = []) (room : Nat) :
    s.read room = (.ok [], s) := by
  rw [TcpStream.read, h]

theorem read_cons {s : TcpStream} {part : List UInt8} {rest : List (Except IoError (List UInt8))}
    (h : s.arrivals = .ok part :: rest) {room : Nat} (hlen : part.length ≤ room) :
    s.read room = (.ok part, { s with arrivals := rest }) := by
  rw [TcpStream.read, h]
  exact if_pos hlen

structure Session where
  request : Request
  response : Response
  stream : Option TcpStream
  initialData : List UInt8

def Session.new (stream : TcpStream) : Option Session :=
  some { request := default, response := default, stream := some stream, initialData := [] }

inductive Route where
  | https (host port : Str)
  | http (host port : Str)
  deriving DecidableEq, Repr

def route (request : Request) : Except Panic Route :=
  match request.method with
  | .CONNECT => do
    let urlSplit := request.url.splitOn ':'
    let host ← index urlSplit 0
    let port ← index urlSplit 1
    return .https host port
  | _ =>
    match request.host.splitOn ':' with
    | [host] => return .http host "80".toList
    | [host, port] => return .http host port
    | _ => return .http [] "80".toList

/-- How a call ends, with the session and the connection to the target it leaves. -/
structure Handled where
  result : Except Panic (Except IoError Unit)
  session : Session
  target : Option TcpStream

/-- The loop of `handle_http`. Every arm of its `match` leaves it, the one for `Ok(n)` by the
`break` behind the response, so its body runs once. -/
def Session.relayResponse (me : Session) (target : TcpStream) : Handled :=
  match me.stream with
  | none => ⟨.ok (.ok ()), me, some target⟩
  | some client =>
    match target.read 8192 with
    | (.ok [], target) => ⟨.ok (.ok ()), me, some target⟩
    | (.ok bytes, target) =>
      match client.writeAll bytes with
      | (.error e, client) => ⟨.ok (.error e), { me with stream := some client }, some target⟩
      | (.ok (), client) =>
        let me := { me with stream := some client }
        match Response.fromString (fromUtf8Lossy bytes) with
        | .error _ => ⟨.error .unwrapErr, me, some target⟩
        | .ok resp => ⟨.ok (.ok ()), { me with response := resp }, some target⟩
    | (.error _, target) => ⟨.ok (.ok ()), me, some target⟩

theorem target_relayResponse {me : Session} {target : TcpStream} :
    ∃ target' ∈ (me.relayResponse target).target, target'.written = target.written := by
  have hread := target.written_read 8192
  unfold Session.relayResponse
  rcases hr : target.read 8192 with ⟨res, target'⟩
  rw [hr] at hread
  cases me.stream with
  | none => exact ⟨target, rfl, rfl⟩
  | some client =>
    cases res with
    | error e => exact ⟨target', rfl, hread⟩
    | ok bytes =>
      cases bytes with
      | nil => exact ⟨target', rfl, hread⟩
      | cons b bs =>
        dsimp only
        rcases client.writeAll (b :: bs) with ⟨res, client'⟩
        cases res with
        | error e => exact ⟨target', rfl, hread⟩
        | ok _ =>
          dsimp only
          split <;> exact ⟨target', rfl, hread⟩

def Session.handleHttp (me : Session) (connect : Str → Except IoError TcpStream)
    (host port : Str) (initialData : List UInt8) : Handled :=
  match connect (host ++ ':' :: port) with
  | .error _ => ⟨.ok (.ok ()), me, none⟩
  | .ok target =>
    match target.writeAll initialData with
    | (.error e, target) => ⟨.ok (.error e), me, some target⟩
    | (.ok (), target) => me.relayResponse target

section Task
variable [CaseTables]

def Session.sessionConnect (me : Session) : Except Panic Session := do
  let stream ← unwrap me.stream
  let (res, stream) := stream.read 8192
  let bytes ← orPanic .unwrapErr res.toOption
  let me := { me with stream := some stream, initialData := bytes }
  let rawData ← orPanic .unwrapErr (fromUtf8 bytes)
  let res ← Request.fromString rawData
  let res ← unwrap res
  return { me with request := res }

/-- The task of one connection. -/
def sessionTask (connect : Str → Except IoError TcpStream)
    (handleHttps : Session → Str → Str → Handled) (session : Session) : Handled :=
  match session.sessionConnect with
  | .error p => ⟨.error p, session, none⟩
  | .ok session =>
    match route session.request with
    | .error p => ⟨.error p, session, none⟩
    | .ok (.https host port) => handleHttps session host port
    | .ok (.http host port) => session.handleHttp connect host port session.initialData

theorem sessionConnect_eq_ok {me s : Session} (h : me.sessionConnect = .ok s) :
    ∃ stream stream' bytes raw, me.stream = some stream ∧
      stream.read 8192 = (.ok bytes, stream') ∧ bytes = encode raw ∧
      Request.fromString raw = .ok (some s.request) ∧
      s = { me with stream := some stream', initialData := bytes, request := s.request } := by
  obtain ⟨stream, hstream, h⟩ := bind_eq_ok.mp h
  rcases hread : stream.read 8192 with ⟨res, stream'⟩
  simp only [hread] at h
  obtain ⟨bytes, hbytes, h⟩ := bind_eq_ok.mp h
  obtain ⟨raw, hraw, h⟩ := bind_eq_ok.mp h
  obtain ⟨res', hres, h⟩ := bind_eq_ok.mp h
  obtain ⟨r, hr, h⟩ := bind_eq_ok.mp h
  cases h
  cases res with
  | error e => cases hbytes
  | ok bytes' =>
    obtain rfl : bytes' = bytes := by
      cases hbytes
      rfl
    rw [orPanic_eq_ok, fromUtf8_eq_some_iff] at hraw
    rw [unwrap_eq_ok.mp hr] at hres
    exact ⟨stream, stream', bytes', raw, unwrap_eq_ok.mp hstream, hread, hraw, hres, rfl⟩

theorem sessionConnect_of_read {me : Session} {stream stream' : TcpStream} {raw : Str}
    {r : Request} (hstream : me.stream = some stream)
    (hread : stream.read 8192 = (.ok (encode raw), stream'))
    (hparse : Request.fromString raw = .ok (some r)) :
    me.sessionConnect = .ok { me with
      stream := some stream', initialData := encode raw, request := r } := by
  refine bind_eq_ok.mpr ⟨stream, unwrap_eq_ok.mpr hstream, ?_⟩
  simp only [hread]
  refine bind_eq_ok.mpr ⟨encode raw, rfl, bind_eq_ok.mpr ⟨raw, ?_, ?_⟩⟩
  · rw [fromUtf8_encode, orPanic_some]
  · exact bind_eq_ok.mpr ⟨some r, hparse, rfl⟩

end Task

end AppComponts
