import AppComponts.Session

/-!
# Routing

The task of a connection dials what it makes of the authority by cutting it at its colons.
The address it dials has one colon, so it is the authority exactly if the host has none.
-/

namespace AppComponts
open AsyncIo Rust Utf8 Text
set_option autoImplicit false

/-- Where a request says it is to be sent. -/
def Request.authority (r : Request) : Str :=
  match r.method with
  | .CONNECT => r.url
  | _ => r.host

/-- Both arms dial `format!("{}:{}", host, port)`. -/
def Route.address : Route → Str
  | .https host port => host ++ ':' :: port
  | .http host port => host ++ ':' :: port

def authorityText (host : Str) : Option Str → Str
  | none => host
  | some port => host ++ ':' :: port

/-- The task gets to know the route of a request, and dials this address. -/
def RoutedTo (r : Request) (address : Str) : Prop :=
  ∃ way, route r = .ok way ∧ way.address = address

section Colons
variable {host port : Str}

theorem not_colon_of_digits (h : ∀ c ∈ port, c.isDigit = true) : ':' ∉ port := by
  intro hmem
  have hdigit := h ':' hmem
  cases hdigit

theorem count_address_text (hport : ':' ∉ port) :
    (host ++ ':' :: port).count ':' = host.count ':' + 1 := by
  rw [List.count_append, List.count_cons_self, List.count_eq_zero.mpr hport]

theorem count_of_split (hhost : ':' ∉ host) (hport : ':' ∉ port) :
    (host ++ ':' :: port).count ':' = 1 := by
  rw [count_address_text hport, List.count_eq_zero.mpr hhost]

end Colons

section Route
variable {r : Request} {way : Route}

theorem count_address (h : route r = .ok way) : way.address.count ':' = 1 := by
  unfold route at h
  split at h
  · obtain ⟨host, hhost, h⟩ := bind_eq_ok.mp h
    obtain ⟨port, hport, h⟩ := bind_eq_ok.mp h
    cases h
    have hhost := List.mem_of_getElem? (index_eq_ok.mp hhost)
    have hport := List.mem_of_getElem? (index_eq_ok.mp hport)
    exact count_of_split (not_mem_of_mem_splitOn hhost) (not_mem_of_mem_splitOn hport)
  · split at h
    · rename_i host hsplit
      cases h
      have hhost : host ∈ r.host.splitOn ':' := by rw [hsplit]; exact List.mem_cons_self
      exact count_of_split (not_mem_of_mem_splitOn hhost) (by decide)
    · rename_i host port hsplit
      cases h
      have hhost : host ∈ r.host.splitOn ':' := by rw [hsplit]; simp
      have hport : port ∈ r.host.splitOn ':' := by rw [hsplit]; simp
      exact count_of_split (not_mem_of_mem_splitOn hhost) (not_mem_of_mem_splitOn hport)
    · cases h
      exact count_of_split List.not_mem_nil (by decide)

variable {host port : Str}

theorem split_with_port (hhost : ':' ∉ host) (hport : ':' ∉ port) :
    (host ++ ':' :: port).splitOn ':' = [host, port] := by
  rw [List.splitOn_append_cons_self_of_not_mem hhost, List.splitOn_eq_singleton hport]

theorem route_connect (hmethod : r.method = .CONNECT) (hhost : ':' ∉ host)
    (hport : ':' ∉ port) (hurl : r.url = host ++ ':' :: port) :
    route r = .ok (.https host port) := by
  simp only [route, hmethod, hurl, split_with_port hhost hport]
  rfl

theorem route_http_port (hmethod : r.method ≠ .CONNECT) (hhost : ':' ∉ host)
    (hport : ':' ∉ port) (hheader : r.host = host ++ ':' :: port) :
    route r = .ok (.http host port) := by
  unfold route
  split
  · rename_i hconnect
    exact (hmethod hconnect).elim
  · rw [hheader, split_with_port hhost hport]
    rfl

theorem route_http_default (hmethod : r.method ≠ .CONNECT) (hhost : ':' ∉ r.host) :
    route r = .ok (.http r.host "80".toList) := by
  unfold route
  split
  · rename_i hconnect
    exact (hmethod hconnect).elim
  · rw [List.splitOn_eq_singleton hhost]
    rfl

theorem authority_connect (h : r.method = .CONNECT) : r.authority = r.url := by
  simp only [Request.authority, h]

theorem authority_http (h : r.method ≠ .CONNECT) : r.authority = r.host := by
  unfold Request.authority
  split
  · rename_i hconnect
    exact (h hconnect).elim
  · rfl

end Route

/-- `handle_https` up to the tunnel: it answers the client, gets its certificates ready, and
dials the host. -/
def Session.handleHttps (me : Session) (connect : Str → Except IoError TcpStream)
    (certify : Str → Except Panic (Except IoError Unit))
    (tunnel : Session → Str → TcpStream → Handled) (host port : Str) : Handled :=
  match me.stream with
  | none => ⟨.error .unwrapNone, me, none⟩
  | some client =>
    match client.writeAll (encode "HTTP/1.1 200 Connection established\r\n\r\n".toList) with
    | (.error e, client) => ⟨.ok (.error e), { me with stream := some client }, none⟩
    | (.ok (), client) =>
      let me := { me with stream := some client }
      match certify host with
      | .error p => ⟨.error p, me, none⟩
      | .ok (.error e) => ⟨.ok (.error e), me, none⟩
      | .ok (.ok ()) =>
        match connect (host ++ ':' :: port) with
        | .error _ => ⟨.ok (.ok ()), me, none⟩
        | .ok target => tunnel me host target

section Dialling
variable {connect connect' : Str → Except IoError TcpStream} {me s : Session}
  {host port address : Str}

theorem handleHttp_congr (h : connect (host ++ ':' :: port) = connect' (host ++ ':' :: port))
    (bytes : List UInt8) : me.handleHttp connect host port bytes =
      me.handleHttp connect' host port bytes := by
  simp only [Session.handleHttp, h]

theorem handleHttps_congr (h : connect (host ++ ':' :: port) = connect' (host ++ ':' :: port))
    (certify : Str → Except Panic (Except IoError Unit))
    (tunnel : Session → Str → TcpStream → Handled) :
    me.handleHttps connect certify tunnel host port =
      me.handleHttps connect' certify tunnel host port := by
  simp only [Session.handleHttps, h]

theorem target_handleHttp (bytes : List UInt8) :
    (me.handleHttp connect host port bytes).target.isSome = true ↔
      ∃ target, connect (host ++ ':' :: port) = .ok target := by
  unfold Session.handleHttp
  cases connect (host ++ ':' :: port) with
  | error e =>
    constructor
    · intro h
      cases h
    · intro h
      obtain ⟨target, h⟩ := h
      cases h
  | ok target =>
    refine ⟨fun _ => ⟨target, rfl⟩, fun _ => ?_⟩
    dsimp only
    rcases target.writeAll bytes with ⟨res, target'⟩
    cases res with
    | error e => rfl
    | ok _ =>
      obtain ⟨target'', htarget, _⟩ := @target_relayResponse me target'
      exact Option.isSome_of_mem htarget

/-- If nothing fails on the way to it, the task comes to its dial. -/
theorem target_handleHttps {client : TcpStream} (hclient : me.stream = some client)
    (haccepts : ¬ client.Refuses) {certify : Str → Except Panic (Except IoError Unit)}
    (hcertify : certify host = .ok (.ok ())) {tunnel : Session → Str → TcpStream → Handled}
    (htunnel : ∀ me host target, (tunnel me host target).target = some target) :
    (me.handleHttps connect certify tunnel host port).target.isSome = true ↔
      ∃ target, connect (host ++ ':' :: port) = .ok target := by
  obtain ⟨client', hwrite, _⟩ := TcpStream.writeAll_ok
    fun _ : encode "HTTP/1.1 200 Connection established\r\n\r\n".toList ≠ [] => haccepts
  simp only [Session.handleHttps, hclient, hwrite, hcertify]
  cases connect (host ++ ':' :: port) with
  | error e => simp
  | ok target => simp [htunnel]

variable [CaseTables]

/-- Of the network, the task of a routed request sees what is at its address. -/
theorem sessionTask_congr (hconnect : me.sessionConnect = .ok s)
    (hrouted : RoutedTo s.request address) (h : connect address = connect' address)
    (certify : Str → Except Panic (Except IoError Unit))
    (tunnel : Session → Str → TcpStream → Handled) :
    sessionTask connect (fun me => me.handleHttps connect certify tunnel) me =
      sessionTask connect' (fun me => me.handleHttps connect' certify tunnel) me := by
  obtain ⟨way, hroute, rfl⟩ := hrouted
  simp only [sessionTask, hconnect, hroute]
  cases way with
  | https host port => exact handleHttps_congr h certify tunnel
  | http host port => exact handleHttp_congr h s.initialData

/-- The task dials this address and no other: it does not see the rest of the network, and
if nothing fails on its way to the dial it ends with the connection that is there. -/
structure Dials (me : Session) (address : Str) : Prop where
  alone : ∀ connect connect' certify tunnel, connect address = connect' address →
    sessionTask connect (fun me => me.handleHttps connect certify tunnel) me =
      sessionTask connect' (fun me => me.handleHttps connect' certify tunnel) me
  reached : ∀ connect certify tunnel, (∀ client ∈ me.stream, ¬ client.Refuses) →
    (∀ host, certify host = .ok (.ok ())) →
    (∀ me host target, (tunnel me host target).target = some target) →
    ((sessionTask connect (fun me => me.handleHttps connect certify tunnel) me).target.isSome =
      true ↔ ∃ target, connect address = .ok target)

theorem dials_of_routedTo (hconnect : me.sessionConnect = .ok s)
    (hrouted : RoutedTo s.request address) : Dials me address := by
  refine ⟨fun _ _ certify tunnel h => sessionTask_congr hconnect hrouted h certify tunnel, ?_⟩
  intro connect certify tunnel haccepts hcertify htunnel
  obtain ⟨way, hroute, rfl⟩ := hrouted
  simp only [sessionTask, hconnect, hroute]
  cases way with
  | http host port => exact target_handleHttp s.initialData
  | https host port =>
    obtain ⟨client, client', bytes, raw, hclient, hread, _, _, hs⟩ := sessionConnect_eq_ok hconnect
    have hrefuses := mt (client.refuses_read 8192).mp (haccepts client hclient)
    rw [hread] at hrefuses
    exact target_handleHttps (by rw [hs]) hrefuses (hcertify host) htunnel

end Dialling

theorem routed_authority_iff {r : Request} {host : Str} {port : Option Str}
    (hport : ∀ p ∈ port, ∀ c ∈ p, c.isDigit = true)
    (hconnect : r.method = .CONNECT → port.isSome = true)
    (hauthority : r.authority = authorityText host port) :
    RoutedTo r (host ++ ':' :: port.getD "80".toList) ↔ ':' ∉ host := by
  have hdigits : ':' ∉ port.getD "80".toList := by
    cases port with
    | none => decide
    | some p => exact not_colon_of_digits (hport p rfl)
  constructor
  · intro h
    obtain ⟨way, hroute, haddress⟩ := h
    have hcount := count_address hroute
    rw [haddress, count_address_text hdigits] at hcount
    exact List.count_eq_zero.mp (Nat.succ.inj hcount)
  · intro hhost
    by_cases hmethod : r.method = .CONNECT
    · obtain ⟨p, rfl⟩ := Option.isSome_iff_exists.mp (hconnect hmethod)
      rw [authority_connect hmethod] at hauthority
      exact ⟨_, route_connect hmethod hhost hdigits hauthority, rfl⟩
    · rw [authority_http hmethod] at hauthority
      cases port with
      | none =>
        obtain rfl : r.host = host := hauthority
        exact ⟨_, route_http_default hmethod hhost, rfl⟩
      | some p => exact ⟨_, route_http_port hmethod hhost hdigits hauthority, rfl⟩

section Task
variable [CaseTables]

/-- A request is sent to the authority it names exactly if no colon is in its host, and what it
is sent to is what its task dials. -/
theorem routedTo_iff (r : Request) (host : Str) (port : Option Str)
    (hport : ∀ p ∈ port, ∀ c ∈ p, c.isDigit = true)
    (hconnect : r.method = .CONNECT → port.isSome = true)
    (hauthority : r.authority = authorityText host port) :
    (RoutedTo r (host ++ ':' :: port.getD "80".toList) ↔ ':' ∉ host) ∧
      ∀ me s : Session, me.sessionConnect = .ok s → s.request = r → ':' ∉ host →
        Dials me (host ++ ':' :: port.getD "80".toList) := by
  have hrouted := routed_authority_iff hport hconnect hauthority
  refine ⟨hrouted, ?_⟩
  intro me s hs hr hhost
  subst hr
  exact dials_of_routedTo hs (hrouted.mpr hhost)

end Task

theorem routedTo_named :
    RoutedTo ⟨.GET, "/".toList, "v".toList, ["Host: a.b".toList], [], "a.b".toList⟩
        ("a.b".toList ++ ':' :: (none : Option Str).getD "80".toList) ∧
      @Dials asciiTables ⟨default, default,
          some ⟨[.ok (encode "GET / v\nHost: a.b\n\n".toList)], [], []⟩, []⟩
        ("a.b".toList ++ ':' :: (none : Option Str).getD "80".toList) := by
  have hrouted := @routedTo_iff asciiTables
    ⟨.GET, "/".toList, "v".toList, ["Host: a.b".toList], [], "a.b".toList⟩ "a.b".toList none
    (by decide) (by decide) rfl
  exact ⟨hrouted.1.mpr (by decide), hrouted.2 _ _ rfl rfl (by decide)⟩

/-- The literal `[::1]` is cut at its own colons, and `[:` is dialled for it. -/
theorem bracketed_not_routedTo :
    ∃ r, @Request.fromString asciiTables "CONNECT [::1]:443 v\nHost: a\n\n".toList =
        .ok (some r) ∧
      r.authority = authorityText "[::1]".toList (some "443".toList) ∧
      ¬ RoutedTo r ("[::1]".toList ++ ':' :: (some "443".toList).getD "80".toList) := by
  refine ⟨_, rfl, rfl, ?_⟩
  intro h
  obtain ⟨way, hroute, haddress⟩ := h
  cases hroute
  exact absurd haddress (by decide)

end AppComponts
