import AppComponts.Library.Panics
import AppComponts.Library.Text

/-!
# Requests and responses

The parsers of `backend/proxy/prelude.rs`. `Request::from_string` copies its tail three
times, with `CONNECT`, without a body and with one; `fromString_eq` puts the copies together.
-/

namespace AppComponts
open Rust Text
set_option autoImplicit false

inductive Method where
  | GET
  | POST
  | PUT
  | DELETE
  | HEAD
  | OPTIONS
  | CONNECT
  | PATCH
  | TRACE
  deriving DecidableEq, Repr, Inhabited

def Method.asStr : Method → Str
  | .GET => "GET".toList
  | .POST => "POST".toList
  | .PUT => "PUT".toList
  | .DELETE => "DELETE".toList
  | .HEAD => "HEAD".toList
  | .OPTIONS => "OPTIONS".toList
  | .CONNECT => "CONNECT".toList
  | .PATCH => "PATCH".toList
  | .TRACE => "TRACE".toList

structure Request where
  method : Method
  url : Str
  httpVersion : Str
  headers : List Str
  body : List Str
  host : Str
  deriving DecidableEq, Repr, Inhabited

structure Response where
  statusCode : Str
  message : Str
  data : Option Str
  error : Option Str
  deriving DecidableEq, Repr, Inhabited

def Response.fromString (rawResponse : Str) : Except Str Response := do
  let mut response : Response := default
  let lines := Text.lines rawResponse
  if let some statusLine := lines.head? then
    let parts := splitWhitespace statusLine
    if h : parts.length ≥ 2 then
      response := { response with statusCode := parts[1] }
      if parts.length > 2 then
        response := { response with message := join " ".toList (parts.drop 2) }
    else
      throw "Invalid status line in response".toList
  let bodyText := join "\r\n".toList lines.tail
  if bodyText ≠ [] then
    response := { response with data := some bodyText }
  response := { response with error := some response.message }
  return response

def firstLine (raw : Str) : Str := (Text.lines raw).head?.getD "NULL".toList

def tokens (raw : Str) : List Str := (firstLine raw).splitOn ' '

def methodToken (raw : Str) : Str := (tokens raw)[0]?.getD []

def headerLines (raw : Str) : List Str := (Text.lines raw).tail.takeWhile (· ≠ [])

/-- What follows the first empty line. -/
def bodyLines (raw : Str) : List Str := ((Text.lines raw).tail.dropWhile (· ≠ [])).tail

theorem firstLine_eq (raw : Str) :
    firstLine raw = (Text.lines raw).head?.getD "NULL".toList := rfl

theorem tokens_eq (raw : Str) : tokens raw = (firstLine raw).splitOn ' ' := rfl

theorem headerLines_eq (raw : Str) :
    headerLines raw = (Text.lines raw).tail.takeWhile (· ≠ []) := rfl

theorem bodyLines_eq (raw : Str) :
    bodyLines raw = ((Text.lines raw).tail.dropWhile (· ≠ [])).tail := rfl

theorem tokens_ne_nil (raw : Str) : tokens raw ≠ [] := List.splitOn_ne_nil _ _

section Parsing
variable [CaseTables]

def Method.fromStr (method : Str) : Option Method :=
  match String.ofList (toUppercase method) with
  | "GET" => some .GET
  | "POST" => some .POST
  | "PUT" => some .PUT
  | "DELETE" => some .DELETE
  | "HEAD" => some .HEAD
  | "OPTIONS" => some .OPTIONS
  | "CONNECT" => some .CONNECT
  | "PATCH" => some .PATCH
  | "TRACE" => some .TRACE
  | _ => none

/-- The search for the `Host` header, the same in every branch of `from_string`. -/
def hostLine (headers : List Str) : Option Str :=
  (headers.find? fun line => "host:".toList.isPrefixOf (toLowercase line)).map fun line =>
    trim ((splitn 2 ':' line)[1]?.getD [])

def Request.fromString (rawData : Str) : Except Panic (Option Request) := do
  let lines := Text.lines rawData
  let firstLine := lines.head?.getD "NULL".toList
  let lines := lines.tail
  if firstLine = [] then
    return none
  let splitFirst := firstLine.splitOn ' '
  let method ← index splitFirst 0
  if method = Method.CONNECT.asStr then
    let headersVec := lines
    let pos ← unwrap (headersVec.findIdx? List.isEmpty)
    let headers := headersVec.take pos
    let host := hostLine headers
    return some {
      method := ← unwrap (Method.fromStr method)
      url := ← index splitFirst 1
      httpVersion := ← index splitFirst 2
      headers
      body := []
      host := ← unwrap host }
  else
    let nextLines := lines
    let pos ← unwrap (nextLines.findIdx? List.isEmpty)
    if pos = nextLines.length - 1 then
      let headers := nextLines.take pos
      let host := hostLine headers
      return some {
        method := ← unwrap (Method.fromStr method)
        url := ← index splitFirst 1
        httpVersion := ← index splitFirst 2
        headers
        body := []
        host := ← unwrap host }
    else
      let headers := nextLines.take pos
      let body := nextLines.drop (pos + 1)
      let host := hostLine headers
      return some {
        method := ← unwrap (Method.fromStr method)
        url := ← index splitFirst 1
        httpVersion := ← index splitFirst 2
        headers
        body
        host := ← unwrap host }

/-- The three branches of `from_string` agree, but for the body `CONNECT` drops. -/
theorem fromString_eq {raw : Str} (hne : firstLine raw ≠ []) :
    Request.fromString raw = (do
      let _ ← unwrap ((Text.lines raw).tail.findIdx? List.isEmpty)
      let method ← unwrap (Method.fromStr (methodToken raw))
      let url ← index (tokens raw) 1
      let httpVersion ← index (tokens raw) 2
      let host ← unwrap (hostLine (headerLines raw))
      return some {
        method, url, httpVersion, host
        headers := headerLines raw
        body := if methodToken raw = Method.CONNECT.asStr then [] else bodyLines raw }) := by
  obtain ⟨method, rest, htok⟩ := List.exists_cons_of_ne_nil (tokens_ne_nil raw)
  have hmethod : methodToken raw = method := by simp [methodToken, htok]
  have hfirst : ¬ (Text.lines raw).head?.getD "NULL".toList = [] := hne
  have hsplit : index (((Text.lines raw).head?.getD "NULL".toList).splitOn ' ') 0 =
      pure method := index_eq_ok.mpr (by rw [← firstLine_eq, ← tokens_eq, htok]; rfl)
  unfold Request.fromString
  simp only [if_neg hfirst, hsplit, pure_bind, hmethod]
  cases hpos : (Text.lines raw).tail.findIdx? List.isEmpty with
  | none => split <;> rfl
  | some pos =>
    obtain ⟨hheaders, hbody⟩ := take_eq_takeWhile hpos
    simp only [unwrap_some_bind, hheaders, hbody, ← firstLine_eq, ← tokens_eq,
      ← headerLines_eq, ← bodyLines_eq]
    split
    · rfl
    · split
      · rename_i hlast
        have hnil : bodyLines raw = [] := by
          rw [bodyLines_eq, ← hbody, List.drop_eq_nil_iff]
          omega
        rw [hnil]
      · rfl

/-- What `from_string` reads out of an accepted text. -/
structure Parses (raw : Str) (r : Request) : Prop where
  firstLine_ne : firstLine raw ≠ []
  blank : [] ∈ (Text.lines raw).tail
  method : Method.fromStr (methodToken raw) = some r.method
  url : (tokens raw)[1]? = some r.url
  httpVersion : (tokens raw)[2]? = some r.httpVersion
  headers : headerLines raw = r.headers
  body : (if methodToken raw = Method.CONNECT.asStr then [] else bodyLines raw) = r.body
  host : hostLine r.headers = some r.host

theorem fromString_of_parses {raw : Str} {r : Request} (h : Parses raw r) :
    Request.fromString raw = .ok (some r) := by
  obtain ⟨hne, hblank, hmethod, hurl, hversion, hheaders, hbody, hhost⟩ := h
  obtain ⟨pos, hpos⟩ : ∃ pos, (Text.lines raw).tail.findIdx? List.isEmpty = some pos := by
    cases hpos : (Text.lines raw).tail.findIdx? List.isEmpty with
    | none => exact (findIdx?_eq_none_iff_not_mem.mp hpos hblank).elim
    | some pos => exact ⟨pos, rfl⟩
  rw [← hheaders] at hhost
  rw [fromString_eq hne, hpos, hmethod, index_eq_ok.mpr hurl, index_eq_ok.mpr hversion,
    hhost, hheaders, hbody]
  rfl

theorem fromString_cases (raw : Str) :
    (firstLine raw = [] ∧ Request.fromString raw = .ok none) ∨
    (∃ r, Parses raw r) ∨
    (firstLine raw ≠ [] ∧ ∃ p, Request.fromString raw = .error p) := by
  by_cases hne : firstLine raw = []
  · have hfirst : (Text.lines raw).head?.getD "NULL".toList = [] := hne
    refine Or.inl ⟨hne, ?_⟩
    unfold Request.fromString
    simp only [if_pos hfirst]
    rfl
  · cases h : Request.fromString raw with
    | error p => exact Or.inr (Or.inr ⟨hne, p, rfl⟩)
    | ok o =>
      rw [fromString_eq hne] at h
      obtain ⟨pos, hpos, h⟩ := bind_eq_ok.mp h
      obtain ⟨method, hmethod, h⟩ := bind_eq_ok.mp h
      obtain ⟨url, hurl, h⟩ := bind_eq_ok.mp h
      obtain ⟨version, hversion, h⟩ := bind_eq_ok.mp h
      obtain ⟨host, hhost, _⟩ := bind_eq_ok.mp h
      have hblank : [] ∈ (Text.lines raw).tail := by
        by_cases hm : [] ∈ (Text.lines raw).tail
        · exact hm
        · rw [findIdx?_eq_none_iff_not_mem.mpr hm] at hpos
          cases hpos
      exact Or.inr (Or.inl ⟨⟨method, url, version, _, _, host⟩, hne, hblank,
        unwrap_eq_ok.mp hmethod, index_eq_ok.mp hurl, index_eq_ok.mp hversion, rfl, rfl,
        unwrap_eq_ok.mp hhost⟩)

theorem fromString_eq_some_iff {raw : Str} {r : Request} :
    Request.fromString raw = .ok (some r) ↔ Parses raw r := by
  constructor
  · intro h
    rcases fromString_cases raw with ⟨_, hnone⟩ | ⟨r', hr'⟩ | ⟨_, p, hp⟩
    · rw [h] at hnone
      cases hnone
    · rw [fromString_of_parses hr'] at h
      cases h
      exact hr'
    · rw [h] at hp
      cases hp
  · exact fromString_of_parses

theorem fromString_eq_none_iff {raw : Str} :
    Request.fromString raw = .ok none ↔ firstLine raw = [] := by
  rcases fromString_cases raw with ⟨hnil, hnone⟩ | ⟨r, hr⟩ | ⟨hne, p, hp⟩
  · exact ⟨fun _ => hnil, fun _ => hnone⟩
  · rw [fromString_of_parses hr]
    exact ⟨fun h => (nomatch h), fun h => (hr.firstLine_ne h).elim⟩
  · rw [hp]
    exact ⟨fun h => (nomatch h), fun h => (hne h).elim⟩

theorem returns_fromString_iff {raw : Str} :
    Returns (Request.fromString raw) ↔ firstLine raw = [] ∨ ∃ r, Parses raw r := by
  constructor
  · intro h
    obtain ⟨o, ho⟩ := h
    cases o with
    | none => exact Or.inl (fromString_eq_none_iff.mp ho)
    | some r => exact Or.inr ⟨r, fromString_eq_some_iff.mp ho⟩
  · intro h
    rcases h with h | ⟨r, hr⟩
    · exact ⟨_, fromString_eq_none_iff.mpr h⟩
    · exact ⟨_, fromString_of_parses hr⟩

end Parsing

end AppComponts
