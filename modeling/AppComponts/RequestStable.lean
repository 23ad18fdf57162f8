import AppComponts.MethodCase
import AppComponts.RequestText

/-!
# The requests the parser can return

`Request::from_string` forgets how a line ends and what follows the third token of the first
line. What it returns is exactly what can be written out as lines again, and is parsed back
from its own text, but for the body of a `CONNECT` that was not spelled in capitals.
-/

namespace AppComponts
open Rust Text
set_option autoImplicit false

def IsToken (t : Str) : Prop := ' ' ∉ t ∧ '\n' ∉ t

instance (t : Str) : Decidable (IsToken t) := inferInstanceAs (Decidable (_ ∧ _))

/-- The request on the wire, with its method spelled like this. -/
def Request.spelled (r : Request) (method : Str) : Str :=
  requestText method r.url r.httpVersion .crlf (r.headers.map (·, .crlf)) .crlf
    (r.body.map (·, .crlf))

def Request.text (r : Request) : Str := r.spelled r.method.asStr

theorem isToken_asStr (m : Method) : IsToken m.asStr := by
  cases m <;> decide

theorem asStr_eq_connect {m : Method} : m.asStr = Method.CONNECT.asStr ↔ m = .CONNECT := by
  cases m <;> decide

section Parsing
variable [CaseTables] {raw method : Str} {r : Request}

/-- A request whose parts are tokens and lines, and whose host is the one of its headers. -/
structure Request.WellFormed (r : Request) : Prop where
  url : IsToken r.url
  httpVersion : IsToken r.httpVersion
  headers : ∀ l ∈ r.headers, l ≠ [] ∧ '\n' ∉ l
  body : ∀ l ∈ r.body, '\n' ∉ l
  host : hostLine r.headers = some r.host

theorem firstLine_mem_lines (h : Parses raw r) : firstLine raw ∈ Text.lines raw := by
  rw [firstLine_eq]
  cases hlines : Text.lines raw with
  | nil =>
    have hblank := h.blank
    rw [hlines] at hblank
    cases hblank
  | cons line rest => exact List.mem_cons_self

theorem isToken_of_mem_tokens (h : Parses raw r) {t : Str} (ht : t ∈ tokens raw) :
    IsToken t := by
  rw [tokens_eq] at ht
  refine ⟨not_mem_of_mem_splitOn ht, ?_⟩
  intro hmem
  exact not_mem_of_mem_lines (firstLine_mem_lines h) (subset_of_mem_splitOn ht hmem)

theorem wellFormed_of_parses (h : Parses raw r) : r.WellFormed := by
  have hline : ∀ l ∈ (Text.lines raw).tail, '\n' ∉ l :=
    fun l hl => not_mem_of_mem_lines (List.mem_of_mem_tail hl)
  refine ⟨isToken_of_mem_tokens h (List.mem_of_getElem? h.url),
    isToken_of_mem_tokens h (List.mem_of_getElem? h.httpVersion), ?_, ?_, h.host⟩
  · intro l hl
    rw [← h.headers, headerLines_eq] at hl
    refine ⟨?_, hline l ((List.takeWhile_prefix _).subset hl)⟩
    intro hnil
    rw [hnil] at hl
    exact not_mem_takeWhile_blank _ hl
  · intro l hl
    rw [← h.body] at hl
    split at hl
    · cases hl
    · rw [bodyLines_eq] at hl
      exact hline l ((List.dropWhile_suffix _).subset (List.mem_of_mem_tail hl))

theorem headed_spelled (hmethod : IsToken method) (hr : r.WellFormed) :
    Headed method (r.url ++ ' ' :: r.httpVersion) (r.headers ++ [] :: r.body)
      (r.spelled method) := by
  have hfirst : '\n' ∉ method ++ ' ' :: r.url ++ ' ' :: r.httpVersion := by
    simp [hmethod.2, hr.url.2, hr.httpVersion.2]
  have hheaders : ∀ l ∈ r.headers, '\n' ∉ l := fun l hl => (hr.headers l hl).2
  have hbody := lines_flatMap_crlf hr.body []
  rw [List.append_nil, lines_nil, List.append_nil] at hbody
  refine ⟨?_, hmethod.1⟩
  rw [Request.spelled, requestText, lines_render_crlf hfirst, lines_flatMap_crlf hheaders,
    lines_render_crlf List.not_mem_nil, hbody]
  simp

/-- A request that is written out is read again, but for the body of a `CONNECT`. -/
theorem parses_spelled (hmethod : IsToken method) (hfrom : Method.fromStr method = some r.method)
    (hr : r.WellFormed) :
    Parses (r.spelled method)
      { r with body := if method = Method.CONNECT.asStr then [] else r.body } := by
  have hheaded := headed_spelled hmethod hr
  have hne : ∀ l ∈ r.headers, decide (l ≠ []) = true :=
    fun l hl => decide_eq_true (hr.headers l hl).1
  have htokens : tokens (r.spelled method) = [method, r.url, r.httpVersion] := by
    rw [hheaded.tokens_eq, List.splitOn_append_cons_self_of_not_mem hr.url.1,
      List.splitOn_eq_singleton hr.httpVersion.1]
  refine ⟨?_, ?_, ?_, ?_, ?_, ?_, ?_, hr.host⟩
  · rw [hheaded.firstLine_eq]
    simp
  · rw [hheaded.lines]
    simp
  · rw [hheaded.methodToken_eq, hfrom]
  · rw [htokens]
    rfl
  · rw [htokens]
    rfl
  · rw [hheaded.headerLines_eq, List.takeWhile_append_of_pos hne]
    simp
  · rw [hheaded.methodToken_eq, hheaded.bodyLines_eq, List.dropWhile_append_of_pos hne]
    simp

theorem fromStr_connect : Method.fromStr "connect".toList = some .CONNECT := by
  have hupper : toUppercase "connect".toList = "CONNECT".toList := by
    rw [toUppercase_ascii (forall_mem_of_all (by decide))]
    decide
  unfold Method.fromStr
  rw [hupper]
  rfl

theorem exists_parses (hr : r.WellFormed) : ∃ raw, Parses raw r := by
  by_cases hconnect : r.method = .CONNECT
  · have hfrom : Method.fromStr "connect".toList = some r.method := by
      rw [fromStr_connect, hconnect]
    have hlower := parses_spelled (by decide) hfrom hr
    rw [if_neg (by decide)] at hlower
    exact ⟨_, hlower⟩
  · have hcapitals := parses_spelled (isToken_asStr r.method) (fromStr_asStr r.method) hr
    rw [if_neg (fun h => hconnect (asStr_eq_connect.mp h))] at hcapitals
    exact ⟨_, hcapitals⟩

theorem parses_text (hr : r.WellFormed) :
    Parses r.text { r with body := if r.method = .CONNECT then [] else r.body } := by
  have h := parses_spelled (isToken_asStr r.method) (fromStr_asStr r.method) hr
  simp only [asStr_eq_connect] at h
  exact h

/-- The parser returns exactly the well-formed requests, and each of them again from its own
text, unless it is a `CONNECT` with a body. -/
theorem request_stable_iff (r : Request) :
    ((∃ raw, Request.fromString raw = .ok (some r)) ↔ r.WellFormed) ∧
    (r.WellFormed → (Request.fromString r.text = .ok (some r) ↔
      (r.method = .CONNECT → r.body = []))) := by
  refine ⟨⟨?_, ?_⟩, ?_⟩
  · intro h
    obtain ⟨raw, hraw⟩ := h
    exact wellFormed_of_parses (fromString_eq_some_iff.mp hraw)
  · intro hr
    obtain ⟨raw, hraw⟩ := exists_parses hr
    exact ⟨raw, fromString_of_parses hraw⟩
  · intro hr
    rw [fromString_of_parses (parses_text hr)]
    constructor
    · intro h hconnect
      rw [if_pos hconnect] at h
      have hsame := Option.some.inj (Except.ok.inj h)
      exact (congrArg Request.body hsame).symm
    · intro h
      by_cases hconnect : r.method = .CONNECT
      · rw [if_pos hconnect, ← h hconnect]
      · rw [if_neg hconnect]

end Parsing

/-- Carriage returns, an empty token, and white space around the host. -/
def oddRequest : Request where
  method := .GET
  url := []
  httpVersion := "v\r".toList
  headers := ["A\r: 1".toList, "hOST: \rx ".toList, "Host: y".toList]
  body := [[], "b\r".toList, []]
  host := "x".toList

theorem request_stable_odd :
    @Request.fromString asciiTables oddRequest.text = .ok (some oddRequest) ∧
    ∃ raw, @Request.fromString asciiTables raw = .ok (some { oddRequest with
      method := .CONNECT }) := by
  have hheaders : @hostLine asciiTables oddRequest.headers = some oddRequest.host := by decide
  have hurl : IsToken oddRequest.url ∧ IsToken oddRequest.httpVersion := by decide
  have hlines : (∀ l ∈ oddRequest.headers, l ≠ [] ∧ '\n' ∉ l) ∧
      ∀ l ∈ oddRequest.body, '\n' ∉ l := by decide
  constructor
  · exact ((@request_stable_iff asciiTables oddRequest).2
      (@Request.WellFormed.mk asciiTables _ hurl.1 hurl.2 hlines.1 hlines.2 hheaders)).mpr
      (fun h => by cases h)
  · exact (@request_stable_iff asciiTables { oddRequest with method := .CONNECT }).1.mpr
      (@Request.WellFormed.mk asciiTables _ hurl.1 hurl.2 hlines.1 hlines.2 hheaders)

end AppComponts
