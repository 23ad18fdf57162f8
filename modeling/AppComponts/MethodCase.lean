import AppComponts.Library.LetterCase
import AppComponts.Prelude

/-!
# The letter case of the method

`Method::from_str` takes the method in any letter case, but the branch of
`Request::from_string` that drops the body is taken for the letters `CONNECT` alone.
-/

namespace AppComponts
open Rust Text
set_option autoImplicit false

/-- The texts differ in the letter case of the method alone. -/
def Respelled (raw raw' : Str) : Prop :=
  ∃ token rest, raw = methodToken raw ++ rest ∧ raw' = token ++ rest ∧
    EqIgnoreAsciiCase (methodToken raw) token

/-- A text whose first line is cut in two by its first space. -/
structure Headed (token line : Str) (rest : List Str) (raw : Str) : Prop where
  lines : Text.lines raw = (token ++ ' ' :: line) :: rest
  space : ' ' ∉ token

section Headed
variable {token line raw : Str} {rest : List Str}

theorem Headed.firstLine_eq (h : Headed token line rest raw) :
    firstLine raw = token ++ ' ' :: line := by
  rw [AppComponts.firstLine_eq, h.lines]
  rfl

theorem Headed.tokens_eq (h : Headed token line rest raw) :
    tokens raw = token :: line.splitOn ' ' := by
  rw [AppComponts.tokens_eq, h.firstLine_eq]
  exact List.splitOn_append_cons_self_of_not_mem h.space line

theorem Headed.methodToken_eq (h : Headed token line rest raw) : methodToken raw = token := by
  simp [methodToken, h.tokens_eq]

theorem Headed.bodyLines_eq (h : Headed token line rest raw) :
    bodyLines raw = (rest.dropWhile (· ≠ [])).tail := by
  rw [AppComponts.bodyLines_eq, h.lines, List.tail_cons]

theorem Headed.headerLines_eq (h : Headed token line rest raw) :
    headerLines raw = rest.takeWhile (· ≠ []) := by
  rw [AppComponts.headerLines_eq, h.lines, List.tail_cons]

end Headed

section Parsing
variable [CaseTables] {raw raw' : Str} {r : Request}

/-- An accepted text starts with its method and a space. -/
theorem exists_eq_methodToken_append (h : Parses raw r) :
    ' ' ∉ methodToken raw ∧ '\n' ∉ methodToken raw ∧ ∃ t, raw = methodToken raw ++ ' ' :: t := by
  obtain ⟨token, more, htokens⟩ := List.exists_cons_of_ne_nil (tokens_ne_nil raw)
  have htoken : methodToken raw = token := by simp [methodToken, htokens]
  cases more with
  | nil =>
    have hurl := h.url
    rw [htokens] at hurl
    cases hurl
  | cons url more =>
    have hspace : ' ' ∉ token := by
      apply @not_mem_of_mem_splitOn ' ' (firstLine raw)
      rw [← tokens_eq, htokens]
      exact List.mem_cons_self
    have hfirst : firstLine raw = token ++ ' ' :: [' '].intercalate (url :: more) := by
      have hjoin : [' '].intercalate (tokens raw) = firstLine raw :=
        List.intercalate_splitOn ' '
      rw [← hjoin, htokens, List.intercalate_cons_cons, List.append_assoc, List.singleton_append]
    obtain ⟨line, rest, hlines⟩ : ∃ line rest, Text.lines raw = line :: rest := by
      apply List.exists_cons_of_ne_nil
      intro hnil
      have hblank := h.blank
      rw [hnil] at hblank
      cases hblank
    obtain rfl : firstLine raw = line := by
      rw [firstLine_eq, hlines]
      rfl
    obtain ⟨u, hu⟩ := head_lines_prefix hlines
    rw [htoken]
    refine ⟨hspace, ?_, [' '].intercalate (url :: more) ++ u, ?_⟩
    · intro hmem
      have hline : firstLine raw ∈ Text.lines raw := by
        rw [hlines]
        exact List.mem_cons_self
      apply not_mem_of_mem_lines hline
      rw [hfirst]
      exact List.mem_append_left _ hmem
    · rw [← hu, hfirst, List.append_assoc, List.cons_append]

/-- A respelled text has the same lines behind the same first line, but for its method. -/
theorem headed_of_respelled (h : Parses raw r) (hcase : Respelled raw raw') :
    ∃ line rest, Headed (methodToken raw) line rest raw ∧
      Headed (methodToken raw') line rest raw' ∧
      EqIgnoreAsciiCase (methodToken raw) (methodToken raw') := by
  obtain ⟨token, tail, hraw, rfl, heq⟩ := hcase
  obtain ⟨hspace, hnewline, t, ht⟩ := exists_eq_methodToken_append h
  obtain rfl : tail = ' ' :: t := List.append_cancel_left (hraw.symm.trans ht)
  obtain ⟨line, rest, hlines⟩ := exists_lines_append (d := ' ') (by decide) (by decide) t
  have hold : Headed (methodToken raw) line rest raw := by
    refine ⟨?_, hspace⟩
    have hold := hlines (methodToken raw) hnewline
    rwa [← ht] at hold
  have hnew : Headed token line rest (token ++ ' ' :: t) := by
    refine ⟨hlines token ?_, ?_⟩
    · exact fun hmem => hnewline (heq.symm.mem (by decide) hmem)
    · exact fun hmem => hspace (heq.symm.mem (by decide) hmem)
  rw [hnew.methodToken_eq]
  exact ⟨line, rest, hold, hnew, heq⟩

theorem parses_of_respelled (h : Parses raw r) (hcase : Respelled raw raw') :
    Parses raw' { r with
      body := if methodToken raw' = Method.CONNECT.asStr then [] else bodyLines raw } := by
  obtain ⟨line, rest, hold, hnew, heq⟩ := headed_of_respelled h hcase
  refine ⟨?_, ?_, ?_, ?_, ?_, ?_, ?_, h.host⟩
  · rw [hnew.firstLine_eq]
    simp
  · have hblank := h.blank
    rw [hold.lines] at hblank
    rw [hnew.lines]
    exact hblank
  · rw [← h.method, Method.fromStr, Method.fromStr, heq.toUppercase_eq]
  · rw [← h.url, hold.tokens_eq, hnew.tokens_eq]
    rfl
  · rw [← h.httpVersion, hold.tokens_eq, hnew.tokens_eq]
    rfl
  · rw [← h.headers, hold.headerLines_eq, hnew.headerLines_eq]
  · rw [hold.bodyLines_eq, hnew.bodyLines_eq]

/-- A respelled request is parsed to the same one exactly if both spell `CONNECT` in capitals
or neither does, or there is no body to drop; and so a `CONNECT` has no body exactly if it is
spelled in capitals or nothing follows its headers. -/
theorem fromString_respelled_iff (raw raw' : Str) (r : Request)
    (h : Request.fromString raw = .ok (some r)) (hcase : Respelled raw raw') :
    (Request.fromString raw' = .ok (some r) ↔
      ((methodToken raw = Method.CONNECT.asStr ↔ methodToken raw' = Method.CONNECT.asStr) ∨
        bodyLines raw = [])) ∧
    (r.method = .CONNECT →
      (r.body = [] ↔ methodToken raw = Method.CONNECT.asStr ∨ bodyLines raw = [])) := by
  have hparses := fromString_eq_some_iff.mp h
  have hnew := fromString_of_parses (parses_of_respelled hparses hcase)
  have hbody := hparses.body
  constructor
  · rw [hnew]
    obtain ⟨method, url, version, headers, body, host⟩ := r
    simp only [Except.ok.injEq, Option.some.injEq, Request.mk.injEq, true_and, and_true]
    dsimp only at hbody
    rw [← hbody]
    by_cases hold : methodToken raw = Method.CONNECT.asStr
    · by_cases hnew : methodToken raw' = Method.CONNECT.asStr
      · simp [hold, hnew]
      · simp [hold, hnew]
    · by_cases hnew : methodToken raw' = Method.CONNECT.asStr
      · simp [hold, hnew, eq_comm]
      · simp [hold, hnew]
  · intro _
    rw [← hbody]
    by_cases hold : methodToken raw = Method.CONNECT.asStr
    · simp [hold]
    · simp [hold]

end Parsing

/-- A tunnel request with something behind its headers. -/
def upperConnect : Str := "CONNECT a:1 v\nHost: a\n\nb".toList

def lowerConnect : Str := "connect a:1 v\nHost: a\n\nb".toList

def tunnelRequest : Request where
  method := .CONNECT
  url := "a:1".toList
  httpVersion := "v".toList
  headers := ["Host: a".toList]
  body := []
  host := "a".toList

theorem fromString_upperConnect :
    (@Request.fromString asciiTables lowerConnect = .ok (some tunnelRequest) ↔
      ((methodToken upperConnect = Method.CONNECT.asStr ↔
          methodToken lowerConnect = Method.CONNECT.asStr) ∨ bodyLines upperConnect = [])) ∧
    (tunnelRequest.method = .CONNECT →
      (tunnelRequest.body = [] ↔
        methodToken upperConnect = Method.CONNECT.asStr ∨ bodyLines upperConnect = [])) :=
  @fromString_respelled_iff asciiTables upperConnect lowerConnect tunnelRequest rfl
    ⟨"connect".toList, " a:1 v\nHost: a\n\nb".toList, rfl, rfl, rfl⟩

/-- In small letters the same request has a body. -/
theorem fromString_depends_on_case :
    ¬ ∀ raw raw' r, @Request.fromString asciiTables raw = .ok (some r) → Respelled raw raw' →
      @Request.fromString asciiTables raw' = .ok (some r) ∧
        (r.method = .CONNECT → r.body = []) := by
  intro h
  have hcase : Respelled upperConnect lowerConnect :=
    ⟨"connect".toList, " a:1 v\nHost: a\n\nb".toList, rfl, rfl, rfl⟩
  obtain ⟨hsame, _⟩ := h upperConnect lowerConnect tunnelRequest rfl hcase
  cases hsame

end AppComponts
