import AppComponts.Prelude

/-!
# The response parser against its own rendering

`Response::from_string` forgets the version, the white space of the status line and which line
ends with `\r\n`. What it keeps it finds again in the response written out as text.
-/

namespace AppComponts
open Text
set_option autoImplicit false

/-- A response as text; the version is not part of it. -/
def responseText (r : Response) : Str :=
  "HTTP/1.1 ".toList ++ r.statusCode ++ " ".toList ++ r.message ++ "\r\n".toList ++
    r.data.getD [] ++ "\r\n".toList

theorem responseText_eq (r : Response) :
    responseText r = ("HTTP/1.1".toList ++ ' ' :: (r.statusCode ++ ' ' :: r.message)) ++
      '\r' :: '\n' :: (r.data.getD [] ++ "\r\n".toList) := by
  unfold responseText
  generalize r.data.getD [] = data
  simp

def responseOf (statusCode : Str) (words : List Str) (bodyText : Str) : Response where
  statusCode := statusCode
  message := join " ".toList words
  data := if bodyText = [] then none else some bodyText
  error := some (join " ".toList words)

theorem Response.fromString_cons {raw line : Str} {rest : List Str}
    (hlines : Text.lines raw = line :: rest) :
    Response.fromString raw = match splitWhitespace line with
      | _ :: statusCode :: words =>
        .ok (responseOf statusCode words (join "\r\n".toList rest))
      | _ => .error "Invalid status line in response".toList := by
  unfold Response.fromString
  rw [hlines]
  cases hparts : splitWhitespace line with
  | nil =>
    simp [hparts]
    rfl
  | cons version parts =>
    cases parts with
    | nil =>
      simp [hparts]
      rfl
    | cons statusCode words =>
      by_cases hbody : join ['\r', '\n'] rest = []
      · cases words <;> simp [hparts, responseOf, hbody] <;> rfl
      · cases words <;> simp [hparts, responseOf, hbody] <;> rfl

theorem Response.fromString_nil : ∃ r, Response.fromString [] = .ok r := ⟨_, rfl⟩

theorem Response.fromString_eq_ok {raw : Str} {r : Response} (hne : raw ≠ [])
    (h : Response.fromString raw = .ok r) :
    ∃ line rest version statusCode words, Text.lines raw = line :: rest ∧
      splitWhitespace line = version :: statusCode :: words ∧
      r = responseOf statusCode words (join "\r\n".toList rest) := by
  obtain ⟨line, rest, hlines⟩ :=
    List.exists_cons_of_ne_nil fun hnil => hne (lines_eq_nil_iff.mp hnil)
  rw [Response.fromString_cons hlines] at h
  split at h
  · rename_i version statusCode words hparts
    cases h
    exact ⟨line, rest, version, statusCode, words, hlines, hparts, rfl⟩
  · cases h

theorem Response.fromString_eq_error_iff {raw : Str} :
    (∃ e, Response.fromString raw = .error e) ↔
      ∃ line ∈ (Text.lines raw).head?, (splitWhitespace line).length < 2 := by
  cases hlines : Text.lines raw with
  | nil =>
    obtain rfl := lines_eq_nil_iff.mp hlines
    obtain ⟨r, hr⟩ := Response.fromString_nil
    simp [hr]
  | cons line rest =>
    rw [Response.fromString_cons hlines]
    cases hparts : splitWhitespace line with
    | nil => simp [hparts]
    | cons version parts => cases parts <;> simp [hparts]

theorem lines_responseText {statusCode : Str} {words rest : List Str}
    (hcode : IsWord statusCode) (hwords : ∀ w ∈ words, IsWord w)
    (hrest : ∀ l ∈ rest, '\n' ∉ l) :
    ∃ rest', join "\r\n".toList rest' = join "\r\n".toList rest ∧
      Text.lines (responseText (responseOf statusCode words (join "\r\n".toList rest))) =
        ("HTTP/1.1".toList ++ ' ' :: (statusCode ++ ' ' :: join " ".toList words)) :: rest' := by
  have hnewline : ∀ w : Str, IsWord w → '\n' ∉ w := by
    intro w hw hmem
    have hspace := hw.2 '\n' hmem
    revert hspace
    decide
  have hfirst :
      '\n' ∉ "HTTP/1.1".toList ++ ' ' :: (statusCode ++ ' ' :: join " ".toList words) := by
    have hmessage : '\n' ∉ join " ".toList words :=
      not_mem_join (by decide) fun w hw => hnewline w (hwords w hw)
    simpa [hnewline statusCode hcode] using hmessage
  have hdata : (responseOf statusCode words (join "\r\n".toList rest)).data.getD [] =
      join "\r\n".toList rest := by
    unfold responseOf
    split
    · rename_i hnil
      exact hnil.symm
    · rfl
  rw [responseText_eq, hdata]
  simp only [responseOf]
  rw [lines_crlf hfirst]
  by_cases hnil : rest = []
  · subst hnil
    exact ⟨[[]], rfl, rfl⟩
  · refine ⟨rest, rfl, ?_⟩
    rw [lines_join_crlf hnil hrest]

theorem Response.fromString_responseText {statusCode : Str} {words rest : List Str}
    (hcode : IsWord statusCode) (hwords : ∀ w ∈ words, IsWord w)
    (hrest : ∀ l ∈ rest, '\n' ∉ l) :
    Response.fromString (responseText (responseOf statusCode words (join "\r\n".toList rest))) =
      .ok (responseOf statusCode words (join "\r\n".toList rest)) := by
  obtain ⟨rest', hjoin, hlines⟩ := lines_responseText hcode hwords hrest
  have hversion : IsWord "HTTP/1.1".toList := isWord_of_any (by decide) (by decide)
  rw [Response.fromString_cons hlines, splitWhitespace_cons hversion, splitWhitespace_cons hcode,
    splitWhitespace_join hwords, hjoin]

/-- A response that was parsed is parsed again from its text, and the parser fails exactly on
a first line of less than two words. -/
theorem response_stable (raw : Str) :
    (∀ r, raw ≠ [] → Response.fromString raw = .ok r →
      Response.fromString (responseText r) = .ok r) ∧
    ((∃ e, Response.fromString raw = .error e) ↔
      ∃ line ∈ (Text.lines raw).head?, (splitWhitespace line).length < 2) := by
  refine ⟨?_, Response.fromString_eq_error_iff⟩
  intro r hne h
  obtain ⟨line, rest, version, statusCode, words, hlines, hparts, rfl⟩ :=
    Response.fromString_eq_ok hne h
  have hword : ∀ w ∈ statusCode :: words, IsWord w := by
    intro w hw
    apply isWord_of_mem_splitWhitespace
    rw [hparts]
    exact List.mem_cons_of_mem version hw
  have hrest : ∀ l ∈ rest, '\n' ∉ l := by
    intro l hl
    apply not_mem_of_mem_lines
    rw [hlines]
    exact List.mem_cons_of_mem line hl
  exact Response.fromString_responseText (hword _ List.mem_cons_self)
    (fun w hw => hword w (List.mem_cons_of_mem _ hw)) hrest

/-- Bare carriage returns, white space of all kinds, and empty lines at the end. -/
theorem response_stable_mixed :
    Response.fromString (responseText ⟨"404".toList, "Not Found".toList,
        some "a\rb\r\n\r\n".toList, some "Not Found".toList⟩) =
      .ok ⟨"404".toList, "Not Found".toList, some "a\rb\r\n\r\n".toList,
        some "Not Found".toList⟩ :=
  (response_stable "x  404\tNot \r Found\na\rb\n\r\n\n".toList).1 _ (by decide) rfl

end AppComponts
