import AppComponts.Prelude

/-!
# The request parser against the wire format

Which texts `Request::from_string` panics on, and that on the others it inverts rendering.
-/

namespace AppComponts
open Rust Text
set_option autoImplicit false

/-- A header line of the name `Host`, in any letter case. -/
def IsHostHeader (line : Str) : Prop := "host:".toList <+: line.map Char.toLower

instance (line : Str) : Decidable (IsHostHeader line) :=
  inferInstanceAs (Decidable ("host:".toList <+: line.map Char.toLower))

def afterColon (line : Str) : Str := (line.dropWhile (· ≠ ':')).tail

/-- The request with the given parts as text, each line with its own ending. -/
def requestText (method url version : Str) (e₀ : Eol) (hs : List (Str × Eol)) (e₁ : Eol)
    (bs : List (Str × Eol)) : Str :=
  render (method ++ ' ' :: url ++ ' ' :: version, e₀) ++
    (hs.flatMap render ++ (render ([], e₁) ++ bs.flatMap render))

section Parsing
variable [CaseTables]

theorem isHost_iff (line : Str) :
    "host:".toList.isPrefixOf (toLowercase line) = true ↔ IsHostHeader line := by
  rw [isPrefixOf_toLowercase (forall_mem_of_all (by decide)), List.isPrefixOf_iff_prefix]
  rfl

theorem hostLine_eq_some_iff {hs : List Str} {host : Str} :
    hostLine hs = some host ↔ ∃ before line after, hs = before ++ line :: after ∧
      IsHostHeader line ∧ (∀ l ∈ before, ¬ IsHostHeader l) ∧ trim (afterColon line) = host := by
  unfold hostLine
  constructor
  · intro h
    obtain ⟨line, hfind, hhost⟩ := Option.map_eq_some_iff.mp h
    obtain ⟨hline, before, after, rfl, hbefore⟩ := List.find?_eq_some_iff_append.mp hfind
    refine ⟨before, line, after, rfl, (isHost_iff line).mp hline, ?_, ?_⟩
    · intro l hl hIs
      have hno := hbefore l hl
      rw [(isHost_iff l).mpr hIs] at hno
      cases hno
    · rw [splitn_two_second] at hhost
      exact hhost
  · intro h
    obtain ⟨before, line, after, rfl, hline, hbefore, rfl⟩ := h
    refine Option.map_eq_some_iff.mpr ⟨line, ?_, ?_⟩
    · refine List.find?_eq_some_iff_append.mpr
        ⟨(isHost_iff line).mpr hline, before, after, rfl, ?_⟩
      intro l hl
      rw [Bool.not_eq_true', ← Bool.not_eq_true, isHost_iff]
      exact hbefore l hl
    · rw [splitn_two_second]
      rfl

theorem hostLine_eq_none_iff {hs : List Str} :
    hostLine hs = none ↔ ∀ line ∈ hs, ¬ IsHostHeader line := by
  unfold hostLine
  rw [Option.map_eq_none_iff, List.find?_eq_none]
  constructor
  · exact fun h line hl hIs => h line hl ((isHost_iff line).mpr hIs)
  · exact fun h line hl hIs => h line hl ((isHost_iff line).mp hIs)

inductive Malformed (raw : Str) : Prop where
  | emptyInput (h : raw = [])
  | noBlankLine (h : [] ∉ (Text.lines raw).tail)
  | unknownMethod (h : Method.fromStr (methodToken raw) = none)
  | fewTokens (h : (tokens raw).length < 3)
  | noHost (h : ∀ line ∈ headerLines raw, ¬ IsHostHeader line)

theorem not_malformed_of_parses {raw : Str} {r : Request} (h : Parses raw r) :
    ¬ Malformed raw := by
  intro hbad
  rcases hbad with he | hb | hm | ht | hh
  · subst he
    exact absurd h.blank (by simp)
  · exact hb h.blank
  · rw [h.method] at hm
    cases hm
  · have hv := h.httpVersion
    rw [List.getElem?_eq_none (by omega)] at hv
    cases hv
  · have hhost := h.host
    rw [← h.headers, hostLine_eq_none_iff.mpr hh] at hhost
    cases hhost

theorem parses_of_not_malformed {raw : Str} (hne : firstLine raw ≠ []) (h : ¬ Malformed raw) :
    ∃ r, Parses raw r := by
  have hlen : 3 ≤ (tokens raw).length := Nat.le_of_not_lt fun ht => h (.fewTokens ht)
  have hblank : [] ∈ (Text.lines raw).tail :=
    Decidable.byContradiction fun hb => h (.noBlankLine hb)
  obtain ⟨method, hmethod⟩ := Option.ne_none_iff_exists'.mp fun hm => h (.unknownMethod hm)
  obtain ⟨host, hhost⟩ := Option.ne_none_iff_exists'.mp fun hn =>
    h (.noHost (hostLine_eq_none_iff.mp hn))
  exact ⟨⟨method, _, _, headerLines raw, _, host⟩, hne, hblank, hmethod,
    List.getElem?_eq_getElem (by omega), List.getElem?_eq_getElem (by omega), rfl, rfl, hhost⟩

/-- The parser keeps its promise of an `Option`, with `None` for what is malformed, exactly
on the well-formed texts and on those whose first line is empty. -/
theorem fromString_total_iff (raw : Str) :
    (Returns (Request.fromString raw) ∧
      (Malformed raw → Request.fromString raw = .ok none)) ↔
    (firstLine raw = [] ∨ ¬ Malformed raw) := by
  constructor
  · intro h
    obtain ⟨hreturns, _⟩ := h
    rcases returns_fromString_iff.mp hreturns with hnil | ⟨r, hr⟩
    · exact Or.inl hnil
    · exact Or.inr (not_malformed_of_parses hr)
  · intro h
    by_cases hnil : firstLine raw = []
    · have hnone := fromString_eq_none_iff.mpr hnil
      exact ⟨⟨_, hnone⟩, fun _ => hnone⟩
    · rcases h with h | h
      · exact (hnil h).elim
      · have hparses := parses_of_not_malformed hnil h
        exact ⟨returns_fromString_iff.mpr (Or.inr hparses), fun hm => (h hm).elim⟩

end Parsing

theorem fromString_empty_panics :
    ¬ (Returns (@Request.fromString asciiTables []) ∧
      (@Malformed asciiTables [] → @Request.fromString asciiTables [] = .ok none)) := by
  intro h
  obtain ⟨⟨o, ho⟩, _⟩ := h
  cases ho

theorem asStr_bare (m : Method) : Bare m.asStr ∧ ' ' ∉ m.asStr := by
  cases m <;> decide

theorem lines_requestText (e₀ e₁ : Eol) {m url version : Str} {hs bs : List (Str × Eol)}
    (hm : Bare m) (hurl : Bare url) (hversion : Bare version)
    (hhs : ∀ h ∈ hs, Bare h.1) (hbs : ∀ b ∈ bs, Bare b.1) :
    Text.lines (requestText m url version e₀ hs e₁ bs) =
      (m ++ ' ' :: url ++ ' ' :: version) :: (hs.map Prod.fst ++ [] :: bs.map Prod.fst) := by
  have hfirst : Bare (m ++ ' ' :: url ++ ' ' :: version) := by
    simp [Bare, hm.1, hm.2, hurl.1, hurl.2, hversion.1, hversion.2]
  have hnil : Bare [] := by simp [Bare]
  have hbody := lines_flatMap_render hbs []
  rw [List.append_nil, lines_nil, List.append_nil] at hbody
  rw [requestText, lines_render hfirst, lines_flatMap_render hhs, lines_render hnil, hbody]

section RoundTrip
variable [CaseTables]

theorem fromStr_asStr (m : Method) : Method.fromStr m.asStr = some m := by
  have hascii : toUppercase m.asStr = m.asStr := by
    rw [toUppercase_ascii (forall_mem_of_all (by cases m <;> decide))]
    cases m <;> rfl
  unfold Method.fromStr
  rw [hascii]
  cases m <;> rfl

theorem parses_requestText (e₀ e₁ : Eol) {m : Method} {url version : Str}
    {hs bs : List (Str × Eol)} {host : Str}
    (hurl : Bare url ∧ ' ' ∉ url) (hversion : Bare version ∧ ' ' ∉ version)
    (hhs : ∀ h ∈ hs, h.1 ≠ [] ∧ Bare h.1) (hbs : ∀ b ∈ bs, Bare b.1)
    (hhost : hostLine (hs.map Prod.fst) = some host) :
    Parses (requestText m.asStr url version e₀ hs e₁ bs)
      { method := m, url, httpVersion := version, headers := hs.map Prod.fst
        body := if m = .CONNECT then [] else bs.map Prod.fst, host } := by
  have hlines := lines_requestText e₀ e₁ (asStr_bare m).1 hurl.1 hversion.1
    (fun h hh => (hhs h hh).2) hbs
  have hne : ∀ l ∈ hs.map Prod.fst, decide (l ≠ []) = true := by
    intro l hl
    obtain ⟨h, hh, rfl⟩ := List.mem_map.mp hl
    exact decide_eq_true (hhs h hh).1
  have hfirst : firstLine (requestText m.asStr url version e₀ hs e₁ bs) =
      m.asStr ++ ' ' :: url ++ ' ' :: version := by
    rw [firstLine_eq, hlines]
    rfl
  have htokens : tokens (requestText m.asStr url version e₀ hs e₁ bs) =
      [m.asStr, url, version] := by
    rw [tokens_eq, hfirst, List.append_assoc, List.cons_append,
      List.splitOn_append_cons_self_of_not_mem (asStr_bare m).2,
      List.splitOn_append_cons_self_of_not_mem hurl.2, List.splitOn_eq_singleton hversion.2]
  have hheaders : headerLines (requestText m.asStr url version e₀ hs e₁ bs) =
      hs.map Prod.fst := by
    rw [headerLines_eq, hlines, List.tail_cons, List.takeWhile_append_of_pos hne]
    simp
  have hbody : bodyLines (requestText m.asStr url version e₀ hs e₁ bs) = bs.map Prod.fst := by
    rw [bodyLines_eq, hlines, List.tail_cons, List.dropWhile_append_of_pos hne]
    simp
  have hmethod : methodToken (requestText m.asStr url version e₀ hs e₁ bs) = m.asStr := by
    simp [methodToken, htokens]
  have hconnect : m.asStr = Method.CONNECT.asStr ↔ m = .CONNECT := by
    cases m <;> decide
  refine ⟨?_, ?_, ?_, ?_, ?_, hheaders, ?_, hhost⟩
  · rw [hfirst]
    simp
  · rw [hlines]
    simp
  · rw [hmethod]
    exact fromStr_asStr m
  · simp [htokens]
  · simp [htokens]
  · rw [hmethod, hbody]
    simp only [hconnect]

theorem lines_of_parses {raw : Str} {r : Request} (h : Parses raw r)
    (hconnect : methodToken raw ≠ Method.CONNECT.asStr) :
    (Text.lines raw).tail = r.headers ++ [] :: r.body ∧ [] ∉ r.headers := by
  have hbody := h.body
  rw [if_neg hconnect] at hbody
  rw [← h.headers, ← hbody]
  exact ⟨eq_takeWhile_blank h.blank, not_mem_takeWhile_blank _⟩

/-- Parsing inverts rendering for every mixture of line endings, and what is accepted has
no line but the headers, the empty line and the body. -/
theorem fromString_requestText :
    (∀ (m : Method) (url version : Str) (e₀ e₁ : Eol) (hs bs : List (Str × Eol)),
      Bare url ∧ ' ' ∉ url → Bare version ∧ ' ' ∉ version →
      (∀ h ∈ hs, h.1 ≠ [] ∧ Bare h.1) → (∃ h ∈ hs, IsHostHeader h.1) → (∀ b ∈ bs, Bare b.1) →
      ∃ before line after, hs.map Prod.fst = before ++ line :: after ∧
        IsHostHeader line ∧ (∀ l ∈ before, ¬ IsHostHeader l) ∧
        Request.fromString (requestText m.asStr url version e₀ hs e₁ bs) = .ok (some {
          method := m, url, httpVersion := version, headers := hs.map Prod.fst
          body := if m = .CONNECT then [] else bs.map Prod.fst
          host := trim (afterColon line) })) ∧
    (∀ (raw : Str) (r : Request), Request.fromString raw = .ok (some r) →
      methodToken raw ≠ Method.CONNECT.asStr →
      (Text.lines raw).tail = r.headers ++ [] :: r.body ∧ [] ∉ r.headers) := by
  constructor
  · intro m url version e₀ e₁ hs bs hurl hversion hhs hhost hbs
    cases hline : hostLine (hs.map Prod.fst) with
    | none =>
      obtain ⟨h, hh, hIs⟩ := hhost
      exact (hostLine_eq_none_iff.mp hline h.1 (List.mem_map_of_mem hh) hIs).elim
    | some host =>
      obtain ⟨before, line, after, hsplit, hIs, hbefore, rfl⟩ := hostLine_eq_some_iff.mp hline
      refine ⟨before, line, after, hsplit, hIs, hbefore, ?_⟩
      exact fromString_of_parses (parses_requestText e₀ e₁ hurl hversion hhs hbs hline)
  · intro raw r h hconnect
    exact lines_of_parses (fromString_eq_some_iff.mp h) hconnect

end RoundTrip

theorem fromString_requestText_post :
    ∃ before line after, ["A: 1".toList, "hOST: x ".toList] = before ++ line :: after ∧
      IsHostHeader line ∧ (∀ l ∈ before, ¬ IsHostHeader l) ∧
      @Request.fromString asciiTables "POST /u v\nA: 1\r\nhOST: x \n\r\nb\n".toList =
        .ok (some ⟨.POST, "/u".toList, "v".toList, ["A: 1".toList, "hOST: x ".toList],
          ["b".toList], trim (afterColon line)⟩) :=
  (@fromString_requestText asciiTables).1 .POST "/u".toList "v".toList .lf .crlf
    [("A: 1".toList, .crlf), ("hOST: x ".toList, .lf)] [("b".toList, .lf)]
    (by decide) (by decide) (by decide) (by decide) (by decide)

end AppComponts
