/-!
# The text operations of `str`

A string is its list of characters. The Unicode case tables grow with every Unicode
version, so they are a parameter: `CaseTables` holds the two tables and what no version
changes, the ASCII part and the first character a letter outside ASCII is lowered to.
-/

namespace Text
set_option autoImplicit false

abbrev Str := List Char

class CaseTables where
  upper : Char → Str
  lower : Char → Str
  finalSigma : Str → Str → Bool
  upper_ascii : ∀ c : Char, c.toNat < 128 → upper c = [c.toUpper]
  lower_ascii : ∀ c : Char, c.toNat < 128 → lower c = [c.toLower]
  lower_other : ∀ c : Char, 128 ≤ c.toNat →
    ∃ d rest, lower c = d :: rest ∧ (128 ≤ d.toNat ∨ d = 'i' ∨ d = 'k')

theorem toLower_of_not_ascii {c : Char} (hc : 128 ≤ c.toNat) : c.toLower = c := by
  unfold Char.toLower
  rw [dif_neg]
  intro h
  have hle := UInt32.le_iff_toNat_le.mp h.2
  have hc' : c.toNat = c.val.toNat := rfl
  have h90 : ('Z'.val).toNat = 90 := rfl
  omega

/-- The tables cut down to ASCII. -/
abbrev asciiTables : CaseTables where
  upper c := [c.toUpper]
  lower c := [c.toLower]
  finalSigma _ _ := false
  upper_ascii _ _ := rfl
  lower_ascii _ _ := rfl
  lower_other c hc := ⟨c.toLower, [], rfl, Or.inl (by rwa [toLower_of_not_ascii hc])⟩

def splitInclusive : Str → List Str
  | [] => []
  | c :: cs =>
    if c = '\n' then [c] :: splitInclusive cs
    else match splitInclusive cs with
      | [] => [[c]]
      | line :: rest => (c :: line) :: rest

def stripSuffix (c : Char) (s : Str) : Option Str :=
  if s.getLast? = some c then some s.dropLast else none

/-- `str::lines`: a line ends with `\n`, and one `\r` before it belongs to the ending. -/
def lines (s : Str) : List Str :=
  (splitInclusive s).map fun line => match stripSuffix '\n' line with
    | none => line
    | some line => match stripSuffix '\r' line with
      | none => line
      | some line => line

def splitn : Nat → Char → Str → List Str
  | 0, _, _ => []
  | 1, _, s => [s]
  | n + 2, c, s => match s.dropWhile (· ≠ c) with
    | [] => [s]
    | _ :: rest => s.takeWhile (· ≠ c) :: splitn (n + 1) c rest

/-- The characters with the property `White_Space`. -/
def isWhitespace (c : Char) : Bool :=
  let n := c.toNat
  (9 ≤ n && n ≤ 13) || n = 0x20 || n = 0x85 || n = 0xA0 || n = 0x1680 ||
    (0x2000 ≤ n && n ≤ 0x200A) || n = 0x2028 || n = 0x2029 || n = 0x202F || n = 0x205F ||
    n = 0x3000

def trim (s : Str) : Str :=
  ((s.dropWhile isWhitespace).reverse.dropWhile isWhitespace).reverse

def splitWhitespace (s : Str) : List Str := (s.splitOnP isWhitespace).filter (· ≠ [])

def join (sep : Str) (parts : List Str) : Str := sep.intercalate parts

section Case
variable [CaseTables]

def toUppercase (s : Str) : Str := s.flatMap CaseTables.upper

def toLowercaseFrom (before : Str) : Str → Str
  | [] => []
  | c :: rest =>
    (if c = 'Σ' then [if CaseTables.finalSigma before rest then 'ς' else 'σ']
      else CaseTables.lower c) ++ toLowercaseFrom (before ++ [c]) rest

/-- `str::to_lowercase`, where a final sigma has a form of its own. -/
def toLowercase (s : Str) : Str := toLowercaseFrom [] s

theorem toUppercase_ascii {s : Str} (hs : ∀ c ∈ s, c.toNat < 128) :
    toUppercase s = s.map Char.toUpper := by
  induction s with
  | nil => rfl
  | cons c s ih =>
    have hc := CaseTables.upper_ascii c (hs c List.mem_cons_self)
    have ht := ih fun d hd => hs d (List.mem_cons_of_mem c hd)
    simp only [toUppercase] at ht
    simp only [toUppercase, List.flatMap_cons, hc, ht, List.map_cons, List.cons_append,
      List.nil_append]

/-- Against an ASCII prefix without the letters `i` and `k`, lowering in Unicode and
lowering in ASCII agree. -/
theorem isPrefixOf_toLowercaseFrom {p : Str}
    (hp : ∀ c ∈ p, c.toNat < 128 ∧ c ≠ 'i' ∧ c ≠ 'k') (before s : Str) :
    p.isPrefixOf (toLowercaseFrom before s) = p.isPrefixOf (s.map Char.toLower) := by
  induction p generalizing before s with
  | nil => simp
  | cons x p ih =>
    obtain ⟨hx, hxi, hxk⟩ := hp x List.mem_cons_self
    have hrec := ih fun c hc => hp c (List.mem_cons_of_mem x hc)
    cases s with
    | nil => rfl
    | cons c s =>
      by_cases hc : c.toNat < 128
      · have hsigma : c ≠ 'Σ' := by
          intro heq
          subst heq
          revert hc
          decide
        simp only [toLowercaseFrom, if_neg hsigma, CaseTables.lower_ascii c hc,
          List.cons_append, List.nil_append, List.map_cons, List.isPrefixOf_cons_cons]
        rw [hrec]
      · have hc' : 128 ≤ c.toNat := by omega
        have hne : x ≠ c.toLower := by
          rw [toLower_of_not_ascii hc']
          intro heq
          subst heq
          exact hc hx
        obtain ⟨d, rest, hd, hxd⟩ : ∃ d rest, (if c = 'Σ' then
            [if CaseTables.finalSigma before s then 'ς' else 'σ']
            else CaseTables.lower c) = d :: rest ∧ x ≠ d := by
          split
          · refine ⟨_, [], rfl, ?_⟩
            intro heq
            subst heq
            revert hx
            split <;> decide
          · obtain ⟨d, rest, hd, hcase⟩ := CaseTables.lower_other c hc'
            refine ⟨d, rest, hd, ?_⟩
            intro heq
            subst heq
            rcases hcase with h | h | h
            · omega
            · exact hxi h
            · exact hxk h
        simp only [toLowercaseFrom, hd, List.cons_append, List.map_cons,
          List.isPrefixOf_cons_cons, beq_eq_false_iff_ne.mpr hne, beq_eq_false_iff_ne.mpr hxd,
          Bool.false_and]

theorem isPrefixOf_toLowercase {p : Str}
    (hp : ∀ c ∈ p, c.toNat < 128 ∧ c ≠ 'i' ∧ c ≠ 'k') (s : Str) :
    p.isPrefixOf (toLowercase s) = p.isPrefixOf (s.map Char.toLower) :=
  isPrefixOf_toLowercaseFrom hp [] s

end Case

theorem forall_mem_of_all {P : Char → Prop} [DecidablePred P] {s : Str}
    (h : s.all (fun c => decide (P c)) = true) : ∀ c ∈ s, P c :=
  fun c hc => of_decide_eq_true (List.all_eq_true.mp h c hc)

theorem splitInclusive_line {l : Str} (hl : '\n' ∉ l) (rest : Str) :
    splitInclusive (l ++ '\n' :: rest) = (l ++ ['\n']) :: splitInclusive rest := by
  induction l with
  | nil => simp [splitInclusive]
  | cons c l ih =>
    have hc : '\n' ≠ c := fun h => hl (h ▸ List.mem_cons_self)
    have hl' : '\n' ∉ l := fun h => hl (List.mem_cons_of_mem c h)
    simp only [List.cons_append, splitInclusive, if_neg (Ne.symm hc), ih hl']

@[simp] theorem stripSuffix_append (c : Char) (s : Str) : stripSuffix c (s ++ [c]) = some s := by
  simp [stripSuffix]

theorem stripSuffix_of_not_mem {c : Char} {s : Str} (hc : c ∉ s) : stripSuffix c s = none := by
  unfold stripSuffix
  rw [if_neg]
  intro h
  exact hc (List.mem_of_getLast? h)

inductive Eol where
  | lf
  | crlf
  deriving DecidableEq, Repr

def Eol.text : Eol → Str
  | .lf => ['\n']
  | .crlf => ['\r', '\n']

def Bare (l : Str) : Prop := '\r' ∉ l ∧ '\n' ∉ l

instance (l : Str) : Decidable (Bare l) := inferInstanceAs (Decidable (_ ∧ _))

def render (l : Str × Eol) : Str := l.1 ++ l.2.text

@[simp] theorem lines_nil : lines [] = [] := rfl

theorem lines_eq_nil_iff {s : Str} : lines s = [] ↔ s = [] := by
  cases s with
  | nil => simp
  | cons c s =>
    simp only [lines, splitInclusive, List.map_eq_nil_iff]
    constructor
    · intro h
      split at h
      · cases h
      · split at h <;> cases h
    · intro h
      cases h

def chomp (line : Str) : Str :=
  match stripSuffix '\n' line with
  | none => line
  | some line => match stripSuffix '\r' line with
    | none => line
    | some line => line

theorem lines_eq_map_chomp (s : Str) : lines s = (splitInclusive s).map chomp := rfl

theorem stripSuffix_append_cons {c d : Char} (hd : d ≠ c) (m l : Str) :
    stripSuffix c (m ++ d :: l) = (stripSuffix c l).map fun l => m ++ d :: l := by
  cases l with
  | nil => simp [stripSuffix, hd]
  | cons x l =>
    have hlast : (m ++ d :: x :: l).getLast? = (x :: l).getLast? := by simp [List.getLast?_cons]
    have hdrop : (m ++ d :: x :: l).dropLast = m ++ d :: (x :: l).dropLast := by simp
    unfold stripSuffix
    rw [hlast, hdrop]
    split <;> rfl

theorem chomp_append_cons {d : Char} (hn : d ≠ '\n') (hr : d ≠ '\r') (m l : Str) :
    chomp (m ++ d :: l) = m ++ d :: chomp l := by
  unfold chomp
  rw [stripSuffix_append_cons hn]
  cases stripSuffix '\n' l with
  | none => rfl
  | some l =>
    simp only [Option.map_some]
    rw [stripSuffix_append_cons hr]
    cases stripSuffix '\r' l <;> rfl

theorem prefix_chomp (line : Str) : chomp line <+: line := by
  have hstrip : ∀ (c : Char) (s t : Str), stripSuffix c s = some t → t <+: s := by
    intro c s t h
    unfold stripSuffix at h
    split at h
    · cases h
      exact List.dropLast_prefix s
    · cases h
  unfold chomp
  split
  · exact List.prefix_refl line
  · rename_i l hl
    split
    · exact hstrip _ _ _ hl
    · rename_i k hk
      exact (hstrip _ _ _ hk).trans (hstrip _ _ _ hl)

theorem flatten_splitInclusive (s : Str) : (splitInclusive s).flatten = s := by
  induction s with
  | nil => rfl
  | cons c s ih =>
    simp only [splitInclusive]
    split
    · simp [ih]
    · split
      · rename_i hnil
        rw [hnil] at ih
        simp [← ih]
      · rename_i line rest hsplit
        rw [hsplit] at ih
        simp [← ih]

/-- A text begins with its first line. -/
theorem head_lines_prefix {s l : Str} {rest : List Str} (h : lines s = l :: rest) : l <+: s := by
  rw [lines_eq_map_chomp] at h
  obtain ⟨piece, pieces, hpieces, rfl, _⟩ := List.map_eq_cons_iff.mp h
  apply (prefix_chomp piece).trans
  refine ⟨pieces.flatten, ?_⟩
  rw [← List.flatten_cons, ← hpieces]
  exact flatten_splitInclusive s

/-- What stands before some character of the first line changes nothing behind it. -/
theorem exists_lines_append {d : Char} (hn : d ≠ '\n') (hr : d ≠ '\r') (t : Str) :
    ∃ l rest, ∀ m : Str, '\n' ∉ m → lines (m ++ d :: t) = (m ++ d :: l) :: rest := by
  obtain ⟨l, rest, hsplit⟩ : ∃ l rest, splitInclusive (d :: t) = (d :: l) :: rest := by
    simp only [splitInclusive, if_neg hn]
    split
    · exact ⟨[], [], rfl⟩
    · exact ⟨_, _, rfl⟩
  have hpieces : ∀ m : Str, '\n' ∉ m → splitInclusive (m ++ d :: t) = (m ++ d :: l) :: rest := by
    intro m hm
    induction m with
    | nil => exact hsplit
    | cons c m ih =>
      have hc : c ≠ '\n' := fun h => hm (h ▸ List.mem_cons_self)
      have hrest := ih fun h => hm (List.mem_cons_of_mem c h)
      simp only [List.cons_append, splitInclusive, if_neg hc, hrest]
  refine ⟨chomp l, rest.map chomp, ?_⟩
  intro m hm
  rw [lines_eq_map_chomp, hpieces m hm, List.map_cons, chomp_append_cons hn hr]

/-- Of the carriage returns at the end of a line only one belongs to its ending. -/
theorem lines_crlf {l : Str} (hl : '\n' ∉ l) (rest : Str) :
    lines (l ++ '\r' :: '\n' :: rest) = l :: lines rest := by
  have hsplit : l ++ '\r' :: '\n' :: rest = (l ++ ['\r']) ++ '\n' :: rest := by simp
  have hn : '\n' ∉ l ++ ['\r'] := by simp [hl]
  rw [hsplit, lines, splitInclusive_line hn]
  simp only [List.map_cons, stripSuffix_append]
  rfl

theorem lines_render {l : Str} (hl : Bare l) (eol : Eol) (rest : Str) :
    lines (render (l, eol) ++ rest) = l :: lines rest := by
  cases eol with
  | lf =>
    have hr : render (l, .lf) ++ rest = l ++ '\n' :: rest := by simp [render, Eol.text]
    rw [hr, lines, splitInclusive_line hl.2]
    simp only [List.map_cons, stripSuffix_append, stripSuffix_of_not_mem hl.1]
    rfl
  | crlf =>
    have hr : render (l, .crlf) ++ rest = l ++ '\r' :: '\n' :: rest := by
      simp [render, Eol.text]
    rw [hr]
    exact lines_crlf hl.2 rest

/-- A piece is a line with its terminator, which the last one may lack. -/
theorem exists_of_mem_splitInclusive {s piece : Str} (h : piece ∈ splitInclusive s) :
    ∃ l, '\n' ∉ l ∧ (piece = l ∨ piece = l ++ ['\n']) := by
  induction s generalizing piece with
  | nil => cases h
  | cons c s ih =>
    simp only [splitInclusive] at h
    split at h
    · rename_i hc
      rcases List.mem_cons.mp h with rfl | h
      · exact ⟨[], List.not_mem_nil, Or.inr (by rw [hc, List.nil_append])⟩
      · exact ih h
    · rename_i hc
      have hadd : ∀ l : Str, '\n' ∉ l → '\n' ∉ c :: l := by
        intro l hl hmem
        rcases List.mem_cons.mp hmem with heq | hmem
        · exact hc heq.symm
        · exact hl hmem
      split at h
      · rw [List.mem_singleton.mp h]
        exact ⟨[c], hadd [] List.not_mem_nil, Or.inl rfl⟩
      · rename_i line rest hsplit
        rw [hsplit] at ih
        rcases List.mem_cons.mp h with rfl | h
        · obtain ⟨l, hl, heq | heq⟩ := ih List.mem_cons_self
          · exact ⟨c :: l, hadd l hl, Or.inl (by rw [heq])⟩
          · exact ⟨c :: l, hadd l hl, Or.inr (by rw [heq, List.cons_append])⟩
        · exact ih (List.mem_cons_of_mem line h)

theorem not_mem_of_mem_lines {s l : Str} (h : l ∈ lines s) : '\n' ∉ l := by
  obtain ⟨piece, hpiece, rfl⟩ := List.mem_map.mp h
  obtain ⟨line, hline, heq | heq⟩ := exists_of_mem_splitInclusive hpiece
  · rw [heq, stripSuffix_of_not_mem hline]
    exact hline
  · rw [heq, stripSuffix_append]
    dsimp only
    by_cases hlast : line.getLast? = some '\r'
    · have hstrip : stripSuffix '\r' line = some line.dropLast := if_pos hlast
      rw [hstrip]
      exact fun hmem => hline ((List.dropLast_sublist line).subset hmem)
    · have hstrip : stripSuffix '\r' line = none := if_neg hlast
      rw [hstrip]
      exact hline

theorem lines_join_crlf {ls : List Str} (hne : ls ≠ []) (hls : ∀ l ∈ ls, '\n' ∉ l) :
    lines (join "\r\n".toList ls ++ "\r\n".toList) = ls := by
  induction ls with
  | nil => exact (hne rfl).elim
  | cons l ls ih =>
    have hl := hls l List.mem_cons_self
    cases ls with
    | nil =>
      rw [join, List.intercalate_singleton]
      exact lines_crlf hl []
    | cons k ls =>
      have hrest := ih (List.cons_ne_nil k ls) fun m hm => hls m (List.mem_cons_of_mem l hm)
      have hjoin : join "\r\n".toList (l :: k :: ls) ++ "\r\n".toList =
          l ++ '\r' :: '\n' :: (join "\r\n".toList (k :: ls) ++ "\r\n".toList) := by
        rw [join, List.intercalate_cons_cons]
        simp [join]
      rw [hjoin, lines_crlf hl, hrest]

/-- `lines` inverts rendering, whatever the mixture of line endings. -/
theorem lines_flatMap_render {ls : List (Str × Eol)} (hls : ∀ l ∈ ls, Bare l.1) (rest : Str) :
    lines (ls.flatMap render ++ rest) = ls.map Prod.fst ++ lines rest := by
  induction ls with
  | nil => rfl
  | cons l ls ih =>
    obtain ⟨line, eol⟩ := l
    have ht := ih fun m hm => hls m (List.mem_cons_of_mem _ hm)
    rw [List.flatMap_cons, List.append_assoc, lines_render (hls _ List.mem_cons_self), ht]
    rfl

/-- Under `\r\n` a line may hold carriage returns of its own. -/
theorem lines_render_crlf {l : Str} (hl : '\n' ∉ l) (rest : Str) :
    lines (render (l, .crlf) ++ rest) = l :: lines rest := by
  have hr : render (l, .crlf) ++ rest = l ++ '\r' :: '\n' :: rest := by simp [render, Eol.text]
  rw [hr]
  exact lines_crlf hl rest

theorem lines_flatMap_crlf {ls : List Str} (hls : ∀ l ∈ ls, '\n' ∉ l) (rest : Str) :
    lines ((ls.map (·, Eol.crlf)).flatMap render ++ rest) = ls ++ lines rest := by
  induction ls with
  | nil => rfl
  | cons l ls ih =>
    have hl := hls l List.mem_cons_self
    have ht := ih fun m hm => hls m (List.mem_cons_of_mem l hm)
    rw [List.map_cons, List.flatMap_cons, List.append_assoc, lines_render_crlf hl, ht]
    rfl

theorem not_of_mem_splitOnP {p : Char → Bool} {s part : Str} (h : part ∈ s.splitOnP p) :
    ∀ c ∈ part, p c = false := by
  induction s generalizing part with
  | nil =>
    rw [List.splitOnP_nil, List.mem_singleton] at h
    rw [h]
    exact fun c hc => (List.not_mem_nil hc).elim
  | cons x s ih =>
    rw [List.splitOnP_cons_eq_if_modifyHead] at h
    obtain ⟨first, rest, hsplit⟩ := List.exists_cons_of_ne_nil (List.splitOnP_ne_nil p s)
    rw [hsplit] at h ih
    split at h
    · rcases List.mem_cons.mp h with rfl | h
      · exact fun c hc => (List.not_mem_nil hc).elim
      · exact ih h
    · rename_i hx
      rw [List.modifyHead_cons] at h
      rcases List.mem_cons.mp h with rfl | h
      · intro c hc
        rcases List.mem_cons.mp hc with rfl | hc
        · exact eq_false_of_ne_true hx
        · exact ih List.mem_cons_self c hc
      · exact ih (List.mem_cons_of_mem first h)

theorem not_mem_of_mem_splitOn {c : Char} {s part : Str} (h : part ∈ s.splitOn c) :
    c ∉ part := by
  intro hc
  rw [List.splitOn_eq_splitOnP] at h
  have hne := not_of_mem_splitOnP h c hc
  rw [beq_self_eq_true] at hne
  cases hne

def IsWord (w : Str) : Prop := w ≠ [] ∧ ∀ c ∈ w, isWhitespace c = false

theorem isWord_of_any {w : Str} (hne : w ≠ []) (h : w.any isWhitespace = false) : IsWord w := by
  refine ⟨hne, ?_⟩
  intro c hc
  exact eq_false_of_ne_true (List.any_eq_false.mp h c hc)

theorem isWord_of_mem_splitWhitespace {s w : Str} (h : w ∈ splitWhitespace s) : IsWord w := by
  obtain ⟨hmem, hne⟩ := List.mem_filter.mp h
  exact ⟨of_decide_eq_true hne, not_of_mem_splitOnP hmem⟩

theorem splitWhitespace_cons {w : Str} (hw : IsWord w) (s : Str) :
    splitWhitespace (w ++ ' ' :: s) = w :: splitWhitespace s := by
  have hspace : isWhitespace ' ' = true := by decide
  rw [splitWhitespace, List.splitOnP_append_cons_of_forall_mem hw.2 ' ' hspace]
  exact List.filter_cons_of_pos (decide_eq_true hw.1)

theorem splitWhitespace_word {w : Str} (hw : IsWord w) : splitWhitespace w = [w] := by
  rw [splitWhitespace, List.splitOnP_eq_singleton hw.2]
  exact List.filter_cons_of_pos (decide_eq_true hw.1)

theorem not_mem_join {c : Char} {sep : Str} (hsep : c ∉ sep) {parts : List Str}
    (hparts : ∀ part ∈ parts, c ∉ part) : c ∉ join sep parts := by
  induction parts with
  | nil => exact List.not_mem_nil
  | cons part parts ih =>
    have hpart := hparts part List.mem_cons_self
    have hrest := ih fun p hp => hparts p (List.mem_cons_of_mem part hp)
    cases parts with
    | nil =>
      rw [join, List.intercalate_singleton]
      exact hpart
    | cons next parts =>
      rw [join, List.intercalate_cons_cons, List.mem_append, List.mem_append, not_or, not_or]
      exact ⟨⟨hpart, hsep⟩, hrest⟩

theorem subset_join {sep part : Str} {parts : List Str} (h : part ∈ parts) :
    part ⊆ join sep parts := by
  induction parts with
  | nil => cases h
  | cons first parts ih =>
    cases parts with
    | nil =>
      rw [List.mem_singleton.mp h, join, List.intercalate_singleton]
      exact List.Subset.refl first
    | cons next parts =>
      rw [join, List.intercalate_cons_cons]
      rcases List.mem_cons.mp h with rfl | h
      · exact fun c hc => List.mem_append_left _ (List.mem_append_left _ hc)
      · exact fun c hc => List.mem_append_right _ (ih h hc)

theorem subset_of_mem_splitOn {c : Char} {s part : Str} (h : part ∈ s.splitOn c) :
    part ⊆ s := by
  have hjoin : join [c] (s.splitOn c) = s := List.intercalate_splitOn c
  rw [← hjoin]
  exact subset_join h

theorem splitWhitespace_join {ws : List Str} (hws : ∀ w ∈ ws, IsWord w) :
    splitWhitespace (join " ".toList ws) = ws := by
  induction ws with
  | nil => rfl
  | cons w ws ih =>
    have hw := hws w List.mem_cons_self
    have hrest := ih fun v hv => hws v (List.mem_cons_of_mem w hv)
    cases ws with
    | nil =>
      rw [join, List.intercalate_singleton]
      exact splitWhitespace_word hw
    | cons v ws =>
      have hjoin : join " ".toList (w :: v :: ws) = w ++ ' ' :: join " ".toList (v :: ws) := by
        rw [join, List.intercalate_cons_cons, List.append_assoc]
        rfl
      rw [hjoin, splitWhitespace_cons hw, hrest]

/-- Of a two-way split, the second part is what follows the first separator. -/
theorem splitn_two_second (c : Char) (s : Str) :
    (splitn 2 c s)[1]?.getD [] = (s.dropWhile (· ≠ c)).tail := by
  unfold splitn
  cases s.dropWhile (· ≠ c) <;> rfl

theorem take_eq_takeWhile {ls : List Str} {pos : Nat}
    (h : ls.findIdx? List.isEmpty = some pos) :
    ls.take pos = ls.takeWhile (· ≠ []) ∧
      ls.drop (pos + 1) = (ls.dropWhile (· ≠ [])).tail := by
  induction ls generalizing pos with
  | nil => cases h
  | cons l ls ih =>
    cases l with
    | nil =>
      have hpos : 0 = pos := Option.some.inj h
      subst pos
      simp
    | cons c l =>
      obtain ⟨k, hk, rfl⟩ : ∃ k, ls.findIdx? List.isEmpty = some k ∧ k + 1 = pos := by
        simpa [List.findIdx?_cons] using h
      obtain ⟨htake, hdrop⟩ := ih hk
      simp [htake, hdrop]

/-- A list with an empty line is what stands before the first one, that line, and the rest. -/
theorem eq_takeWhile_blank {ls : List Str} (h : [] ∈ ls) :
    ls = ls.takeWhile (· ≠ []) ++ [] :: (ls.dropWhile (· ≠ [])).tail := by
  induction ls with
  | nil => cases h
  | cons l ls ih =>
    cases l with
    | nil => simp
    | cons c l =>
      have hm : [] ∈ ls := by simpa using h
      have ht := ih hm
      simpa using ht

theorem not_mem_takeWhile_blank (ls : List Str) : [] ∉ ls.takeWhile (· ≠ []) := by
  induction ls with
  | nil => simp
  | cons l ls ih =>
    cases l with
    | nil => simp
    | cons c l => simpa using ih

theorem findIdx?_eq_none_iff_not_mem {ls : List Str} :
    ls.findIdx? List.isEmpty = none ↔ [] ∉ ls := by
  rw [List.findIdx?_eq_none_iff]
  constructor
  · intro h hm
    exact absurd (h [] hm) (by simp)
  · intro h l hl
    cases l with
    | nil => exact (h hl).elim
    | cons c l => rfl

end Text
