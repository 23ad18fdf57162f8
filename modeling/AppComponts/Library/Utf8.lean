/-!
# UTF-8 on byte lists

Decoding takes one character at a time off the front, with the core library's decoder.
`fromUtf8_eq_some_iff` is the whole specification of strict decoding: a byte list decodes
to `s` exactly when it is the encoding of `s`.
-/

namespace Utf8
set_option autoImplicit false

def encode (s : List Char) : List UInt8 := s.flatMap String.utf8EncodeChar

def firstChar? (bytes : List UInt8) : Option Char := bytes.toByteArray.utf8DecodeChar? 0

def decodeFor : Nat → List UInt8 → Option (List Char)
  | _, [] => some []
  | 0, _ :: _ => none
  | n + 1, bytes => match firstChar? bytes with
    | none => none
    | some c => (decodeFor n (bytes.drop c.utf8Size)).map (c :: ·)

def fromUtf8 (bytes : List UInt8) : Option (List Char) := decodeFor bytes.length bytes

def isContinuation (b : UInt8) : Bool := 0x80 ≤ b && b ≤ 0xBF

/-- How many bytes of an ill-formed sequence one replacement character stands for: the
longest prefix that could still have become a character, and at least one byte. -/
def illFormedLength : List UInt8 → Nat
  | [] => 0
  | b :: rest =>
    let second := rest.getD 0 0
    let secondOk := isContinuation second &&
      (b != 0xE0 || 0xA0 ≤ second) && (b != 0xED || second ≤ 0x9F) &&
      (b != 0xF0 || 0x90 ≤ second) && (b != 0xF4 || second ≤ 0x8F)
    if 0xE0 ≤ b && b ≤ 0xEF && secondOk then 2
    else if 0xF0 ≤ b && b ≤ 0xF4 && secondOk then
      if isContinuation (rest.getD 1 0) then 3 else 2
    else 1

def lossyFor : Nat → List UInt8 → List Char
  | _, [] => []
  | 0, _ :: _ => []
  | n + 1, bytes => match firstChar? bytes with
    | some c => c :: lossyFor n (bytes.drop c.utf8Size)
    | none => '\uFFFD' :: lossyFor n (bytes.drop (illFormedLength bytes))

def fromUtf8Lossy (bytes : List UInt8) : List Char := lossyFor bytes.length bytes

@[simp] theorem encode_nil : encode [] = [] := rfl

@[simp] theorem encode_cons (c : Char) (s : List Char) :
    encode (c :: s) = String.utf8EncodeChar c ++ encode s := rfl

theorem fromUtf8Lossy_ne_nil {bytes : List UInt8} (h : bytes ≠ []) :
    fromUtf8Lossy bytes ≠ [] := by
  obtain ⟨b, bs, rfl⟩ := List.exists_cons_of_ne_nil h
  rw [fromUtf8Lossy, List.length_cons]
  simp only [lossyFor]
  split
  · exact List.cons_ne_nil _ _
  · exact List.cons_ne_nil _ _

theorem firstChar?_encode (c : Char) (rest : List UInt8) :
    firstChar? (String.utf8EncodeChar c ++ rest) = some c := by
  unfold firstChar?
  rw [List.toByteArray_append]
  exact ByteArray.utf8DecodeChar?_utf8EncodeChar_append

theorem eq_of_firstChar? {bytes : List UInt8} {c : Char} (h : firstChar? bytes = some c) :
    bytes = String.utf8EncodeChar c ++ bytes.drop c.utf8Size := by
  obtain ⟨tail, ht⟩ := ByteArray.exists_of_utf8DecodeChar?_eq_some h
  have hb : bytes = String.utf8EncodeChar c ++ tail.data.toList := by
    have hd := congrArg (fun b : ByteArray => b.data.toList) ht
    simpa using hd
  have hdrop : bytes.drop c.utf8Size = tail.data.toList := by
    rw [hb, ← String.length_utf8EncodeChar]
    exact List.drop_left
  rw [hdrop]
  exact hb

theorem drop_encodeChar (c : Char) (rest : List UInt8) :
    (String.utf8EncodeChar c ++ rest).drop c.utf8Size = rest := by
  rw [← String.length_utf8EncodeChar]
  exact List.drop_left

theorem encode_eq_nil {s : List Char} : encode s = [] ↔ s = [] := by
  cases s with
  | nil => simp
  | cons c s =>
    have hc := c.utf8Size_pos
    have hne : String.utf8EncodeChar c ≠ [] := by
      intro h
      have hl := String.length_utf8EncodeChar c
      rw [h, List.length_nil] at hl
      omega
    simp [hne]

theorem decodeFor_encode (s : List Char) (n : Nat) (hn : (encode s).length ≤ n) :
    decodeFor n (encode s) = some s := by
  induction s generalizing n with
  | nil => cases n <;> rfl
  | cons c s ih =>
    have hc := c.utf8Size_pos
    rw [encode_cons, List.length_append, String.length_utf8EncodeChar] at hn
    cases n with
    | zero => omega
    | succ n =>
      obtain ⟨b, bs, hb⟩ : ∃ b bs, encode (c :: s) = b :: bs :=
        List.exists_cons_of_ne_nil fun h => nomatch encode_eq_nil.mp h
      have hstep : decodeFor (n + 1) (encode (c :: s)) =
          (decodeFor n (encode s)).map (c :: ·) := by
        have hf := firstChar?_encode c (encode s)
        have hd := drop_encodeChar c (encode s)
        rw [← encode_cons, hb] at hf hd
        rw [hb]
        simp only [decodeFor, hf, hd]
      rw [hstep, ih n (by omega)]
      rfl

theorem encode_of_decodeFor {n : Nat} {bytes : List UInt8} {s : List Char}
    (h : decodeFor n bytes = some s) : encode s = bytes := by
  induction n generalizing bytes s with
  | zero =>
    cases bytes with
    | nil =>
      obtain rfl := Option.some.inj h
      rfl
    | cons b bs => simp [decodeFor] at h
  | succ n ih =>
    cases bytes with
    | nil =>
      obtain rfl := Option.some.inj h
      rfl
    | cons b bs =>
      simp only [decodeFor] at h
      split at h
      · cases h
      · rename_i c hc
        obtain ⟨t, ht, rfl⟩ := Option.map_eq_some_iff.mp h
        rw [encode_cons, ih ht]
        exact (eq_of_firstChar? hc).symm

theorem lossyFor_of_decodeFor {n : Nat} {bytes : List UInt8} {s : List Char}
    (h : decodeFor n bytes = some s) : lossyFor n bytes = s := by
  induction n generalizing bytes s with
  | zero =>
    cases bytes with
    | nil =>
      obtain rfl := Option.some.inj h
      rfl
    | cons b bs => simp [decodeFor] at h
  | succ n ih =>
    cases bytes with
    | nil =>
      obtain rfl := Option.some.inj h
      rfl
    | cons b bs =>
      simp only [decodeFor] at h
      simp only [lossyFor]
      split at h
      · cases h
      · rename_i c hc
        obtain ⟨t, ht, rfl⟩ := Option.map_eq_some_iff.mp h
        rw [hc]
        simp only [ih ht]

@[simp] theorem fromUtf8Lossy_encode (s : List Char) : fromUtf8Lossy (encode s) = s :=
  lossyFor_of_decodeFor (decodeFor_encode s _ (Nat.le_refl _))

/-- Strict decoding inverts encoding and accepts nothing else. -/
theorem fromUtf8_eq_some_iff {bytes : List UInt8} {s : List Char} :
    fromUtf8 bytes = some s ↔ bytes = encode s := by
  constructor
  · intro h
    exact (encode_of_decodeFor h).symm
  · intro h
    subst h
    exact decodeFor_encode s _ (Nat.le_refl _)

@[simp] theorem fromUtf8_encode (s : List Char) : fromUtf8 (encode s) = some s :=
  fromUtf8_eq_some_iff.mpr rfl

end Utf8
