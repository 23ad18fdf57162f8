import AppComponts.Library.Text
import Mathlib

/-!
# ASCII letter case

Texts that differ in the case of ASCII letters alone agree in every other character, and
upper-casing in Unicode makes them equal.
-/

namespace Text
set_option autoImplicit false

theorem toLower_ascii {c : Char} (hc : c.toNat < 128) : c.toLower.toNat < 128 := by
  by_cases hu : c.isUpper
  · have hle : c.toNat ≤ 90 := by
      simp only [Char.isUpper, decide_eq_true_eq] at hu
      exact UInt32.le_iff_toNat_le.mp hu.2
    have hvalid : (c.toNat + 32).isValidChar := Or.inl (by omega)
    rw [Char.toLower_eq_of_isUpper hu, Char.toNat_ofNat, if_pos hvalid]
    omega
  · rw [Char.toLower_eq_of_not_isUpper hu]
    exact hc

/-- Lowered to the same character, two characters are the same or ASCII letters. -/
theorem eq_or_ascii_of_toLower_eq {c d : Char} (h : c.toLower = d.toLower) :
    c = d ∨ (c.toNat < 128 ∧ d.toNat < 128) := by
  rcases Nat.lt_or_ge c.toNat 128 with hc | hc
  · rcases Nat.lt_or_ge d.toNat 128 with hd | hd
    · exact Or.inr ⟨hc, hd⟩
    · have hlow := toLower_ascii hc
      rw [h, toLower_of_not_ascii hd] at hlow
      omega
  · rcases Nat.lt_or_ge d.toNat 128 with hd | hd
    · have hlow := toLower_ascii hd
      rw [← h, toLower_of_not_ascii hc] at hlow
      omega
    · rw [toLower_of_not_ascii hc, toLower_of_not_ascii hd] at h
      exact Or.inl h

def EqIgnoreAsciiCase (s t : Str) : Prop := s.map Char.toLower = t.map Char.toLower

instance (s t : Str) : Decidable (EqIgnoreAsciiCase s t) := inferInstanceAs (Decidable (_ = _))

theorem EqIgnoreAsciiCase.mem {s t : Str} (h : EqIgnoreAsciiCase s t) {c : Char}
    (hc : c.isAlpha = false) (hmem : c ∈ s) : c ∈ t := by
  have hkept : ∀ d : Char, d.isAlpha = false → d.toLower = d := by
    intro d hd
    apply Char.toLower_eq_of_not_isUpper
    intro hu
    rw [Char.isAlpha, hu, Bool.true_or] at hd
    cases hd
  have hlow : c ∈ t.map Char.toLower := by
    rw [← h, List.mem_map]
    exact ⟨c, hmem, hkept c hc⟩
  obtain ⟨d, hd, heq⟩ := List.mem_map.mp hlow
  have halpha : d.isAlpha = false := by
    rw [← Char.isAlpha_toLower_eq_isAlpha, heq]
    exact hc
  rw [hkept d halpha] at heq
  exact heq ▸ hd

theorem EqIgnoreAsciiCase.symm {s t : Str} (h : EqIgnoreAsciiCase s t) :
    EqIgnoreAsciiCase t s := Eq.symm h

section Upper
variable [CaseTables]

theorem upper_eq_of_toLower_eq {c d : Char} (h : c.toLower = d.toLower) :
    CaseTables.upper c = CaseTables.upper d := by
  rcases eq_or_ascii_of_toLower_eq h with rfl | ⟨hc, hd⟩
  · rfl
  · rw [CaseTables.upper_ascii c hc, CaseTables.upper_ascii d hd,
      ← Char.toUpper_toLower_eq_toUpper c, ← Char.toUpper_toLower_eq_toUpper d, h]

theorem EqIgnoreAsciiCase.toUppercase_eq {s t : Str} (h : EqIgnoreAsciiCase s t) :
    toUppercase s = toUppercase t := by
  unfold EqIgnoreAsciiCase at h
  induction s generalizing t with
  | nil =>
    rw [List.map_nil, eq_comm, List.map_eq_nil_iff] at h
    rw [h]
  | cons c s ih =>
    cases t with
    | nil => cases h
    | cons d t =>
      obtain ⟨hhead, htail⟩ := List.cons.inj h
      have hrest := ih htail
      unfold toUppercase at hrest ⊢
      rw [List.flatMap_cons, List.flatMap_cons, hrest, upper_eq_of_toLower_eq hhead]

end Upper

end Text
