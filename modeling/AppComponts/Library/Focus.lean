import Mathlib.Data.List.Basic

/-!
# The nearest element to the left

Walking left in a list from one of its elements, the first element that is kept. When a
list is filtered in several rounds, the nearest of the nearest is the nearest.
-/

namespace Focus
set_option autoImplicit false

universe u
variable {α : Type u} [DecidableEq α]

/-- The list up to and with the first `a`. -/
def upTo (l : List α) (a : α) : List α := l.takeWhile (· ≠ a) ++ [a]

def nearest (keep : α → Bool) (l : List α) (a : α) : Option α := (upTo l a).reverse.find? keep

variable {keep p q : α → Bool} {l before after : List α} {a b : α}

theorem upTo_append (h : a ∉ before) : upTo (before ++ a :: after) a = before ++ [a] := by
  have hne : ∀ x ∈ before, decide (x ≠ a) = true := by
    intro x hx
    apply decide_eq_true
    intro heq
    exact h (heq ▸ hx)
  rw [upTo, List.takeWhile_append_of_pos hne]
  simp

theorem nearest_self (h : keep a = true) : nearest keep l a = some a := by
  simp [nearest, upTo, h]

theorem nearest_ne (h : a ∉ before ++ [b]) :
    nearest (· ≠ a) (before ++ b :: a :: after) a = some b := by
  have hne : b ≠ a := by
    intro heq
    simp [heq] at h
  have hup := @upTo_append _ _ (before ++ [b]) after a h
  simp only [List.append_assoc, List.singleton_append] at hup
  rw [nearest, hup]
  simp [hne]

/-- The nearest kept element is `a` itself, or there is nothing kept between the two. -/
theorem nearest_cases (ha : a ∈ l) (h : nearest keep l a = some b) :
    keep b = true ∧ (keep a = true → b = a) ∧
    (keep a = false → ∃ before between after, l = before ++ b :: between ++ a :: after ∧
      ∀ x ∈ between, keep x = false) := by
  obtain ⟨before, after, rfl, hnot⟩ := List.eq_append_cons_of_mem ha
  rw [nearest, upTo_append hnot, List.reverse_append] at h
  obtain ⟨hb, gone, rest, hsplit, hgone⟩ := List.find?_eq_some_iff_append.mp h
  refine ⟨hb, ?_, ?_⟩
  · intro hkeep
    simp [hkeep] at h
    exact h.symm
  · intro hkeep
    cases gone with
    | nil =>
      obtain ⟨rfl, _⟩ := List.cons.inj hsplit
      rw [hkeep] at hb
      cases hb
    | cons x gone =>
      obtain ⟨rfl, htail⟩ := List.cons.inj hsplit
      have hbefore : before.reverse = gone ++ b :: rest := htail
      refine ⟨rest.reverse, gone.reverse, after, ?_, ?_⟩
      · rw [← List.reverse_reverse before, hbefore]
        simp
      · intro y hy
        have hgo := hgone y (List.mem_cons_of_mem _ (List.mem_reverse.mp hy))
        simpa using hgo

theorem nearest_mem (ha : a ∈ l) (h : nearest keep l a = some b) : b ∈ l.filter keep := by
  obtain ⟨hb, hsame, hleft⟩ := nearest_cases ha h
  refine List.mem_filter.mpr ⟨?_, hb⟩
  cases hkeep : keep a with
  | true => exact hsame hkeep ▸ ha
  | false =>
    obtain ⟨before, between, after, rfl, _⟩ := hleft hkeep
    simp

/-- Filtering by `p` and going to the nearest, and then the same by `q`, is filtering by
both and going to the nearest once. -/
theorem nearest_filter (hl : l.Nodup) (ha : a ∈ l) (h : nearest p l a = some b) :
    nearest q (l.filter p) b = nearest (fun x => p x && q x) l a := by
  obtain ⟨before, after, rfl, hnot⟩ := List.eq_append_cons_of_mem ha
  rw [nearest, upTo_append hnot] at h
  obtain ⟨hb, gone, rest, hsplit, hgone⟩ := List.find?_eq_some_iff_append.mp h
  have hreach : before ++ [a] = rest.reverse ++ b :: gone.reverse := by
    have hrev := congrArg List.reverse hsplit
    rw [List.reverse_reverse] at hrev
    rw [hrev]
    simp
  have hlist : before ++ a :: after = rest.reverse ++ b :: (gone.reverse ++ after) := by
    rw [← List.singleton_append, ← List.append_assoc, hreach]
    simp
  have hrest : b ∉ rest.reverse := by
    rw [hlist] at hl
    intro hmem
    exact (List.nodup_append.mp hl).2.2 b hmem b List.mem_cons_self rfl
  have hfresh : b ∉ rest.reverse.filter p := fun hmem => hrest (List.mem_filter.mp hmem).1
  have hkept : (before ++ a :: after).filter p =
      rest.reverse.filter p ++ b :: (gone.reverse ++ after).filter p := by
    rw [hlist, List.filter_append, List.filter_cons_of_pos hb]
  have hnone : gone.find? (fun x => p x && q x) = none := by
    apply List.find?_eq_none.mpr
    intro x hx
    have hgo := hgone x hx
    simp only [Bool.not_eq_true'] at hgo
    simp [hgo]
  have hleft : (rest.reverse.filter p ++ [b]).reverse = (b :: rest).filter p := by
    rw [List.reverse_append, ← List.filter_reverse, List.reverse_reverse,
      List.filter_cons_of_pos hb]
    rfl
  calc nearest q ((before ++ a :: after).filter p) b
      = ((b :: rest).filter p).find? q := by
        rw [nearest, hkept, upTo_append hfresh, hleft]
    _ = (b :: rest).find? (fun x => p x && q x) := by
        rw [List.find?_filter]
        simp
    _ = (gone ++ b :: rest).find? (fun x => p x && q x) := by
        rw [List.find?_append, hnone]
        rfl
    _ = nearest (fun x => p x && q x) (before ++ a :: after) a := by
        rw [nearest, upTo_append hnot, hsplit]

end Focus
