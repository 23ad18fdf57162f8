import Mathlib.Data.List.Basic
import Mathlib.Data.List.GetD

/-!
# Buffers that are started over

A buffer of blank elements is written from its start, and then started over: later parts of
the stream are written over what is there, each in front of its place in the stream. If the
buffer shows the stream all the same, then no later part has changed it.
-/

namespace Overlay
set_option autoImplicit false

universe u
variable {α : Type u} {z : α} {xs ys first rest buf : List α} {i j k : Nat}

theorem getD_append_add (xs ys : List α) (z : α) (k : Nat) :
    (xs ++ ys).getD (xs.length + k) z = ys.getD k z := by
  rw [List.getD_append_right _ _ _ _ (Nat.le_add_right _ _), Nat.add_sub_cancel_left]

theorem lt_length_of_getD_ne (h : xs.getD j z ≠ z) : j < xs.length := by
  apply Nat.lt_of_not_le
  intro hle
  exact h (List.getD_eq_default xs z hle)

theorem forall_mem_of_getD (h : ∀ k, xs.getD k z = z) : ∀ x ∈ xs, x = z := by
  intro x hx
  obtain ⟨k, hk, rfl⟩ := List.mem_iff_getElem.mp hx
  rw [← List.getD_eq_getElem xs z hk]
  exact h k

theorem getD_append_replicate (xs : List α) (z : α) (n j : Nat) :
    (xs ++ List.replicate n z).getD j z = xs.getD j z := by
  rcases Nat.lt_or_ge j xs.length with h | h
  · exact List.getD_append _ _ _ _ h
  · obtain ⟨k, rfl⟩ := Nat.exists_eq_add_of_le h
    rw [getD_append_add, List.getD_eq_default _ _ h, List.getD_eq_getElem?_getD,
      List.getElem?_getD_replicate_default_eq]

/-- The elements `ys` written over those from the index `i` on. -/
def patch (xs : List α) (i : Nat) (ys : List α) : List α :=
  xs.take i ++ ys ++ xs.drop (i + ys.length)

theorem getD_patch_left (hroom : i + ys.length ≤ xs.length) (hj : j < i) :
    (patch xs i ys).getD j z = xs.getD j z := by
  have htake : (xs.take i).length = i := by
    rw [List.length_take]
    omega
  rw [patch, List.append_assoc, List.getD_append _ _ _ _ (by omega),
    List.getD_eq_getElem?_getD, List.getD_eq_getElem?_getD, List.getElem?_take_of_lt hj]

theorem getD_patch_inside (hroom : i + ys.length ≤ xs.length) (hk : k < ys.length) :
    (patch xs i ys).getD (i + k) z = ys.getD k z := by
  have htake : (xs.take i).length = i := by
    rw [List.length_take]
    omega
  have hright := getD_append_add (xs.take i) (ys ++ xs.drop (i + ys.length)) z k
  rw [htake] at hright
  rw [patch, List.append_assoc, hright, List.getD_append _ _ _ _ hk]

theorem getD_patch_right (hroom : i + ys.length ≤ xs.length) (hj : i + ys.length ≤ j) :
    (patch xs i ys).getD j z = xs.getD j z := by
  have htake : (xs.take i ++ ys).length = i + ys.length := by
    rw [List.length_append, List.length_take]
    omega
  obtain ⟨k, rfl⟩ := Nat.exists_eq_add_of_le hj
  have hright := getD_append_add (xs.take i ++ ys) (xs.drop (i + ys.length)) z k
  rw [htake] at hright
  rw [patch, hright, List.getD_eq_getElem?_getD, List.getD_eq_getElem?_getD, List.getElem?_drop]

@[simp] theorem patch_nil (xs : List α) (i : Nat) : patch xs i [] = xs := by
  simp [patch]

theorem patch_zero (xs ys : List α) : patch xs 0 ys = ys ++ xs.drop ys.length := by
  simp [patch]

/-- A patch from the start can be written in two parts. -/
theorem patch_zero_append (xs ys zs : List α) :
    patch (patch xs 0 ys) ys.length zs = patch xs 0 (ys ++ zs) := by
  rw [patch_zero, patch_zero, patch, List.take_left, ← List.drop_drop, List.drop_left,
    List.drop_drop, List.length_append]

/-- Layers written over a buffer one after another, each from its start, the newest first. -/
def overlay (buf : List α) (layers : List (List α)) : List α :=
  layers.foldr (fun layer below => patch below 0 layer) buf

@[simp] theorem overlay_cons (buf layer : List α) (layers : List (List α)) :
    overlay buf (layer :: layers) = patch (overlay buf layers) 0 layer := rfl

/-- The newest layer goes on. -/
theorem overlay_append (buf layer more : List α) (layers : List (List α)) :
    overlay buf ((layer ++ more) :: layers) =
      patch (overlay buf (layer :: layers)) layer.length more :=
  (patch_zero_append _ _ _).symm

/-- A buffer that was started over behind `first` and has taken `rest` since then: what it
shows behind `first` has come from further on, and blanks alone do not spoil `first`. -/
structure Layered (z : α) (first rest buf : List α) : Prop where
  behind : ∀ j, first.length ≤ j → buf.getD j z ≠ z →
    ∃ k, j < first.length + k ∧ rest.getD k z ≠ z
  kept : (∀ k, rest.getD k z = z) → ∀ j < first.length,
    buf.getD j z = first.getD j z ∨ buf.getD j z = z

theorem layered_first (h : ∀ j, buf.getD j z = first.getD j z) : Layered z first [] buf where
  behind := by
    intro j hj hne
    rw [h j, List.getD_eq_default _ _ hj] at hne
    exact (hne rfl).elim
  kept _ j _ := Or.inl (h j)

/-- Nothing has been written behind the place of the whole stream. -/
theorem blank_of_layered (h : Layered z first rest buf) :
    ∀ x ∈ buf.drop (first.length + rest.length), x = z := by
  apply forall_mem_of_getD
  intro k
  rw [List.getD_eq_getElem?_getD, List.getElem?_drop, ← List.getD_eq_getElem?_getD]
  by_contra hne
  obtain ⟨l, hl, hrest⟩ := h.behind _ (by omega) hne
  have hlt := lt_length_of_getD_ne hrest
  omega

theorem getD_append_ne (h : rest.getD k z ≠ z) : (rest ++ ys).getD k z ≠ z := by
  rw [List.getD_append _ _ _ _ (lt_length_of_getD_ne h)]
  exact h

theorem blank_of_append (h : ∀ k, (rest ++ ys).getD k z = z) :
    (∀ k, rest.getD k z = z) ∧ ∀ k, ys.getD k z = z := by
  refine ⟨?_, ?_⟩
  · intro k
    by_contra hne
    exact getD_append_ne hne (h k)
  · intro k
    rw [← getD_append_add rest ys z k]
    exact h _

/-- Written in front of its place in the stream, the next part leaves the buffer layered. -/
theorem layered_patch (h : Layered z first rest buf) (hroom : i + ys.length ≤ buf.length)
    (hlate : i < first.length + rest.length) :
    Layered z first (rest ++ ys) (patch buf i ys) where
  behind := by
    intro j hj hne
    rcases Nat.lt_or_ge j i with hleft | hge
    · rw [getD_patch_left hroom hleft] at hne
      obtain ⟨k, hjk, hk⟩ := h.behind j hj hne
      exact ⟨k, hjk, getD_append_ne hk⟩
    · obtain ⟨k, rfl⟩ := Nat.exists_eq_add_of_le hge
      rcases Nat.lt_or_ge k ys.length with hin | hright
      · rw [getD_patch_inside hroom hin] at hne
        refine ⟨rest.length + k, by omega, ?_⟩
        rw [getD_append_add]
        exact hne
      · rw [getD_patch_right hroom (by omega)] at hne
        obtain ⟨l, hjl, hl⟩ := h.behind _ hj hne
        exact ⟨l, hjl, getD_append_ne hl⟩
  kept := by
    intro hblank j hj
    obtain ⟨hrest, hys⟩ := blank_of_append hblank
    rcases Nat.lt_or_ge j i with hleft | hge
    · rw [getD_patch_left hroom hleft]
      exact h.kept hrest j hj
    · obtain ⟨k, rfl⟩ := Nat.exists_eq_add_of_le hge
      rcases Nat.lt_or_ge k ys.length with hin | hright
      · rw [getD_patch_inside hroom hin]
        exact Or.inr (hys k)
      · rw [getD_patch_right hroom (by omega)]
        exact h.kept hrest _ hj

/-- The last element that is no blank would have come to its place from further on. -/
theorem rest_blank (h : Layered z first rest buf)
    (hshown : ∀ j, buf.getD j z = (first ++ rest).getD j z) : ∀ k, rest.getD k z = z := by
  intro k
  by_contra hne
  generalize hn : rest.length - k = n
  induction n using Nat.strongRecOn generalizing k with
  | ind n ih =>
    have hbuf : buf.getD (first.length + k) z ≠ z := by
      rw [hshown, getD_append_add]
      exact hne
    obtain ⟨l, hkl, hl⟩ := h.behind _ (Nat.le_add_right _ _) hbuf
    have hlt := lt_length_of_getD_ne hl
    exact ih (rest.length - l) (by omega) l hl rfl

/-- If the buffer shows the stream behind a write, then the write has changed nothing. -/
theorem patch_in_place (h : Layered z first rest buf) (hroom : i + ys.length ≤ buf.length)
    (hlate : i < first.length + rest.length)
    (hshown : ∀ j, (patch buf i ys).getD j z = (first ++ (rest ++ ys)).getD j z) :
    (∀ y ∈ ys, y = z) ∧ ys <+: buf.drop i := by
  obtain ⟨hrest, hys⟩ := blank_of_append (rest_blank (layered_patch h hroom hlate) hshown)
  have hblank := forall_mem_of_getD hys
  refine ⟨hblank, ?_⟩
  have hold : ∀ k < ys.length, buf.getD (i + k) z = z := by
    intro k hk
    rcases Nat.lt_or_ge (i + k) first.length with hj | hj
    · rcases h.kept hrest _ hj with hkept | hkept
      · have hnew := hshown (i + k)
        rw [getD_patch_inside hroom hk, List.getD_append _ _ _ _ hj, hys k] at hnew
        rw [hkept, ← hnew]
      · exact hkept
    · by_contra hne
      obtain ⟨l, _, hl⟩ := h.behind _ hj hne
      exact hl (hrest l)
  rw [List.prefix_iff_eq_take]
  apply List.ext_getElem
  · rw [List.length_take, List.length_drop]
    omega
  · intro k hk hk'
    have hcell := hold k hk
    rw [List.getD_eq_getElem _ _ (by omega)] at hcell
    rw [List.getElem_take, List.getElem_drop, hcell]
    exact hblank _ (List.getElem_mem hk)

end Overlay
