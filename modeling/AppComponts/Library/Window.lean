import Mathlib.Data.List.DropRight

/-!
# Windows on the newest elements

A window holds at most so many elements. A push drops what it leaves no room for, oldest
first, so a window that was filled by pushes shows the newest of all that was pushed.
-/

namespace Transition
set_option autoImplicit false

universe u
variable {α : Type u} {n : Nat}

structure Window (α : Type u) (n : Nat) where
  items : List α
  bounded : items.length ≤ n

theorem length_rtake (xs : List α) (n : Nat) : (xs.rtake n).length = min n xs.length := by
  rw [List.rtake, List.length_drop]
  omega

theorem rtake_of_length_le {xs : List α} (h : xs.length ≤ n) : xs.rtake n = xs := by
  rw [List.rtake, Nat.sub_eq_zero_of_le h, List.drop_zero]

/-- What has left the window is not missed when the next element comes. -/
theorem rtake_append_rtake (xs : List α) (a : α) (n : Nat) :
    (xs.rtake n ++ [a]).rtake n = (xs ++ [a]).rtake n := by
  cases n with
  | zero => simp
  | succ n =>
    rw [List.rtake_concat_succ, List.rtake_concat_succ]
    simp only [List.rtake_eq_reverse_take_reverse, List.reverse_reverse, List.take_take]
    rw [Nat.min_eq_left (Nat.le_succ n)]

namespace Window

@[ext]
theorem ext {w v : Window α n} (h : w.items = v.items) : w = v := by
  cases w
  cases v
  cases h
  rfl

def empty : Window α n := ⟨[], Nat.zero_le n⟩

/-- The window on the newest of `xs`. -/
def newest (xs : List α) : Window α n := ⟨xs.rtake n, by
  rw [length_rtake]
  exact Nat.min_le_left n xs.length⟩

def push (w : Window α n) (a : α) : Window α n := newest (w.items ++ [a])

theorem newest_nil : (newest [] : Window α n) = empty := ext (List.rtake_nil n)

theorem push_newest (xs : List α) (a : α) :
    (newest xs : Window α n).push a = newest (xs ++ [a]) :=
  ext (rtake_append_rtake xs a n)

/-- One element at most has to leave. -/
theorem push_items (w : Window α n) (a : α) :
    (w.push a).items =
      if (w.items ++ [a]).length > n then (w.items ++ [a]).tail else w.items ++ [a] := by
  have hlength : (w.items ++ [a]).length = w.items.length + 1 := List.length_append
  have hbounded := w.bounded
  split
  · have hone : (w.items ++ [a]).length - n = 1 := by omega
    calc (w.push a).items = (w.items ++ [a]).drop ((w.items ++ [a]).length - n) := rfl
      _ = (w.items ++ [a]).tail := by rw [hone, List.drop_one]
  · exact rtake_of_length_le (by omega)

end Window

end Transition
