/-!
# Operations that panic

The partial operations of the standard library as functions into `Except Panic`.
-/

namespace Rust
set_option autoImplicit false

universe u
variable {α : Type u}

inductive Panic where
  | unwrapNone
  | unwrapErr
  | indexOutOfBounds
  | sliceOutOfRange
  | assertionFailed
  deriving DecidableEq, Repr

def orPanic (p : Panic) : Option α → Except Panic α
  | some a => .ok a
  | none => .error p

def unwrap (o : Option α) : Except Panic α := orPanic .unwrapNone o

def index (xs : List α) (i : Nat) : Except Panic α := orPanic .indexOutOfBounds xs[i]?

def sliceRange (xs : List α) (start stop : Nat) : Except Panic (List α) :=
  if start ≤ stop ∧ stop ≤ xs.length then .ok ((xs.take stop).drop start)
  else .error .sliceOutOfRange

@[simp] theorem orPanic_some (p : Panic) (a : α) : orPanic p (some a) = .ok a := rfl

@[simp] theorem orPanic_none (p : Panic) : orPanic p (none : Option α) = .error p := rfl

theorem orPanic_eq_ok {p : Panic} {o : Option α} {a : α} : orPanic p o = .ok a ↔ o = some a := by
  cases o <;> simp

@[simp] theorem unwrap_some_bind {β : Type u} (a : α) (f : α → Except Panic β) :
    (unwrap (some a) >>= f) = f a := rfl

theorem unwrap_eq_ok {o : Option α} {a : α} : unwrap o = .ok a ↔ o = some a := orPanic_eq_ok

theorem index_eq_ok {xs : List α} {i : Nat} {a : α} : index xs i = .ok a ↔ xs[i]? = some a :=
  orPanic_eq_ok

theorem sliceRange_eq_ok {xs ys : List α} {start stop : Nat} :
    sliceRange xs start stop = .ok ys ↔
      start ≤ stop ∧ stop ≤ xs.length ∧ (xs.take stop).drop start = ys := by
  unfold sliceRange
  split
  · rename_i h
    simp [h]
  · rename_i h
    constructor
    · intro he
      cases he
    · intro hrange
      obtain ⟨hs, hl, _⟩ := hrange
      exact (h ⟨hs, hl⟩).elim

theorem sliceRange_of_le (xs : List α) {start stop : Nat} (h : start ≤ stop)
    (hs : stop ≤ xs.length) : sliceRange xs start stop = .ok ((xs.take stop).drop start) :=
  if_pos ⟨h, hs⟩

theorem bind_eq_ok {β : Type u} {x : Except Panic α} {f : α → Except Panic β} {b : β} :
    (x >>= f) = .ok b ↔ ∃ a, x = .ok a ∧ f a = .ok b := by
  cases x with
  | error p => simp [bind, Except.bind]
  | ok a => simp [bind, Except.bind]

def Returns (x : Except Panic α) : Prop := ∃ a, x = .ok a

end Rust
