import AppComponts.Library.AsyncIo

/-!
# Streams in service

A stream in service answers without errors. It has a bounded number of bytes to hand out
before it ends, takes something of every write, and is pending only so often in a row.
-/

namespace AsyncIo
set_option autoImplicit false

universe u

/-- `input` bounds the bytes that are still to come, and `patience` the calls that are
answered with `Pending` before one is not. -/
structure Serves (S : Type u) [AsyncRead S] [AsyncWrite S] where
  good : S → Prop
  input : S → Nat
  patience : S → Nat
  read : ∀ {s s' : S} {room : Nat} {answer : Poll (List UInt8)}, good s → 0 < room →
    AsyncRead.pollRead s room = (answer, s') → good s' ∧
      ((answer = .pending ∧ input s' ≤ input s ∧ patience s' < patience s) ∨
        ∃ bytes, answer = .ok bytes ∧ (bytes = [] ∨ input s' < input s))
  write : ∀ {s s' : S} {slice : List UInt8} {answer : Poll Nat}, good s → slice ≠ [] →
    AsyncWrite.pollWrite s slice = (answer, s') → good s' ∧ input s' ≤ input s ∧
      ((answer = .pending ∧ patience s' < patience s) ∨ ∃ n, answer = .ok n ∧ 0 < n)
  flush : ∀ {s s' : S} {answer : Poll Unit}, good s →
    AsyncWrite.pollFlush s = (answer, s') → good s' ∧ input s' ≤ input s ∧
      ((answer = .pending ∧ patience s' < patience s) ∨
        answer = .ok () ∧ patience s' ≤ patience s)
  shutdown : ∀ {s s' : S} {answer : Poll Unit}, good s →
    AsyncWrite.pollShutdown s = (answer, s') → good s' ∧ input s' ≤ input s ∧
      ((answer = .pending ∧ patience s' < patience s) ∨ answer = .ok ())

/-- A stream that hands out what is listed, `none` for `Pending`, and then ends. Its writer
is pending a number of times and then takes everything. -/
structure Peer where
  reads : List (Option (List UInt8))
  stalls : Nat
  deriving DecidableEq

namespace Peer

def pollRead (s : Peer) (room : Nat) : Poll (List UInt8) × Peer :=
  match s.reads with
  | [] => (.ok [], s)
  | none :: rest => (.pending, { s with reads := rest })
  | some bytes :: rest =>
    if bytes.length ≤ room then (.ok bytes, { s with reads := rest })
    else (.ok (bytes.take room), { s with reads := some (bytes.drop room) :: rest })

def answer {α : Type u} (s : Peer) (value : α) : Poll α × Peer :=
  if s.stalls = 0 then (.ok value, s) else (.pending, { s with stalls := s.stalls - 1 })

instance : AsyncRead Peer where
  pollRead := pollRead
  pollRead_le := by
    intro s room bytes s' h
    unfold pollRead at h
    split at h
    · cases h
      exact Nat.zero_le _
    · cases h
    · split at h
      · cases h
        assumption
      · cases h
        exact List.length_take_le _ _

instance : AsyncWrite Peer where
  pollWrite s slice := s.answer slice.length
  pollWrite_le := by
    intro s slice n s' h
    unfold answer at h
    split at h
    · cases h
      exact Nat.le_refl _
    · cases h
  pollFlush s := s.answer ()
  pollShutdown s := s.answer ()

def left (s : Peer) : Nat := ((s.reads.map fun x => x.getD []).flatten).length

def pendings (s : Peer) : Nat := s.reads.count none + s.stalls

theorem answer_cases {α : Type u} {s s' : Peer} {value : α} {result : Poll α}
    (h : s.answer value = (result, s')) : s'.left = s.left ∧
      ((result = .pending ∧ s'.pendings < s.pendings) ∨ result = .ok value ∧ s' = s) := by
  unfold answer at h
  split at h
  · cases h
    exact ⟨rfl, Or.inr ⟨rfl, rfl⟩⟩
  · cases h
    refine ⟨rfl, Or.inl ⟨rfl, ?_⟩⟩
    simp only [pendings]
    omega

theorem pollRead_cases {s s' : Peer} {room : Nat} {result : Poll (List UInt8)}
    (hroom : 0 < room) (h : s.pollRead room = (result, s')) :
    (result = .pending ∧ s'.left ≤ s.left ∧ s'.pendings < s.pendings) ∨
      ∃ bytes, result = .ok bytes ∧ (bytes = [] ∨ s'.left < s.left) := by
  unfold pollRead at h
  split at h
  · cases h
    exact Or.inr ⟨[], rfl, Or.inl rfl⟩
  · rename_i rest hreads
    cases h
    refine Or.inl ⟨rfl, ?_, ?_⟩
    · simp [left, hreads]
    · simp only [pendings, hreads, List.count_cons_self]
      omega
  · rename_i bytes rest hreads
    split at h
    · cases h
      refine Or.inr ⟨bytes, rfl, ?_⟩
      cases bytes with
      | nil => exact Or.inl rfl
      | cons byte bytes =>
        refine Or.inr ?_
        simp only [left, hreads, List.map_cons, List.flatten_cons, List.length_append,
          Option.getD_some, List.length_cons]
        omega
    · cases h
      refine Or.inr ⟨bytes.take room, rfl, Or.inr ?_⟩
      simp only [left, hreads, List.map_cons, List.flatten_cons, List.length_append,
        Option.getD_some, List.length_drop]
      omega

def serves : Serves Peer where
  good _ := True
  input := left
  patience := pendings
  read _ hroom h := ⟨trivial, pollRead_cases hroom h⟩
  write := by
    intro s s' slice result _ hslice h
    obtain ⟨hleft, hcases⟩ := answer_cases h
    refine ⟨trivial, Nat.le_of_eq hleft, ?_⟩
    rcases hcases with hpending | ⟨rfl, _⟩
    · exact Or.inl hpending
    · exact Or.inr ⟨_, rfl, List.length_pos_iff.mpr hslice⟩
  flush := by
    intro s s' result _ h
    obtain ⟨hleft, hcases⟩ := answer_cases h
    refine ⟨trivial, Nat.le_of_eq hleft, ?_⟩
    rcases hcases with hpending | ⟨rfl, rfl⟩
    · exact Or.inl hpending
    · exact Or.inr ⟨rfl, Nat.le_refl _⟩
  shutdown := by
    intro s s' result _ h
    obtain ⟨hleft, hcases⟩ := answer_cases h
    refine ⟨trivial, Nat.le_of_eq hleft, ?_⟩
    rcases hcases with hpending | ⟨rfl, _⟩
    · exact Or.inl hpending
    · exact Or.inr rfl

end Peer

end AsyncIo
