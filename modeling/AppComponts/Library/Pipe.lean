import AppComponts.Library.Transition

/-!
# Bounded pipes

A pipe takes bytes in at one end and hands them out at the other, in order, holding at most
`bound` of them. That nothing is lost, doubled or reordered is a field of the structure.
-/

set_option autoImplicit false

universe u

structure Pipe (α : Type u) (bound : Nat) where
  received : List α
  sent : List α
  queue : List α
  bounded : queue.length ≤ bound
  conserved : received = sent ++ queue

namespace Pipe
variable {α : Type u} {bound : Nat}

def empty : Pipe α bound := ⟨[], [], [], Nat.zero_le _, rfl⟩

def push (p : Pipe α bound) (xs : List α) (h : p.queue.length + xs.length ≤ bound) :
    Pipe α bound where
  received := p.received ++ xs
  sent := p.sent
  queue := p.queue ++ xs
  bounded := by rwa [List.length_append]
  conserved := by rw [p.conserved, List.append_assoc]

def pop (p : Pipe α bound) (n : Nat) : Pipe α bound where
  received := p.received
  sent := p.sent ++ p.queue.take n
  queue := p.queue.drop n
  bounded := by
    have h := p.bounded
    rw [List.length_drop]
    omega
  conserved := by rw [List.append_assoc, List.take_append_drop, p.conserved]

inductive Step : Pipe α bound → Pipe α bound → Prop
  | push (p : Pipe α bound) (xs : List α) (h : p.queue.length + xs.length ≤ bound) :
      Step p (p.push xs h)
  | pop (p : Pipe α bound) (n : Nat) : Step p (p.pop n)

theorem sent_of_queue_nil {p : Pipe α bound} (h : p.queue = []) : p.sent = p.received := by
  rw [p.conserved, h, List.append_nil]

theorem step_grows {p q : Pipe α bound} (h : Step p q) :
    p.received <+: q.received ∧ p.sent <+: q.sent := by
  cases h with
  | push xs h => exact ⟨List.prefix_append _ _, List.prefix_refl _⟩
  | pop n => exact ⟨List.prefix_refl _, List.prefix_append _ _⟩

theorem reach_grows {p q : Pipe α bound} (h : Transition.Reach Step p q) :
    p.received <+: q.received ∧ p.sent <+: q.sent := by
  induction h with
  | refl => exact ⟨List.prefix_refl _, List.prefix_refl _⟩
  | tail _ hbc ih =>
    obtain ⟨hr, hs⟩ := step_grows hbc
    exact ⟨ih.1.trans hr, ih.2.trans hs⟩

end Pipe
