import Mathlib.Data.List.Nodup
import Mathlib.Data.List.Perm.Basic

/-!
# Detached sends to a bounded channel

Every message is sent by a task of its own, and the tasks complete in any order. The channel
is first-in first-out and holds so many messages. The histories say what was spawned, sent,
received, and cancelled before it was sent.
-/

namespace Transition
set_option autoImplicit false

universe u
variable {α : Type u}

structure Mailbox (α : Type u) where
  spawned : List α
  pending : List α
  sent : List α
  channel : List α
  received : List α
  cancelled : List α
  deriving DecidableEq, Repr

namespace Mailbox

def empty : Mailbox α := ⟨[], [], [], [], [], []⟩

def spawn (m : Mailbox α) (a : α) : Mailbox α :=
  { m with spawned := m.spawned ++ [a], pending := m.pending ++ [a] }

/-- The `i`-th of the pending tasks completes, if the channel has room. -/
def send (capacity : Nat) (m : Mailbox α) (i : Nat) : Option (Mailbox α) :=
  match m.pending[i]? with
  | none => none
  | some a =>
    if m.channel.length < capacity then
      some { m with
        pending := m.pending.eraseIdx i, sent := m.sent ++ [a], channel := m.channel ++ [a] }
    else none

def receive (m : Mailbox α) : Option (α × Mailbox α) :=
  match m.channel with
  | [] => none
  | a :: rest => some (a, { m with channel := rest, received := m.received ++ [a] })

/-- The runtime of the tasks is dropped. -/
def cancel (m : Mailbox α) : Mailbox α :=
  { m with pending := [], cancelled := m.cancelled ++ m.pending }

def withdraw (chosen : α → Bool) (m : Mailbox α) : Mailbox α :=
  { m with
    pending := m.pending.filter fun a => !chosen a
    cancelled := m.cancelled ++ m.pending.filter chosen }

def Quiet (m : Mailbox α) : Prop := m.pending = [] ∧ m.channel = []

/-- No message is lost but by a cancelled task, or doubled, and the channel keeps the order
of the completed sends. -/
structure Wf (m : Mailbox α) : Prop where
  fifo : m.received ++ m.channel = m.sent
  conserved : (m.sent ++ m.pending ++ m.cancelled).Perm m.spawned
  ordered : m.pending.Sublist m.spawned

section Steps
variable {m m' : Mailbox α} {a : α} {i capacity : Nat}

theorem wf_empty : (empty : Mailbox α).Wf := ⟨rfl, List.Perm.refl _, List.Sublist.refl _⟩

theorem wf_spawn (h : m.Wf) (a : α) : (m.spawn a).Wf := by
  refine ⟨h.fifo, ?_, h.ordered.append (List.Sublist.refl [a])⟩
  have hmove : (m.sent ++ (m.pending ++ [a]) ++ m.cancelled).Perm
      (m.sent ++ m.pending ++ m.cancelled ++ [a]) := by
    rw [← List.append_assoc m.sent, List.append_assoc, List.append_assoc (m.sent ++ m.pending)]
    exact List.perm_append_comm.append_left _
  exact hmove.trans (h.conserved.append_right [a])

theorem send_eq_some (h : m.send capacity i = some m') :
    ∃ a, m.pending[i]? = some a ∧ m.channel.length < capacity ∧
      m' = { m with
        pending := m.pending.eraseIdx i, sent := m.sent ++ [a], channel := m.channel ++ [a] } := by
  unfold send at h
  split at h
  · cases h
  · rename_i a ha
    split at h
    · rename_i hroom
      cases h
      exact ⟨a, ha, hroom, rfl⟩
    · cases h

theorem receive_eq_some (h : m.receive = some (a, m')) :
    ∃ rest, m.channel = a :: rest ∧
      m' = { m with channel := rest, received := m.received ++ [a] } := by
  unfold receive at h
  split at h
  · cases h
  · rename_i b rest hchannel
    cases h
    exact ⟨rest, hchannel, rfl⟩

theorem wf_send (h : m.Wf) (hsend : m.send capacity i = some m') : m'.Wf := by
  obtain ⟨a, ha, _, rfl⟩ := send_eq_some hsend
  refine ⟨?_, ?_, (List.eraseIdx_sublist _ _).trans h.ordered⟩
  · rw [← List.append_assoc, h.fifo]
  · have hmove : (m.sent ++ [a] ++ m.pending.eraseIdx i).Perm (m.sent ++ m.pending) := by
      obtain ⟨hi, hget⟩ := List.getElem?_eq_some_iff.mp ha
      rw [List.append_assoc, List.singleton_append, ← hget]
      exact (List.getElem_cons_eraseIdx_perm hi).append_left _
    exact (hmove.append_right _).trans h.conserved

theorem wf_receive (h : m.Wf) (hreceive : m.receive = some (a, m')) : m'.Wf := by
  obtain ⟨rest, hchannel, rfl⟩ := receive_eq_some hreceive
  refine ⟨?_, h.conserved, h.ordered⟩
  rw [List.append_assoc, List.singleton_append, ← hchannel, h.fifo]

theorem wf_withdraw (h : m.Wf) (chosen : α → Bool) : (m.withdraw chosen).Wf := by
  refine ⟨h.fifo, ?_, List.filter_sublist.trans h.ordered⟩
  have hsplit : (m.pending.filter (fun a => !chosen a) ++ m.pending.filter chosen).Perm
      m.pending := List.perm_append_comm.trans (List.filter_append_perm chosen m.pending)
  have hrest : (m.pending.filter (fun a => !chosen a) ++
      (m.cancelled ++ m.pending.filter chosen)).Perm (m.pending ++ m.cancelled) := by
    apply (List.perm_append_comm.append_left _).trans
    rw [← List.append_assoc]
    exact hsplit.append_right _
  have hmove : (m.sent ++ m.pending.filter (fun a => !chosen a) ++
      (m.cancelled ++ m.pending.filter chosen)).Perm (m.sent ++ m.pending ++ m.cancelled) := by
    rw [List.append_assoc, List.append_assoc]
    exact hrest.append_left _
  exact hmove.trans h.conserved

theorem cancel_eq (m : Mailbox α) : m.cancel = m.withdraw fun _ => true := by
  simp [cancel, withdraw]

theorem wf_cancel (h : m.Wf) : m.cancel.Wf := by
  rw [cancel_eq]
  exact wf_withdraw h _

/-- When nothing is on its way, what was not cancelled has been received. -/
theorem perm_of_quiet (h : m.Wf) (hquiet : m.Quiet) :
    (m.received ++ m.cancelled).Perm m.spawned := by
  have hsent : m.received = m.sent := by
    rw [← h.fifo, hquiet.2, List.append_nil]
  have hall := h.conserved
  rw [hquiet.1, List.append_nil] at hall
  rw [hsent]
  exact hall

end Steps

section Order
variable {m m' : Mailbox α} {a : α} {i capacity : Nat}

/-- While the sends are in order, the pending ones are those that remain. -/
theorem append_eq_of_front (h : m.Wf) (hnodup : m.spawned.Nodup) (hkept : m.cancelled = [])
    (hfront : m.sent <+: m.spawned) : m.sent ++ m.pending = m.spawned := by
  obtain ⟨rest, hrest⟩ := hfront
  have hperm := h.conserved
  rw [hkept, List.append_nil, ← hrest, List.perm_append_left_iff] at hperm
  have hsub := h.ordered
  rw [← hrest] at hsub hnodup
  have hdisjoint := (List.nodup_append'.mp hnodup).2.2
  obtain ⟨left, right, hpending, hleft, hright⟩ := List.sublist_append_iff.mp hsub
  have hnil : left = [] := by
    rw [List.eq_nil_iff_forall_not_mem]
    intro x hx
    have hpend : x ∈ m.pending := by
      rw [hpending]
      exact List.mem_append_left right hx
    exact hdisjoint (hleft.subset hx) (hperm.subset hpend)
  rw [hnil, List.nil_append] at hpending
  subst hpending
  rw [hright.eq_of_length hperm.length_eq, hrest]

/-- The sends stay in order exactly if it is the first pending task that completes. -/
theorem sent_front_iff_of_send (h : m.Wf) (hnodup : m.spawned.Nodup) (hkept : m.cancelled = [])
    (hfront : m.sent <+: m.spawned) (hsend : m.send capacity i = some m') :
    m'.sent <+: m'.spawned ↔ i = 0 := by
  obtain ⟨a, ha, _, rfl⟩ := send_eq_some hsend
  have hall := append_eq_of_front h hnodup hkept hfront
  have hpending : m.pending.Nodup := hnodup.sublist h.ordered
  change m.sent ++ [a] <+: m.spawned ↔ i = 0
  rw [← hall, List.prefix_append_right_inj]
  constructor
  · intro hfirst
    obtain ⟨rest, hrest⟩ := hfirst
    obtain ⟨hi, hget⟩ := List.getElem?_eq_some_iff.mp ha
    have hzero : m.pending[0]? = some a := by
      rw [← hrest]
      rfl
    obtain ⟨hpos, hget'⟩ := List.getElem?_eq_some_iff.mp hzero
    exact (List.Nodup.getElem_inj_iff hpending).mp (hget.trans hget'.symm)
  · intro hi
    subst hi
    cases hp : m.pending with
    | nil =>
      rw [hp] at ha
      cases ha
    | cons b rest =>
      rw [hp] at ha
      cases ha
      exact ⟨rest, rfl⟩

theorem sent_front_of_grown (h : m.Wf) (hsent : m.sent <+: m'.sent)
    (hspawned : m.spawned <+: m'.spawned) (hfront : m'.sent <+: m'.spawned) :
    m.sent <+: m.spawned := by
  have hle : m.sent.length ≤ m.spawned.length := by
    rw [← h.conserved.length_eq, List.append_assoc, List.length_append]
    exact Nat.le_add_right _ _
  exact List.prefix_of_prefix_length_le (hsent.trans hfront) hspawned hle

end Order

end Mailbox

end Transition
