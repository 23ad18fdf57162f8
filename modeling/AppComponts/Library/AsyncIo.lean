/-!
# Polled byte streams

`AsyncRead` and `AsyncWrite` with the contracts their implementors keep: a read only
appends to the free part of the buffer it is given, a write takes at most the slice it
is shown. `Io` is the pair of streams a copy loop works on, with the history of its calls.
-/

namespace AsyncIo
set_option autoImplicit false

universe u v

/-- `io::ErrorKind`, as far as kinds are told apart. -/
inductive ErrorKind where
  | unexpectedEof
  | writeZero
  | other (code : Nat)
  deriving DecidableEq, Repr

structure IoError where
  kind : ErrorKind
  message : String
  deriving DecidableEq, Repr

/-- `Poll<io::Result<α>>`. -/
inductive Poll (α : Type u) where
  | pending
  | ok (value : α)
  | err (error : IoError)
  deriving DecidableEq, Repr

def Poll.bytes : Poll (List UInt8) → List UInt8
  | .ok bytes => bytes
  | _ => []

@[simp] theorem Poll.bytes_ok (bytes : List UInt8) : (Poll.ok bytes).bytes = bytes := rfl

/-- `pollRead r room` answers a read into `room` free bytes with the bytes it appends;
end of stream is a read that appends none. -/
class AsyncRead (R : Type u) where
  pollRead : R → Nat → Poll (List UInt8) × R
  pollRead_le : ∀ (r : R) (room : Nat) (bytes : List UInt8) (r' : R),
    pollRead r room = (.ok bytes, r') → bytes.length ≤ room

class AsyncWrite (W : Type u) where
  pollWrite : W → List UInt8 → Poll Nat × W
  pollWrite_le : ∀ (w : W) (slice : List UInt8) (n : Nat) (w' : W),
    pollWrite w slice = (.ok n, w') → n ≤ slice.length
  pollFlush : W → Poll Unit × W
  pollShutdown : W → Poll Unit × W

section Finite
variable {R : Type u} [AsyncRead R]

/-- Polled for as long as it is pending, the reader hands out some bytes. -/
inductive Delivers : R → R → Prop
  | now {r r' : R} {room : Nat} {bytes : List UInt8}
      (h : AsyncRead.pollRead r room = (.ok bytes, r')) (hne : bytes ≠ []) : Delivers r r'
  | later {r s r' : R} {room : Nat} (h : AsyncRead.pollRead r room = (.pending, s))
      (hs : Delivers s r') : Delivers r r'

/-- The reader hands out bytes finitely often before it stays pending, ends or fails. -/
def FiniteReader (r : R) : Prop := Acc (fun s r => Delivers r s) r

theorem finiteReader_of_measure (measure : R → Nat)
    (hs : ∀ r s : R, Delivers r s → measure s < measure r) (r : R) : FiniteReader r := by
  have hacc : Acc (InvImage (· < ·) measure) r :=
    InvImage.accessible measure (Nat.lt_wfRel.wf.apply (measure r))
  apply Subrelation.accessible _ hacc
  intro s r hdelivers
  exact hs r s hdelivers

end Finite

inductive Event where
  | read (answer : Poll (List UInt8))
  | write (slice : List UInt8) (answer : Poll Nat)
  | flush (answer : Poll Unit)
  | shutdown (answer : Poll Unit)
  deriving DecidableEq, Repr

def Event.eof : Event := .read (.ok [])

def Event.produced : Event → List UInt8
  | .read answer => answer.bytes
  | _ => []

def Event.accepted : Event → List UInt8
  | .write slice (.ok n) => slice.take n
  | _ => []

def Event.isRead : Event → Bool
  | .read _ => true
  | _ => false

def Event.isShutdown : Event → Bool
  | .shutdown _ => true
  | _ => false

/-- The bytes the reader has handed out, in order. -/
def produced (trace : List Event) : List UInt8 := trace.flatMap Event.produced

/-- The bytes the writer has taken, in order. -/
def accepted (trace : List Event) : List UInt8 := trace.flatMap Event.accepted

@[simp] theorem produced_nil : produced [] = [] := rfl

@[simp] theorem accepted_nil : accepted [] = [] := rfl

@[simp] theorem produced_append (s t : List Event) :
    produced (s ++ t) = produced s ++ produced t := List.flatMap_append

@[simp] theorem accepted_append (s t : List Event) :
    accepted (s ++ t) = accepted s ++ accepted t := List.flatMap_append

@[simp] theorem produced_singleton (e : Event) : produced [e] = e.produced := by
  simp [produced]

@[simp] theorem accepted_singleton (e : Event) : accepted [e] = e.accepted := by
  simp [accepted]

/-- A reader and a writer with the calls made on them, oldest first. -/
structure Io (R : Type u) (W : Type v) where
  reader : R
  writer : W
  trace : List Event
  deriving DecidableEq

namespace Io
variable {R : Type u} {W : Type v} {io io' : Io R W}

section Read
variable [AsyncRead R] {room : Nat}

def pollRead (io : Io R W) (room : Nat) : Poll (List UInt8) × Io R W :=
  let (answer, reader) := AsyncRead.pollRead io.reader room
  (answer, { io with reader, trace := io.trace ++ [.read answer] })

theorem pollRead_trace {answer : Poll (List UInt8)}
    (h : io.pollRead room = (answer, io')) : io'.trace = io.trace ++ [.read answer] := by
  obtain ⟨rfl, rfl⟩ := Prod.mk.inj h
  rfl

theorem pollRead_reader {answer : Poll (List UInt8)} (h : io.pollRead room = (answer, io')) :
    AsyncRead.pollRead io.reader room = (answer, io'.reader) := by
  obtain ⟨rfl, rfl⟩ := Prod.mk.inj h
  rfl

theorem pollRead_writer {answer : Poll (List UInt8)} (h : io.pollRead room = (answer, io')) :
    io'.writer = io.writer := by
  obtain ⟨_, rfl⟩ := Prod.mk.inj h
  rfl

theorem pollRead_length {bytes : List UInt8}
    (h : io.pollRead room = (.ok bytes, io')) : bytes.length ≤ room := by
  obtain ⟨ha, _⟩ := Prod.mk.inj h
  exact AsyncRead.pollRead_le io.reader room bytes _ (Prod.ext ha rfl)

end Read

section Write
variable [AsyncWrite W] {slice : List UInt8}

def pollWrite (io : Io R W) (slice : List UInt8) : Poll Nat × Io R W :=
  let (answer, writer) := AsyncWrite.pollWrite io.writer slice
  (answer, { io with writer, trace := io.trace ++ [.write slice answer] })

def pollFlush (io : Io R W) : Poll Unit × Io R W :=
  let (answer, writer) := AsyncWrite.pollFlush io.writer
  (answer, { io with writer, trace := io.trace ++ [.flush answer] })

def pollShutdown (io : Io R W) : Poll Unit × Io R W :=
  let (answer, writer) := AsyncWrite.pollShutdown io.writer
  (answer, { io with writer, trace := io.trace ++ [.shutdown answer] })

theorem pollWrite_trace {answer : Poll Nat}
    (h : io.pollWrite slice = (answer, io')) :
    io'.trace = io.trace ++ [.write slice answer] := by
  obtain ⟨rfl, rfl⟩ := Prod.mk.inj h
  rfl

theorem pollWrite_reader {answer : Poll Nat} (h : io.pollWrite slice = (answer, io')) :
    io'.reader = io.reader := by
  obtain ⟨_, rfl⟩ := Prod.mk.inj h
  rfl

theorem pollWrite_writer {answer : Poll Nat} (h : io.pollWrite slice = (answer, io')) :
    AsyncWrite.pollWrite io.writer slice = (answer, io'.writer) := by
  obtain ⟨rfl, rfl⟩ := Prod.mk.inj h
  rfl

theorem pollFlush_ends {answer : Poll Unit} (h : io.pollFlush = (answer, io')) :
    AsyncWrite.pollFlush io.writer = (answer, io'.writer) ∧ io'.reader = io.reader := by
  obtain ⟨rfl, rfl⟩ := Prod.mk.inj h
  exact ⟨rfl, rfl⟩

theorem pollShutdown_ends {answer : Poll Unit} (h : io.pollShutdown = (answer, io')) :
    AsyncWrite.pollShutdown io.writer = (answer, io'.writer) ∧ io'.reader = io.reader := by
  obtain ⟨rfl, rfl⟩ := Prod.mk.inj h
  exact ⟨rfl, rfl⟩

theorem pollWrite_length {n : Nat}
    (h : io.pollWrite slice = (.ok n, io')) : n ≤ slice.length := by
  obtain ⟨ha, _⟩ := Prod.mk.inj h
  exact AsyncWrite.pollWrite_le io.writer slice n _ (Prod.ext ha rfl)

theorem pollFlush_trace {answer : Poll Unit}
    (h : io.pollFlush = (answer, io')) : io'.trace = io.trace ++ [.flush answer] := by
  obtain ⟨rfl, rfl⟩ := Prod.mk.inj h
  rfl

theorem pollShutdown_trace {answer : Poll Unit}
    (h : io.pollShutdown = (answer, io')) : io'.trace = io.trace ++ [.shutdown answer] := by
  obtain ⟨rfl, rfl⟩ := Prod.mk.inj h
  rfl

end Write
end Io

/-- A stream that gives the listed answers one after another and then stays pending.
A read of more bytes than there is room for leaves the rest for the next read. -/
structure Script where
  reads : List (Poll (List UInt8))
  writes : List (Poll Nat)
  flushes : List (Poll Unit)
  shutdowns : List (Poll Unit)
  deriving DecidableEq

namespace Script

def pollRead (s : Script) (room : Nat) : Poll (List UInt8) × Script :=
  match s.reads with
  | [] => (.pending, s)
  | .ok bytes :: rest =>
    if bytes.length ≤ room then (.ok bytes, { s with reads := rest })
    else (.ok (bytes.take room),
      { s with reads := .ok (bytes.drop room) :: rest })
  | answer :: rest => (answer, { s with reads := rest })

def pollWrite (s : Script) (slice : List UInt8) : Poll Nat × Script :=
  match s.writes with
  | [] => (.pending, s)
  | .ok n :: rest => (.ok (min n slice.length), { s with writes := rest })
  | answer :: rest => (answer, { s with writes := rest })

def pollFlush (s : Script) : Poll Unit × Script :=
  match s.flushes with
  | [] => (.pending, s)
  | answer :: rest => (answer, { s with flushes := rest })

def pollShutdown (s : Script) : Poll Unit × Script :=
  match s.shutdowns with
  | [] => (.pending, s)
  | answer :: rest => (answer, { s with shutdowns := rest })

instance : AsyncRead Script where
  pollRead := pollRead
  pollRead_le := by
    intro s room bytes s' h
    unfold pollRead at h
    split at h
    · simp at h
    · split at h
      · obtain ⟨hb, _⟩ := Prod.mk.inj h
        cases hb
        assumption
      · obtain ⟨hb, _⟩ := Prod.mk.inj h
        cases hb
        exact List.length_take_le _ _
    · rename_i answer rest hne _
      obtain ⟨hb, _⟩ := Prod.mk.inj h
      exact (hne bytes hb).elim

instance : AsyncWrite Script where
  pollWrite := pollWrite
  pollWrite_le := by
    intro s slice n s' h
    unfold pollWrite at h
    split at h
    · simp at h
    · obtain ⟨hb, _⟩ := Prod.mk.inj h
      cases hb
      exact Nat.min_le_right _ _
    · rename_i answer rest hne _
      obtain ⟨hb, _⟩ := Prod.mk.inj h
      exact (hne n hb).elim
  pollFlush := pollFlush
  pollShutdown := pollShutdown

def left (s : Script) : Nat := (s.reads.flatMap Poll.bytes).length

theorem left_of_pollRead {s s' : Script} {room : Nat} {answer : Poll (List UInt8)}
    (h : s.pollRead room = (answer, s')) : s'.left + answer.bytes.length = s.left := by
  unfold pollRead at h
  split at h
  · cases h
    rfl
  · rename_i bytes rest hreads
    split at h
    · cases h
      simp [left, hreads]
      omega
    · cases h
      simp [left, hreads]
      omega
  · rename_i first rest hne hreads
    cases h
    simp [left, hreads, Nat.add_comm]

theorem left_lt_of_delivers {s s' : Script} (h : Delivers s s') : s'.left < s.left := by
  induction h with
  | @now r r' room bytes hr hne =>
    have hleft := left_of_pollRead hr
    have hpos := List.length_pos_iff.mpr hne
    rw [Poll.bytes_ok] at hleft
    omega
  | @later r s r' room hr _ ih =>
    have hleft := left_of_pollRead hr
    simp only [Poll.bytes, List.length_nil] at hleft
    omega

theorem finiteReader (s : Script) : FiniteReader s :=
  finiteReader_of_measure left (fun _ _ => left_lt_of_delivers) s

end Script

end AsyncIo
