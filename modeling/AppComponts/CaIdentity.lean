import AppComponts.CaCert

/-!
# The identity of the CA

A call that finds both files writes none, and signs a certificate with the key it finds. So once
a call has returned, and no other is in progress, the key of the CA stays the one that is on
disk. Contents of `ca.key` may be `spoiled`: they do not parse as a key.
-/

namespace AppComponts
open Transition
set_option autoImplicit false

def CaCall.writes : CaCall → Bool
  | .generate => true
  | .writeCrt _ => true
  | .writeKey _ => true
  | _ => false

def CaCall.Seen (dir : CaDir) : CaCall → Prop
  | .existsKey => dir.crt.isSome
  | .readCrt => dir.crt.isSome ∧ dir.key.isSome
  | .readKey _ => dir.crt.isSome ∧ dir.key.isSome
  | .parseCrt _ _ => dir.crt.isSome ∧ dir.key.isSome
  | .parseKey _ => dir.crt.isSome ∧ dir.key.isSome
  | .selfSign _ => dir.crt.isSome ∧ dir.key.isSome
  | .writeKey _ => dir.crt.isSome
  | .returned (.ok _ _) => dir.crt.isSome ∧ dir.key.isSome
  | _ => True

/-- The key that a call has read is `key`, or it is spoiled; what a call signs with and returns
is `key`. -/
def CaCall.Reads (key : Option KeyPair) (spoiled : List KeyPair) : CaCall → Prop
  | .parseCrt _ read => key = some read ∨ read ∈ spoiled
  | .parseKey read => key = some read ∨ read ∈ spoiled
  | .selfSign read => key = some read
  | .returned (.ok cert read) => cert = read ∧ key = some read
  | _ => True

def CaCall.keyToParse : CaCall → Option KeyPair
  | .parseKey key => some key
  | _ => none

def CaWorld.Parses (spoiled : List KeyPair) (w : CaWorld) : CaAction → Prop
  | .call => True
  | .step i fails => ∀ call ∈ w.calls[i]?, ∀ key ∈ call.keyToParse, key ∈ spoiled → fails = true

instance (spoiled : List KeyPair) (w : CaWorld) (act : CaAction) :
    Decidable (w.Parses spoiled act) :=
  match act with
  | .call => isTrue trivial
  | .step i fails => inferInstanceAs
      (Decidable (∀ call ∈ w.calls[i]?, ∀ key ∈ call.keyToParse, key ∈ spoiled → fails = true))

section Calls
variable {fresh : KeyPair} {fails : Bool} {dir dir' : CaDir} {call call' : CaCall}
  {key : Option KeyPair} {spoiled spoiled' : List KeyPair}

structure CaDir.Grows (dir dir' : CaDir) : Prop where
  crt : dir.crt.isSome → dir'.crt.isSome
  key : dir.key.isSome → dir'.key.isSome

theorem CaDir.Grows.rfl : dir.Grows dir := ⟨id, id⟩

/-- With both files there a call that does not write leaves them alone. -/
theorem reads_of_generate (hcrt : dir.crt.isSome) (hkey : dir.key.isSome)
    (hdisk : ∀ k ∈ dir.key, key = some k ∨ k ∈ spoiled) (hwrites : call.writes = false)
    (hparses : ∀ k ∈ call.keyToParse, k ∈ spoiled → fails = true)
    (h : generateCaCertificate fresh fails dir call = some (call', dir')) :
    dir' = dir ∧ call'.writes = false ∧
      (call.Reads key spoiled → call'.Reads key spoiled) := by
  obtain ⟨cert, hcert⟩ := Option.isSome_iff_exists.mp hcrt
  obtain ⟨read, hread⟩ := Option.isSome_iff_exists.mp hkey
  cases call with
  | existsCrt =>
    cases h
    rw [if_pos hcrt]
    exact ⟨rfl, rfl, fun _ => trivial⟩
  | existsKey =>
    cases h
    rw [if_pos hkey]
    exact ⟨rfl, rfl, fun _ => trivial⟩
  | readCrt =>
    simp only [generateCaCertificate, hcert] at h
    cases fails <;> cases h <;> exact ⟨rfl, rfl, fun _ => trivial⟩
  | readKey cert =>
    simp only [generateCaCertificate, hread] at h
    cases fails <;> cases h
    · exact ⟨rfl, rfl, fun _ => hdisk read hread⟩
    · exact ⟨rfl, rfl, fun _ => trivial⟩
  | parseCrt cert read =>
    cases fails <;> cases h
    · exact ⟨rfl, rfl, id⟩
    · exact ⟨rfl, rfl, fun _ => trivial⟩
  | parseKey read =>
    cases fails <;> cases h
    · refine ⟨rfl, rfl, fun hreads => hreads.resolve_right fun hspoiled => ?_⟩
      cases hparses read rfl hspoiled
    · exact ⟨rfl, rfl, fun _ => trivial⟩
  | selfSign read =>
    cases fails <;> cases h
    · exact ⟨rfl, rfl, fun hreads => ⟨rfl, hreads⟩⟩
    · exact ⟨rfl, rfl, fun _ => trivial⟩
  | returned result => cases h
  | _ => cases hwrites

end Calls

namespace CaWorld
variable {w w' : CaWorld} {act : CaAction} {key : Option KeyPair} {spoiled : List KeyPair}

def Seen (w : CaWorld) : Prop := ∀ call ∈ w.calls, call.Seen w.dir

/-- Both files are there, and no call is on its way to new ones. -/
structure Settled (w : CaWorld) : Prop where
  crt : w.dir.crt.isSome
  key : w.dir.key.isSome
  kept : ∀ call ∈ w.calls, call.writes = false

/-- A step in a settled directory: it stays so, and a call reads no other key. -/
theorem settled_of_next (hw : w.Settled) (hdisk : ∀ k ∈ w.dir.key, key = some k ∨ k ∈ spoiled)
    (hparses : w.Parses spoiled act) (h : w.next act = some w') :
    w'.dir = w.dir ∧ w'.Settled ∧ w.calls.length ≤ w'.calls.length ∧
      ∀ (i : Nat) (call' : CaCall), w'.calls[i]? = some call' → call'.Reads key spoiled ∨
        ∃ call, w.calls[i]? = some call ∧
          (call.Reads key spoiled → call'.Reads key spoiled) := by
  cases act with
  | call =>
    cases h
    refine ⟨rfl, ⟨hw.crt, hw.key, ?_⟩, ?_, ?_⟩
    · intro call hcall
      rcases List.mem_append.mp hcall with hcall | hcall
      · exact hw.kept call hcall
      · rw [List.mem_singleton.mp hcall]
        rfl
    · rw [List.length_append]
      omega
    · intro i call hcall
      rcases getElem?_concat_cases hcall with hold | ⟨_, rfl⟩
      · exact Or.inr ⟨call, hold, id⟩
      · exact Or.inl trivial
  | step i fails =>
    obtain ⟨call, call', hcall, hgenerate, hcalls⟩ := next_step h
    have hwrites := hw.kept call (List.mem_of_getElem? hcall)
    obtain ⟨hsame, hwrites', hread⟩ :=
      reads_of_generate hw.crt hw.key hdisk hwrites (hparses call hcall) hgenerate
    refine ⟨hsame, ⟨?_, ?_, ?_⟩, ?_, ?_⟩
    · rw [hsame]
      exact hw.crt
    · rw [hsame]
      exact hw.key
    · intro other hother
      rw [hcalls] at hother
      rcases (mem_set_iff_of_getElem? hcall).mp hother with rfl | hother
      · exact hwrites'
      · exact hw.kept other ((mem_iff_of_getElem? hcall).mpr (Or.inr hother))
    · exact Nat.le_of_eq (by rw [hcalls, List.length_set])
    · intro j other hother
      rw [hcalls] at hother
      rcases getElem?_set_cases hother with ⟨rfl, rfl⟩ | hother
      · exact Or.inr ⟨call, hcall, hread⟩
      · exact Or.inr ⟨other, hother, id⟩

end CaWorld

end AppComponts
