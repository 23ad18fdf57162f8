import AppComponts.Library.Interleaving

/-!
# The CA certificate on disk

`generate_ca_certificate` of `backend/proxy/ca_cert.rs`, one step for each operation on the
directory. The calls of the proxy thread and of the install button interleave. A key pair
is a number, and a certificate is told by the number of the key it is signed with: a call
that loads the files signs a new one with the key it finds.
-/

namespace AppComponts
open Transition
set_option autoImplicit false

abbrev KeyPair := Nat

/-- The files `ca.crt` and `ca.key`. -/
structure CaDir where
  crt : Option KeyPair
  key : Option KeyPair
  deriving DecidableEq, Repr

inductive CaResult where
  | ok (cert key : KeyPair)
  | err
  | panicked
  deriving DecidableEq, Repr

inductive CaCall where
  | existsCrt
  | existsKey
  | readCrt
  | readKey (cert : KeyPair)
  | parseCrt (cert key : KeyPair)
  | parseKey (key : KeyPair)
  | selfSign (key : KeyPair)
  | generate
  | writeCrt (pair : KeyPair)
  | writeKey (pair : KeyPair)
  | returned (result : CaResult)
  deriving DecidableEq, Repr

def CaCall.isReturned : CaCall → Bool
  | .returned _ => true
  | _ => false

def CaCall.keyToWrite : CaCall → Option KeyPair
  | .writeKey pair => some pair
  | _ => none

/-- The call is still to write both files, or to complete the certificate on disk. -/
def CaCall.rewrites (crt : Option KeyPair) : CaCall → Bool
  | .generate => true
  | .writeCrt _ => true
  | .writeKey pair => crt == some pair
  | _ => false

/-- The next operation of a call; `fails` says that it fails, `fresh` is the key pair it
gets if it makes one. -/
def generateCaCertificate (fresh : KeyPair) (fails : Bool) (dir : CaDir) :
    CaCall → Option (CaCall × CaDir)
  | .existsCrt => some (if dir.crt.isSome then .existsKey else .generate, dir)
  | .existsKey => some (if dir.key.isSome then .readCrt else .generate, dir)
  | .readCrt =>
    match dir.crt with
    | none => some (.returned .panicked, dir)
    | some cert => some (if fails then .returned .panicked else .readKey cert, dir)
  | .readKey cert =>
    match dir.key with
    | none => some (.returned .panicked, dir)
    | some key => some (if fails then .returned .panicked else .parseCrt cert key, dir)
  | .parseCrt _ key => some (if fails then .returned .err else .parseKey key, dir)
  | .parseKey key => some (if fails then .returned .panicked else .selfSign key, dir)
  | .selfSign key => some (.returned (if fails then .err else .ok key key), dir)
  | .generate => some (if fails then .returned .err else .writeCrt fresh, dir)
  | .writeCrt pair =>
    if fails then some (.returned .err, dir)
    else some (.writeKey pair, { dir with crt := some pair })
  | .writeKey pair =>
    if fails then some (.returned .err, dir)
    else some (.returned (.ok pair pair), { dir with key := some pair })
  | .returned _ => none

/-- The directory, the calls made so far, and the next key pair there will be. -/
structure CaWorld where
  dir : CaDir
  calls : List CaCall
  fresh : KeyPair
  deriving DecidableEq, Repr

inductive CaAction where
  | call
  | step (i : Nat) (fails : Bool)
  deriving DecidableEq, Repr

namespace CaWorld

def start (dir : CaDir) : CaWorld :=
  ⟨dir, [], dir.crt.getD 0 + dir.key.getD 0 + 1⟩

def next (w : CaWorld) : CaAction → Option CaWorld
  | .call => some { w with calls := w.calls ++ [.existsCrt] }
  | .step i fails => do
    let call ← w.calls[i]?
    let (call, dir) ← generateCaCertificate w.fresh fails w.dir call
    return ⟨dir, w.calls.set i call, w.fresh + 1⟩

def Quiet (w : CaWorld) : Prop := ∀ call ∈ w.calls, call.isReturned = true

instance (w : CaWorld) : Decidable w.Quiet :=
  inferInstanceAs (Decidable (∀ call ∈ w.calls, call.isReturned = true))

/-- If both files are there, they come from one key pair. -/
def Paired (dir : CaDir) : Prop := ∀ c ∈ dir.crt, ∀ k ∈ dir.key, c = k

instance (dir : CaDir) : Decidable (Paired dir) :=
  inferInstanceAs (Decidable (∀ c ∈ dir.crt, ∀ k ∈ dir.key, c = k))

def OtherRewrites (w : CaWorld) (i : Nat) : Prop :=
  ∃ other ∈ w.calls.eraseIdx i, other.rewrites w.dir.crt = true

/-- A call that rewrites the files fails only when they are a pair, and a call writes the
key only beside its own certificate; unless another call rewrites the files. -/
def Orderly (w : CaWorld) : CaAction → Prop
  | .call => True
  | .step i fails => ∀ call ∈ w.calls[i]?,
    (fails = true → call.rewrites w.dir.crt = true → Paired w.dir ∨ w.OtherRewrites i) ∧
    (fails = false → ∀ pair ∈ call.keyToWrite, ∀ c ∈ w.dir.crt, c = pair ∨ w.OtherRewrites i)

instance (w : CaWorld) (act : CaAction) : Decidable (w.Orderly act) :=
  match act with
  | .call => isTrue trivial
  | .step i fails =>
    let _ : Decidable (w.OtherRewrites i) :=
      inferInstanceAs (Decidable (∃ other ∈ w.calls.eraseIdx i, other.rewrites w.dir.crt = true))
    inferInstanceAs (Decidable (∀ call ∈ w.calls[i]?,
      (fails = true → call.rewrites w.dir.crt = true → Paired w.dir ∨ w.OtherRewrites i) ∧
      (fails = false → ∀ pair ∈ call.keyToWrite, ∀ c ∈ w.dir.crt,
        c = pair ∨ w.OtherRewrites i)))

/-- Calls do not overlap, and none fails to write the key where there is an old one. -/
def Sequential (w : CaWorld) : CaAction → Prop
  | .call => w.Quiet
  | .step i fails => ∀ call ∈ w.calls[i]?,
    call.keyToWrite.isSome → w.dir.key.isSome → fails = false

/-- The files differ, and no call is left to rewrite them. -/
structure Broken (w : CaWorld) : Prop where
  unpaired : ¬ Paired w.dir
  settled : ∀ call ∈ w.calls, call.rewrites w.dir.crt = false

section Step
variable {w w' : CaWorld} {i : Nat} {fails : Bool} {call call' x : CaCall} {dir : CaDir}
  {fresh : KeyPair}

/-- What a step of a call does to the files, and whether the call rewrites them after it. -/
inductive CaEffect (dir : CaDir) (fails : Bool) : CaCall → CaCall → CaDir → Prop
  | read {call call' : CaCall} (hcall : call.rewrites dir.crt = false)
      (hkey : call.keyToWrite = none)
      (hcall' : dir.crt.isSome → dir.key.isSome → call'.rewrites dir.crt = false) :
      CaEffect dir fails call call' dir
  | made {pair : KeyPair} (hok : fails = false) :
      CaEffect dir fails .generate (.writeCrt pair) dir
  | failed {call : CaCall} (hfails : fails = true) :
      CaEffect dir fails call (.returned .err) dir
  | crt {pair : KeyPair} (hok : fails = false) :
      CaEffect dir fails (.writeCrt pair) (.writeKey pair) { dir with crt := some pair }
  | key {pair : KeyPair} (hok : fails = false) :
      CaEffect dir fails (.writeKey pair) (.returned (.ok pair pair))
        { dir with key := some pair }

theorem effect_of_generate
    (h : generateCaCertificate fresh fails w.dir call = some (call', dir)) :
    CaEffect w.dir fails call call' dir := by
  cases call with
  | existsCrt =>
    cases h
    refine .read rfl rfl fun hcrt _ => ?_
    rw [if_pos hcrt]
    rfl
  | existsKey =>
    cases h
    refine .read rfl rfl fun _ hkey => ?_
    rw [if_pos hkey]
    rfl
  | readCrt =>
    simp only [generateCaCertificate] at h
    cases hcrt : w.dir.crt with
    | none =>
      rw [hcrt] at h
      cases h
      exact .read rfl rfl fun _ _ => rfl
    | some cert =>
      rw [hcrt] at h
      cases fails <;> cases h <;> exact .read rfl rfl fun _ _ => rfl
  | readKey cert =>
    simp only [generateCaCertificate] at h
    cases hkey : w.dir.key with
    | none =>
      rw [hkey] at h
      cases h
      exact .read rfl rfl fun _ _ => rfl
    | some key =>
      rw [hkey] at h
      cases fails <;> cases h <;> exact .read rfl rfl fun _ _ => rfl
  | parseCrt cert key =>
    cases fails <;> cases h <;> exact .read rfl rfl fun _ _ => rfl
  | parseKey key =>
    cases fails <;> cases h <;> exact .read rfl rfl fun _ _ => rfl
  | selfSign key =>
    cases fails <;> cases h <;> exact .read rfl rfl fun _ _ => rfl
  | generate =>
    cases fails with
    | false => cases h; exact .made rfl
    | true => cases h; exact .failed rfl
  | writeCrt pair =>
    cases fails with
    | false => cases h; exact .crt rfl
    | true => cases h; exact .failed rfl
  | writeKey pair =>
    cases fails with
    | false => cases h; exact .key rfl
    | true => cases h; exact .failed rfl
  | returned result => cases h

theorem next_step (h : w.next (.step i fails) = some w') :
    ∃ call call', w.calls[i]? = some call ∧
      generateCaCertificate w.fresh fails w.dir call = some (call', w'.dir) ∧
      w'.calls = w.calls.set i call' := by
  obtain ⟨call, hcall, h⟩ := Option.bind_eq_some_iff.mp h
  obtain ⟨⟨call', dir⟩, hgenerate, h⟩ := Option.bind_eq_some_iff.mp h
  cases h
  exact ⟨call, call', hcall, hgenerate, rfl⟩

theorem step_cases (h : w.next (.step i fails) = some w') :
    ∃ call call', w.calls[i]? = some call ∧ CaEffect w.dir fails call call' w'.dir ∧
      w'.calls = w.calls.set i call' := by
  obtain ⟨call, call', hcall, hgenerate, hcalls⟩ := next_step h
  exact ⟨call, call', hcall, effect_of_generate hgenerate, hcalls⟩

theorem isSome_of_unpaired {dir : CaDir} (h : ¬ Paired dir) :
    dir.crt.isSome ∧ dir.key.isSome := by
  constructor
  · cases hc : dir.crt with
    | none => exact (h fun c hc' => by rw [hc] at hc'; cases hc').elim
    | some c => rfl
  · cases hk : dir.key with
    | none => exact (h fun _ _ k hk' => by rw [hk] at hk'; cases hk').elim
    | some k => rfl

theorem unpaired_key {dir : CaDir} {pair c : KeyPair} (hc : dir.crt = some c) :
    ¬ Paired { dir with key := some pair } ↔ c ≠ pair := by
  constructor
  · intro h heq
    refine h fun c' hc' k hk => ?_
    cases hk
    rw [hc] at hc'
    cases hc'
    exact heq
  · intro hne h
    exact hne (h c hc pair rfl)

theorem settled_set (hcall : w.calls[i]? = some call) {crt : Option KeyPair}
    (hcall' : call'.rewrites crt = false)
    (hothers : ∀ other ∈ w.calls.eraseIdx i, other.rewrites crt = false) :
    ∀ x ∈ w.calls.set i call', x.rewrites crt = false := by
  intro x hx
  rcases (mem_set_iff_of_getElem? hcall).mp hx with rfl | hx
  · exact hcall'
  · exact hothers x hx

theorem others_settled (h : ¬ w.OtherRewrites i) :
    ∀ other ∈ w.calls.eraseIdx i, other.rewrites w.dir.crt = false := by
  intro other hother
  cases hr : other.rewrites w.dir.crt with
  | false => rfl
  | true => exact (h ⟨other, hother, hr⟩).elim

end Step

section Runs
variable {w w' : CaWorld} {act : CaAction}

theorem broken_of_not_orderly (hok : ¬ w.Orderly act) (h : w.next act = some w') :
    w'.Broken := by
  cases act with
  | call => exact (hok trivial).elim
  | step i fails =>
    obtain ⟨call, call', hcall, heffect, hcalls⟩ := step_cases h
    have hnot : ¬ ((fails = true → call.rewrites w.dir.crt = true →
          Paired w.dir ∨ w.OtherRewrites i) ∧
        (fails = false → ∀ pair ∈ call.keyToWrite, ∀ c ∈ w.dir.crt,
          c = pair ∨ w.OtherRewrites i)) := by
      intro hboth
      refine hok fun x hx => ?_
      rw [hcall] at hx
      cases hx
      exact hboth
    obtain ⟨dir, calls, fresh⟩ := w'
    dsimp only at heffect hcalls
    subst hcalls
    cases heffect with
    | read hr hkey hcall' =>
      refine (hnot ⟨fun _ h => ?_, fun _ pair hp => ?_⟩).elim
      · rw [hr] at h
        cases h
      · rw [hkey] at hp
        cases hp
    | made hf => exact (hnot ⟨fun h => absurd hf (by simp [h]), fun _ _ hp => nomatch hp⟩).elim
    | crt hf => exact (hnot ⟨fun h => absurd hf (by simp [h]), fun _ _ hp => nomatch hp⟩).elim
    | failed hf =>
      have hunpaired : ¬ Paired w.dir := fun hp =>
        hnot ⟨fun _ _ => Or.inl hp, fun h => absurd hf (by simp [h])⟩
      have hother : ¬ w.OtherRewrites i := fun ho =>
        hnot ⟨fun _ _ => Or.inr ho, fun h => absurd hf (by simp [h])⟩
      exact ⟨hunpaired, settled_set hcall rfl (others_settled hother)⟩
    | @key pair hf =>
      have hother : ¬ w.OtherRewrites i := fun ho =>
        hnot ⟨fun h => absurd hf (by simp [h]), fun _ _ _ _ _ => Or.inr ho⟩
      refine ⟨?_, settled_set hcall rfl (others_settled hother)⟩
      intro hpaired
      refine hnot ⟨fun h => absurd hf (by simp [h]), fun _ pair' hp c hc => Or.inl ?_⟩
      cases hp
      exact hpaired c hc pair rfl

theorem broken_of_next (hw : w.Broken) (h : w.next act = some w') : w'.Broken := by
  cases act with
  | call =>
    obtain rfl := Option.some.inj h
    refine ⟨hw.unpaired, fun x hx => ?_⟩
    rcases List.mem_append.mp hx with hx | hx
    · exact hw.settled x hx
    · rw [List.mem_singleton.mp hx]
      rfl
  | step i fails =>
    obtain ⟨call, call', hcall, heffect, hcalls⟩ := step_cases h
    have hthis := hw.settled call ((mem_iff_of_getElem? hcall).mpr (Or.inl rfl))
    have hothers : ∀ other ∈ w.calls.eraseIdx i, other.rewrites w.dir.crt = false :=
      fun x hx => hw.settled x ((mem_iff_of_getElem? hcall).mpr (Or.inr hx))
    obtain ⟨dir, calls, fresh⟩ := w'
    dsimp only at heffect hcalls
    subst hcalls
    cases heffect with
    | read hr hkey hcall' =>
      obtain ⟨hc, hk⟩ := isSome_of_unpaired hw.unpaired
      exact ⟨hw.unpaired, settled_set hcall (hcall' hc hk) hothers⟩
    | made hf => cases hthis
    | crt hf => cases hthis
    | failed hf => exact ⟨hw.unpaired, settled_set hcall rfl hothers⟩
    | @key pair hf =>
      obtain ⟨c, hc⟩ := Option.isSome_iff_exists.mp (isSome_of_unpaired hw.unpaired).1
      refine ⟨(unpaired_key hc).mpr ?_, settled_set hcall rfl hothers⟩
      intro heq
      simp [CaCall.rewrites, hc, heq] at hthis

theorem not_broken_of_next (hw : ¬ w.Broken) (hok : w.Orderly act) (h : w.next act = some w') :
    ¬ w'.Broken := by
  intro hb
  cases act with
  | call =>
    obtain rfl := Option.some.inj h
    exact hw ⟨hb.unpaired, fun x hx => hb.settled x (List.mem_append_left _ hx)⟩
  | step i fails =>
    obtain ⟨call, call', hcall, heffect, hcalls⟩ := step_cases h
    obtain ⟨hfail, hkey⟩ := hok call hcall
    obtain ⟨dir, calls, fresh⟩ := w'
    dsimp only at heffect hcalls
    subst hcalls
    have hothers (x : CaCall) (hx : x ∈ w.calls.eraseIdx i) : x.rewrites dir.crt = false :=
      hb.settled x ((mem_set_iff_of_getElem? hcall).mpr (Or.inr hx))
    have hthis : call'.rewrites dir.crt = false :=
      hb.settled call' ((mem_set_iff_of_getElem? hcall).mpr (Or.inl rfl))
    have hback (hcrt : dir = w.dir) (hr : call.rewrites w.dir.crt = false) : w.Broken := by
      subst hcrt
      refine ⟨hb.unpaired, fun x hx => ?_⟩
      rcases (mem_iff_of_getElem? hcall).mp hx with rfl | hx
      · exact hr
      · exact hothers x hx
    cases heffect with
    | read hr _ _ => exact hw (hback rfl hr)
    | made hf => cases hthis
    | crt hf => simp [CaCall.rewrites] at hthis
    | failed hf =>
      cases hr : call.rewrites w.dir.crt with
      | false => exact hw (hback rfl hr)
      | true =>
        rcases hfail hf hr with hpaired | ⟨other, hother, hro⟩
        · exact hb.unpaired hpaired
        · rw [hothers other hother] at hro
          cases hro
    | @key pair hf =>
      obtain ⟨c, hc⟩ := Option.isSome_iff_exists.mp (isSome_of_unpaired hb.unpaired).1
      have hc' : w.dir.crt = some c := hc
      have hne := (unpaired_key hc').mp hb.unpaired
      rcases hkey hf pair rfl c hc' with heq | ⟨other, hother, hro⟩
      · exact hne heq
      · rw [hothers other hother] at hro
        cases hro

theorem not_broken_start {dir : CaDir} (h : Paired dir) : ¬ (start dir).Broken :=
  fun hb => hb.unpaired h

theorem broken_of_unpaired (hquiet : w.Quiet) (h : ¬ Paired w.dir) : w.Broken := by
  refine ⟨h, fun call hcall => ?_⟩
  have hreturned := hquiet call hcall
  cases call with
  | returned result => rfl
  | _ => cases hreturned

theorem orderly_exact : Exact next Orderly (fun _ => True) Broken where
  inv_step _ _ _ _ _ := trivial
  bad_step _ _ _ _ hw h := broken_of_next hw h
  bad_of_not_ok _ _ _ _ hok h := broken_of_not_orderly hok h
  not_bad_of_ok _ _ _ _ hw hok h := not_broken_of_next hw hok h

theorem paired_iff_not_broken (hquiet : w.Quiet) : Paired w.dir ↔ ¬ w.Broken := by
  constructor
  · exact fun hpaired hb => hb.unpaired hpaired
  · intro hnot
    by_cases hpaired : Paired w.dir
    · exact hpaired
    · exact (hnot (broken_of_unpaired hquiet hpaired)).elim

end Runs

section Sequential
variable {w w' : CaWorld} {act : CaAction} {dir dir' : CaDir} {fresh : KeyPair} {fails : Bool}
  {call call' : CaCall}

/-- The files are a pair, unless the call is between its two writes. -/
def Fits (dir : CaDir) : CaCall → Prop
  | .writeKey pair => dir.crt = some pair
  | _ => Paired dir

theorem fits_of_returned (hreturned : call.isReturned = true) (h : Fits dir call) :
    Paired dir := by
  cases call with
  | returned result => exact h
  | _ => cases hreturned

theorem fits_of_paired (hkey : call.keyToWrite = none) (h : Paired dir) : Fits dir call := by
  cases call with
  | writeKey pair => cases hkey
  | _ => exact h

theorem fits_of_generate (hfits : Fits dir call)
    (hkey : call.keyToWrite.isSome → dir.key.isSome → fails = false)
    (h : generateCaCertificate fresh fails dir call = some (call', dir')) :
    Fits dir' call' := by
  cases call with
  | existsCrt =>
    cases h
    refine fits_of_paired ?_ hfits
    split <;> rfl
  | existsKey =>
    cases h
    refine fits_of_paired ?_ hfits
    split <;> rfl
  | readCrt =>
    simp only [generateCaCertificate] at h
    split at h
    · cases h
      exact hfits
    · cases fails <;> cases h <;> exact hfits
  | readKey cert =>
    simp only [generateCaCertificate] at h
    split at h
    · cases h
      exact hfits
    · cases fails <;> cases h <;> exact hfits
  | writeCrt pair =>
    cases fails <;> cases h
    · rfl
    · exact hfits
  | writeKey pair =>
    cases fails <;> cases h
    · intro c hc k hk
      cases hk
      rw [hfits] at hc
      exact (Option.some.inj hc).symm
    · -- the write has failed, so there is no key
      intro c _ k hk
      rw [hk] at hkey
      cases hkey rfl rfl
  | returned result => cases h
  | _ => cases fails <;> cases h <;> exact hfits

theorem not_returned_of_generate
    (h : generateCaCertificate fresh fails dir call = some (call', dir')) :
    call.isReturned = false := by
  cases call with
  | returned result => cases h
  | _ => rfl

/-- At most one call is in progress, and fits. -/
def InTurn (w : CaWorld) : Prop :=
  (w.Quiet ∧ Paired w.dir) ∨ ∃ (i : Nat) (call : CaCall), w.calls[i]? = some call ∧
    Fits w.dir call ∧ ∀ other ∈ w.calls.eraseIdx i, other.isReturned = true

theorem orderly_of_fits {i : Nat} (hfits : ∀ call ∈ w.calls[i]?, Fits w.dir call)
    (hok : w.Sequential (.step i fails)) : w.Orderly (.step i fails) := by
  intro call hcall
  constructor
  · intro hfails hrewrites
    refine Or.inl ?_
    cases call with
    | writeKey pair =>
      intro c _ k hk
      have hold := hok _ hcall rfl (Option.isSome_iff_exists.mpr ⟨k, hk⟩)
      rw [hfails] at hold
      cases hold
    | generate => exact hfits _ hcall
    | writeCrt pair => exact hfits _ hcall
    | _ => cases hrewrites
  · intro _ pair hpair c hc
    refine Or.inl ?_
    cases call with
    | writeKey pair' =>
      cases hpair
      have hcrt : w.dir.crt = some pair := hfits _ hcall
      rw [hcrt] at hc
      exact (Option.some.inj hc).symm
    | _ => cases hpair

theorem inTurn_of_next (hw : w.InTurn) (hok : w.Sequential act) (h : w.next act = some w') :
    w.Orderly act ∧ w'.InTurn := by
  cases act with
  | call =>
    have hpaired : Paired w.dir := by
      rcases hw with ⟨_, hpaired⟩ | ⟨i, call, hcall, hfits, _⟩
      · exact hpaired
      · exact fits_of_returned (hok call (List.mem_of_getElem? hcall)) hfits
    cases h
    refine ⟨trivial, Or.inr ⟨w.calls.length, .existsCrt, List.getElem?_concat_length, hpaired, ?_⟩⟩
    intro other hother
    obtain ⟨j, hne, hj⟩ := List.mem_eraseIdx_iff_getElem?.mp hother
    rcases getElem?_concat_cases hj with hold | ⟨heq, _⟩
    · exact hok other (List.mem_of_getElem? hold)
    · exact (hne heq).elim
  | step j fails =>
    obtain ⟨call, call', hcall, hgenerate, hcalls⟩ := next_step h
    have hrunning := not_returned_of_generate hgenerate
    rcases hw with ⟨hquiet, _⟩ | ⟨i, turn, hturn, hfits, hothers⟩
    · rw [hquiet call (List.mem_of_getElem? hcall)] at hrunning
      cases hrunning
    · obtain rfl : j = i := by
        by_cases hne : j = i
        · exact hne
        · have hother := List.mem_eraseIdx_iff_getElem?.mpr ⟨j, hne, hcall⟩
          rw [hothers call hother] at hrunning
          cases hrunning
      rw [hcall] at hturn
      cases hturn
      refine ⟨orderly_of_fits ?_ hok, Or.inr ⟨j, call', ?_, ?_, ?_⟩⟩
      · intro other hother
        rw [hcall] at hother
        cases hother
        exact hfits
      · rw [hcalls]
        exact List.getElem?_set_self (List.getElem?_eq_some_iff.mp hcall).1
      · exact fits_of_generate hfits (hok call hcall) hgenerate
      · rw [hcalls, List.eraseIdx_set_eq]
        exact hothers

theorem orderly_of_sequential (hdir : Paired dir)
    (h : Reach (Allowed next Sequential) (.start dir) w) :
    Reach (Allowed next Orderly) (.start dir) w := by
  have hboth : w.InTurn ∧ Reach (Allowed next Orderly) (.start dir) w := by
    refine h.invariant_allowed (P := fun w => w.InTurn ∧ Reach (Allowed next Orderly) _ w) ?_ ?_
    · intro a act b ha hok hnext
      obtain ⟨hinturn, hreach⟩ := ha
      obtain ⟨horderly, hinturn'⟩ := inTurn_of_next hinturn hok hnext
      exact ⟨hinturn', hreach.tail ⟨act, horderly, hnext⟩⟩
    · refine ⟨Or.inl ⟨?_, hdir⟩, .refl⟩
      intro call hcall
      cases hcall
  exact hboth.2

end Sequential

end CaWorld

/-- Where calls take turns, and a key that is on disk can be replaced, the files are a pair
whenever no call is in progress. -/
theorem caDir_paired_of_sequential (dir : CaDir) (hdir : CaWorld.Paired dir) (w : CaWorld)
    (h : Reach (Allowed CaWorld.next CaWorld.Sequential) (.start dir) w) (hquiet : w.Quiet) :
    CaWorld.Paired w.dir := by
  rw [CaWorld.paired_iff_not_broken hquiet, CaWorld.orderly_exact.not_bad_iff trivial
    (CaWorld.not_broken_start hdir) (reach_of_allowed h)]
  exact CaWorld.orderly_of_sequential hdir h

/-- Whenever no call is in progress, the files are a pair exactly if every step so far was
orderly, in whatever order the calls took them and whatever failed. -/
theorem caDir_paired_iff (dir : CaDir) (hdir : CaWorld.Paired dir) (w : CaWorld)
    (h : Reach (Steps CaWorld.next) (.start dir) w) (hquiet : w.Quiet) :
    CaWorld.Paired w.dir ↔ Reach (Allowed CaWorld.next CaWorld.Orderly) (.start dir) w := by
  rw [← CaWorld.orderly_exact.not_bad_iff trivial (CaWorld.not_broken_start hdir) h]
  exact CaWorld.paired_iff_not_broken hquiet

/-- Two calls overlap; the second certificate replaces the first, and its key comes last. -/
def overlapped : CaWorld :=
  ⟨⟨some 4, some 4⟩, [.returned (.ok 3 3), .returned (.ok 4 4)], 9⟩

def overlappedRun : List CaAction :=
  [.call, .call, .step 0 false, .step 1 false, .step 0 false, .step 1 false, .step 0 false,
    .step 1 false, .step 0 false, .step 1 false]

theorem caDir_paired_overlapped : CaWorld.Paired overlapped.dir :=
  (caDir_paired_iff ⟨none, none⟩ (by decide) overlapped (reach_runLabels overlappedRun rfl)
    (by decide)).mpr (reach_runLabels overlappedRun rfl)

/-- The key is on disk without its certificate, and cannot be replaced. -/
theorem caDir_unpaired :
    ¬ ∀ dir, CaWorld.Paired dir → ∀ w, Reach (Steps CaWorld.next) (.start dir) w → w.Quiet →
      CaWorld.Paired w.dir := by
  intro h
  have hpaired := h ⟨none, some 0⟩ (by decide) ⟨⟨some 2, some 0⟩, [.returned .err], 5⟩
    (reach_runLabels [.call, .step 0 false, .step 0 false, .step 0 false,
      .step 0 true] rfl) (by decide)
  exact absurd hpaired (by decide)

end AppComponts
