import AppComponts.Library.Transition

/-!
# Interleavings

Runs whose steps carry labels: which component moves, and how its environment answers. A
condition on the labels allowed in a state is exact for a property when a step that is not
allowed breaks the property for good.
-/

namespace Transition
set_option autoImplicit false

universe u v
variable {σ : Type u} {α : Type v}

/-- The steps under labels that are allowed in the state left. -/
def Allowed (step : σ → α → Option σ) (ok : σ → α → Prop) (a b : σ) : Prop :=
  ∃ l, ok a l ∧ step a l = some b

abbrev Steps (step : σ → α → Option σ) : σ → σ → Prop := Allowed step fun _ _ => True

section Runs
variable {step : σ → α → Option σ} {ok : σ → α → Prop} {a b : σ}

theorem Reach.invariant_allowed {P : σ → Prop}
    (hs : ∀ a l b, P a → ok a l → step a l = some b → P b)
    (h : Reach (Allowed step ok) a b) (ha : P a) : P b := by
  refine h.invariant ?_ ha
  intro c d hc hstep
  obtain ⟨l, hok, hcd⟩ := hstep
  exact hs c l d hc hok hcd

theorem Reach.invariant_steps {P : σ → Prop} (hs : ∀ a l b, P a → step a l = some b → P b)
    (h : Reach (Steps step) a b) (ha : P a) : P b :=
  h.invariant_allowed (fun a l b ha _ => hs a l b ha) ha

theorem reach_of_allowed (h : Reach (Allowed step ok) a b) : Reach (Steps step) a b := by
  induction h with
  | refl => exact .refl
  | tail _ hstep ih =>
    obtain ⟨l, _, hnext⟩ := hstep
    exact ih.tail ⟨l, trivial, hnext⟩

def runLabels (step : σ → α → Option σ) (ok : σ → α → Prop) [∀ a l, Decidable (ok a l)] :
    σ → List α → Option σ
  | a, [] => some a
  | a, l :: ls => if ok a l then (step a l).bind fun b => runLabels step ok b ls else none

theorem reach_runLabels [∀ a l, Decidable (ok a l)] (ls : List α)
    (h : runLabels step ok a ls = some b) : Reach (Allowed step ok) a b := by
  induction ls generalizing a with
  | nil =>
    cases h
    exact .refl
  | cons l ls ih =>
    simp only [runLabels] at h
    split at h
    · rename_i hok
      obtain ⟨c, hc, h⟩ := Option.bind_eq_some_iff.mp h
      exact .head ⟨l, hok, hc⟩ (ih h)
    · cases h

def Stuck (step : σ → α → Option σ) (ok : σ → α → Prop) (a : σ) : Prop :=
  ∀ l, ok a l → step a l = none

/-- Where each allowed step lowers the measure, no run is longer than it is. -/
theorem length_le_of_measure [∀ a l, Decidable (ok a l)] {inv : σ → Prop} (measure : σ → Nat)
    (hs : ∀ a l b, inv a → ok a l → step a l = some b → inv b ∧ measure b < measure a)
    (ls : List α) (ha : inv a) (h : runLabels step ok a ls = some b) :
    ls.length + measure b ≤ measure a := by
  induction ls generalizing a with
  | nil =>
    cases h
    exact Nat.le_of_eq (Nat.zero_add _)
  | cons l ls ih =>
    simp only [runLabels] at h
    split at h
    · rename_i hok
      obtain ⟨c, hc, h⟩ := Option.bind_eq_some_iff.mp h
      obtain ⟨hinv, hlt⟩ := hs a l c ha hok hc
      have hle := ih hinv h
      rw [List.length_cons]
      omega
    · cases h

/-- And such a run can be continued to where it is stuck. -/
theorem exists_stuck_of_measure {inv : σ → Prop} (measure : σ → Nat)
    (hs : ∀ a l b, inv a → ok a l → step a l = some b → inv b ∧ measure b < measure a)
    (a : σ) (ha : inv a) : ∃ b, Reach (Allowed step ok) a b ∧ Stuck step ok b := by
  refine exists_reach_of_measure (P := inv) measure ?_ a ha
  intro c hc hmoves
  obtain ⟨l, hl⟩ := Classical.not_forall.mp hmoves
  obtain ⟨hok, hsome⟩ := Classical.not_imp.mp hl
  obtain ⟨d, hd⟩ := Option.ne_none_iff_exists'.mp hsome
  obtain ⟨hinv, hlt⟩ := hs c l d hc hok hd
  exact ⟨d, ⟨l, hok, hd⟩, hinv, hlt⟩

/-- `ok` is exact for `bad` among the states of `inv`: the other steps lead to a bad state,
from which there is no way back, and the allowed ones do not lead there. -/
structure Exact (step : σ → α → Option σ) (ok : σ → α → Prop) (inv bad : σ → Prop) :
    Prop where
  inv_step : ∀ a l b, inv a → step a l = some b → inv b
  bad_step : ∀ a l b, inv a → bad a → step a l = some b → bad b
  bad_of_not_ok : ∀ a l b, inv a → ¬ ok a l → step a l = some b → bad b
  not_bad_of_ok : ∀ a l b, inv a → ¬ bad a → ok a l → step a l = some b → ¬ bad b

/-- A state is free of the defect exactly if it is reached by allowed steps. -/
theorem Exact.not_bad_iff {inv bad : σ → Prop} (hexact : Exact step ok inv bad)
    (ha : inv a) (hbad : ¬ bad a) (h : Reach (Steps step) a b) :
    ¬ bad b ↔ Reach (Allowed step ok) a b := by
  constructor
  · intro hb
    induction h with
    | refl => exact .refl
    | @tail c d hc hcd ih =>
      obtain ⟨l, _, hnext⟩ := hcd
      have hinv : inv c := Reach.invariant_steps hexact.inv_step hc ha
      refine (ih fun hbc => hb (hexact.bad_step c l d hinv hbc hnext)).tail ⟨l, ?_, hnext⟩
      by_cases hok : ok c l
      · exact hok
      · exact (hb (hexact.bad_of_not_ok c l d hinv hok hnext)).elim
  · intro hallowed
    have hboth : inv b ∧ ¬ bad b := by
      refine hallowed.invariant_allowed (P := fun s => inv s ∧ ¬ bad s) ?_ ⟨ha, hbad⟩
      intro c l d hboth hok hnext
      obtain ⟨hinv, hc⟩ := hboth
      exact ⟨hexact.inv_step c l d hinv hnext, hexact.not_bad_of_ok c l d hinv hc hok hnext⟩
    exact hboth.2

/-- The condition may be put in other words for the steps that are there. -/
theorem Exact.of_iff {inv bad : σ → Prop} {ok' : σ → α → Prop} (hexact : Exact step ok inv bad)
    (hiff : ∀ a l b, inv a → step a l = some b → (ok a l ↔ ok' a l)) :
    Exact step ok' inv bad where
  inv_step := hexact.inv_step
  bad_step := hexact.bad_step
  bad_of_not_ok a l b ha hok hnext :=
    hexact.bad_of_not_ok a l b ha (fun h => hok ((hiff a l b ha hnext).mp h)) hnext
  not_bad_of_ok a l b ha hgood hok hnext :=
    hexact.not_bad_of_ok a l b ha hgood ((hiff a l b ha hnext).mpr hok) hnext

/-- `ok` is tight for `P` among the states of `inv`: a step keeps `P` exactly if it is
allowed. What breaks `P` may mend it later. -/
structure Tight (step : σ → α → Option σ) (ok : σ → α → Prop) (inv P : σ → Prop) :
    Prop where
  inv_step : ∀ a l b, inv a → step a l = some b → inv b
  keeps_iff : ∀ a l b, inv a → P a → step a l = some b → (P b ↔ ok a l)

/-- Allowed steps keep `P`, and behind them the first other step breaks it. -/
theorem Tight.holds {inv P : σ → Prop} (htight : Tight step ok inv P) (ha : inv a) (hp : P a)
    (h : Reach (Allowed step ok) a b) :
    P b ∧ ∀ l c, step b l = some c → (P c ↔ ok b l) := by
  have hboth : inv b ∧ P b := by
    refine h.invariant_allowed (P := fun s => inv s ∧ P s) ?_ ⟨ha, hp⟩
    intro c l d hc hok hnext
    exact ⟨htight.inv_step c l d hc.1 hnext, (htight.keeps_iff c l d hc.1 hc.2 hnext).mpr hok⟩
  exact ⟨hboth.2, fun l c hnext => htight.keeps_iff b l c hboth.1 hboth.2 hnext⟩

end Runs

section Abstraction
variable {τ β : Type*} {step : σ → α → Option σ} {step' : τ → β → Option τ} {inv : σ → Prop}
  {abs : σ → τ} {label : α → Option β} {a b : σ}

/-- A view of a system as another one: under `abs` each step is the step of its label, or is
not seen. -/
structure Abstracts (step : σ → α → Option σ) (step' : τ → β → Option τ) (inv : σ → Prop)
    (abs : σ → τ) (label : α → Option β) : Prop where
  inv_step : ∀ a l b, inv a → step a l = some b → inv b
  seen : ∀ a l b m, inv a → step a l = some b → label l = some m →
    step' (abs a) m = some (abs b)
  unseen : ∀ a l b, inv a → step a l = some b → label l = none → abs b = abs a

def Seen (abs : σ → τ) (label : α → Option β) (ok : τ → β → Prop) (a : σ) (l : α) : Prop :=
  ∀ m ∈ label l, ok (abs a) m

theorem Abstracts.reach (habs : Abstracts step step' inv abs label) (ha : inv a)
    (h : Reach (Steps step) a b) : Reach (Steps step') (abs a) (abs b) := by
  induction h with
  | refl => exact .refl
  | @tail c d hc hcd ih =>
    obtain ⟨l, _, hnext⟩ := hcd
    have hinv : inv c := Reach.invariant_steps habs.inv_step hc ha
    cases hlabel : label l with
    | none =>
      rw [habs.unseen c l d hinv hnext hlabel]
      exact ih
    | some m => exact ih.tail ⟨m, trivial, habs.seen c l d m hinv hnext hlabel⟩

/-- What is exact for a defect of the view is exact for it in the system. -/
theorem Abstracts.exact (habs : Abstracts step step' inv abs label) {ok : τ → β → Prop}
    {inv' bad : τ → Prop} (hexact : Exact step' ok inv' bad) :
    Exact step (Seen abs label ok) (fun a => inv a ∧ inv' (abs a)) fun a => bad (abs a) where
  inv_step := by
    intro a l b ha hnext
    refine ⟨habs.inv_step a l b ha.1 hnext, ?_⟩
    cases hlabel : label l with
    | none =>
      rw [habs.unseen a l b ha.1 hnext hlabel]
      exact ha.2
    | some m => exact hexact.inv_step _ m _ ha.2 (habs.seen a l b m ha.1 hnext hlabel)
  bad_step := by
    intro a l b ha hbad hnext
    cases hlabel : label l with
    | none =>
      rw [habs.unseen a l b ha.1 hnext hlabel]
      exact hbad
    | some m => exact hexact.bad_step _ m _ ha.2 hbad (habs.seen a l b m ha.1 hnext hlabel)
  bad_of_not_ok := by
    intro a l b ha hok hnext
    cases hlabel : label l with
    | none =>
      refine (hok ?_).elim
      intro m hm
      rw [hlabel] at hm
      cases hm
    | some m =>
      refine hexact.bad_of_not_ok _ m _ ha.2 ?_ (habs.seen a l b m ha.1 hnext hlabel)
      intro hm
      refine hok ?_
      intro m' hm'
      rw [hlabel] at hm'
      cases hm'
      exact hm
  not_bad_of_ok := by
    intro a l b ha hgood hok hnext
    cases hlabel : label l with
    | none =>
      rw [habs.unseen a l b ha.1 hnext hlabel]
      exact hgood
    | some m =>
      exact hexact.not_bad_of_ok _ m _ ha.2 hgood (hok m hlabel)
        (habs.seen a l b m ha.1 hnext hlabel)

end Abstraction

section Components
variable {xs : List σ} {i : Nat} {a b x : σ}

/-- The components of a system: the one that moves, and the others. -/
theorem mem_iff_of_getElem? (h : xs[i]? = some a) : x ∈ xs ↔ x = a ∨ x ∈ xs.eraseIdx i := by
  rw [List.mem_iff_getElem?, List.mem_eraseIdx_iff_getElem?]
  constructor
  · intro hx
    obtain ⟨j, hj⟩ := hx
    by_cases hij : j = i
    · subst hij
      rw [h] at hj
      exact Or.inl (Option.some.inj hj).symm
    · exact Or.inr ⟨j, hij, hj⟩
  · intro hx
    rcases hx with rfl | ⟨j, _, hj⟩
    · exact ⟨i, h⟩
    · exact ⟨j, hj⟩

theorem mem_set_iff_of_getElem? (h : xs[i]? = some a) :
    x ∈ xs.set i b ↔ x = b ∨ x ∈ xs.eraseIdx i := by
  obtain ⟨hi, _⟩ := List.getElem?_eq_some_iff.mp h
  have hset : (xs.set i b)[i]? = some b := List.getElem?_set_self hi
  rw [mem_iff_of_getElem? hset, List.eraseIdx_set_eq]

theorem getElem?_set_cases {j : Nat} (h : (xs.set i b)[j]? = some x) :
    (j = i ∧ x = b) ∨ xs[j]? = some x := by
  rw [List.getElem?_set] at h
  by_cases hij : i = j
  · rw [if_pos hij] at h
    split at h
    · exact Or.inl ⟨hij.symm, (Option.some.inj h).symm⟩
    · cases h
  · rw [if_neg hij] at h
    exact Or.inr h

theorem getElem?_concat_cases {j : Nat} (h : (xs ++ [b])[j]? = some x) :
    xs[j]? = some x ∨ (j = xs.length ∧ x = b) := by
  by_cases hlt : j < xs.length
  · rw [List.getElem?_append_left hlt] at h
    exact Or.inl h
  · have hj := (List.getElem?_eq_some_iff.mp h).1
    rw [List.length_append, List.length_singleton] at hj
    obtain rfl : j = xs.length := by omega
    rw [List.getElem?_concat_length] at h
    exact Or.inr ⟨rfl, (Option.some.inj h).symm⟩

/-- What is true of a component stays true when the components move that keep it. -/
theorem exists_set {P : σ → Prop} (h : xs[i]? = some a) (hab : P a → P b) {j : Nat}
    (hj : ∃ x, xs[j]? = some x ∧ P x) : ∃ x, (xs.set i b)[j]? = some x ∧ P x := by
  obtain ⟨x, hx, hp⟩ := hj
  by_cases hij : i = j
  · subst hij
    rw [h] at hx
    cases hx
    exact ⟨b, List.getElem?_set_self (List.getElem?_eq_some_iff.mp h).1, hab hp⟩
  · exact ⟨x, (List.getElem?_set_ne hij).trans hx, hp⟩

theorem exists_set_iff {P : σ → Prop} (h : xs[i]? = some a) (hab : P a ↔ P b) (j : Nat) :
    (∃ x, (xs.set i b)[j]? = some x ∧ P x) ↔ ∃ x, xs[j]? = some x ∧ P x := by
  constructor
  · intro hj
    obtain ⟨x, hx, hp⟩ := hj
    rcases getElem?_set_cases hx with ⟨rfl, rfl⟩ | hx
    · exact ⟨a, h, hab.mpr hp⟩
    · exact ⟨x, hx, hp⟩
  · exact exists_set h hab.mp

theorem exists_concat_iff {P : σ → Prop} (hb : ¬ P b) (j : Nat) :
    (∃ x, (xs ++ [b])[j]? = some x ∧ P x) ↔ ∃ x, xs[j]? = some x ∧ P x := by
  constructor
  · intro hj
    obtain ⟨x, hx, hp⟩ := hj
    rcases getElem?_concat_cases hx with hx | ⟨_, rfl⟩
    · exact ⟨x, hx, hp⟩
    · exact (hb hp).elim
  · intro hj
    obtain ⟨x, hx, hp⟩ := hj
    have hlt := (List.getElem?_eq_some_iff.mp hx).1
    exact ⟨x, (List.getElem?_append_left hlt).trans hx, hp⟩

def combined (f : σ → Nat) (xs : List σ) : Nat := xs.foldr (fun x n => f x + n) 0

theorem combined_set (f : σ → Nat) (h : xs[i]? = some a) :
    combined f (xs.set i b) + f a = combined f xs + f b := by
  induction xs generalizing i with
  | nil => cases h
  | cons y ys ih =>
    cases i with
    | zero =>
      cases h
      simp only [combined, List.set_cons_zero, List.foldr_cons]
      omega
    | succ i =>
      have hrest := ih h
      simp only [combined, List.set_cons_succ, List.foldr_cons] at hrest ⊢
      omega

theorem count_set_lt [BEq σ] [LawfulBEq σ] (h : xs[i]? = some a) (hne : b ≠ a) :
    (xs.set i b).count a < xs.count a := by
  obtain ⟨hi, hget⟩ := List.getElem?_eq_some_iff.mp h
  have hpos : 0 < xs.count a := List.count_pos_iff.mpr (List.mem_of_getElem? h)
  rw [List.count_set hi, hget]
  simp only [beq_self_eq_true, if_true, beq_iff_eq, hne, if_false]
  omega

end Components

end Transition
