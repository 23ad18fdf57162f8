import Mathlib.Logic.Relation

/-!
# Runs of a step relation

A run is a finite path of `step`. An invariant is proved for one step and holds along
every run; `Guarded` keeps the runs whose steps all leave a state with a given property.
Deterministic machines are step functions `next : σ → Option σ`.
-/

namespace Transition
set_option autoImplicit false

universe u v
variable {σ : Type u} {τ : Type v}

/-- Finite runs; the first argument is where the run starts. -/
abbrev Reach (step : σ → σ → Prop) : σ → σ → Prop := Relation.ReflTransGen step

/-- The steps that leave a state in which `ok` holds. -/
def Guarded (step : σ → σ → Prop) (ok : σ → Prop) (a b : σ) : Prop := step a b ∧ ok a

section Runs
variable {step : σ → σ → Prop} {ok : σ → Prop} {a b : σ}

theorem Reach.invariant {P : σ → Prop} (hs : ∀ a b, P a → step a b → P b)
    (h : Reach step a b) (ha : P a) : P b := by
  induction h with
  | refl => exact ha
  | tail _ hbc ih => exact hs _ _ ih hbc

/-- An invariant may use that its states are reached from `a`. -/
theorem Reach.invariant_reached {P : σ → Prop}
    (hs : ∀ b c, Reach step a b → P b → step b c → P c)
    (h : Reach step a b) (ha : P a) : P b := by
  induction h with
  | refl => exact ha
  | tail hab hbc ih => exact hs _ _ hab ih hbc

theorem reach_of_guarded (h : Reach (Guarded step ok) a b) : Reach step a b := by
  induction h with
  | refl => exact .refl
  | tail _ hbc ih => exact ih.tail hbc.1

/-- A forward simulation: each step is answered by a run that keeps `R`. -/
theorem Reach.simulate {step' : τ → τ → Prop} {R : σ → τ → Prop}
    (hs : ∀ a b x, R a x → step a b → ∃ y, Reach step' x y ∧ R b y)
    (h : Reach step a b) {x : τ} (hax : R a x) : ∃ y, Reach step' x y ∧ R b y := by
  induction h with
  | refl => exact ⟨x, .refl, hax⟩
  | tail _ hbc ih =>
    obtain ⟨y, hxy, hby⟩ := ih
    obtain ⟨z, hyz, hcz⟩ := hs _ _ y hby hbc
    exact ⟨z, hxy.trans hyz, hcz⟩

/-- While the goal is not reached some step lowers the measure, so the goal is reached. -/
theorem exists_reach_of_measure {P goal : σ → Prop} (measure : σ → Nat)
    (hs : ∀ a, P a → ¬ goal a → ∃ b, step a b ∧ P b ∧ measure b < measure a)
    (a : σ) (ha : P a) : ∃ b, Reach step a b ∧ goal b := by
  by_cases hg : goal a
  · exact ⟨a, .refl, hg⟩
  · obtain ⟨b, hab, hb, hlt⟩ := hs a ha hg
    obtain ⟨c, hbc, hc⟩ := exists_reach_of_measure measure hs b hb
    exact ⟨c, .head hab hbc, hc⟩
termination_by measure a

/-- Some step reaches the goal, or goes down in `rank`, or it goes nowhere else in `rank` and
lowers the measure; so the goal is reached from a rank below which there is no endless
descent. -/
theorem exists_reach_of_rank {P goal : σ → Prop} {lt : τ → τ → Prop} (rank : σ → τ)
    (measure : σ → Nat)
    (hs : ∀ a, P a → ∃ b, step a b ∧ (goal b ∨ P b ∧ (lt (rank b) (rank a) ∨
      (∀ x, lt x (rank b) → lt x (rank a)) ∧ measure b < measure a)))
    (a : σ) (hacc : Acc lt (rank a)) (ha : P a) : ∃ b, Reach step a b ∧ goal b := by
  generalize hr : rank a = x at hacc
  induction hacc generalizing a with
  | intro x _ ih =>
    have hbelow : ∀ y, lt y (rank a) → lt y x := by
      intro y hy
      exact hr ▸ hy
    clear hr
    generalize hn : measure a = n
    induction n using Nat.strongRecOn generalizing a with
    | ind n ihn =>
      obtain ⟨b, hab, hgoal | ⟨hb, hlt | ⟨hlow, hlt⟩⟩⟩ := hs a ha
      · exact ⟨b, .single hab, hgoal⟩
      · obtain ⟨c, hbc, hc⟩ := ih (rank b) (hbelow _ hlt) b hb rfl
        exact ⟨c, .head hab hbc, hc⟩
      · have hbelow' : ∀ y, lt y (rank b) → lt y x := by
          intro y hy
          exact hbelow y (hlow y hy)
        obtain ⟨c, hbc, hc⟩ := ihn (measure b) (hn ▸ hlt) b hb hbelow' rfl
        exact ⟨c, .head hab hbc, hc⟩

end Runs

def Next (next : σ → Option σ) (a b : σ) : Prop := next a = some b

/-- A machine halts in one state at most. -/
theorem reach_halted_unique {next : σ → Option σ} {a b c : σ} (hb : Reach (Next next) a b)
    (hc : Reach (Next next) a c) (hbhalts : next b = none) (hchalts : next c = none) : b = c := by
  have hunique : Relator.RightUnique (Next next) := by
    intro x y z hy hz
    exact Option.some.inj (hy.symm.trans hz)
  have hstays {x y : σ} (hx : next x = none) (h : Reach (Next next) x y) : x = y := by
    rcases h.cases_head with heq | ⟨z, hz, _⟩
    · exact heq
    · rw [Next, hx] at hz
      cases hz
  rcases Relation.ReflTransGen.total_of_right_unique hunique hb hc with h | h
  · exact hstays hbhalts h
  · exact (hstays hchalts h).symm

def runFor (next : σ → Option σ) : Nat → σ → σ
  | 0, a => a
  | n + 1, a => match next a with
    | none => a
    | some b => runFor next n b

theorem runFor_succ {next : σ → Option σ} {a b : σ} (h : next a = some b) (n : Nat) :
    runFor next (n + 1) a = runFor next n b := by
  rw [runFor, h]

theorem runFor_halted {next : σ → Option σ} {a : σ} (h : next a = none) (n : Nat) :
    runFor next n a = a := by
  cases n with
  | zero => rfl
  | succ n => rw [runFor, h]

theorem guarded_runFor {ok : σ → Prop} (next : σ → Option σ) (n : Nat) (a : σ)
    (hok : ∀ k < n, ok (runFor next k a)) :
    Reach (Guarded (Next next) ok) a (runFor next n a) := by
  induction n generalizing a with
  | zero => exact .refl
  | succ n ih =>
    cases h : next a with
    | none =>
      rw [runFor_halted h]
    | some b =>
      rw [runFor_succ h]
      refine .head ⟨h, hok 0 (Nat.succ_pos n)⟩ (ih b ?_)
      intro k hk
      rw [← runFor_succ h]
      exact hok (k + 1) (Nat.succ_lt_succ hk)

theorem reach_runFor (next : σ → Option σ) (n : Nat) (a : σ) :
    Reach (Next next) a (runFor next n a) :=
  reach_of_guarded (@guarded_runFor _ (fun _ => True) next n a fun _ _ => trivial)

end Transition
