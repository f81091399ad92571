import Mathlib.Logic.Basic

/-!
# A loop whose turns end it or go on

* `Turn`, `run`           what a turn can do, and the loop with fuel;
* `run_ends`              an invariant with a size that goes down: the loop ends with what is meant;
* `ended_unique`          it ends with the same for all fuel.
-/

namespace Turns

inductive Turn (σ β : Type*)
  | next (s : σ)
  | done (b : β)

inductive Outcome (β : Type*)
  | running
  | failed
  | ended (b : β)
  deriving DecidableEq

section
variable {σ β : Type*} (turn : σ → Option (Turn σ β))

/-- a turn that is none fails -/
def run : Nat → σ → Outcome β
  | 0, _ => .running
  | fuel + 1, s =>
    match turn s with
    | none => .failed
    | some (.next s) => run fuel s
    | some (.done b) => .ended b

/-- a turn keeps the invariant and makes the state smaller, or ends the loop with what is meant -/
def Keeps (Inv : σ → Prop) (Post : β → Prop) (size : σ → Nat) (s : σ) : Prop :=
  match turn s with
  | none => False
  | some (.next s') => Inv s' ∧ size s' < size s
  | some (.done b) => Post b

variable {turn}

theorem run_ends {Inv : σ → Prop} {Post : β → Prop} (size : σ → Nat) (hturn : ∀ s, Inv s → Keeps turn Inv Post size s)
    {s : σ} (h : Inv s) : ∃ fuel b, run turn fuel s = .ended b ∧ Post b := by
  induction hsize : size s using Nat.strongRecOn generalizing s with
  | ind n ih =>
    have hkeeps := hturn s h
    unfold Keeps at hkeeps
    cases hs : turn s with
    | none =>
      rw [hs] at hkeeps
      exact hkeeps.elim
    | some t =>
      rw [hs] at hkeeps
      cases t with
      | next s' =>
        obtain ⟨fuel, b, hrun, hpost⟩ := ih (size s') (hsize ▸ hkeeps.2) hkeeps.1 rfl
        refine ⟨fuel + 1, b, ?_, hpost⟩
        rw [run, hs]
        exact hrun
      | done b =>
        refine ⟨1, b, ?_, hkeeps⟩
        rw [run, hs]

theorem ended_unique {s : σ} {b c : β} {fuel fuel' : Nat} (h : run turn fuel s = .ended b)
    (h' : run turn fuel' s = .ended c) : b = c := by
  induction fuel generalizing s fuel' with
  | zero => cases h
  | succ fuel ih =>
    cases fuel' with
    | zero => cases h'
    | succ fuel' =>
      rw [run] at h h'
      cases hs : turn s with
      | none =>
        rw [hs] at h
        cases h
      | some t =>
        rw [hs] at h h'
        cases t with
        | next s' => exact ih h h'
        | done d =>
          cases h
          cases h'
          rfl

end

end Turns
