import Mathlib.Data.List.Infix

/-!
# Runs of a deterministic step function

A system is a step function `step : σ → α → σ`; a run is the list of the actions taken.

* `run step s as`        the state after the actions `as`;
* `Along step C s as`    every action of the run is taken in a state where `C` holds of it;
* `run_inv`              what every step preserves holds after every run;
* `Along.inv`            the same, when the steps preserve it only where `C` holds;
* `Along.inv_prefix`     the same, in every state on the way;
* `Along.inv_history`    the same, for a property of the state and the actions taken so far;
* `along_iff`, `along_iff_kept`   two conditions that agree in the states of an invariant agree along runs;
* `prefix_iff_along`     a property that a step keeps exactly where `C` holds, holds in every state
                         of a run exactly if `C` holds along the run;
* `prefix_iff_along_of`  the same for the runs in which the callers keep a promise;
* `prefix_iff_along_inv` the same for a property that an invariant of such runs implies.
-/

namespace Runs

section
variable {σ α : Type*} (step : σ → α → σ)

def run (s : σ) (as : List α) : σ := as.foldl step s

theorem run_nil (s : σ) : run step s [] = s := rfl
theorem run_cons (s : σ) (a : α) (as : List α) : run step s (a :: as) = run step (step s a) as := rfl

def Along (C : σ → α → Prop) : σ → List α → Prop
  | _, [] => True
  | s, a :: as => C s a ∧ Along C (step s a) as

instance Along.decidable {C : σ → α → Prop} [∀ s a, Decidable (C s a)] :
    ∀ s as, Decidable (Along step C s as)
  | _, [] => instDecidableTrue
  | s, a :: as => @instDecidableAnd _ _ _ (Along.decidable (step s a) as)

variable {step}

theorem run_inv {P : σ → Prop} (hs : ∀ s a, P s → P (step s a)) {s : σ} (h : P s)
    (as : List α) : P (run step s as) := by
  induction as generalizing s with
  | nil => exact h
  | cons a as ih => exact ih (hs s a h)

theorem Along.inv {P : σ → Prop} {C : σ → α → Prop} (hs : ∀ s a, C s a → P s → P (step s a))
    {s : σ} {as : List α} (hC : Along step C s as) (h : P s) : P (run step s as) := by
  induction as generalizing s with
  | nil => exact h
  | cons a as ih => exact ih hC.2 (hs s a hC.1 h)

theorem Along.left {C : σ → α → Prop} {s : σ} {as bs : List α} (h : Along step C s (as ++ bs)) :
    Along step C s as := by
  induction as generalizing s with
  | nil => trivial
  | cons a as ih => exact ⟨h.1, ih h.2⟩

theorem Along.right {C : σ → α → Prop} {s : σ} {as bs : List α} (h : Along step C s (as ++ bs)) :
    Along step C (run step s as) bs := by
  induction as generalizing s with
  | nil => exact h
  | cons a as ih => exact ih h.2

theorem Along.append {C : σ → α → Prop} {s : σ} {as bs : List α} (has : Along step C s as)
    (hbs : Along step C (run step s as) bs) : Along step C s (as ++ bs) := by
  induction as generalizing s with
  | nil => exact hbs
  | cons a as ih => exact ⟨has.1, ih has.2 hbs⟩

theorem Along.inv_prefix {P : σ → Prop} {C : σ → α → Prop}
    (hs : ∀ s a, C s a → P s → P (step s a)) {s : σ} {as : List α} (hC : Along step C s as)
    (h : P s) : ∀ pre, pre <+: as → P (run step s pre) := by
  rintro pre ⟨post, rfl⟩
  exact hC.left.inv hs h

/-- the invariant may speak about the actions taken so far -/
theorem Along.inv_history {P : List α → σ → Prop} {C : σ → α → Prop}
    (hs : ∀ past s a, C s a → P past s → P (past ++ [a]) (step s a)) {s : σ} {as : List α}
    (hC : Along step C s as) {past : List α} (h : P past s) : P (past ++ as) (run step s as) := by
  induction as generalizing s past with
  | nil =>
    rw [List.append_nil]
    exact h
  | cons a as ih =>
    have hnext := ih hC.2 (hs past s a hC.1 h)
    rw [List.append_assoc] at hnext
    exact hnext

theorem Along.and {C D : σ → α → Prop} {s : σ} {as : List α} (hC : Along step C s as)
    (hD : Along step D s as) : Along step (fun s a => C s a ∧ D s a) s as := by
  induction as generalizing s with
  | nil => trivial
  | cons a as ih => exact ⟨⟨hC.1, hD.1⟩, ih hC.2 hD.2⟩

/-- the invariant may be one that a step keeps only where `D` holds -/
theorem along_iff_kept {P : σ → Prop} {C D : σ → α → Prop} (hP : ∀ s a, D s a → P s → P (step s a))
    (hCD : ∀ s a, P s → (C s a ↔ D s a)) {s : σ} (h : P s) (as : List α) :
    Along step C s as ↔ Along step D s as := by
  induction as generalizing s with
  | nil => exact Iff.rfl
  | cons a as ih =>
    constructor
    · rintro ⟨hC, hrest⟩
      have hD := (hCD s a h).mp hC
      exact ⟨hD, (ih (hP s a hD h)).mp hrest⟩
    · rintro ⟨hD, hrest⟩
      exact ⟨(hCD s a h).mpr hD, (ih (hP s a hD h)).mpr hrest⟩

theorem along_iff {P : σ → Prop} {C D : σ → α → Prop} (hP : ∀ s a, P s → P (step s a))
    (hCD : ∀ s a, P s → (C s a ↔ D s a)) {s : σ} (h : P s) (as : List α) :
    Along step C s as ↔ Along step D s as :=
  along_iff_kept (fun s a _ => hP s a) hCD h as

theorem along_true (s : σ) (as : List α) : Along step (fun _ _ => True) s as := by
  induction as generalizing s with
  | nil => trivial
  | cons a as ih => exact ⟨trivial, ih (step s a)⟩

/-- for the runs whose actions meet `D`, such as what the callers promise -/
theorem prefix_iff_along_of {I P : σ → Prop} {C D : σ → α → Prop} (hI : ∀ s a, D s a → I s → I (step s a))
    (hC : ∀ s a, D s a → I s → P s → (P (step s a) ↔ C s a)) {s : σ} (hi : I s) (hp : P s) {as : List α}
    (hD : Along step D s as) : (∀ pre, pre <+: as → P (run step s pre)) ↔ Along step C s as := by
  induction as generalizing s with
  | nil =>
    constructor
    · intro _; trivial
    · intro _ pre hpre
      rw [List.prefix_nil.mp hpre]
      exact hp
  | cons a as ih =>
    constructor
    · intro h
      have hnext : P (step s a) := h [a] ⟨as, rfl⟩
      refine ⟨(hC s a hD.1 hi hp).mp hnext, (ih (hI s a hD.1 hi) hnext hD.2).mp ?_⟩
      intro pre hpre
      exact h (a :: pre) (List.cons_prefix_cons.mpr ⟨rfl, hpre⟩)
    · rintro ⟨ha, has⟩ pre hpre
      have hnext := (hC s a hD.1 hi hp).mpr ha
      cases pre with
      | nil => exact hp
      | cons b pre =>
        obtain ⟨rfl, htail⟩ := List.cons_prefix_cons.mp hpre
        exact (ih (hI s _ hD.1 hi) hnext hD.2).mpr has pre htail

theorem prefix_iff_along {I P : σ → Prop} {C : σ → α → Prop} (hI : ∀ s a, I s → I (step s a))
    (hC : ∀ s a, I s → P s → (P (step s a) ↔ C s a)) {s : σ} (hi : I s) (hp : P s) (as : List α) :
    (∀ pre, pre <+: as → P (run step s pre)) ↔ Along step C s as :=
  prefix_iff_along_of (fun s a _ => hI s a) (fun s a _ => hC s a) hi hp (along_true s as)

/-- the property itself need not be one that the steps keep -/
theorem prefix_iff_along_inv {I P : σ → Prop} {C : σ → α → Prop} (hI : ∀ s a, C s a → I s → I (step s a))
    (hP : ∀ s, I s → P s) (hC : ∀ s a, I s → P (step s a) → C s a) {s : σ} (hi : I s) (as : List α) :
    (∀ pre, pre <+: as → P (run step s pre)) ↔ Along step C s as := by
  constructor
  · intro h
    induction as generalizing s with
    | nil => trivial
    | cons a as ih =>
      have ha := hC s a hi (h [a] ⟨as, rfl⟩)
      refine ⟨ha, ih (hI s a ha hi) ?_⟩
      intro pre hpre
      exact h (a :: pre) (List.cons_prefix_cons.mpr ⟨rfl, hpre⟩)
  · intro h pre hpre
    exact hP _ (h.inv_prefix hI hi pre hpre)

end

end Runs
