import Mathlib.Algebra.Order.Field.Basic
import Mathlib.Tactic.Linarith
import Mathlib.Tactic.LinearCombination
import Mathlib.Tactic.Positivity
import Mathlib.Tactic.Ring

/-!
# Numbers between numbers of a list

* `Between`             between two of the numbers;
* `Between.mix`         two numbers between them, mixed;
* `Between.quad`, `Between.cubic`      the points of a curve are mixed from its control points, as de Casteljau does it.
-/

namespace Spans

section
variable {K : Type*} [Field K] [LinearOrder K] [IsStrictOrderedRing K] {xs ys : List K} {x y z w a b : K}

def Between (xs : List K) (x : K) : Prop := (∃ a ∈ xs, a ≤ x) ∧ ∃ b ∈ xs, x ≤ b

omit [Field K] [IsStrictOrderedRing K] in
theorem Between.of_mem (h : x ∈ xs) : Between xs x := ⟨⟨x, h, le_refl x⟩, x, h, le_refl x⟩

omit [Field K] [IsStrictOrderedRing K] in
theorem Between.mono (h : Between xs x) (hsub : ∀ a ∈ xs, a ∈ ys) : Between ys x := by
  obtain ⟨⟨a, ha, hax⟩, b, hb, hxb⟩ := h
  exact ⟨⟨a, hsub a ha, hax⟩, b, hsub b hb, hxb⟩

omit [Field K] [IsStrictOrderedRing K] in
theorem Between.convex (hx : Between xs x) (hy : Between xs y) (hxz : x ≤ z) (hzy : z ≤ y) : Between xs z := by
  obtain ⟨a, ha, hax⟩ := hx.1
  obtain ⟨b, hb, hyb⟩ := hy.2
  exact ⟨⟨a, ha, hax.trans hxz⟩, b, hb, hzy.trans hyb⟩

theorem Between.mix (hx : Between xs x) (hy : Between xs y) (ha : 0 ≤ a) (hb : 0 ≤ b) (hab : a + b = 1) :
    Between xs (x * a + y * b) := by
  obtain rfl : a = 1 - b := by linarith
  rcases le_total x y with hle | hle
  · refine hx.convex hy ?_ ?_
    · have h := mul_nonneg (sub_nonneg.mpr hle) hb
      linarith
    · have h := mul_nonneg (sub_nonneg.mpr hle) ha
      linarith
  · refine hy.convex hx ?_ ?_
    · have h := mul_nonneg (sub_nonneg.mpr hle) ha
      linarith
    · have h := mul_nonneg (sub_nonneg.mpr hle) hb
      linarith

theorem Between.quad (hx : Between xs x) (hy : Between xs y) (hz : Between xs z) (ha : 0 ≤ a) (hb : 0 ≤ b)
    (hab : a + b = 1) : Between xs (x * (b * b) + y * (2 * a * b) + z * (a * a)) := by
  have hba : b + a = 1 := by rw [add_comm, hab]
  have h := ((hx.mix hy hb ha hba).mix (hy.mix hz hb ha hba) hb ha hba)
  have heq : x * (b * b) + y * (2 * a * b) + z * (a * a) = (x * b + y * a) * b + (y * b + z * a) * a := by ring
  rwa [heq]

theorem Between.cubic (hx : Between xs x) (hy : Between xs y) (hz : Between xs z) (hw : Between xs w) (ha : 0 ≤ a)
    (hb : 0 ≤ b) (hab : a + b = 1) :
    Between xs (x * (b * b * b) + y * (3 * a * (b * b)) + z * (3 * b * (a * a)) + w * (a * a * a)) := by
  have hba : b + a = 1 := by rw [add_comm, hab]
  have h := ((hx.quad hy hz ha hb hab).mix (hy.quad hz hw ha hb hab) hb ha hba)
  have heq : x * (b * b * b) + y * (3 * a * (b * b)) + z * (3 * b * (a * a)) + w * (a * a * a) =
      (x * (b * b) + y * (2 * a * b) + z * (a * a)) * b + (y * (b * b) + z * (2 * a * b) + w * (a * a)) * a := by ring
  rwa [heq]

end
end Spans
