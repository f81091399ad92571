import Mathlib.Logic.Function.Basic

/-!
# Tables

A table is a function to `Option`; its entries are changed one at a time by `Function.update`.

* `forall_update`   what holds of every entry still does, if it holds of the new one;
* `update_other`    an entry that is there is still there when a free place is filled;
* `update_taken`    an entry that is not the removed one.
-/

namespace Tables
variable {α β : Type*} [DecidableEq α] {table : α → Option β} {a b : α} {x : β}

theorem forall_update {P : α → β → Prop} (h : ∀ a x, table a = some x → P a x) {entry : Option β}
    (hentry : ∀ x, entry = some x → P a x) : Function.update table a entry b = some x → P b x := by
  intro hb
  rcases eq_or_ne b a with rfl | hne
  · rw [Function.update_self] at hb
    exact hentry x hb
  · rw [Function.update_of_ne hne] at hb
    exact h b x hb

theorem update_other (hfree : table a = none) (entry : Option β) (hb : table b = some x) :
    Function.update table a entry b = some x := by
  have hne : b ≠ a := by
    rintro rfl
    cases hfree.symm.trans hb
  rw [Function.update_of_ne hne, hb]

theorem update_taken (hb : Function.update table a none b = some x) : b ≠ a ∧ table b = some x := by
  rcases eq_or_ne b a with rfl | hne
  · rw [Function.update_self] at hb
    cases hb
  · rw [Function.update_of_ne hne] at hb
    exact ⟨hne, hb⟩

end Tables
