import Mathlib.Data.List.Induction
import Mathlib.Algebra.Order.Group.Nat

/-!
# Where a path leads

A segment of a path stays in the directory, goes up, or goes down to a name; a directory is the list of the names
from the root.

* `Seg`, `enter`, `resolve`   the segments one after the other;
* `climb`                     how far up a path goes at most, and the names it enters from there;
* `resolve_eq`                that is all a path does, wherever it starts;
* `within_iff`                when a path from the parent of a directory ends inside it.
-/

namespace Paths

variable {α : Type*}

inductive Seg (α : Type*) where
  | stay
  | up
  | down (name : α)
  deriving DecidableEq

/-- the root is its own parent -/
def enter (dir : List α) : Seg α → List α
  | .stay => dir
  | .up => dir.dropLast
  | .down name => dir ++ [name]

def resolve (dir : List α) (path : List (Seg α)) : List α := path.foldl enter dir

/-- one segment more -/
def climbStep (c : Nat × List α) : Seg α → Nat × List α
  | .stay => c
  | .up => if c.2 = [] then (c.1 + 1, []) else (c.1, c.2.dropLast)
  | .down name => (c.1, c.2 ++ [name])

/-- the levels a path goes up, and the names it enters from there -/
def climb (path : List (Seg α)) : Nat × List α := path.foldl climbStep (0, [])

theorem resolve_append (dir : List α) (p q : List (Seg α)) : resolve dir (p ++ q) = resolve (resolve dir p) q :=
  List.foldl_append

theorem dropLast_take (dir : List α) (k : Nat) :
    (dir.take (dir.length - k)).dropLast = dir.take (dir.length - (k + 1)) := by
  rw [List.dropLast_eq_take, List.take_take, List.length_take]
  congr 1
  omega

/-- **A path goes up and down again**: the directory it starts from matters for nothing else. -/
theorem resolve_eq (dir : List α) (path : List (Seg α)) :
    resolve dir path = dir.take (dir.length - (climb path).1) ++ (climb path).2 := by
  induction path using List.reverseRecOn with
  | nil => simp [resolve, climb]
  | append_singleton path seg ih =>
    have hclimb : climb (path ++ [seg]) = climbStep (climb path) seg := List.foldl_append
    rw [resolve_append, ih, hclimb]
    obtain ⟨k, names⟩ := climb path
    show enter _ seg = _
    cases seg with
    | stay => rfl
    | up =>
      by_cases hnames : names = []
      · rw [climbStep, if_pos hnames, hnames, List.append_nil, List.append_nil]
        exact dropLast_take dir k
      · rw [climbStep, if_neg hnames]
        exact List.dropLast_append_of_ne_nil hnames
    | down name => exact List.append_assoc _ _ _

/-! ## inside a directory -/

theorem prefix_append_iff {d s : List α} (h : d <+: s) (names : List α) (m : Nat) :
    d <+: s.take m ++ names ↔ d.drop m <+: names := by
  obtain ⟨t, rfl⟩ := h
  by_cases hm : m ≤ d.length
  · have htake : (d ++ t).take m = d.take m := List.take_append_of_le_length hm
    rw [htake]
    nth_rewrite 1 [← List.take_append_drop m d]
    exact List.prefix_append_right_inj _
  · have hfront : d <+: (d ++ t).take m := List.prefix_take_iff.mpr ⟨List.prefix_append d t, by omega⟩
    rw [List.drop_eq_nil_of_le (by omega)]
    exact ⟨fun _ => List.nil_prefix, fun _ => hfront.trans (List.prefix_append _ _)⟩

/-- **When a path from the parent of a directory ends inside it**: the names of the directory below the point where the
path turns down again are the first that it enters. -/
theorem within_iff (parent : List α) (seg : Seg α) (path : List (Seg α)) :
    enter parent seg <+: resolve parent path
      ↔ (enter parent seg).drop (parent.length - (climb path).1) <+: (climb path).2 := by
  rw [resolve_eq]
  cases seg with
  | stay => exact prefix_append_iff (List.prefix_refl parent) _ _
  | up => exact prefix_append_iff (List.dropLast_prefix parent) _ _
  | down name =>
    show parent ++ [name] <+: _ ↔ (parent ++ [name]).drop _ <+: _
    have htake : parent.take (parent.length - (climb path).1)
        = (parent ++ [name]).take (parent.length - (climb path).1) :=
      (List.take_append_of_le_length (Nat.sub_le _ _)).symm
    rw [htake]
    exact prefix_append_iff (List.prefix_refl _) _ _

end Paths
