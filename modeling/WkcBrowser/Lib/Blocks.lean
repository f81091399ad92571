import WkcBrowser.Lib.Grids
import Mathlib.Data.List.ProdSigma
import Mathlib.Data.List.Nodup

/-!
# A line cut into blocks, and loops that collect

* `Cut`                 a line of `extent` places, cut into blocks of `size`, the last one shorter;
* `Cut.has_iff`         every place is in one block;
* `rowMajor_lt`, `rowMajor_column`, `rowMajor_row`      blocks of two lines, numbered row by row;
* `forLoop_collect`     a loop whose turns each add one result;
* `gridLoop_appends`    a loop over a grid that adds one result at every place;
* `countP_places`       a predicate that holds at one place of a grid.
-/

namespace Loops

structure Cut where
  extent : Int
  size : Int
  extent_pos : 0 < extent
  size_pos : 0 < size

namespace Cut
variable (cut : Cut) {i j p : Int}

/-- how many blocks there are -/
def count : Int := (cut.extent - 1) / cut.size + 1

/-- the places of block `i` that are on the line -/
def width (i : Int) : Int := min cut.size (cut.extent - i * cut.size)

def Has (i p : Int) : Prop := i * cut.size ≤ p ∧ p < i * cut.size + cut.width i

theorem has_iff : cut.Has i p ↔ p / cut.size = i ∧ p < cut.extent := by
  have hedge : p / cut.size = i ↔ i * cut.size ≤ p ∧ p < i * cut.size + cut.size :=
    Int.ediv_eq_iff_of_pos cut.size_pos
  rw [hedge]
  unfold Has width
  omega

theorem count_pos : 0 < cut.count := by
  have h := Int.ediv_nonneg (show 0 ≤ cut.extent - 1 from Int.sub_nonneg_of_le cut.extent_pos) cut.size_pos.le
  unfold count
  omega

theorem lt_count (hp : p < cut.extent) : p / cut.size < cut.count := by
  have h : p / cut.size ≤ (cut.extent - 1) / cut.size := Int.ediv_le_ediv cut.size_pos (by omega)
  unfold count
  omega

theorem start_lt (hi : i < cut.count) : i * cut.size < cut.extent := by
  have h : i ≤ (cut.extent - 1) / cut.size := Int.le_of_lt_add_one hi
  have hstart := (Int.le_ediv_iff_mul_le cut.size_pos).mp h
  omega

theorem width_pos (hi : i < cut.count) : 0 < cut.width i := by
  have h := cut.start_lt hi
  have hsize := cut.size_pos
  unfold width
  omega

theorem count_eq_one : cut.count = 1 ↔ cut.extent ≤ cut.size := by
  have hextent := cut.extent_pos
  have h : (cut.extent - 1) / cut.size = 0 ↔ 0 * cut.size ≤ cut.extent - 1 ∧ cut.extent - 1 < 0 * cut.size + cut.size :=
    Int.ediv_eq_iff_of_pos cut.size_pos
  unfold count
  omega

end Cut

/-! ## numbers of blocks -/

section
variable {columns rows x y : Int}

theorem rowMajor_lt (hx : 0 ≤ x) (hxc : x < columns) : y * columns + x < rows * columns ↔ y < rows := by
  constructor
  · intro h
    by_contra hy
    have hle := Int.mul_le_mul_of_nonneg_right (show rows ≤ y by omega) (show 0 ≤ columns by omega)
    omega
  · intro h
    have hle := Int.mul_le_mul_of_nonneg_right (show y + 1 ≤ rows by omega) (show 0 ≤ columns by omega)
    rw [Int.add_mul, Int.one_mul] at hle
    omega

theorem rowMajor_column (hx : 0 ≤ x) (hxc : x < columns) : (y * columns + x) % columns = x := by
  rw [Int.add_comm, Int.add_mul_emod_self_right]
  exact Int.emod_eq_of_lt hx hxc

theorem rowMajor_row (hx : 0 ≤ x) (hxc : x < columns) : (y * columns + x) / columns = y := by
  rw [Int.add_comm, Int.add_mul_ediv_right _ _ (by omega), Int.ediv_eq_zero_of_lt hx hxc, Int.zero_add]

end

/-! ## loops that collect -/

section
variable {α σ : Type*}

theorem forLoop_collect {f : Nat → Option α} {n : Nat} {out : List α} :
    forLoop n (fun i acc => (f i).map fun a => acc ++ [a]) [] = some out ↔ (List.range n).map f = out.map some := by
  induction n generalizing out with
  | zero =>
    rw [forLoop, List.range_zero, List.map_nil, Option.some_inj, eq_comm (a := []), eq_comm (a := []),
      List.map_eq_nil_iff]
  | succ n ih =>
    rw [forLoop, Option.bind_eq_some_iff, List.range_succ, List.map_append, List.map_singleton]
    constructor
    · rintro ⟨acc, hacc, hout⟩
      obtain ⟨a, ha, rfl⟩ := Option.map_eq_some_iff.mp hout
      rw [ih.mp hacc, ha, List.map_append, List.map_singleton]
    · intro h
      obtain ⟨acc, last, rfl, hacc, hlast⟩ := List.map_eq_append_iff.mp h.symm
      obtain ⟨a, rfl, ha⟩ := List.map_eq_singleton_iff.mp hlast
      exact ⟨acc, ih.mpr hacc.symm, by rw [← ha, Option.map_some]⟩

variable {view : σ → List α} {P : σ → Prop} {s : σ}

theorem forLoop_appends {n : Nat} {body : Nat → σ → Option σ} {f : Nat → List α}
    (h : ∀ i s, i < n → P s → ∃ t, body i s = some t ∧ P t ∧ view t = view s ++ f i) (hs : P s) :
    ∃ t, forLoop n body s = some t ∧ P t ∧ view t = view s ++ (List.range n).flatMap f := by
  refine forLoop_total (fun i t => P t ∧ view t = view s ++ (List.range i).flatMap f) ⟨hs, by simp⟩ ?_
  rintro i t hi ⟨ht, hview⟩
  obtain ⟨u, hu, hP, hadd⟩ := h i t hi ht
  refine ⟨u, hu, hP, ?_⟩
  rw [hadd, hview, List.range_succ, List.flatMap_append, List.flatMap_singleton, List.append_assoc]

/-- the places of a grid, row by row -/
def places (rows columns : Nat) : List (Nat × Nat) := List.range rows ×ˢ List.range columns

theorem mem_places {rows columns : Nat} {p : Nat × Nat} : p ∈ places rows columns ↔ p.1 < rows ∧ p.2 < columns := by
  unfold places
  rw [List.mem_product, List.mem_range, List.mem_range]

theorem gridLoop_appends {rows columns : Nat} {body : Nat → Nat → σ → Option σ} {f : Nat → Nat → α}
    (h : ∀ y x s, y < rows → x < columns → P s → ∃ t, body y x s = some t ∧ P t ∧ view t = view s ++ [f y x])
    (hs : P s) :
    ∃ t, gridLoop rows columns body s = some t ∧ P t ∧
      view t = view s ++ (places rows columns).map fun p => f p.1 p.2 := by
  have hrow : ∀ y s, y < rows → P s → ∃ t, forLoop columns (body y) s = some t ∧ P t ∧
      view t = view s ++ (List.range columns).flatMap fun x => [f y x] :=
    fun y s hy hs => forLoop_appends (fun x s hx hs => h y x s hy hx hs) hs
  obtain ⟨t, ht, hP, hview⟩ := forLoop_appends hrow hs
  refine ⟨t, ht, hP, ?_⟩
  rw [hview]
  show _ = view s ++ ((List.range rows).flatMap fun y => (List.range columns).map (Prod.mk y)).map _
  simp only [List.map_flatMap, List.map_map, Function.comp_def, ← List.map_eq_flatMap]

theorem countP_places {rows columns y x : Nat} {p : Nat × Nat → Bool} (hy : y < rows) (hx : x < columns)
    (hp : ∀ q ∈ places rows columns, p q = true ↔ q = (y, x)) : (places rows columns).countP p = 1 := by
  rw [List.countP_congr (q := fun q => q == (y, x)) fun q hq => by rw [hp q hq, beq_iff_eq]]
  refine List.count_eq_one_of_mem ?_ (mem_places.mpr ⟨hy, hx⟩)
  exact List.nodup_range.product List.nodup_range

end
end Loops
