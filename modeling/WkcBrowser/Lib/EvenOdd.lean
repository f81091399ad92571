import Mathlib.Algebra.Order.Field.Basic
import Mathlib.Data.List.Rotate
import Mathlib.Algebra.Ring.Parity
import Mathlib.Tactic.Linarith
import Mathlib.Tactic.LinearCombination
import Mathlib.Tactic.FieldSimp
import Mathlib.Tactic.Positivity
import Mathlib.Tactic.Ring

/-!
# Closed polygons and the even-odd rule

* `steps`, `edges`         the steps of a walk, the edges of a closed polygon;
* `edges_rotate`, `edges_reverse`      they stay the same when the vertices are rotated, and are turned round when the
                           vertices are reversed;
* `oddly`                  whether an odd number of edges has a property;
* `oddly_closed`           two properties that differ by a property of the end points are odd together;
* `crosses`                the half-open crossing test of an edge and a ray, by the signs of three products;
* `oddly_crosses_eq`       its parity does not depend on the direction of the ray;
* `hits_iff_crosses`       for a ray that meets no vertex it is what it is to meet the ray;
* `exists_clear`           there is such a ray;
* `exists_ahead`           a point inside has vertices ahead of it in every direction.
-/

namespace EvenOdd

/-! ## closed walks -/

section
variable {α β : Type*}

def steps (a : α) : List α → List (α × α)
  | [] => []
  | b :: l => (a, b) :: steps b l

/-- the edges of a closed polygon; the first of them comes from the last vertex -/
def edges (l : List α) : List (α × α) :=
  match l.getLast? with
  | none => []
  | some last => steps last l

theorem edges_cons (a : α) (l : List α) : edges (a :: l) = steps (l.getLastD a) (a :: l) := by
  unfold edges
  rw [List.getLast?_cons]
  show steps (l.getLast?.getD a) _ = _
  rw [← List.getLastD_eq_getLast?]

theorem edges_concat (l : List α) (b : α) : edges (l ++ [b]) = steps b (l ++ [b]) := by
  unfold edges
  rw [List.getLast?_concat]

theorem steps_append (a : α) (l m : List α) : steps a (l ++ m) = steps a l ++ steps (l.getLastD a) m := by
  induction l generalizing a with
  | nil => rfl
  | cons b l ih => rw [List.cons_append, steps, ih, steps, List.cons_append, List.getLastD_cons]

theorem steps_map (f : α → β) (a : α) (l : List α) : steps (f a) (l.map f) = (steps a l).map (Prod.map f f) := by
  induction l generalizing a with
  | nil => rfl
  | cons b l ih => rw [List.map_cons, steps, ih, steps, List.map_cons, Prod.map_apply]

theorem edges_map (f : α → β) (l : List α) : edges (l.map f) = (edges l).map (Prod.map f f) := by
  cases l with
  | nil => rfl
  | cons a l => rw [List.map_cons, edges_cons, List.getLastD_map, ← List.map_cons, steps_map, edges_cons]

theorem edges_turn (a : α) (l : List α) : (edges (l ++ [a])).Perm (edges (a :: l)) := by
  rw [edges_concat, edges_cons, steps_append]
  exact List.perm_append_comm

theorem edges_rotate (l : List α) (n : Nat) : (edges (l.rotate n)).Perm (edges l) := by
  induction n generalizing l with
  | zero => rw [List.rotate_zero]
  | succ n ih =>
    cases l with
    | nil => rw [List.rotate_nil]
    | cons a l =>
      rw [List.rotate_cons_succ]
      exact (ih (l ++ [a])).trans (edges_turn a l)

theorem steps_reverse (a b : α) (l : List α) :
    (steps b (l.reverse ++ [a])).Perm ((steps a (l ++ [b])).map Prod.swap) := by
  induction l generalizing a with
  | nil => exact List.Perm.refl _
  | cons c l ih =>
    rw [List.reverse_cons, steps_append, List.getLastD_concat]
    show (_ ++ [(c, a)]).Perm ((c, a) :: (steps c (l ++ [b])).map Prod.swap)
    exact List.perm_append_comm.trans ((ih c).cons (c, a))

theorem edges_reverse (l : List α) : (edges l.reverse).Perm ((edges l).map Prod.swap) := by
  cases l with
  | nil => exact List.Perm.refl _
  | cons a l =>
    rw [List.reverse_cons, edges_concat]
    refine (steps_reverse a a l).trans ?_
    rw [← edges_concat]
    exact (edges_turn a l).map _

theorem steps_ends {a : α} {l : List α} {e : α × α} (he : e ∈ steps a l) : e.1 ∈ a :: l ∧ e.2 ∈ l := by
  induction l generalizing a with
  | nil => exact absurd he List.not_mem_nil
  | cons b l ih =>
    rcases List.mem_cons.mp he with rfl | he
    · exact ⟨List.mem_cons_self, List.mem_cons_self⟩
    · obtain ⟨h1, h2⟩ := ih he
      exact ⟨List.mem_cons_of_mem a h1, List.mem_cons_of_mem b h2⟩

theorem exists_step {a v : α} {l : List α} (hv : v ∈ a :: l) (hlast : v ≠ l.getLastD a) : ∃ w, (v, w) ∈ steps a l := by
  induction l generalizing a with
  | nil => exact absurd (List.mem_singleton.mp hv) hlast
  | cons b l ih =>
    rw [List.getLastD_cons] at hlast
    rcases List.mem_cons.mp hv with rfl | hv
    · exact ⟨b, List.mem_cons_self⟩
    · obtain ⟨w, hw⟩ := ih hv hlast
      exact ⟨w, List.mem_cons_of_mem _ hw⟩

theorem edges_ends {l : List α} {e : α × α} (he : e ∈ edges l) : e.1 ∈ l ∧ e.2 ∈ l := by
  cases l with
  | nil => exact absurd he List.not_mem_nil
  | cons a l =>
    rw [edges_cons] at he
    obtain ⟨h1, h2⟩ := steps_ends he
    refine ⟨?_, h2⟩
    rcases List.mem_cons.mp h1 with h | h
    · rw [h]
      exact List.getLastD_mem_cons
    · exact h

theorem exists_edge {l : List α} {v : α} (hv : v ∈ l) : ∃ w, (v, w) ∈ edges l := by
  cases l with
  | nil => exact absurd hv List.not_mem_nil
  | cons a l =>
    rw [edges_cons]
    by_cases hlast : v = l.getLastD a
    · exact ⟨a, by rw [hlast]; exact List.mem_cons_self⟩
    · exact exists_step (List.mem_cons_of_mem _ hv) (by rwa [List.getLastD_cons])

/-! ## odd numbers of edges -/

def oddly (f : α → α → Bool) : List (α × α) → Bool
  | [] => false
  | e :: es => xor (f e.1 e.2) (oddly f es)

theorem oddly_iff {f : α → α → Bool} {es : List (α × α)} : oddly f es ↔ Odd (es.countP fun e => f e.1 e.2) := by
  induction es with
  | nil => simp [oddly]
  | cons e es ih =>
    rw [oddly, List.countP_cons]
    cases hf : f e.1 e.2 with
    | false => simpa using ih
    | true =>
      rw [if_pos rfl, Nat.odd_add_one, ← ih]
      simp

theorem oddly_map (f : β → β → Bool) (g : α → β) (es : List (α × α)) :
    oddly f (es.map (Prod.map g g)) = oddly (fun a b => f (g a) (g b)) es := by
  induction es with
  | nil => rfl
  | cons e es ih => rw [List.map_cons, oddly, ih, oddly, Prod.map_fst, Prod.map_snd]

variable {f g : α → α → Bool} (S : α → Bool)

theorem oddly_steps {a : α} {l : List α}
    (h : ∀ e ∈ steps a l, xor (f e.1 e.2) (g e.1 e.2) = xor (S e.1) (S e.2)) :
    xor (oddly f (steps a l)) (oddly g (steps a l)) = xor (S a) (S (l.getLastD a)) := by
  induction l generalizing a with
  | nil => exact (Bool.xor_self _).symm
  | cons b l ih =>
    have hfirst := h (a, b) List.mem_cons_self
    have hrest := ih fun e he => h e (List.mem_cons_of_mem _ he)
    rw [List.getLastD_cons]
    calc xor (xor (f a b) (oddly f (steps b l))) (xor (g a b) (oddly g (steps b l)))
      _ = xor (xor (f a b) (g a b)) (xor (oddly f (steps b l)) (oddly g (steps b l))) := by
        rw [Bool.xor_assoc, Bool.xor_left_comm (oddly f (steps b l)), ← Bool.xor_assoc]
      _ = xor (xor (S a) (S b)) (xor (S b) (S (l.getLastD b))) := by rw [hfirst, hrest]
      _ = xor (S a) (S (l.getLastD b)) := by
        rw [Bool.xor_assoc, ← Bool.xor_assoc (S b), Bool.xor_self, Bool.false_xor]

theorem oddly_closed {l : List α} (h : ∀ e ∈ edges l, xor (f e.1 e.2) (g e.1 e.2) = xor (S e.1) (S e.2)) :
    oddly f (edges l) = oddly g (edges l) := by
  cases l with
  | nil => rfl
  | cons a l =>
    rw [edges_cons] at h ⊢
    have hxor := oddly_steps S h
    rw [List.getLastD_cons, Bool.xor_self] at hxor
    simpa using hxor

end

/-! ## rays and edges -/

section
variable {K : Type*} [Field K] {p d u a b v : K × K}

/-- twice the area between a direction and the way to a point: its sign is the side of the ray that the point is on -/
def side (p d v : K × K) : K := d.1 * (v.2 - p.2) - d.2 * (v.1 - p.1)

/-- twice the area of a triangle -/
def area (p a b : K × K) : K := (a.1 - p.1) * (b.2 - p.2) - (a.2 - p.2) * (b.1 - p.1)

theorem area_swap : area p b a = - area p a b := by
  unfold area
  ring

theorem side_mul : side p d a * (b.1 - p.1) - side p d b * (a.1 - p.1) = - (d.1 * area p a b) ∧
    side p d a * (b.2 - p.2) - side p d b * (a.2 - p.2) = - (d.2 * area p a b) := by
  unfold side area
  constructor <;> ring

theorem plucker : (d.1 * u.2 - d.2 * u.1) * area p a b = side p d a * side p u b - side p u a * side p d b := by
  unfold side area
  ring

variable [LinearOrder K] [IsStrictOrderedRing K]

theorem sq_add_sq_pos (hd : d ≠ 0) : 0 < d.1 * d.1 + d.2 * d.2 := by
  rcases ne_or_eq d.1 0 with h1 | h1
  · exact add_pos_of_pos_of_nonneg (mul_self_pos.mpr h1) (mul_self_nonneg _)
  · have h2 : d.2 ≠ 0 := fun h2 => hd (Prod.ext h1 h2)
    exact add_pos_of_nonneg_of_pos (mul_self_nonneg _) (mul_self_pos.mpr h2)

def OnSegment (p a b : K × K) : Prop :=
  ∃ t, 0 ≤ t ∧ t ≤ 1 ∧ p.1 = a.1 + t * (b.1 - a.1) ∧ p.2 = a.2 + t * (b.2 - a.2)

def OnRay (p d v : K × K) : Prop := ∃ s, 0 ≤ s ∧ v.1 = p.1 + s * d.1 ∧ v.2 = p.2 + s * d.2

/-- The ray from `p` in the direction `d` meets the segment from `a` to `b`. -/
def Hits (p d a b : K × K) : Prop :=
  ∃ s t, 0 ≤ s ∧ 0 ≤ t ∧ t ≤ 1 ∧ p.1 + s * d.1 = a.1 + t * (b.1 - a.1) ∧ p.2 + s * d.2 = a.2 + t * (b.2 - a.2)

def pos (p d v : K × K) : Bool := decide (0 < side p d v)

/-- The edge goes from one side of the ray's line to the other, in front; a point on the line counts as on the right. -/
def crosses (p d a b : K × K) : Bool :=
  pos p d a && !pos p d b && decide (area p a b < 0) || !pos p d a && pos p d b && decide (0 < area p a b)

theorem crosses_swap : crosses p d b a = crosses p d a b := by
  have hneg : decide (area p b a < 0) = decide (0 < area p a b) := by
    rw [decide_eq_decide, area_swap, Left.neg_neg_iff]
  have hpos : decide (0 < area p b a) = decide (area p a b < 0) := by
    rw [decide_eq_decide, area_swap, Left.neg_pos_iff]
  unfold crosses
  rw [hneg, hpos, Bool.or_comm, Bool.and_comm (pos p d b), Bool.and_comm (!pos p d b)]

theorem onSegment_swap (h : OnSegment p a b) : OnSegment p b a := by
  obtain ⟨t, h0, h1, hx, hy⟩ := h
  refine ⟨1 - t, by linarith, by linarith, ?_, ?_⟩
  · rw [hx]
    ring
  · rw [hy]
    ring

theorem hits_swap (h : Hits p d a b) : Hits p d b a := by
  obtain ⟨s, t, hs, h0, h1, hx, hy⟩ := h
  refine ⟨s, 1 - t, hs, by linarith, by linarith, ?_, ?_⟩
  · rw [hx]
    ring
  · rw [hy]
    ring

theorem side_ne (h : pos p d a ≠ pos p d b) :
    side p d a - side p d b ≠ 0 ∧ 0 ≤ side p d a / (side p d a - side p d b) ∧
      side p d a / (side p d a - side p d b) ≤ 1 := by
  unfold pos at h
  rcases lt_or_ge 0 (side p d a) with ha | ha
  · rcases lt_or_ge 0 (side p d b) with hb | hb
    · simp [ha, hb] at h
    · have hdiff : 0 < side p d a - side p d b := by linarith
      exact ⟨hdiff.ne', by positivity, (div_le_one hdiff).mpr (by linarith)⟩
  · rcases lt_or_ge 0 (side p d b) with hb | hb
    · have hdiff : side p d a - side p d b < 0 := by linarith
      exact ⟨hdiff.ne, div_nonneg_of_nonpos ha hdiff.le, (div_le_one_of_neg hdiff).mpr (by linarith)⟩
    · simp [ha.not_gt, hb.not_gt] at h

theorem area_ne (h : pos p d a ≠ pos p d b) (hoff : ¬ OnSegment p a b) : area p a b ≠ 0 := by
  intro harea
  obtain ⟨hne, h0, h1⟩ := side_ne h
  obtain ⟨hx, hy⟩ := side_mul (p := p) (d := d) (a := a) (b := b)
  rw [harea, mul_zero, neg_zero] at hx hy
  refine hoff ⟨side p d a / (side p d a - side p d b), h0, h1, ?_, ?_⟩
  all_goals
    field_simp
    linarith

theorem mul_nonpos_of_sides {x y : K} (h : decide (0 < x) ≠ decide (0 < y)) : x * y ≤ 0 := by
  rcases lt_or_ge 0 x with hx | hx
  · rcases lt_or_ge 0 y with hy | hy
    · simp [hx, hy] at h
    · exact mul_nonpos_of_nonneg_of_nonpos hx.le hy
  · rcases lt_or_ge 0 y with hy | hy
    · exact mul_nonpos_of_nonpos_of_nonneg hx hy.le
    · simp [hx.not_gt, hy.not_gt] at h

/-- the signs of `x`, `y`, `z`, `w` and of `x * w - y * z`, as far as one follows from the others -/
theorem sign_table (pa pb ua ub neg pos : Bool) (hboth : ¬ (neg = true ∧ pos = true))
    (hpp : pa = true → ub = true → ua ≠ pb → pos = true) (hnn : ua = true → pb = true → pa ≠ ub → neg = true)
    (hpn : pa = false → ub = false → ua ≠ pb → neg = false) (hnp : ua = false → pb = false → pa ≠ ub → pos = false)
    (hd : pa ≠ pb → neg = true ∨ pos = true) (hu : ua ≠ ub → neg = true ∨ pos = true) :
    xor (pa && !pb && neg || !pa && pb && pos) (ua && !ub && neg || !ua && ub && pos) =
      xor (pa && !ua) (pb && !ub) := by
  revert hboth hpp hnn hpn hnp hd hu
  cases neg <;> cases pos <;> cases pa <;> cases pb <;> cases ua <;> cases ub <;> simp

/-- Between two rays lies a sector: an edge that misses the point goes into it or out of it exactly if it crosses one of
the two. -/
theorem crosses_sector (hdu : 0 < d.1 * u.2 - d.2 * u.1) (hoff : ¬ OnSegment p a b) :
    xor (crosses p d a b) (crosses p u a b) = xor (pos p d a && !pos p u a) (pos p d b && !pos p u b) := by
  have hC := plucker (p := p) (d := d) (u := u) (a := a) (b := b)
  have hsign : ∀ q : K × K, pos p q a ≠ pos p q b → decide (area p a b < 0) = true ∨ decide (0 < area p a b) = true := by
    intro q hq
    rw [decide_eq_true_iff, decide_eq_true_iff]
    exact lt_or_gt_of_ne (area_ne hq hoff)
  refine sign_table _ _ _ _ _ _ ?_ ?_ ?_ ?_ ?_ (hsign d) (hsign u)
  · simp only [decide_eq_true_eq]
    exact fun h => absurd h.1 h.2.not_gt
  · intro ha hb hne
    have hfirst := mul_pos (of_decide_eq_true ha) (of_decide_eq_true hb)
    have hsecond := mul_nonpos_of_sides hne
    refine decide_eq_true (lt_of_mul_lt_mul_left ?_ hdu.le)
    rw [mul_zero, hC]
    linarith
  · intro ha hb hne
    have hfirst := mul_nonpos_of_sides hne
    have hsecond := mul_pos (of_decide_eq_true ha) (of_decide_eq_true hb)
    refine decide_eq_true (lt_of_mul_lt_mul_left ?_ hdu.le)
    rw [mul_zero, hC]
    linarith
  · intro ha hb hne
    have hfirst := mul_nonneg_of_nonpos_of_nonpos (not_lt.mp (of_decide_eq_false ha)) (not_lt.mp (of_decide_eq_false hb))
    have hsecond := mul_nonpos_of_sides hne
    refine decide_eq_false (not_lt.mpr (le_of_mul_le_mul_left ?_ hdu))
    rw [mul_zero, hC]
    linarith
  · intro ha hb hne
    have hfirst := mul_nonpos_of_sides hne
    have hsecond := mul_nonneg_of_nonpos_of_nonpos (not_lt.mp (of_decide_eq_false ha)) (not_lt.mp (of_decide_eq_false hb))
    refine decide_eq_false (not_lt.mpr (le_of_mul_le_mul_left ?_ hdu))
    rw [mul_zero, hC]
    linarith

/-! ## parity -/

section
variable {l : List (K × K)} (hoff : ∀ e ∈ edges l, ¬ OnSegment p e.1 e.2)
include hoff

theorem oddly_crosses_turn (hdu : 0 < d.1 * u.2 - d.2 * u.1) :
    oddly (crosses p d) (edges l) = oddly (crosses p u) (edges l) :=
  oddly_closed (fun v => pos p d v && !pos p u v) fun e he => crosses_sector hdu (hoff e he)

theorem oddly_crosses_apart (hdu : d.1 * u.2 - d.2 * u.1 ≠ 0) :
    oddly (crosses p d) (edges l) = oddly (crosses p u) (edges l) := by
  rcases lt_or_gt_of_ne hdu with h | h
  · exact (oddly_crosses_turn hoff (by linarith)).symm
  · exact oddly_crosses_turn hoff h

theorem oddly_crosses_eq (hd : d ≠ 0) (hu : u ≠ 0) :
    oddly (crosses p d) (edges l) = oddly (crosses p u) (edges l) := by
  by_cases hdu : d.1 * u.2 - d.2 * u.1 = 0
  · -- two directions on one line: a third one is across
    have hprod := mul_pos (sq_add_sq_pos hd) (sq_add_sq_pos hu)
    refine (oddly_crosses_apart hoff (u := (-d.2, d.1)) ?_).trans (oddly_crosses_apart hoff ?_)
    · have h := sq_add_sq_pos hd
      show d.1 * d.1 - d.2 * -d.2 ≠ 0
      linarith
    · intro hacross
      change -d.2 * u.2 - d.1 * u.1 = 0 at hacross
      have hzero : (d.1 * d.1 + d.2 * d.2) * (u.1 * u.1 + u.2 * u.2) = 0 := by
        linear_combination (d.1 * u.2 - d.2 * u.1) * hdu + (-d.2 * u.2 - d.1 * u.1) * hacross
      exact hprod.ne' hzero
  · exact oddly_crosses_apart hoff hdu

end

/-! ## rays that meet no vertex -/

theorem behind (hd : d ≠ 0) (hside : side p d v = 0) (hray : ¬ OnRay p d v) :
    ∃ c, c < 0 ∧ v.1 - p.1 = c * d.1 ∧ v.2 - p.2 = c * d.2 := by
  unfold side at hside
  obtain ⟨c, hx, hy⟩ : ∃ c, v.1 - p.1 = c * d.1 ∧ v.2 - p.2 = c * d.2 := by
    by_cases h1 : d.1 = 0
    · have h2 : d.2 ≠ 0 := fun h2 => hd (Prod.ext h1 h2)
      refine ⟨(v.2 - p.2) / d.2, ?_, (div_mul_cancel₀ _ h2).symm⟩
      rw [h1, zero_mul, zero_sub, neg_eq_zero] at hside
      rw [h1, mul_zero]
      exact (mul_eq_zero.mp hside).resolve_left h2
    · refine ⟨(v.1 - p.1) / d.1, (div_mul_cancel₀ _ h1).symm, ?_⟩
      field_simp
      linarith
  refine ⟨c, not_le.mp fun hc => hray ⟨c, hc, by linarith, by linarith⟩, hx, hy⟩

theorem crosses_of_hits (hd : d ≠ 0) (ha : ¬ OnRay p d a) (hb : ¬ OnRay p d b) (hoff : ¬ OnSegment p a b)
    (h : Hits p d a b) : crosses p d a b := by
  obtain ⟨s, t, hs, h0, h1, hx, hy⟩ := h
  have hs' : 0 < s := by
    refine lt_of_le_of_ne hs fun h => hoff ⟨t, h0, h1, ?_, ?_⟩
    · rw [← hx, ← h, zero_mul, add_zero]
    · rw [← hy, ← h, zero_mul, add_zero]
  -- the point where they meet is on the line of the ray, between the ends
  have hmeet : (1 - t) * side p d a + t * side p d b = 0 := by
    unfold side
    linear_combination d.2 * hx - d.1 * hy
  have harea : area p a b = s * (side p d b - side p d a) := by
    unfold area side
    linear_combination (a.2 - b.2) * hx + (b.1 - a.1) * hy
  have ht0 : 0 < t := by
    refine lt_of_le_of_ne h0 fun h => ha ⟨s, hs, ?_, ?_⟩
    · rw [hx, ← h, zero_mul, add_zero]
    · rw [hy, ← h, zero_mul, add_zero]
  have ht1 : 0 < 1 - t := by
    refine sub_pos.mpr (lt_of_le_of_ne h1 fun h => hb ⟨s, hs, ?_, ?_⟩)
    · rw [hx, h, one_mul, add_sub_cancel]
    · rw [hy, h, one_mul, add_sub_cancel]
  unfold crosses pos
  rcases lt_trichotomy 0 (side p d a) with hsa | hsa | hsa
  · have hsb : side p d b < 0 := by
      refine lt_of_mul_lt_mul_left ?_ ht0.le
      have h := mul_pos ht1 hsa
      linarith
    have hneg : area p a b < 0 := by
      rw [harea]
      exact mul_neg_of_pos_of_neg hs' (by linarith)
    simp [hsa, hsb.not_gt, hneg]
  · -- an edge on the line of the ray, behind the point
    exfalso
    rw [← hsa, mul_zero, zero_add] at hmeet
    have hsb := (mul_eq_zero.mp hmeet).resolve_left ht0.ne'
    obtain ⟨c, hc, hcx, hcy⟩ := behind hd hsa.symm ha
    obtain ⟨e, he, hex, hey⟩ := behind hd hsb hb
    have hfront : s = (1 - t) * c + t * e := by
      by_contra hne
      refine hd (Prod.ext ?_ ?_)
      · refine (mul_eq_zero.mp ?_).resolve_left (sub_ne_zero.mpr hne)
        linear_combination hx + (1 - t) * hcx + t * hex
      · refine (mul_eq_zero.mp ?_).resolve_left (sub_ne_zero.mpr hne)
        linear_combination hy + (1 - t) * hcy + t * hey
    have h1 := mul_neg_of_pos_of_neg ht1 hc
    have h2 := mul_neg_of_pos_of_neg ht0 he
    linarith
  · have hsb : 0 < side p d b := by
      refine lt_of_mul_lt_mul_left ?_ ht0.le
      have h := mul_neg_of_pos_of_neg ht1 hsa
      linarith
    have hpos : 0 < area p a b := by
      rw [harea]
      exact mul_pos hs' (by linarith)
    simp [hsa.not_gt, hsb, hpos]

theorem hits_of_crosses (hcross : crosses p d a b) : Hits p d a b := by
  have hsides : pos p d a ≠ pos p d b := by
    intro h
    unfold crosses at hcross
    rw [h] at hcross
    cases hp : pos p d b <;> simp [hp] at hcross
  obtain ⟨hne, ht0, ht1⟩ := side_ne hsides
  obtain ⟨hx, hy⟩ := side_mul (p := p) (d := d) (a := a) (b := b)
  refine ⟨- area p a b / (side p d a - side p d b), side p d a / (side p d a - side p d b), ?_, ht0, ht1, ?_, ?_⟩
  · unfold crosses pos at hcross
    simp only [Bool.or_eq_true, Bool.and_eq_true, Bool.not_eq_true', decide_eq_true_eq, decide_eq_false_iff_not,
      not_lt] at hcross
    rcases hcross with ⟨⟨hsa, hsb⟩, harea⟩ | ⟨⟨hsa, hsb⟩, harea⟩
    · exact div_nonneg (by linarith) (by linarith)
    · exact div_nonneg_of_nonpos (by linarith) (by linarith)
  · field_simp
    linear_combination - hx
  · field_simp
    linear_combination - hy

theorem hits_iff_crosses (hd : d ≠ 0) (ha : ¬ OnRay p d a) (hb : ¬ OnRay p d b) (hoff : ¬ OnSegment p a b) :
    Hits p d a b ↔ crosses p d a b :=
  ⟨crosses_of_hits hd ha hb hoff, hits_of_crosses⟩

open Classical in
/-- how many edges of a closed polygon a ray meets -/
noncomputable def hits (p d : K × K) (l : List (K × K)) : Nat :=
  (edges l).countP fun e => decide (Hits p d e.1 e.2)

/-- a ray that meets no vertex -/
structure Clear (p d : K × K) (l : List (K × K)) : Prop where
  direction : d ≠ 0
  vertices : ∀ v ∈ l, ¬ OnRay p d v

variable {l l' : List (K × K)}

theorem odd_hits_iff (hclear : Clear p d l) (hoff : ∀ e ∈ edges l, ¬ OnSegment p e.1 e.2) :
    Odd (hits p d l) ↔ oddly (crosses p d) (edges l) := by
  rw [oddly_iff]
  unfold hits
  rw [List.countP_congr]
  intro e he
  obtain ⟨h1, h2⟩ := edges_ends he
  simp only [decide_eq_true_eq]
  exact hits_iff_crosses hclear.direction (hclear.vertices _ h1) (hclear.vertices _ h2) (hoff e he)

omit [IsStrictOrderedRing K] in
theorem hits_perm (h : (edges l').Perm (edges l)) : hits p d l' = hits p d l := h.countP_eq _

theorem hits_reverse : hits p d l.reverse = hits p d l := by
  unfold hits
  rw [(edges_reverse l).countP_eq, List.countP_map]
  refine List.countP_congr fun e _ => ?_
  simp only [Function.comp_apply, decide_eq_true_eq]
  exact ⟨hits_swap, hits_swap⟩

theorem exists_clear (hp : p ∉ l) : ∃ d, Clear p d l := by
  obtain ⟨m, hm⟩ : ∃ m, ∀ v ∈ l, (v.2 - p.2) / (v.1 - p.1) < m := by
    induction l with
    | nil => exact ⟨0, fun v hv => absurd hv List.not_mem_nil⟩
    | cons v l ih =>
      obtain ⟨m, hm⟩ := ih fun h => hp (List.mem_cons_of_mem v h)
      refine ⟨max m ((v.2 - p.2) / (v.1 - p.1) + 1), ?_⟩
      intro w hw
      rcases List.mem_cons.mp hw with rfl | hw
      · exact lt_of_lt_of_le (lt_add_one _) (le_max_right _ _)
      · exact lt_of_lt_of_le (hm w hw) (le_max_left _ _)
  refine ⟨(1, m), fun h => one_ne_zero (congrArg Prod.fst h), ?_⟩
  rintro v hv ⟨s, -, hx, hy⟩
  dsimp only at hx hy
  have hs : s ≠ 0 := by
    rintro rfl
    rw [zero_mul, add_zero] at hx hy
    exact hp ((Prod.ext hx hy : v = p) ▸ hv)
  refine (hm v hv).ne ?_
  rw [hx, hy, add_sub_cancel_left, add_sub_cancel_left, mul_one]
  exact mul_div_cancel_left₀ m hs

/-! ## what is ahead -/

/-- how far a point is in a direction -/
def ahead (p u v : K × K) : K := u.1 * (v.1 - p.1) + u.2 * (v.2 - p.2)

theorem crosses_away (hu : u ≠ 0) (ha : ahead p u a ≤ 0) (hb : ahead p u b ≤ 0) : crosses p u a b = false := by
  have harea : (u.1 * u.1 + u.2 * u.2) * area p a b = ahead p u a * side p u b - side p u a * ahead p u b := by
    unfold ahead side area
    ring
  have hsq := sq_add_sq_pos hu
  unfold crosses pos
  rw [Bool.eq_false_iff]
  intro h
  simp only [Bool.or_eq_true, Bool.and_eq_true, Bool.not_eq_true', decide_eq_true_eq, decide_eq_false_iff_not,
    not_lt] at h
  rcases h with ⟨⟨hsa, hsb⟩, hneg⟩ | ⟨⟨hsa, hsb⟩, hpos⟩
  · have hfirst := mul_nonneg_of_nonpos_of_nonpos ha hsb
    have hsecond := mul_nonpos_of_nonneg_of_nonpos hsa.le hb
    have hthird := mul_neg_of_pos_of_neg hsq hneg
    linarith
  · have hfirst := mul_nonpos_of_nonpos_of_nonneg ha hsb.le
    have hsecond := mul_nonneg_of_nonpos_of_nonpos hsa hb
    have hthird := mul_pos hsq hpos
    linarith

theorem exists_ahead (hclear : Clear p d l) (hoff : ∀ e ∈ edges l, ¬ OnSegment p e.1 e.2) (hodd : Odd (hits p d l))
    (hu : u ≠ 0) : ∃ v ∈ l, 0 < ahead p u v := by
  by_contra hnone
  have hbehind : ∀ v ∈ l, ahead p u v ≤ 0 := fun v hv => not_lt.mp fun h => hnone ⟨v, hv, h⟩
  rw [odd_hits_iff hclear hoff, oddly_crosses_eq hoff hclear.direction hu, oddly_iff, List.countP_eq_zero.mpr] at hodd
  · exact absurd hodd (by decide)
  · intro e he
    obtain ⟨h1, h2⟩ := edges_ends he
    rw [crosses_away hu (hbehind _ h1) (hbehind _ h2)]
    exact Bool.false_ne_true

end
end EvenOdd
