import WkcBrowser.Graphics.PathPolygons
import WkcBrowser.Lib.EvenOdd
import Mathlib.Algebra.Order.Ring.Unbundled.Rat
import Mathlib.Data.Rat.Lemmas

/-!
# Hit tests of polygons

* `PathPolygon.contains`      the walk round the polygon, with its memory of the side the test line was entered from;
* `turn_of`                   what a turn of the walk can do;
* `walk_none_iff`             when the backward search leaves the vertices;
* `walk_touch`                what lies on a vertical edge or at a vertex is found;
* `walk_parity`               the count of the walk is odd with the half-open crossings of the ray upwards;
* `evenOddRule_iff`           the hit test is the even-odd rule, or reads outside the polygon.

Coordinates are rational numbers.
-/

namespace Wkc
namespace Paths
open EvenOdd

structure HitState where
  intersected : Nat
  /-- unknown is `none` -/
  wasNegative : Option Bool
  point1 : PathPoint ℚ

inductive Turn where
  | next (s : HitState)
  | answer (b : Bool)
  /-- it reads a vertex that is none of the polygon -/
  | outside

/-- The search goes back from vertex `i` and passes `end()` before it comes to `i` again: at the front of the polygon it
reads what is behind its last vertex. -/
def searchBack (polygon : PathPolygon ℚ) (x : ℚ) : Nat → Option Bool
  | 0 => none
  | j + 1 =>
    match polygon[j]? with
    | none => none
    | some v => if v.m_x ≠ x then some (if v.m_x > x then false else true) else searchBack polygon x j

/-- one turn of the loop of `contains`, at vertex `i` -/
def turn (polygon : PathPolygon ℚ) (point : PathPoint ℚ) (i : Nat) (s : HitState) (point2 : PathPoint ℚ) : Turn :=
  if s.point1.m_x ≠ point.m_x then
    if point2.m_x = point.m_x then
      .next { s with wasNegative := some (if s.point1.m_x < point.m_x then true else false), point1 := point2 }
    else if decide (point2.m_x < point.m_x) ≠ decide (s.point1.m_x < point.m_x) then
      let y := (point2.m_y - s.point1.m_y) / (point2.m_x - s.point1.m_x) * (point.m_x - s.point1.m_x) + s.point1.m_y
      .next { s with intersected := if y ≥ point.m_y then s.intersected + 1 else s.intersected, point1 := point2 }
    else .next { s with point1 := point2 }
  else if s.point1.m_y = point.m_y then .answer true
  else if s.point1.m_y > point.m_y then
    if point2.m_x = point.m_x then
      if point2.m_y ≤ point.m_y then .answer true else .next { s with point1 := point2 }
    else
      match s.wasNegative.or (searchBack polygon point.m_x i) with
      | none => .outside
      | some wasNegative =>
        let leaves := if wasNegative then decide (point2.m_x > point.m_x) else decide (point2.m_x < point.m_x)
        .next
          { intersected := if leaves then s.intersected + 1 else s.intersected
            wasNegative := some wasNegative, point1 := point2 }
  else if point2.m_x = point.m_x ∧ point2.m_y ≥ point.m_y then .answer true
  else .next { s with point1 := point2 }

/-- the loop, from vertex `i` on -/
def walk (polygon : PathPolygon ℚ) (point : PathPoint ℚ) (i : Nat) : List (PathPoint ℚ) → HitState → Option Bool
  | [], s => some (decide (s.intersected % 2 = 1))
  | point2 :: rest, s =>
    match turn polygon point i s point2 with
    | .next s => walk polygon point (i + 1) rest s
    | .answer b => some b
    | .outside => none

/-- It fails where it reads outside the polygon. -/
def PathPolygon.contains (polygon : PathPolygon ℚ) (point : PathPoint ℚ) : Option Bool :=
  if polygon.length < 3 then some false
  else
    match polygon.getLast? with
    | none => none
    | some last => walk polygon point 0 polygon { intersected := 0, wasNegative := none, point1 := last }

/-! ## what is wanted -/

def PathPoint.pair (v : PathPoint ℚ) : ℚ × ℚ := (v.m_x, v.m_y)

/-- at a vertex, or on an edge that is vertical -/
def OnVertical (polygon : PathPolygon ℚ) (point : PathPoint ℚ) : Prop :=
  point ∈ polygon ∨ ∃ e ∈ edges polygon, e.1.m_x = e.2.m_x ∧ OnSegment point.pair e.1.pair e.2.pair

def OffBoundary (polygon : PathPolygon ℚ) (point : PathPoint ℚ) : Prop :=
  ∀ e ∈ edges polygon, ¬ OnSegment point.pair e.1.pair e.2.pair

/-- the polygon, its vertices rotated or reversed -/
def Turned (polygon other : PathPolygon ℚ) : Prop := other ~r polygon ∨ other ~r polygon.reverse

/-- The hit test is the even-odd rule. -/
def EvenOddRule (polygon : PathPolygon ℚ) (point : PathPoint ℚ) : Prop :=
  ∃ b, PathPolygon.contains polygon point = some b ∧
    (OnVertical polygon point → b = true) ∧
    (OffBoundary polygon point →
      (∀ d, Clear point.pair d (polygon.map PathPoint.pair) →
        (b = true ↔ Odd (hits point.pair d (polygon.map PathPoint.pair)))) ∧
      ∀ other, Turned polygon other → ∀ b', PathPolygon.contains other point = some b' → b' = b)

/-- The walk begins on the test line, above the point, and leaves it there. -/
def StartsAbove (polygon : PathPolygon ℚ) (point : PathPoint ℚ) : Prop :=
  (∃ last, polygon.getLast? = some last ∧ last.m_x = point.m_x ∧ point.m_y < last.m_y) ∧
    (∃ v ∈ polygon, v.m_x ≠ point.m_x) ∧
    ∀ v ∈ polygon.takeWhile fun v => v.m_x = point.m_x, point.m_y < v.m_y

/-- what the hit test needs: with three vertices, a walk that does not begin so; with fewer, a point off the vertices -/
def Tested (polygon : PathPolygon ℚ) (point : PathPoint ℚ) : Prop :=
  if 3 ≤ polygon.length then ¬ StartsAbove polygon point else ¬ OnVertical polygon point

/-! ## one turn -/

def up : ℚ × ℚ := (0, 1)

def upCross (point a b : PathPoint ℚ) : Bool := crosses point.pair up a.pair b.pair

/-- The edge from `a` is at the point where it touches the test line, or lies on the line with the point on it. -/
def Touches (point a b : PathPoint ℚ) : Prop :=
  a.m_x = point.m_x ∧ (a.m_y = point.m_y ∨ b.m_x = point.m_x ∧
    (a.m_y > point.m_y ∧ b.m_y ≤ point.m_y ∨ a.m_y < point.m_y ∧ point.m_y ≤ b.m_y))

section
variable {point a b : PathPoint ℚ}

theorem touches_onSegment (h : Touches point a b) : OnSegment point.pair a.pair b.pair := by
  obtain ⟨hax, hay | ⟨hbx, hside⟩⟩ := h
  · exact ⟨0, le_refl 0, zero_le_one, by simp [PathPoint.pair, hax], by simp [PathPoint.pair, hay]⟩
  · have hdiff : a.m_y - b.m_y ≠ 0 := by
      rcases hside with h | h
      · exact (show 0 < a.m_y - b.m_y by linarith [h.1, h.2]).ne'
      · exact (show a.m_y - b.m_y < 0 by linarith [h.1, h.2]).ne
    refine ⟨(a.m_y - point.m_y) / (a.m_y - b.m_y), ?_, ?_, ?_, ?_⟩
    · rcases hside with h | h
      · exact div_nonneg (by linarith [h.1]) (by linarith [h.1, h.2])
      · exact div_nonneg_of_nonpos (by linarith [h.1]) (by linarith [h.1, h.2])
    · rcases hside with h | h
      · exact (div_le_one (by linarith [h.1, h.2])).mpr (by linarith [h.2])
      · exact (div_le_one_of_neg (by linarith [h.1, h.2])).mpr (by linarith [h.2])
    · simp [PathPoint.pair, hax, hbx]
    · show point.m_y = a.m_y + (a.m_y - point.m_y) / (a.m_y - b.m_y) * (b.m_y - a.m_y)
      field_simp
      ring

theorem between_ne {x y z t : ℚ} (h0 : 0 ≤ t) (h1 : t ≤ 1) (hx : x < z) (hy : y < z) : z ≠ x + t * (y - x) := by
  intro h
  have hfirst := mul_nonneg h0 (sub_pos.mpr hy).le
  have hsecond := mul_nonneg (sub_nonneg.mpr h1) (sub_pos.mpr hx).le
  have ht := (mul_eq_zero.mp (show t * (z - y) = 0 by linarith)).resolve_right (sub_pos.mpr hy).ne'
  rw [ht, zero_mul, add_zero] at h
  exact hx.ne' h

theorem vertical_touches (hvertical : a.m_x = b.m_x) (h : OnSegment point.pair a.pair b.pair) : Touches point a b := by
  obtain ⟨t, h0, h1, hx, hy⟩ := h
  change point.m_x = a.m_x + t * (b.m_x - a.m_x) at hx
  change point.m_y = a.m_y + t * (b.m_y - a.m_y) at hy
  rw [hvertical, sub_self, mul_zero, add_zero] at hx
  refine ⟨hvertical.trans hx.symm, ?_⟩
  rcases lt_trichotomy a.m_y point.m_y with hlt | heq | hgt
  · exact Or.inr ⟨hx.symm, Or.inr ⟨hlt, not_lt.mp fun hb => between_ne h0 h1 hlt hb hy⟩⟩
  · exact Or.inl heq
  · refine Or.inr ⟨hx.symm, Or.inl ⟨hgt, not_lt.mp fun hb => ?_⟩⟩
    exact between_ne h0 h1 (neg_lt_neg hgt) (neg_lt_neg hb) (by linear_combination - hy)

theorem pos_up : pos point.pair up a.pair = decide (a.m_x < point.m_x) := by
  unfold pos
  rw [decide_eq_decide]
  show 0 < 0 * (a.m_y - point.m_y) - 1 * (a.m_x - point.m_x) ↔ _
  constructor <;> intro h <;> linarith

theorem area_pair : area point.pair a.pair b.pair =
    (a.m_x - point.m_x) * (b.m_y - point.m_y) - (a.m_y - point.m_y) * (b.m_x - point.m_x) := rfl

theorem upCross_getting (ha : a.m_x ≠ point.m_x) (hb : b.m_x = point.m_x) :
    upCross point a b = (decide (a.m_x < point.m_x) && decide (point.m_y < b.m_y)) := by
  unfold upCross crosses
  rw [pos_up, pos_up, area_pair, hb, sub_self, mul_zero, sub_zero]
  rcases lt_or_gt_of_ne ha with h | h
  · have hneg : (a.m_x - point.m_x) * (b.m_y - point.m_y) < 0 ↔ point.m_y < b.m_y := by
      rw [← sub_pos (a := b.m_y)]
      constructor
      · intro hmul
        by_contra hle
        exact hmul.not_ge (mul_nonneg_of_nonpos_of_nonpos (by linarith) (not_lt.mp hle))
      · exact mul_neg_of_neg_of_pos (by linarith)
    simp [h, hneg]
  · simp [h.not_gt]

theorem upCross_leaving (ha : a.m_x = point.m_x) (hb : b.m_x ≠ point.m_x) :
    upCross point a b = (decide (point.m_y < a.m_y) && decide (b.m_x < point.m_x)) := by
  unfold upCross
  rw [← crosses_swap]
  exact (upCross_getting hb ha).trans (Bool.and_comm _ _)

theorem upCross_along (ha : a.m_x = point.m_x) (hb : b.m_x = point.m_x) : upCross point a b = false := by
  unfold upCross crosses
  rw [pos_up, pos_up, ha, hb]
  simp

theorem upCross_same (h : decide (b.m_x < point.m_x) = decide (a.m_x < point.m_x)) : upCross point a b = false := by
  unfold upCross crosses
  rw [pos_up, pos_up, h]
  cases decide (a.m_x < point.m_x) <;> rfl

theorem upCross_apart (ha : a.m_x ≠ point.m_x) (hb : b.m_x ≠ point.m_x)
    (h : decide (b.m_x < point.m_x) ≠ decide (a.m_x < point.m_x)) (hoff : ¬ OnSegment point.pair a.pair b.pair) :
    upCross point a b = decide ((b.m_y - a.m_y) / (b.m_x - a.m_x) * (point.m_x - a.m_x) + a.m_y ≥ point.m_y) := by
  have hsides : pos point.pair up a.pair ≠ pos point.pair up b.pair := by
    rw [pos_up, pos_up]
    exact h.symm
  have hne := area_ne hsides hoff
  have hdiff : b.m_x - a.m_x ≠ 0 := by
    intro hzero
    rw [sub_eq_zero.mp hzero] at h
    exact h rfl
  have hy : (b.m_y - a.m_y) / (b.m_x - a.m_x) * (point.m_x - a.m_x) + a.m_y - point.m_y =
      - area point.pair a.pair b.pair / (b.m_x - a.m_x) := by
    rw [area_pair]
    field_simp
    ring
  have hge : (b.m_y - a.m_y) / (b.m_x - a.m_x) * (point.m_x - a.m_x) + a.m_y ≥ point.m_y ↔
      0 ≤ - area point.pair a.pair b.pair / (b.m_x - a.m_x) := by
    rw [← hy]
    exact sub_nonneg.symm
  rw [Bool.eq_iff_iff, decide_eq_true_iff, hge]
  unfold upCross crosses
  rw [pos_up, pos_up]
  rcases lt_or_gt_of_ne ha with ha' | ha'
  · have hb' : point.m_x < b.m_x := by
      refine lt_of_le_of_ne (not_lt.mp fun hlt => h ?_) hb.symm
      rw [decide_eq_true ha', decide_eq_true hlt]
    rw [le_div_iff₀ (by linarith), zero_mul, neg_nonneg]
    simp [ha', hb'.not_gt, lt_iff_le_and_ne, hne]
  · have hb' : b.m_x < point.m_x := by
      by_contra hle
      exact h (by rw [decide_eq_false hle, decide_eq_false ha'.not_gt])
    rw [neg_div, ← div_neg, le_div_iff₀ (by linarith), zero_mul]
    simp [ha'.not_gt, hb', lt_iff_le_and_ne, hne.symm]

end

/-- what a turn of the walk does when it comes to the vertex `v` -/
inductive TurnOf (polygon : PathPolygon ℚ) (point : PathPoint ℚ) (i : Nat) (s : HitState) (v : PathPoint ℚ) : Turn → Prop
  | getting (hfrom : s.point1.m_x ≠ point.m_x) (hto : v.m_x = point.m_x) :
    TurnOf polygon point i s v
      (.next { s with wasNegative := some (decide (s.point1.m_x < point.m_x)), point1 := v })
  | passing (hfrom : s.point1.m_x ≠ point.m_x) (hto : v.m_x ≠ point.m_x) (n : Nat)
      (hn : ¬ OnSegment point.pair s.point1.pair v.pair → n = s.intersected + (upCross point s.point1 v).toNat) :
    TurnOf polygon point i s v (.next { s with intersected := n, point1 := v })
  | touching (h : Touches point s.point1 v) : TurnOf polygon point i s v (.answer true)
  | staying (hfrom : s.point1.m_x = point.m_x) (hto : v.m_x = point.m_x)
      (hside : point.m_y < s.point1.m_y ∧ point.m_y < v.m_y ∨ s.point1.m_y < point.m_y ∧ v.m_y < point.m_y) :
    TurnOf polygon point i s v (.next { s with point1 := v })
  | below (hfrom : s.point1.m_x = point.m_x) (hbelow : s.point1.m_y < point.m_y) (hto : v.m_x ≠ point.m_x) :
    TurnOf polygon point i s v (.next { s with point1 := v })
  | above (hfrom : s.point1.m_x = point.m_x) (habove : point.m_y < s.point1.m_y) (hto : v.m_x ≠ point.m_x) (w : Bool)
      (hw : s.wasNegative.or (searchBack polygon point.m_x i) = some w) :
    TurnOf polygon point i s v
      (.next
        { intersected := s.intersected + (xor w (decide (v.m_x < point.m_x))).toNat
          wasNegative := some w, point1 := v })
  | lost (hfrom : s.point1.m_x = point.m_x) (habove : point.m_y < s.point1.m_y) (hto : v.m_x ≠ point.m_x)
      (hw : s.wasNegative.or (searchBack polygon point.m_x i) = none) :
    TurnOf polygon point i s v .outside

theorem turn_of (polygon : PathPolygon ℚ) (point : PathPoint ℚ) (i : Nat) (s : HitState) (v : PathPoint ℚ) :
    TurnOf polygon point i s v (turn polygon point i s v) := by
  unfold turn
  by_cases hfrom : s.point1.m_x = point.m_x
  · rw [if_neg (not_not.mpr hfrom)]
    rcases lt_trichotomy s.point1.m_y point.m_y with hlt | heq | hgt
    · rw [if_neg hlt.ne, if_neg hlt.not_gt]
      by_cases hto : v.m_x = point.m_x
      · by_cases hon : v.m_y ≥ point.m_y
        · rw [if_pos ⟨hto, hon⟩]
          exact .touching ⟨hfrom, Or.inr ⟨hto, Or.inr ⟨hlt, hon⟩⟩⟩
        · rw [if_neg fun h => hon h.2]
          exact .staying hfrom hto (Or.inr ⟨hlt, not_le.mp hon⟩)
      · rw [if_neg fun h => hto h.1]
        exact .below hfrom hlt hto
    · rw [if_pos heq]
      exact .touching ⟨hfrom, Or.inl heq⟩
    · rw [if_neg hgt.ne', if_pos hgt]
      by_cases hto : v.m_x = point.m_x
      · rw [if_pos hto]
        by_cases hon : v.m_y ≤ point.m_y
        · rw [if_pos hon]
          exact .touching ⟨hfrom, Or.inr ⟨hto, Or.inl ⟨hgt, hon⟩⟩⟩
        · rw [if_neg hon]
          exact .staying hfrom hto (Or.inl ⟨hgt, not_le.mp hon⟩)
      · rw [if_neg hto]
        cases hw : s.wasNegative.or (searchBack polygon point.m_x i) with
        | none => exact .lost hfrom hgt hto hw
        | some w =>
          have hcount : (if (if w then decide (v.m_x > point.m_x) else decide (v.m_x < point.m_x)) then s.intersected + 1
              else s.intersected) = s.intersected + (xor w (decide (v.m_x < point.m_x))).toNat := by
            rcases lt_or_gt_of_ne hto with h | h <;> (cases w <;> simp [h, h.not_gt])
          dsimp only
          rw [hcount]
          exact .above hfrom hgt hto w hw
  · rw [if_pos hfrom]
    by_cases hto : v.m_x = point.m_x
    · have hside : (if s.point1.m_x < point.m_x then true else false) = decide (s.point1.m_x < point.m_x) := by
        split <;> simp_all
      rw [if_pos hto, hside]
      exact .getting hfrom hto
    · rw [if_neg hto]
      by_cases happart : decide (v.m_x < point.m_x) ≠ decide (s.point1.m_x < point.m_x)
      · rw [if_pos happart]
        refine .passing hfrom hto _ fun hoff => ?_
        rw [upCross_apart hfrom hto happart hoff]
        split <;> simp_all
      · rw [if_neg happart]
        refine .passing hfrom hto s.intersected fun _ => ?_
        rw [upCross_same (not_not.mp happart)]
        rfl

/-! ## the walk -/

section
variable {polygon : PathPolygon ℚ} {point : PathPoint ℚ}

/-- As long as the side is unknown and the walk is on the line, it has been there from the beginning. -/
def Early (point : PathPoint ℚ) (s : HitState) (pre : PathPolygon ℚ) : Prop :=
  s.wasNegative = none → s.point1.m_x = point.m_x → ∀ v ∈ pre, v.m_x = point.m_x

theorem searchBack_line {i : Nat} (h : ∀ v ∈ polygon.take i, v.m_x = point.m_x) :
    searchBack polygon point.m_x i = none := by
  induction i with
  | zero => rfl
  | succ j ih =>
    rw [searchBack]
    have hrest := ih fun v hv => h v (List.take_subset_take_left polygon (Nat.le_succ j) hv)
    cases hv : polygon[j]? with
    | none => rfl
    | some v =>
      have hline : v.m_x = point.m_x := by
        refine h v (List.mem_of_getElem? (i := j) ?_)
        rw [List.getElem?_take_of_lt (Nat.lt_succ_self j), hv]
      dsimp only
      rw [if_neg (not_not.mpr hline), hrest]

/-- Where the walk leaves the line with the side unknown, the search finds nothing. -/
theorem Early.lost {s : HitState} {pre rest : PathPolygon ℚ} (h : Early point s pre) (hpolygon : polygon = pre ++ rest)
    (hfrom : s.point1.m_x = point.m_x) {w : Bool}
    (hw : s.wasNegative.or (searchBack polygon point.m_x pre.length) = some w) : s.wasNegative = some w := by
  cases hs : s.wasNegative with
  | some w' =>
    rw [hs] at hw
    exact hw
  | none =>
    rw [hs, Option.none_or, searchBack_line] at hw
    · exact absurd hw (by simp)
    · rw [hpolygon, List.take_left]
      exact h hs hfrom

theorem Early.snoc {s s' : HitState} {pre : PathPolygon ℚ} {v : PathPoint ℚ} (h : Early point s pre)
    (hkept : s'.wasNegative = none → v.m_x = point.m_x → s.wasNegative = none ∧ s.point1.m_x = point.m_x)
    (hpoint : s'.point1 = v) : Early point s' (pre ++ [v]) := by
  intro hnone hline w hw
  rw [hpoint] at hline
  obtain ⟨hs, hfrom⟩ := hkept hnone hline
  rcases List.mem_append.mp hw with hw | hw
  · exact h hs hfrom w hw
  · rw [List.mem_singleton.mp hw]
    exact hline

/-- what makes the walk leave the vertices -/
def Lost (point : PathPoint ℚ) (s : HitState) (rest : PathPolygon ℚ) : Prop :=
  s.wasNegative = none ∧ (s.point1.m_x = point.m_x ∧ point.m_y < s.point1.m_y) ∧ (∃ v ∈ rest, v.m_x ≠ point.m_x) ∧
    ∀ v ∈ rest.takeWhile fun v => v.m_x = point.m_x, point.m_y < v.m_y

/-! ### a turn that goes on -/

section
variable {i : Nat} {s s' : HitState} {v : PathPoint ℚ} {pre rest : PathPolygon ℚ}

theorem turn_point1 (h : TurnOf polygon point i s v (.next s')) : s'.point1 = v := by
  cases h <;> rfl

theorem turn_kept (h : TurnOf polygon point i s v (.next s')) (hfrom : s.point1.m_x = point.m_x)
    (hto : v.m_x = point.m_x) : s'.wasNegative = s.wasNegative := by
  cases h with
  | getting hoff | passing hoff => exact absurd hfrom hoff
  | staying _ _ hside => rfl
  | below _ _ hoff | above _ _ hoff => exact absurd hto hoff

theorem Early.turn (hearly : Early point s pre) (h : TurnOf polygon point i s v (.next s')) :
    Early point s' (pre ++ [v]) := by
  refine hearly.snoc ?_ (turn_point1 h)
  intro hnone hline
  cases h with
  | getting hfrom hto => exact absurd hnone (by simp)
  | passing hfrom hto n hn => exact absurd hline hto
  | staying hfrom hto hside => exact ⟨hnone, hfrom⟩
  | below hfrom hbelow hto => exact absurd hline hto
  | above hfrom habove hto w hw => exact absurd hnone (by simp)

theorem turn_lost (hpolygon : polygon = pre ++ rest) (hearly : Early point s pre) {more : PathPolygon ℚ}
    (h : TurnOf polygon point pre.length s v (.next s')) : Lost point s' more ↔ Lost point s (v :: more) := by
  cases h with
  | getting hfrom hto => exact iff_of_false (fun h => absurd h.1 (by simp)) fun h => hfrom h.2.1.1
  | passing hfrom hto n hn => exact iff_of_false (fun h => hto h.2.1.1) fun h => hfrom h.2.1.1
  | staying hfrom hto hside =>
    unfold Lost
    rw [List.takeWhile_cons_of_pos (by simpa using hto), List.forall_mem_cons, List.exists_mem_cons_iff]
    rcases hside with ⟨h1, h2⟩ | ⟨h1, h2⟩
    · simp [hfrom, hto, h1, h2]
    · simp [h1.not_gt, h2.not_gt]
  | below hfrom hbelow hto => exact iff_of_false (fun h => hto h.2.1.1) fun h => hbelow.not_gt h.2.1.2
  | above hfrom habove hto w hw =>
    have hs := hearly.lost hpolygon hfrom hw
    refine iff_of_false (fun h => absurd h.1 (by simp)) fun h => ?_
    exact absurd (hs.symm.trans h.1) (by simp)

end

theorem walk_none_iff {pre rest : PathPolygon ℚ} {s : HitState} (hpolygon : polygon = pre ++ rest)
    (hearly : Early point s pre) : walk polygon point pre.length rest s = none ↔ Lost point s rest := by
  induction rest generalizing pre s with
  | nil =>
    refine iff_of_false (by simp [walk]) ?_
    rintro ⟨-, -, ⟨v, hv, -⟩, -⟩
    exact absurd hv List.not_mem_nil
  | cons v rest ih =>
    have hturn := turn_of polygon point pre.length s v
    rw [walk]
    generalize turn polygon point pre.length s v = t at hturn
    cases t with
    | next s' =>
      have hpolygon' : polygon = (pre ++ [v]) ++ rest := by rw [hpolygon, List.append_assoc, List.singleton_append]
      have hrest := ih hpolygon' (hearly.turn hturn)
      rw [List.length_append, List.length_singleton] at hrest
      exact hrest.trans (turn_lost hpolygon hearly hturn)
    | answer b =>
      cases hturn with
      | touching h =>
        refine iff_of_false (by simp) fun hlost => ?_
        obtain ⟨-, ⟨-, habove⟩, -, hrun⟩ := hlost
        obtain ⟨-, heq | ⟨hto, ⟨-, hside⟩ | ⟨hside, -⟩⟩⟩ := h
        · exact habove.ne' heq
        · rw [List.takeWhile_cons_of_pos (by simpa using hto)] at hrun
          exact (hrun v List.mem_cons_self).not_ge hside
        · exact habove.not_gt hside
    | outside =>
      cases hturn with
      | lost hfrom habove hto hw =>
        refine iff_of_true rfl ⟨(Option.or_eq_none_iff.mp hw).1, ⟨hfrom, habove⟩, ⟨v, List.mem_cons_self, hto⟩, ?_⟩
        rw [List.takeWhile_cons_of_neg (by simpa using hto)]
        exact fun w hw => absurd hw List.not_mem_nil

theorem walk_touch {rest : PathPolygon ℚ} {i : Nat} {s : HitState} {b : Bool} (hwalk : walk polygon point i rest s = some b)
    {e : PathPoint ℚ × PathPoint ℚ} (he : e ∈ steps s.point1 rest) (htouch : Touches point e.1 e.2) : b = true := by
  induction rest generalizing i s with
  | nil => exact absurd he List.not_mem_nil
  | cons v rest ih =>
    have hturn := turn_of polygon point i s v
    rw [walk] at hwalk
    generalize turn polygon point i s v = t at hturn hwalk
    -- a turn that does not touch goes on
    have hrest : ¬ Touches point s.point1 v → e ∈ steps v rest := by
      intro hnot
      refine (List.mem_cons.mp he).resolve_left fun h => hnot ?_
      rwa [h] at htouch
    cases hturn with
    | getting hfrom | passing hfrom => exact ih hwalk (hrest fun h => hfrom h.1)
    | touching h => exact (Option.some.inj hwalk).symm
    | staying hfrom hto hside =>
      refine ih hwalk (hrest fun h => ?_)
      obtain ⟨-, h | ⟨-, ⟨h1, h2⟩ | ⟨h1, h2⟩⟩⟩ := h
      · rcases hside with hside | hside
        · exact hside.1.ne' h
        · exact hside.1.ne h
      · rcases hside with hside | hside
        · exact hside.2.not_ge h2
        · exact hside.1.not_gt h1
      · rcases hside with hside | hside
        · exact hside.1.not_gt h1
        · exact hside.2.not_ge h2
    | below hfrom hbelow hto =>
      refine ih hwalk (hrest fun h => ?_)
      exact h.2.elim hbelow.ne fun h => hto h.1
    | above hfrom habove hto w hw =>
      refine ih hwalk (hrest fun h => ?_)
      exact h.2.elim habove.ne' fun h => hto h.1
    | lost hfrom habove hto hw => exact absurd hwalk (by simp)

/-! ### parity -/

/-- The walk is on the line above the point and came from the left: it has yet to count. -/
def pending (point : PathPoint ℚ) (s : HitState) : Bool :=
  decide (s.point1.m_x = point.m_x) && decide (point.m_y < s.point1.m_y) && s.wasNegative == some true

theorem pending_off {s : HitState} (h : s.point1.m_x ≠ point.m_x) : pending point s = false := by
  unfold pending
  rw [decide_eq_false h, Bool.false_and, Bool.false_and]

theorem odd_add (n : Nat) (c : Bool) : decide ((n + c.toNat) % 2 = 1) = xor (decide (n % 2 = 1)) c := by
  rcases Nat.mod_two_eq_zero_or_one n with h | h <;> (cases c <;> simp [Nat.add_mod, h])

theorem turn_parity {pre rest : PathPolygon ℚ} {s s' : HitState} {v : PathPoint ℚ} (hpolygon : polygon = pre ++ rest)
    (hearly : Early point s pre) (hoff : ¬ OnSegment point.pair s.point1.pair v.pair)
    (h : TurnOf polygon point pre.length s v (.next s')) :
    xor (decide (s'.intersected % 2 = 1)) (pending point s') =
      xor (xor (decide (s.intersected % 2 = 1)) (pending point s)) (upCross point s.point1 v) := by
  cases h with
  | getting hfrom hto =>
    rw [pending_off hfrom, upCross_getting hfrom hto, Bool.xor_false]
    congr 1
    unfold pending
    cases hneg : decide (s.point1.m_x < point.m_x) <;> simp [hto]
  | passing hfrom hto n hn => rw [pending_off hfrom, pending_off hto, hn hoff, odd_add, Bool.xor_false, Bool.xor_false]
  | staying hfrom hto hside =>
    rw [upCross_along hfrom hto, Bool.xor_false]
    congr 1
    unfold pending
    rcases hside with ⟨h1, h2⟩ | ⟨h1, h2⟩
    · simp [hfrom, hto, h1, h2]
    · simp [h1.not_gt, h2.not_gt]
  | below hfrom hbelow hto =>
    have hnone : pending point s = false := by
      unfold pending
      simp [hbelow.not_gt]
    rw [hnone, pending_off hto, upCross_leaving hfrom hto, decide_eq_false hbelow.not_gt, Bool.false_and, Bool.xor_false,
      Bool.xor_false]
  | above hfrom habove hto w hw =>
    have hs := hearly.lost hpolygon hfrom hw
    have hpending : pending point s = w := by
      unfold pending
      rw [hs]
      cases w <;> simp [hfrom, habove]
    rw [pending_off hto, odd_add, hpending, upCross_leaving hfrom hto, decide_eq_true habove, Bool.true_and,
      Bool.xor_false, Bool.xor_assoc]

theorem walk_parity {pre rest : PathPolygon ℚ} {s : HitState} {b : Bool} (hpolygon : polygon = pre ++ rest)
    (hearly : Early point s pre) (hwalk : walk polygon point pre.length rest s = some b)
    (hoff : ∀ e ∈ steps s.point1 rest, ¬ OnSegment point.pair e.1.pair e.2.pair)
    (hend : ¬ ((rest.getLastD s.point1).m_x = point.m_x ∧ point.m_y < (rest.getLastD s.point1).m_y) ∨
      s.wasNegative = none ∧ s.point1.m_x = point.m_x ∧ ∀ v ∈ rest, v.m_x = point.m_x) :
    b = xor (xor (decide (s.intersected % 2 = 1)) (pending point s)) (oddly (upCross point) (steps s.point1 rest)) := by
  induction rest generalizing pre s with
  | nil =>
    have hnone : pending point s = false := by
      unfold pending
      rcases hend with h | ⟨h, -, -⟩
      · rw [List.getLastD_nil] at h
        rw [← Bool.decide_and, decide_eq_false h, Bool.false_and]
      · simp [h]
    rw [walk] at hwalk
    rw [← Option.some.inj hwalk, hnone, steps, oddly, Bool.xor_false, Bool.xor_false]
  | cons v rest ih =>
    rw [List.getLastD_cons, List.forall_mem_cons] at hend
    rw [steps, List.forall_mem_cons] at hoff
    obtain ⟨hfirst, hoff⟩ := hoff
    have hturn := turn_of polygon point pre.length s v
    rw [walk] at hwalk
    generalize turn polygon point pre.length s v = t at hturn hwalk
    rw [steps, oddly]
    cases t with
    | next s' =>
      have hpolygon' : polygon = (pre ++ [v]) ++ rest := by rw [hpolygon, List.append_assoc, List.singleton_append]
      have hpoint := turn_point1 hturn
      have hrest := ih hpolygon' (hearly.turn hturn) (by rwa [List.length_append, List.length_singleton])
        (by rwa [hpoint]) (by
          rw [hpoint]
          rcases hend with hend | ⟨hnone, hfrom, hto, hrest⟩
          · exact Or.inl hend
          · exact Or.inr ⟨(turn_kept hturn hfrom hto).trans hnone, hto, hrest⟩)
      rw [hpoint, turn_parity hpolygon hearly hfirst hturn, Bool.xor_assoc] at hrest
      exact hrest
    | answer b =>
      cases hturn with
      | touching h => exact absurd (touches_onSegment h) hfirst
    | outside => exact absurd hwalk (by simp)

theorem run_above {a : PathPoint ℚ} {rest : PathPolygon ℚ} (hline : a.m_x = point.m_x) (habove : point.m_y < a.m_y)
    (hoff : ∀ e ∈ steps a rest, ¬ OnSegment point.pair e.1.pair e.2.pair) :
    ∀ v ∈ rest.takeWhile fun v => v.m_x = point.m_x, point.m_y < v.m_y := by
  induction rest generalizing a with
  | nil => exact fun v hv => absurd hv List.not_mem_nil
  | cons b rest ih =>
    rw [steps, List.forall_mem_cons] at hoff
    by_cases hb : b.m_x = point.m_x
    · have hbabove : point.m_y < b.m_y := by
        by_contra hle
        exact hoff.1 (touches_onSegment ⟨hline, Or.inr ⟨hb, Or.inl ⟨habove, not_lt.mp hle⟩⟩⟩)
      rw [List.takeWhile_cons_of_pos (by simpa using hb), List.forall_mem_cons]
      exact ⟨hbabove, ih hb hbabove hoff.2⟩
    · rw [List.takeWhile_cons_of_neg (by simpa using hb)]
      exact fun v hv => absurd hv List.not_mem_nil

end

/-! ## the hit test -/

section
variable {polygon : PathPolygon ℚ} {point : PathPoint ℚ}

theorem contains_walk (point : PathPoint ℚ) (hsize : 3 ≤ polygon.length) : ∃ last, polygon.getLast? = some last ∧
    edges polygon = steps last polygon ∧ polygon.getLastD last = last ∧
    PathPolygon.contains polygon point =
      walk polygon point 0 polygon { intersected := 0, wasNegative := none, point1 := last } := by
  have hne : polygon ≠ [] := by
    rintro rfl
    simp at hsize
  obtain ⟨last, hlast⟩ := Option.ne_none_iff_exists'.mp (mt List.getLast?_eq_none_iff.mp hne)
  refine ⟨last, hlast, ?_, ?_, ?_⟩
  · unfold edges
    rw [hlast]
  · rw [List.getLastD_eq_getLast?, hlast]
    rfl
  · unfold PathPolygon.contains
    rw [if_neg (by omega), hlast]

theorem contains_none_iff : PathPolygon.contains polygon point = none ↔ 3 ≤ polygon.length ∧ StartsAbove polygon point := by
  by_cases hsize : 3 ≤ polygon.length
  · obtain ⟨last, hlast, -, -, hwalk⟩ := contains_walk point hsize
    rw [hwalk, and_iff_right hsize]
    refine (walk_none_iff (List.nil_append polygon).symm fun _ _ v hv => absurd hv List.not_mem_nil).trans ?_
    unfold Lost StartsAbove
    rw [hlast]
    simp
  · rw [PathPolygon.contains, if_pos (by omega)]
    exact iff_of_false (by simp) fun h => hsize h.1

theorem contains_onVertical (hsize : 3 ≤ polygon.length) {b : Bool} (hb : PathPolygon.contains polygon point = some b)
    (hon : OnVertical polygon point) : b = true := by
  obtain ⟨last, -, hedges, -, hwalk⟩ := contains_walk point hsize
  rw [hwalk] at hb
  rcases hon with hvertex | ⟨e, he, hvertical, hsegment⟩
  · obtain ⟨w, hw⟩ := exists_edge hvertex
    rw [hedges] at hw
    exact walk_touch hb hw ⟨rfl, Or.inl rfl⟩
  · rw [hedges] at he
    exact walk_touch hb he (vertical_touches hvertical hsegment)

theorem pair_edges (hoff : OffBoundary polygon point) :
    ∀ e ∈ edges (polygon.map PathPoint.pair), ¬ OnSegment point.pair e.1 e.2 := by
  rw [edges_map]
  intro e he
  obtain ⟨e', he', rfl⟩ := List.mem_map.mp he
  exact hoff e' he'

theorem contains_parity {b : Bool} (hb : PathPolygon.contains polygon point = some b) (hoff : OffBoundary polygon point) :
    b = oddly (upCross point) (edges polygon) := by
  by_cases hsize : 3 ≤ polygon.length
  · obtain ⟨last, hlast, hedges, hend, hwalk⟩ := contains_walk point hsize
    have hlost : ¬ StartsAbove polygon point := by
      intro h
      rw [contains_none_iff.mpr ⟨hsize, h⟩] at hb
      exact absurd hb (by simp)
    rw [hwalk] at hb
    unfold OffBoundary at hoff
    rw [hedges] at hoff ⊢
    refine (walk_parity (List.nil_append polygon).symm (fun _ _ v hv => absurd hv List.not_mem_nil) hb hoff ?_).trans ?_
    · rw [hend]
      by_cases habove : last.m_x = point.m_x ∧ point.m_y < last.m_y
      · refine Or.inr ⟨rfl, habove.1, ?_⟩
        by_contra hleaves
        rw [not_forall] at hleaves
        obtain ⟨v, hv⟩ := hleaves
        rw [Classical.not_imp] at hv
        exact hlost ⟨⟨last, hlast, habove⟩, ⟨v, hv⟩, run_above habove.1 habove.2 hoff⟩
      · exact Or.inl habove
    · unfold pending
      simp
  · rw [PathPolygon.contains, if_pos (by omega)] at hb
    rw [← Option.some.inj hb]
    match polygon with
    | [] => rfl
    | [a] => simp [edges, steps, oddly, upCross_same]
    | [a, c] =>
      have hswap : upCross point c a = upCross point a c := crosses_swap
      simp [edges, steps, oddly, hswap]
    | a :: c :: e :: rest =>
      rw [List.length_cons, List.length_cons, List.length_cons] at hsize
      omega

theorem contains_hits {b : Bool} (hb : PathPolygon.contains polygon point = some b) (hoff : OffBoundary polygon point)
    {d : ℚ × ℚ} (hclear : Clear point.pair d (polygon.map PathPoint.pair)) :
    b = true ↔ Odd (hits point.pair d (polygon.map PathPoint.pair)) := by
  have hpair := pair_edges hoff
  rw [odd_hits_iff hclear hpair,
    oddly_crosses_eq hpair hclear.direction (u := up) (fun h => one_ne_zero (congrArg Prod.snd h)), edges_map, oddly_map,
    contains_parity hb hoff]
  rfl

theorem hits_turned {other : PathPolygon ℚ} (h : Turned polygon other) (p d : ℚ × ℚ) :
    hits p d (other.map PathPoint.pair) = hits p d (polygon.map PathPoint.pair) := by
  have hrotated : ∀ l l' : PathPolygon ℚ, l' ~r l →
      hits p d (l'.map PathPoint.pair) = hits p d (l.map PathPoint.pair) := by
    rintro l l' h
    obtain ⟨n, rfl⟩ := h.symm
    rw [List.map_rotate]
    exact hits_perm (edges_rotate _ n)
  rcases h with h | h
  · exact hrotated _ _ h
  · rw [hrotated _ _ h, List.map_reverse, hits_reverse]

theorem turned_mem {other : PathPolygon ℚ} (h : Turned polygon other) {v : PathPoint ℚ} : v ∈ other ↔ v ∈ polygon := by
  rcases h with h | h
  · exact h.mem_iff
  · exact h.mem_iff.trans List.mem_reverse

theorem offBoundary_notMem (hoff : OffBoundary polygon point) : point.pair ∉ polygon.map PathPoint.pair := by
  intro h
  obtain ⟨v, hv, hpair⟩ := List.mem_map.mp h
  obtain ⟨w, hw⟩ := exists_edge hv
  refine hoff _ hw (touches_onSegment ⟨congrArg Prod.fst hpair, Or.inl (congrArg Prod.snd hpair)⟩)

theorem offBoundary_turned {other : PathPolygon ℚ} (h : Turned polygon other) (hoff : OffBoundary polygon point) :
    OffBoundary other point := by
  have hrotated : ∀ l l' : PathPolygon ℚ, l' ~r l → OffBoundary l point → OffBoundary l' point := by
    rintro l l' h hoff e he
    obtain ⟨n, rfl⟩ := h.symm
    exact hoff e ((edges_rotate l n).mem_iff.mp he)
  rcases h with h | h
  · exact hrotated _ _ h hoff
  · refine hrotated _ _ h fun e he => ?_
    obtain ⟨e', he', rfl⟩ := List.mem_map.mp ((edges_reverse polygon).mem_iff.mp he)
    exact fun hsegment => hoff e' he' (onSegment_swap hsegment)

theorem contains_turned {other : PathPolygon ℚ} (h : Turned polygon other) (hoff : OffBoundary polygon point) {b b' : Bool}
    (hb : PathPolygon.contains polygon point = some b) (hb' : PathPolygon.contains other point = some b') : b' = b := by
  obtain ⟨d, hclear⟩ := exists_clear (offBoundary_notMem hoff)
  have hclear' : Clear point.pair d (other.map PathPoint.pair) := by
    refine ⟨hclear.direction, fun v hv => ?_⟩
    obtain ⟨w, hw, rfl⟩ := List.mem_map.mp hv
    exact hclear.vertices _ (List.mem_map_of_mem ((turned_mem h).mp hw))
  rw [Bool.eq_iff_iff, contains_hits hb' (offBoundary_turned h hoff) hclear', contains_hits hb hoff hclear, hits_turned h]

/-- The hit test is the even-odd rule exactly if its walk does not begin on the test line above the point and leave it
there; a list of one or two vertices contains nothing, not even these. -/
theorem evenOddRule_iff (polygon : PathPolygon ℚ) (point : PathPoint ℚ) :
    EvenOddRule polygon point ↔ Tested polygon point := by
  unfold Tested
  constructor
  · rintro ⟨b, hb, hon, -⟩
    split
    · rename_i hsize
      intro hstarts
      rw [contains_none_iff.mpr ⟨hsize, hstarts⟩] at hb
      exact absurd hb (by simp)
    · rename_i hsize
      intro hvertical
      rw [PathPolygon.contains, if_pos (by omega), hon hvertical] at hb
      exact absurd hb (by simp)
  · intro htested
    have hsome : PathPolygon.contains polygon point ≠ none := by
      intro hnone
      obtain ⟨hsize, hstarts⟩ := contains_none_iff.mp hnone
      rw [if_pos hsize] at htested
      exact htested hstarts
    obtain ⟨b, hb⟩ := Option.ne_none_iff_exists'.mp hsome
    refine ⟨b, hb, ?_, fun hoff => ⟨fun d hclear => contains_hits hb hoff hclear, ?_⟩⟩
    · intro hvertical
      split at htested
      · rename_i hsize
        exact contains_onVertical hsize hb hvertical
      · exact absurd hvertical htested
    · intro other hturned b' hb'
      exact contains_turned hturned hoff hb hb'

end

/-! ### a triangle with its tip on the line -/

def tip : PathPolygon ℚ := [{ m_x := 1, m_y := 1 }, { m_x := -1, m_y := 1 }, { m_x := 0, m_y := 2 }]

/-- The point is below the triangle.  The walk begins at the tip, on its line: the test reads behind the last vertex.  When
the walk begins elsewhere the answer is no. -/
theorem tip_outside :
    PathPolygon.contains tip { m_x := 0, m_y := 0 } = none ∧
      PathPolygon.contains (tip.rotate 1) { m_x := 0, m_y := 0 } = some false ∧
      ¬ EvenOddRule tip { m_x := 0, m_y := 0 } := by
  have hnone : PathPolygon.contains tip { m_x := 0, m_y := 0 } = none := by decide +kernel
  refine ⟨hnone, by decide +kernel, ?_⟩
  rintro ⟨b, hb, -⟩
  rw [hnone] at hb
  exact absurd hb (by simp)

end Paths
end Wkc
