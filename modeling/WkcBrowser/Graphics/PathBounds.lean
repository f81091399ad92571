import WkcBrowser.Graphics.HitTest
import WkcBrowser.Lib.Spans

/-!
# The bounding box of a path, and its hit test

* `PlatformPathWKC`          the box, the subpaths, the current point and the pen;
* `append`, `built`          what an element does to a path, what a list of elements does to a new one;
* `PlatformPathWKC.contains`      the hit test: first the box, then the subpaths;
* `boundingRect_covers`      the box covers the points that were given, with the first of them moved off the axes;
* `held_built`               the vertices are between these points, as long as no subpath begins outside of them;
* `shortcut_harmless`        then the box changes no hit test of a point inside a subpath.

Coordinates are rational numbers; paths have no arcs.
-/

namespace Wkc
namespace Paths
open EvenOdd Spans

/-! ## the box -/

structure FloatRect where
  x : ℚ
  y : ℚ
  width : ℚ
  height : ℚ
  deriving DecidableEq

def FloatRect.maxX (r : FloatRect) : ℚ := r.x + r.width
def FloatRect.maxY (r : FloatRect) : ℚ := r.y + r.height

def containsPoint (r : FloatRect) (p : PathPoint ℚ) : Bool :=
  decide (p.m_x ≥ r.x) && decide (p.m_y ≥ r.y) && decide (p.m_x < r.maxX) && decide (p.m_y < r.maxY)

/-- one coordinate of a box, and its size there, when a point is added -/
def inflateSpan (x width p : ℚ) : ℚ × ℚ :=
  if p < x then (p, x + width - p)
  else
    let w := p - x
    (x, if w > width then w else width)

/-- A box of zeros stands for none: no coordinate of the first point may be zero. -/
def inflateRectToContainPoint (r : FloatRect) (p : PathPoint ℚ) : FloatRect :=
  if r.width = 0 ∧ r.height = 0 ∧ r.x = 0 ∧ r.y = 0 then
    { r with x := if p.m_x = 0 then 1 / 1000 else p.m_x, y := if p.m_y = 0 then 1 / 1000 else p.m_y }
  else
    let horizontal := inflateSpan r.x r.width p.m_x
    let vertical := inflateSpan r.y r.height p.m_y
    { x := horizontal.1, y := vertical.1, width := horizontal.2, height := vertical.2 }

/-! ## the elements -/

inductive PlatformPathElement where
  | PathMoveTo (point : PathPoint ℚ)
  | PathLineTo (point : PathPoint ℚ)
  | PathQuadCurveTo (cp p : PathPoint ℚ)
  | PathBezierCurveTo (cp1 cp2 p : PathPoint ℚ)
  | PathCloseSubpath
  deriving DecidableEq

def PlatformPathElement.points : PlatformPathElement → List (PathPoint ℚ)
  | .PathMoveTo point => [point]
  | .PathLineTo point => [point]
  | .PathQuadCurveTo cp p => [cp, p]
  | .PathBezierCurveTo cp1 cp2 p => [cp1, cp2, p]
  | .PathCloseSubpath => []

def PlatformPathElement.inflateRectToContainMe (e : PlatformPathElement) (r : FloatRect) : FloatRect :=
  e.points.foldl inflateRectToContainPoint r

/-- `n` turns of the loop of `quadCurve` and of `bezier` -/
def samples (pp : ℚ → ℚ → PathPoint ℚ) (step : ℚ) : Nat → ℚ → ℚ → List (PathPoint ℚ)
  | 0, _, _ => []
  | n + 1, tA, tB =>
    let tA := tA + step
    let tB := tB - step
    pp tA tB :: samples pp step n tA tB

def quadPoint (c1 c2 c3 : PathPoint ℚ) (tA tB : ℚ) : PathPoint ℚ :=
  let a := tB * tB
  let b := 2 * tA * tB
  let c := tA * tA
  { m_x := c1.m_x * a + c2.m_x * b + c3.m_x * c
    m_y := c1.m_y * a + c2.m_y * b + c3.m_y * c }

def bezierPoint (c1 c2 c3 c4 : PathPoint ℚ) (tA tB : ℚ) : PathPoint ℚ :=
  let tAsq := tA * tA
  let tBsq := tB * tB
  let a := tBsq * tB
  let b := 3 * tA * tBsq
  let c := 3 * tB * tAsq
  let d := tAsq * tA
  { m_x := c1.m_x * a + c2.m_x * b + c3.m_x * c + c4.m_x * d
    m_y := c1.m_y * a + c2.m_y * b + c3.m_y * c + c4.m_y * d }

/-- the points that are added to the polygon -/
def quadCurve (segments : Nat) (c1 c2 c3 : PathPoint ℚ) : List (PathPoint ℚ) :=
  samples (quadPoint c1 c2 c3) (1 / segments) (segments - 1) 0 1 ++ [c3]

def bezier (segments : Nat) (c1 c2 c3 c4 : PathPoint ℚ) : List (PathPoint ℚ) :=
  samples (bezierPoint c1 c2 c3 c4) (1 / segments) (segments - 1) 0 1 ++ [c4]

/-! ## the path -/

/-- A subpath has a vertex from the start. -/
abbrev Subpath := { polygon : PathPolygon ℚ // polygon ≠ [] }

def Subpath.append (s : Subpath) (points : List (PathPoint ℚ)) : Subpath :=
  ⟨s.1 ++ points, List.append_ne_nil_of_left_ne_nil s.2 points⟩

structure PlatformPathWKC where
  m_boundingRect : FloatRect
  m_subpaths : List Subpath
  m_currentPoint : PathPoint ℚ
  m_penLifted : Bool

def origin : PathPoint ℚ := { m_x := 0, m_y := 0 }

def PlatformPathWKC.new : PlatformPathWKC :=
  { m_boundingRect := { x := 0, y := 0, width := 0, height := 0 }
    m_subpaths := [], m_currentPoint := origin, m_penLifted := true }

def ensureSubpath (s : PlatformPathWKC) : PlatformPathWKC :=
  if s.m_penLifted then
    { s with m_penLifted := false, m_subpaths := s.m_subpaths ++ [⟨[s.m_currentPoint], List.cons_ne_nil _ _⟩] }
  else s

/-- the points that an element adds to the last subpath -/
def PlatformPathElement.drawn (e : PlatformPathElement) (m_currentPoint : PathPoint ℚ) : List (PathPoint ℚ) :=
  match e with
  | .PathLineTo point => [point]
  | .PathQuadCurveTo cp p => quadCurve 50 m_currentPoint cp p
  | .PathBezierCurveTo cp1 cp2 p => bezier 100 m_currentPoint cp1 cp2 p
  | _ => []

/-- the last subpath made longer, with the current point at its end -/
def extendSubpath (s : PlatformPathWKC) (points : List (PathPoint ℚ)) : PlatformPathWKC :=
  match s.m_subpaths.getLast? with
  | none => s
  | some last =>
    let last := last.append points
    { s with m_subpaths := s.m_subpaths.dropLast ++ [last], m_currentPoint := last.1.getLast last.2 }

def drawSubpath (s : PlatformPathWKC) (e : PlatformPathElement) : PlatformPathWKC :=
  let s := ensureSubpath s
  extendSubpath s (e.drawn s.m_currentPoint)

def closeSubpath (s : PlatformPathWKC) : PlatformPathWKC :=
  let s := { s with m_penLifted := true }
  match s.m_subpaths.getLast? with
  | some last =>
    let first := last.1.head last.2
    if s.m_currentPoint ≠ first then
      { s with m_subpaths := s.m_subpaths.dropLast ++ [last.append [first]], m_currentPoint := first }
    else s
  | none => { s with m_currentPoint := origin }

def addToSubpath (s : PlatformPathWKC) (e : PlatformPathElement) : PlatformPathWKC :=
  match e with
  | .PathMoveTo point => { s with m_penLifted := true, m_currentPoint := point }
  | .PathCloseSubpath => closeSubpath s
  | e => drawSubpath s e

def append (s : PlatformPathWKC) (e : PlatformPathElement) : PlatformPathWKC :=
  addToSubpath { s with m_boundingRect := e.inflateRectToContainMe s.m_boundingRect } e

/-- the path after a list of calls -/
def built (calls : List PlatformPathElement) : PlatformPathWKC := calls.foldl append PlatformPathWKC.new

/-- the loop of `contains`; it fails where a subpath's own test reads outside its polygon -/
def anyContains (point : PathPoint ℚ) : List Subpath → Option Bool
  | [] => some false
  | i :: rest =>
    match PathPolygon.contains i.1 point with
    | none => none
    | some true => some true
    | some false => anyContains point rest

def PlatformPathWKC.contains (s : PlatformPathWKC) (point : PathPoint ℚ) : Option Bool :=
  if !containsPoint s.m_boundingRect point then some false else anyContains point s.m_subpaths

/-! ## what is wanted -/

/-- strictly inside, by the even-odd rule -/
def Inside (polygon : PathPolygon ℚ) (point : PathPoint ℚ) : Prop :=
  OffBoundary polygon point ∧ ∃ d, Clear point.pair d (polygon.map PathPoint.pair) ∧
    Odd (hits point.pair d (polygon.map PathPoint.pair))

/-- The box holds what is inside a subpath, and asking it first changes no answer. -/
structure Harmless (s : PlatformPathWKC) (point : PathPoint ℚ) : Prop where
  box : (∃ polygon ∈ s.m_subpaths, Inside polygon.1 point) → containsPoint s.m_boundingRect point = true
  same : (∃ polygon ∈ s.m_subpaths, Inside polygon.1 point) → s.contains point = anyContains point s.m_subpaths
  some_iff : (∃ polygon ∈ s.m_subpaths, Inside polygon.1 point) →
    (∀ polygon ∈ s.m_subpaths, PathPolygon.contains polygon.1 point ≠ none) →
      (s.contains point = some true ↔ ∃ polygon ∈ s.m_subpaths, PathPolygon.contains polygon.1 point = some true)
  off : (∀ polygon ∈ s.m_subpaths, OffBoundary polygon.1 point) →
    (s.contains point = some true ↔ anyContains point s.m_subpaths = some true)

/-- the points of the calls -/
def given (calls : List PlatformPathElement) : List (PathPoint ℚ) := calls.flatMap PlatformPathElement.points

/-- as the box counts them: a zero of the first point is a thousandth -/
def counted : List (PathPoint ℚ) → List (PathPoint ℚ)
  | [] => []
  | p :: points =>
    { m_x := if p.m_x = 0 then 1 / 1000 else p.m_x, m_y := if p.m_y = 0 then 1 / 1000 else p.m_y } :: points

/-- each coordinate between those of two of the points -/
def Within (points : List (PathPoint ℚ)) (v : PathPoint ℚ) : Prop :=
  Between (points.map PathPoint.m_x) v.m_x ∧ Between (points.map PathPoint.m_y) v.m_y

def PlatformPathElement.draws : PlatformPathElement → Bool
  | .PathMoveTo _ => false
  | .PathCloseSubpath => false
  | _ => true

/-- A call that begins a subpath begins it between the points that were given, its own included. -/
def Started (calls : List PlatformPathElement) : Prop :=
  ∀ pre e post, calls = pre ++ e :: post → e.draws = true → (built pre).m_penLifted = true →
    Within (counted (given (pre ++ [e]))) (built pre).m_currentPoint

/-! ## the box covers what was counted -/

section
variable {r : FloatRect} {p v : PathPoint ℚ} {points more : List (PathPoint ℚ)} {x width a : ℚ}

theorem inflateSpan_of (hwidth : 0 ≤ width) :
    (inflateSpan x width a).1 ≤ x ∧ x + width ≤ (inflateSpan x width a).1 + (inflateSpan x width a).2 ∧
      (inflateSpan x width a).1 ≤ a ∧ a ≤ (inflateSpan x width a).1 + (inflateSpan x width a).2 ∧
      width ≤ (inflateSpan x width a).2 := by
  unfold inflateSpan
  split
  · rename_i hlt
    refine ⟨?_, ?_, ?_, ?_, ?_⟩ <;> linarith
  · rename_i hle
    dsimp only
    split <;> (refine ⟨?_, ?_, ?_, ?_, ?_⟩ <;> linarith)

theorem inflateSpan_same (h : (inflateSpan x width a).2 = width) : (inflateSpan x width a).1 = x := by
  unfold inflateSpan at h ⊢
  split
  · rename_i hlt
    rw [if_pos hlt] at h
    dsimp only at h ⊢
    linarith
  · rfl

/-- the box when these points have been counted -/
structure Covers (r : FloatRect) (points : List (PathPoint ℚ)) : Prop where
  nonzero : ¬ (r.width = 0 ∧ r.height = 0 ∧ r.x = 0 ∧ r.y = 0)
  width : 0 ≤ r.width
  height : 0 ≤ r.height
  horizontal : ∀ p ∈ points, r.x ≤ p.m_x ∧ p.m_x ≤ r.maxX
  vertical : ∀ p ∈ points, r.y ≤ p.m_y ∧ p.m_y ≤ r.maxY

theorem Covers.inflate (h : Covers r points) (p : PathPoint ℚ) :
    Covers (inflateRectToContainPoint r p) (points ++ [p]) := by
  obtain ⟨hx1, hx2, hx3, hx4, hx5⟩ := inflateSpan_of (x := r.x) (a := p.m_x) h.width
  obtain ⟨hy1, hy2, hy3, hy4, hy5⟩ := inflateSpan_of (x := r.y) (a := p.m_y) h.height
  unfold inflateRectToContainPoint
  rw [if_neg h.nonzero]
  refine ⟨?_, h.width.trans hx5, h.height.trans hy5, ?_, ?_⟩
  · rintro ⟨hw, hh, hx, hy⟩
    dsimp only at hw hh hx hy
    have hwidth : r.width = 0 := le_antisymm (hw ▸ hx5) h.width
    have hheight : r.height = 0 := le_antisymm (hh ▸ hy5) h.height
    refine h.nonzero ⟨hwidth, hheight, ?_, ?_⟩
    · rw [← hx, inflateSpan_same (by rw [hw, hwidth])]
    · rw [← hy, inflateSpan_same (by rw [hh, hheight])]
  · intro q hq
    rcases List.mem_append.mp hq with hq | hq
    · exact ⟨hx1.trans (h.horizontal q hq).1, (h.horizontal q hq).2.trans hx2⟩
    · rw [List.mem_singleton.mp hq]
      exact ⟨hx3, hx4⟩
  · intro q hq
    rcases List.mem_append.mp hq with hq | hq
    · exact ⟨hy1.trans (h.vertical q hq).1, (h.vertical q hq).2.trans hy2⟩
    · rw [List.mem_singleton.mp hq]
      exact ⟨hy3, hy4⟩

theorem covers_foldl (h : Covers r points) (more : List (PathPoint ℚ)) :
    Covers (more.foldl inflateRectToContainPoint r) (points ++ more) := by
  induction more generalizing r points with
  | nil => rwa [List.append_nil]
  | cons p more ih =>
    rw [List.foldl_cons, List.append_cons]
    exact ih (h.inflate p)

theorem extendSubpath_boundingRect (s : PlatformPathWKC) (points : List (PathPoint ℚ)) :
    (extendSubpath s points).m_boundingRect = s.m_boundingRect := by
  unfold extendSubpath
  split <;> rfl

theorem addToSubpath_boundingRect (s : PlatformPathWKC) (e : PlatformPathElement) :
    (addToSubpath s e).m_boundingRect = s.m_boundingRect := by
  have hensure : (ensureSubpath s).m_boundingRect = s.m_boundingRect := by
    unfold ensureSubpath
    split <;> rfl
  have hdraw : (drawSubpath s e).m_boundingRect = s.m_boundingRect :=
    (extendSubpath_boundingRect _ _).trans hensure
  cases e with
  | PathMoveTo point => rfl
  | PathCloseSubpath =>
    show (closeSubpath s).m_boundingRect = _
    unfold closeSubpath
    dsimp only
    split
    · split <;> rfl
    · rfl
  | PathLineTo | PathQuadCurveTo | PathBezierCurveTo => exact hdraw

theorem given_concat (calls : List PlatformPathElement) (e : PlatformPathElement) :
    given (calls ++ [e]) = given calls ++ e.points := by
  unfold given
  rw [List.flatMap_append, List.flatMap_cons, List.flatMap_nil, List.append_nil]

theorem built_concat (calls : List PlatformPathElement) (e : PlatformPathElement) :
    built (calls ++ [e]) = append (built calls) e := by
  unfold built
  rw [List.foldl_append]
  rfl

theorem boundingRect_built (calls : List PlatformPathElement) :
    (built calls).m_boundingRect = (given calls).foldl inflateRectToContainPoint PlatformPathWKC.new.m_boundingRect := by
  induction calls using List.reverseRecOn with
  | nil => rfl
  | append_singleton calls e ih =>
    rw [built_concat, given_concat, List.foldl_append, ← ih]
    exact addToSubpath_boundingRect _ e

theorem boundingRect_covers (calls : List PlatformPathElement) (hgiven : given calls ≠ []) :
    Covers (built calls).m_boundingRect (counted (given calls)) := by
  rw [boundingRect_built]
  cases hpoints : given calls with
  | nil => exact absurd hpoints hgiven
  | cons p points =>
    change Covers _ ([_] ++ points)
    refine covers_foldl ?_ points
    have hthousandth : ∀ a : ℚ, (if a = 0 then 1 / 1000 else a) ≠ 0 := by
      intro a
      split
      · norm_num
      · assumption
    refine ⟨fun h => hthousandth p.m_x h.2.2.1, le_refl 0, le_refl 0, ?_, ?_⟩
    all_goals
      intro q hq
      rw [List.mem_singleton.mp hq]
      exact ⟨le_refl _, (add_zero _).ge⟩

end

/-! ## the vertices are between what was counted -/

section
variable {points more : List (PathPoint ℚ)} {v c1 c2 c3 c4 : PathPoint ℚ}

theorem Within.of_mem (h : v ∈ points) : Within points v :=
  ⟨Between.of_mem (List.mem_map_of_mem h), Between.of_mem (List.mem_map_of_mem h)⟩

theorem Within.mono (h : Within points v) (hsub : ∀ p ∈ points, p ∈ more) : Within more v := by
  have hmap : ∀ f : PathPoint ℚ → ℚ, ∀ a ∈ points.map f, a ∈ more.map f := by
    intro f a ha
    obtain ⟨p, hp, rfl⟩ := List.mem_map.mp ha
    exact List.mem_map_of_mem (hsub p hp)
  exact ⟨h.1.mono (hmap _), h.2.mono (hmap _)⟩

theorem Within.ne_nil (h : Within points v) : points ≠ [] := by
  rintro rfl
  obtain ⟨⟨⟨a, ha, -⟩, -⟩, -⟩ := h
  exact List.not_mem_nil ha

theorem within_quadPoint (h1 : Within points c1) (h2 : Within points c2) (h3 : Within points c3) {tA tB : ℚ}
    (hA : 0 ≤ tA) (hB : 0 ≤ tB) (hsum : tA + tB = 1) : Within points (quadPoint c1 c2 c3 tA tB) :=
  ⟨h1.1.quad h2.1 h3.1 hA hB hsum, h1.2.quad h2.2 h3.2 hA hB hsum⟩

theorem within_bezierPoint (h1 : Within points c1) (h2 : Within points c2) (h3 : Within points c3)
    (h4 : Within points c4) {tA tB : ℚ} (hA : 0 ≤ tA) (hB : 0 ≤ tB) (hsum : tA + tB = 1) :
    Within points (bezierPoint c1 c2 c3 c4 tA tB) :=
  ⟨h1.1.cubic h2.1 h3.1 h4.1 hA hB hsum, h1.2.cubic h2.2 h3.2 h4.2 hA hB hsum⟩

theorem samples_mem {pp : ℚ → ℚ → PathPoint ℚ} {step : ℚ} (hstep : 0 ≤ step) {n : Nat} {tA tB : ℚ} (hA : 0 ≤ tA)
    (hB : n * step ≤ tB) (hsum : tA + tB = 1) (hv : v ∈ samples pp step n tA tB) :
    ∃ a b, 0 ≤ a ∧ 0 ≤ b ∧ a + b = 1 ∧ v = pp a b := by
  induction n generalizing tA tB with
  | zero => exact absurd hv List.not_mem_nil
  | succ n ih =>
    rw [Nat.cast_succ, add_mul, one_mul] at hB
    have hn : 0 ≤ n * step := mul_nonneg n.cast_nonneg hstep
    rcases List.mem_cons.mp hv with rfl | hv
    · exact ⟨tA + step, tB - step, by linarith, by linarith, by linarith, rfl⟩
    · exact ih (by linarith) (by linarith) (by linarith) hv

theorem curve_forall {pp : ℚ → ℚ → PathPoint ℚ} {segments : Nat} (hsegments : 0 < segments)
    (hpp : ∀ a b, 0 ≤ a → 0 ≤ b → a + b = 1 → Within points (pp a b)) (hend : Within points c1) :
    ∀ v ∈ samples pp (1 / segments) (segments - 1) 0 1 ++ [c1], Within points v := by
  intro v hv
  rcases List.mem_append.mp hv with hv | hv
  · have hpos : (0 : ℚ) < segments := Nat.cast_pos.mpr hsegments
    have hturns : ((segments - 1 : Nat) : ℚ) * (1 / segments) ≤ 1 := by
      rw [mul_one_div, div_le_one hpos]
      exact Nat.cast_le.mpr (Nat.sub_le _ _)
    obtain ⟨a, b, ha, hb, hab, rfl⟩ := samples_mem (one_div_nonneg.mpr hpos.le) (le_refl 0) hturns (zero_add 1) hv
    exact hpp a b ha hb hab
  · rwa [List.mem_singleton.mp hv]

theorem within_drawn {e : PlatformPathElement} (hcurrent : Within points c1) (hpoints : ∀ p ∈ e.points, Within points p) :
    ∀ v ∈ e.drawn c1, Within points v := by
  cases e with
  | PathMoveTo | PathCloseSubpath => exact fun v hv => absurd hv List.not_mem_nil
  | PathLineTo point => exact hpoints
  | PathQuadCurveTo cp p =>
    have h2 := hpoints cp (by simp [PlatformPathElement.points])
    have h3 := hpoints p (by simp [PlatformPathElement.points])
    exact curve_forall (by norm_num) (fun a b => within_quadPoint hcurrent h2 h3) h3
  | PathBezierCurveTo cp1 cp2 p =>
    have h2 := hpoints cp1 (by simp [PlatformPathElement.points])
    have h3 := hpoints cp2 (by simp [PlatformPathElement.points])
    have h4 := hpoints p (by simp [PlatformPathElement.points])
    exact curve_forall (by norm_num) (fun a b => within_bezierPoint hcurrent h2 h3 h4) h4

theorem counted_ne_nil (h : counted points ≠ []) : points ≠ [] := by
  rintro rfl
  exact h rfl

theorem counted_append (hne : points ≠ []) (more : List (PathPoint ℚ)) :
    counted (points ++ more) = counted points ++ more := by
  cases points with
  | nil => exact absurd rfl hne
  | cons p points => rfl

theorem counted_sub (points more : List (PathPoint ℚ)) : ∀ p ∈ counted points, p ∈ counted (points ++ more) := by
  intro p hp
  rw [counted_append (counted_ne_nil (List.ne_nil_of_mem hp))]
  exact List.mem_append_left more hp

theorem within_counted (horigin : points = [] → Within (counted more) origin) :
    ∀ p ∈ more, Within (counted (points ++ more)) p := by
  cases points with
  | cons q points =>
    intro p hp
    exact Within.of_mem (List.mem_cons_of_mem _ (List.mem_append_right points hp))
  | nil =>
    have horigin := horigin rfl
    intro p hp
    cases more with
    | nil => exact absurd hp List.not_mem_nil
    | cons q more =>
      rcases List.mem_cons.mp hp with rfl | hp
      · rw [List.nil_append]
        constructor
        · by_cases hzero : p.m_x = 0
          · rw [hzero]
            exact horigin.1
          · refine Between.of_mem (List.mem_cons.mpr (Or.inl ?_))
            dsimp only
            rw [if_neg hzero]
        · by_cases hzero : p.m_y = 0
          · rw [hzero]
            exact horigin.2
          · refine Between.of_mem (List.mem_cons.mpr (Or.inl ?_))
            dsimp only
            rw [if_neg hzero]
      · exact Within.of_mem (List.mem_cons_of_mem _ hp)

end

/-! ## what a call does to the subpaths -/

section
variable {s : PlatformPathWKC} {e : PlatformPathElement} {points : List (PathPoint ℚ)} {P : PathPoint ℚ → Prop}

theorem forall_extended {l : List Subpath} {last : Subpath} (hlast : l.getLast? = some last) {more : List (PathPoint ℚ)}
    (hl : ∀ polygon ∈ l, ∀ v ∈ polygon.1, P v) (hmore : ∀ v ∈ more, P v) :
    ∀ polygon ∈ l.dropLast ++ [last.append more], ∀ v ∈ polygon.1, P v := by
  intro polygon hpolygon v hv
  rcases List.mem_append.mp hpolygon with h | h
  · exact hl polygon (List.mem_of_mem_dropLast h) v hv
  · rw [List.mem_singleton.mp h] at hv
    rcases List.mem_append.mp hv with hv | hv
    · exact hl last (List.mem_of_getLast? hlast) v hv
    · exact hmore v hv

theorem ensureSubpath_currentPoint (s : PlatformPathWKC) : (ensureSubpath s).m_currentPoint = s.m_currentPoint := by
  unfold ensureSubpath
  split <;> rfl

theorem ensureSubpath_ne_nil (hpen : s.m_penLifted = false → s.m_subpaths ≠ []) : (ensureSubpath s).m_subpaths ≠ [] := by
  unfold ensureSubpath
  split
  · exact List.append_ne_nil_of_right_ne_nil _ (List.cons_ne_nil _ _)
  · rename_i hdown
    exact hpen (Bool.eq_false_iff.mpr hdown)

theorem ensureSubpath_forall (hs : ∀ polygon ∈ s.m_subpaths, ∀ v ∈ polygon.1, P v)
    (hcurrent : s.m_penLifted = true → P s.m_currentPoint) :
    ∀ polygon ∈ (ensureSubpath s).m_subpaths, ∀ v ∈ polygon.1, P v := by
  unfold ensureSubpath
  split
  · rename_i hlifted
    intro polygon hpolygon v hv
    rcases List.mem_append.mp hpolygon with h | h
    · exact hs polygon h v hv
    · rw [List.mem_singleton.mp h] at hv
      rw [List.mem_singleton.mp hv]
      exact hcurrent hlifted
  · exact hs

theorem extendSubpath_forall (hne : s.m_subpaths ≠ []) (hs : ∀ polygon ∈ s.m_subpaths, ∀ v ∈ polygon.1, P v)
    (hpoints : ∀ v ∈ points, P v) :
    (∀ polygon ∈ (extendSubpath s points).m_subpaths, ∀ v ∈ polygon.1, P v) ∧
      ∃ polygon ∈ (extendSubpath s points).m_subpaths, (extendSubpath s points).m_currentPoint ∈ polygon.1 := by
  unfold extendSubpath
  cases hlast : s.m_subpaths.getLast? with
  | none => exact absurd (List.getLast?_eq_none_iff.mp hlast) hne
  | some last =>
    exact ⟨forall_extended hlast hs hpoints, _, List.mem_append_right _ List.mem_cons_self, List.getLast_mem _⟩

theorem drawSubpath_forall (hpen : s.m_penLifted = false → s.m_subpaths ≠ [])
    (hs : ∀ polygon ∈ s.m_subpaths, ∀ v ∈ polygon.1, P v) (hcurrent : s.m_penLifted = true → P s.m_currentPoint)
    (hdrawn : ∀ v ∈ e.drawn s.m_currentPoint, P v) :
    (∀ polygon ∈ (drawSubpath s e).m_subpaths, ∀ v ∈ polygon.1, P v) ∧
      ∃ polygon ∈ (drawSubpath s e).m_subpaths, (drawSubpath s e).m_currentPoint ∈ polygon.1 := by
  rw [← ensureSubpath_currentPoint] at hdrawn
  exact extendSubpath_forall (ensureSubpath_ne_nil hpen) (ensureSubpath_forall hs hcurrent) hdrawn

theorem closeSubpath_forall (hs : ∀ polygon ∈ s.m_subpaths, ∀ v ∈ polygon.1, P v) :
    ∀ polygon ∈ (closeSubpath s).m_subpaths, ∀ v ∈ polygon.1, P v := by
  unfold closeSubpath
  dsimp only
  cases hlast : s.m_subpaths.getLast? with
  | none => exact hs
  | some last =>
    dsimp only
    split
    · refine forall_extended hlast hs fun v hv => ?_
      rw [List.mem_singleton.mp hv]
      exact hs last (List.mem_of_getLast? hlast) _ (List.head_mem _)
    · exact hs

theorem closeSubpath_penLifted (s : PlatformPathWKC) : (closeSubpath s).m_penLifted = true := by
  unfold closeSubpath
  dsimp only
  split
  · split <;> rfl
  · rfl

/-- what is so of a path whose calls gave these points -/
structure Held (points : List (PathPoint ℚ)) (s : PlatformPathWKC) : Prop where
  vertices : ∀ polygon ∈ s.m_subpaths, ∀ v ∈ polygon.1, Within (counted points) v
  pen : s.m_penLifted = false → ∃ polygon ∈ s.m_subpaths, s.m_currentPoint ∈ polygon.1
  start : points = [] → s.m_subpaths = [] ∧ s.m_currentPoint = origin

theorem Held.draw (h : Held points s) (hne : e.points ≠ [])
    (hstarted : s.m_penLifted = true → Within (counted (points ++ e.points)) s.m_currentPoint) :
    Held (points ++ e.points) (drawSubpath s e) := by
  have hvertices : ∀ polygon ∈ s.m_subpaths, ∀ v ∈ polygon.1, Within (counted (points ++ e.points)) v :=
    fun polygon hpolygon v hv => (h.vertices polygon hpolygon v hv).mono (counted_sub points e.points)
  have hpen : s.m_penLifted = false → s.m_subpaths ≠ [] := by
    intro hdown
    obtain ⟨polygon, hpolygon, -⟩ := h.pen hdown
    exact List.ne_nil_of_mem hpolygon
  have hcurrent : Within (counted (points ++ e.points)) s.m_currentPoint := by
    cases hdown : s.m_penLifted with
    | true => exact hstarted hdown
    | false =>
      obtain ⟨polygon, hpolygon, hv⟩ := h.pen hdown
      exact hvertices polygon hpolygon _ hv
  have hdrawn := within_drawn (e := e) hcurrent (within_counted fun hnil => by
    subst hnil
    rw [(h.start rfl).2, List.nil_append] at hcurrent
    exact hcurrent)
  obtain ⟨hall, hend⟩ := drawSubpath_forall hpen hvertices (fun _ => hcurrent) hdrawn
  exact ⟨hall, fun _ => hend, fun hnil => absurd (List.append_eq_nil_iff.mp hnil).2 hne⟩

theorem Held.close (h : Held points s) : Held points (closeSubpath s) := by
  refine ⟨closeSubpath_forall h.vertices, ?_, ?_⟩
  · intro hdown
    rw [closeSubpath_penLifted] at hdown
    exact absurd hdown (by simp)
  · intro hnil
    unfold closeSubpath
    rw [(h.start hnil).1]
    exact ⟨rfl, rfl⟩

theorem Held.append (h : Held points s)
    (hstarted : e.draws = true → s.m_penLifted = true → Within (counted (points ++ e.points)) s.m_currentPoint) :
    Held (points ++ e.points) (append s e) := by
  have hbox : Held points { s with m_boundingRect := e.inflateRectToContainMe s.m_boundingRect } :=
    ⟨h.vertices, h.pen, h.start⟩
  cases e with
  | PathMoveTo point =>
    refine ⟨fun polygon hpolygon v hv => (h.vertices polygon hpolygon v hv).mono (counted_sub points _), ?_, ?_⟩
    · exact fun hdown => absurd hdown (by simp [Paths.append, addToSubpath])
    · exact fun hnil => absurd (List.append_eq_nil_iff.mp hnil).2 (List.cons_ne_nil _ _)
  | PathCloseSubpath =>
    rw [PlatformPathElement.points, List.append_nil]
    exact hbox.close
  | PathLineTo | PathQuadCurveTo | PathBezierCurveTo => exact hbox.draw (List.cons_ne_nil _ _) (hstarted rfl)

theorem held_new : Held [] PlatformPathWKC.new :=
  ⟨fun polygon hpolygon => absurd hpolygon List.not_mem_nil, fun h => absurd h (by simp [PlatformPathWKC.new]),
    fun _ => ⟨rfl, rfl⟩⟩

theorem Started.before {calls pre : List PlatformPathElement} (h : Started calls) (hpre : pre <+: calls) : Started pre := by
  obtain ⟨rest, rfl⟩ := hpre
  rintro pre' e post rfl
  exact h pre' e (post ++ rest) (by simp)

theorem held_built (calls : List PlatformPathElement) (h : Started calls) : Held (given calls) (built calls) := by
  induction calls using List.reverseRecOn with
  | nil => exact held_new
  | append_singleton calls e ih =>
    rw [given_concat, built_concat]
    refine (ih (h.before (List.prefix_append calls [e]))).append fun hdraws hlifted => ?_
    rw [← given_concat]
    exact h calls e [] rfl hdraws hlifted

end

/-! ## the hit test -/

section
variable {polygon : PathPolygon ℚ} {point : PathPoint ℚ} {r : FloatRect} {points : List (PathPoint ℚ)}

theorem Inside.sides (h : Inside polygon point) :
    (∃ v ∈ polygon, v.m_x < point.m_x) ∧ (∃ v ∈ polygon, point.m_x < v.m_x) ∧
      (∃ v ∈ polygon, v.m_y < point.m_y) ∧ ∃ v ∈ polygon, point.m_y < v.m_y := by
  obtain ⟨hoff, d, hclear, hodd⟩ := h
  have hahead : ∀ u : ℚ × ℚ, u ≠ 0 →
      ∃ v ∈ polygon, 0 < u.1 * (v.m_x - point.m_x) + u.2 * (v.m_y - point.m_y) := by
    intro u hu
    obtain ⟨w, hw, hpos⟩ := exists_ahead hclear (pair_edges hoff) hodd hu
    obtain ⟨v, hv, rfl⟩ := List.mem_map.mp hw
    exact ⟨v, hv, hpos⟩
  refine ⟨?_, ?_, ?_, ?_⟩
  · obtain ⟨v, hv, hpos⟩ := hahead (-1, 0) (by decide)
    exact ⟨v, hv, by linarith⟩
  · obtain ⟨v, hv, hpos⟩ := hahead (1, 0) (by decide)
    exact ⟨v, hv, by linarith⟩
  · obtain ⟨v, hv, hpos⟩ := hahead (0, -1) (by decide)
    exact ⟨v, hv, by linarith⟩
  · obtain ⟨v, hv, hpos⟩ := hahead (0, 1) (by decide)
    exact ⟨v, hv, by linarith⟩

theorem Covers.within (h : Covers r points) {v : PathPoint ℚ} (hv : Within points v) :
    r.x ≤ v.m_x ∧ v.m_x ≤ r.maxX ∧ r.y ≤ v.m_y ∧ v.m_y ≤ r.maxY := by
  obtain ⟨⟨⟨a, ha, hax⟩, b, hb, hxb⟩, ⟨c, hc, hcy⟩, d, hd, hyd⟩ := hv
  obtain ⟨p, hp, rfl⟩ := List.mem_map.mp ha
  obtain ⟨q, hq, rfl⟩ := List.mem_map.mp hb
  obtain ⟨p', hp', rfl⟩ := List.mem_map.mp hc
  obtain ⟨q', hq', rfl⟩ := List.mem_map.mp hd
  exact ⟨(h.horizontal p hp).1.trans hax, hxb.trans (h.horizontal q hq).2, (h.vertical p' hp').1.trans hcy,
    hyd.trans (h.vertical q' hq').2⟩

theorem Inside.containsPoint (h : Inside polygon point) (hr : Covers r points)
    (hpolygon : ∀ v ∈ polygon, Within points v) : containsPoint r point = true := by
  obtain ⟨⟨a, ha, hleft⟩, ⟨b, hb, hright⟩, ⟨c, hc, hbelow⟩, d, hd, habove⟩ := h.sides
  obtain ⟨hax, -, -, -⟩ := hr.within (hpolygon a ha)
  obtain ⟨-, hbx, -, -⟩ := hr.within (hpolygon b hb)
  obtain ⟨-, -, hcy, -⟩ := hr.within (hpolygon c hc)
  obtain ⟨-, -, -, hdy⟩ := hr.within (hpolygon d hd)
  unfold Paths.containsPoint
  rw [decide_eq_true (hax.trans hleft.le), decide_eq_true (hcy.trans hbelow.le), decide_eq_true (hright.trans_le hbx),
    decide_eq_true (habove.trans_le hdy)]
  rfl

theorem anyContains_some {l : List Subpath} (h : anyContains point l = some true) :
    ∃ polygon ∈ l, PathPolygon.contains polygon.1 point = some true := by
  induction l with
  | nil => exact absurd h (by simp [anyContains])
  | cons i rest ih =>
    unfold anyContains at h
    cases hi : PathPolygon.contains i.1 point with
    | none =>
      rw [hi] at h
      exact absurd h (by simp)
    | some b =>
      cases b with
      | true => exact ⟨i, List.mem_cons_self, hi⟩
      | false =>
        rw [hi] at h
        obtain ⟨polygon, hpolygon, hcontains⟩ := ih h
        exact ⟨polygon, List.mem_cons_of_mem i hpolygon, hcontains⟩

theorem anyContains_of {l : List Subpath} (hnone : ∀ polygon ∈ l, PathPolygon.contains polygon.1 point ≠ none)
    (h : ∃ polygon ∈ l, PathPolygon.contains polygon.1 point = some true) : anyContains point l = some true := by
  induction l with
  | nil =>
    obtain ⟨polygon, hpolygon, -⟩ := h
    exact absurd hpolygon List.not_mem_nil
  | cons i rest ih =>
    rw [List.forall_mem_cons] at hnone
    rw [List.exists_mem_cons_iff] at h
    unfold anyContains
    cases hi : PathPolygon.contains i.1 point with
    | none => exact absurd hi hnone.1
    | some b =>
      cases b with
      | true => rfl
      | false => exact ih hnone.2 (h.resolve_left (by rw [hi]; simp))

theorem inside_of_contains (h : PathPolygon.contains polygon point = some true) (hoff : OffBoundary polygon point) :
    Inside polygon point := by
  obtain ⟨d, hclear⟩ := exists_clear (offBoundary_notMem hoff)
  exact ⟨hoff, d, hclear, (contains_hits h hoff hclear).mp rfl⟩

end

/-- At every moment of a run in which each subpath begins between the points given so far, the box holds what is inside a
subpath and changes no hit test there. -/
theorem shortcut_harmless (calls : List PlatformPathElement) (hstarted : Started calls) :
    ∀ pre, pre <+: calls → ∀ point, Harmless (built pre) point := by
  intro pre hpre point
  have hheld := held_built pre (hstarted.before hpre)
  have hbox : ∀ polygon ∈ (built pre).m_subpaths, Inside polygon.1 point →
      containsPoint (built pre).m_boundingRect point = true := by
    intro polygon hpolygon hinside
    have hvertices := hheld.vertices polygon hpolygon
    obtain ⟨⟨v, hv, -⟩, -⟩ := hinside.sides
    exact hinside.containsPoint (boundingRect_covers pre (counted_ne_nil (hvertices v hv).ne_nil)) hvertices
  have hsame : containsPoint (built pre).m_boundingRect point = true →
      (built pre).contains point = anyContains point (built pre).m_subpaths := by
    intro h
    unfold PlatformPathWKC.contains
    rw [h]
    rfl
  refine ⟨?_, ?_, ?_, ?_⟩
  · rintro ⟨polygon, hpolygon, hinside⟩
    exact hbox polygon hpolygon hinside
  · rintro ⟨polygon, hpolygon, hinside⟩
    exact hsame (hbox polygon hpolygon hinside)
  · rintro ⟨polygon, hpolygon, hinside⟩ hnone
    rw [hsame (hbox polygon hpolygon hinside)]
    exact ⟨anyContains_some, anyContains_of hnone⟩
  · intro hoff
    constructor
    · unfold PlatformPathWKC.contains
      split
      · exact fun h => absurd h (by simp)
      · exact id
    · intro h
      obtain ⟨polygon, hpolygon, hcontains⟩ := anyContains_some h
      rw [hsame (hbox polygon hpolygon (inside_of_contains hcontains (hoff polygon hpolygon))), h]

/-! ### a triangle with a corner at the origin -/

def square : List PlatformPathElement :=
  [.PathMoveTo { m_x := 1, m_y := 1 }, .PathLineTo { m_x := 3, m_y := 1 },
    .PathQuadCurveTo { m_x := 3, m_y := 3 } { m_x := 1, m_y := 3 }, .PathCloseSubpath]

theorem started_square : Started square := by
  intro pre e post h hdraws hlifted
  unfold square at h
  match pre with
  | [] =>
    simp only [List.nil_append, List.cons.injEq] at h
    obtain ⟨rfl, -⟩ := h
    exact absurd hdraws (by decide)
  | [a] =>
    simp only [List.cons_append, List.nil_append, List.cons.injEq] at h
    obtain ⟨rfl, rfl, -⟩ := h
    exact Within.of_mem (by decide)
  | [a, b] =>
    simp only [List.cons_append, List.nil_append, List.cons.injEq] at h
    obtain ⟨rfl, rfl, -⟩ := h
    exact absurd hlifted (by decide)
  | [a, b, c] =>
    simp only [List.cons_append, List.nil_append, List.cons.injEq] at h
    obtain ⟨-, -, -, rfl, -⟩ := h
    exact absurd hdraws (by decide)
  | a :: b :: c :: d :: pre =>
    have hlength := congrArg List.length h
    simp at hlength

theorem shortcut_harmless_square :
    Started square ∧ (built square).contains { m_x := 3 / 2, m_y := 2 } = some true ∧
      Harmless (built square) { m_x := 3 / 2, m_y := 2 } :=
  ⟨started_square, by decide +kernel, shortcut_harmless square started_square square (List.prefix_refl square) _⟩

def corner : PathPolygon ℚ := [origin, { m_x := 10, m_y := 5 }, { m_x := 5, m_y := 10 }]

theorem corner_off {a : ℚ} (h0 : 0 < a) (h5 : a < 5) : OffBoundary corner { m_x := a, m_y := a } := by
  have hedges : edges corner =
      [({ m_x := 5, m_y := 10 }, origin), (origin, { m_x := 10, m_y := 5 }),
        ({ m_x := 10, m_y := 5 }, { m_x := 5, m_y := 10 })] := rfl
  unfold OffBoundary
  rw [hedges]
  simp only [List.forall_mem_cons, PathPoint.pair, origin, OnSegment]
  refine ⟨?_, ?_, ?_, fun e he => absurd he List.not_mem_nil⟩
  all_goals
    rintro ⟨t, ht0, ht1, hx, hy⟩
    linarith

/-- The corner is at the origin, where it is moved off the box, or where it was never given. -/
theorem corner_lost :
    (let path := built [.PathMoveTo origin, .PathLineTo { m_x := 10, m_y := 5 }, .PathLineTo { m_x := 5, m_y := 10 }]
      let point := { m_x := 1 / 2000, m_y := 1 / 2000 }
      path.m_subpaths.map Subtype.val = [corner] ∧ Inside corner point ∧ anyContains point path.m_subpaths = some true ∧
        path.contains point = some false ∧ ¬ Harmless path point) ∧
    (let path := built [.PathLineTo { m_x := 10, m_y := 5 }, .PathLineTo { m_x := 5, m_y := 10 }]
      let point := { m_x := 4, m_y := 4 }
      path.m_subpaths.map Subtype.val = [corner] ∧ Inside corner point ∧ anyContains point path.m_subpaths = some true ∧
        path.contains point = some false ∧ ¬ Harmless path point) := by
  have hlost : ∀ (path : PlatformPathWKC) (point : PathPoint ℚ), path.m_subpaths.map Subtype.val = [corner] →
      OffBoundary corner point → PathPolygon.contains corner point = some true →
      anyContains point path.m_subpaths = some true → path.contains point = some false →
      path.m_subpaths.map Subtype.val = [corner] ∧ Inside corner point ∧ anyContains point path.m_subpaths = some true ∧
        path.contains point = some false ∧ ¬ Harmless path point := by
    intro path point hpath hoff hcorner hany hcontains
    have hinside := inside_of_contains hcorner hoff
    refine ⟨hpath, hinside, hany, hcontains, fun h => ?_⟩
    obtain ⟨polygon, hpolygon, hval⟩ := List.mem_map.mp (hpath ▸ List.mem_cons_self : corner ∈ path.m_subpaths.map _)
    have hsame := h.same ⟨polygon, hpolygon, hval ▸ hinside⟩
    rw [hany, hcontains] at hsame
    exact absurd hsame (by simp)
  constructor
  all_goals
    exact hlost _ _ (by decide +kernel) (corner_off (by norm_num) (by norm_num)) (by decide +kernel) (by decide +kernel)
      (by decide +kernel)

end Paths
end Wkc
