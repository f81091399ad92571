import WkcBrowser.Graphics.PathBounds

/-!
# Appending a path, with arcs

* `MathLib`               the conversions between `float` and `double`, and the C library;
* `addArcPoints`          an arc as points, with loops that may not end;
* `inflateRectToContainMe`      the box of an element, which asks for the point before an arc;
* `append`, `appendPath`  an element, and all elements of another path;
* `addToSubpath_box`      drawing neither reads nor writes the box and the elements;
* `appendPath_eq_foldlM`  the two appends agree;
* `exact_append`          without arcs, in exact arithmetic, this is the path of `Paths`.

Nothing is assumed of the arithmetic: `float` and `double` are two types with operations.
-/

set_option linter.unusedSectionVars false

namespace Wkc
namespace Arcs
open Wkc.Paths (PathPoint PathPolygon)

/-- the conversions between `float` and `double`, and the functions of the C library -/
structure MathLib (F D : Type) where
  toDouble : F → D
  toFloat : D → F
  atan2 : F → F → D
  tan : D → D
  sqrt : D → D
  fabs : D → D
  piDouble : D

/-- `while (cond) body`, where it ends in so many turns -/
def loopWhile {α : Type} (cond : α → Bool) (body : α → Option α) : Nat → α → Option α
  | 0, a => if cond a then none else some a
  | fuel + 1, a => if cond a then (body a).bind (loopWhile cond body fuel) else some a

/-! ## elements and paths -/

structure FloatRect (F : Type) where
  x : F
  y : F
  width : F
  height : F
  deriving DecidableEq

inductive PlatformPathElement (F : Type) where
  | PathMoveTo (m_end : PathPoint F)
  | PathLineTo (m_end : PathPoint F)
  | PathArcTo (m_end m_center m_radius : PathPoint F) (m_clockwise : Bool)
  | PathQuadCurveTo (m_point0 m_point1 : PathPoint F)
  | PathBezierCurveTo (m_point0 m_point1 m_point2 : PathPoint F)
  | PathCloseSubpath
  deriving DecidableEq

/-- the first `numPoints()` points -/
def PlatformPathElement.points {F : Type} : PlatformPathElement F → List (PathPoint F)
  | .PathMoveTo m_end => [m_end]
  | .PathLineTo m_end => [m_end]
  | .PathArcTo m_end _ _ _ => [m_end]
  | .PathQuadCurveTo m_point0 m_point1 => [m_point0, m_point1]
  | .PathBezierCurveTo m_point0 m_point1 m_point2 => [m_point0, m_point1, m_point2]
  | .PathCloseSubpath => []

/-- A subpath has a vertex from the start. -/
abbrev Subpath (F : Type) := { polygon : PathPolygon F // polygon ≠ [] }

def Subpath.append {F : Type} (s : Subpath F) (points : List (PathPoint F)) : Subpath F :=
  ⟨s.1 ++ points, List.append_ne_nil_of_left_ne_nil s.2 points⟩

def Subpath.last {F : Type} (s : Subpath F) : PathPoint F := s.1.getLast s.2

structure PlatformPathWKC (F : Type) where
  m_elements : List (PlatformPathElement F)
  m_boundingRect : FloatRect F
  m_subpaths : List (Subpath F)
  m_currentPoint : PathPoint F
  m_penLifted : Bool
  m_closed : Bool

section
variable {F D : Type}
variable [Add F] [Sub F] [Mul F] [Neg F] [LT F] [DecidableLT F] [BEq F] [∀ n, OfNat F n] [OfScientific F]
variable [Add D] [Sub D] [Mul D] [Div D] [Neg D] [LT D] [DecidableLT D] [LE D] [DecidableLE D] [∀ n, OfNat D n]
  [OfScientific D] [NatCast D]
variable (lib : MathLib F D)

/-! ## points -/

/-- `FloatPoint`'s `!=` -/
def differs (a b : PathPoint F) : Bool := a.m_x != b.m_x || a.m_y != b.m_y

/-- `FloatPoint`'s `==` -/
def equal (a b : PathPoint F) : Bool := a.m_x == b.m_x && a.m_y == b.m_y

def origin : PathPoint F := { m_x := 0, m_y := 0 }

/-- A closing element has the point its constructor sets. -/
def PlatformPathElement.lastPoint (e : PlatformPathElement F) : PathPoint F := e.points.getLast?.getD origin

def PlatformPathWKC.lastPoint (s : PlatformPathWKC F) : PathPoint F :=
  match s.m_elements.getLast? with
  | none => origin
  | some e => e.lastPoint

/-! ## curves -/

def equalAngle (a b : D) : Bool := decide (lib.fabs (a - b) < 1e-5)

def getEllipsePointByAngle (fuel : Nat) (angle a b : D) : Option (PathPoint F) := do
  let pi := lib.piDouble
  let angle ← loopWhile (fun angle => decide (angle < 0)) (fun angle => some (angle + 2 * pi)) fuel angle
  let angle ← loopWhile (fun angle => decide (2 * pi ≤ angle)) (fun angle => some (angle - 2 * pi)) fuel angle
  if equalAngle lib angle 0 || equalAngle lib angle (2 * pi) then
    some { m_x := lib.toFloat a, m_y := 0 }
  else if equalAngle lib angle pi then
    some { m_x := lib.toFloat (-a), m_y := 0 }
  else if equalAngle lib angle (0.5 * pi) then
    some { m_x := 0, m_y := lib.toFloat b }
  else if equalAngle lib angle (1.5 * pi) then
    some { m_x := 0, m_y := lib.toFloat (-b) }
  else
    let root (tmp : D) : D := if tmp ≤ 0 then 0 else lib.sqrt tmp
    let sqA := a * a
    let sqB := b * b
    let k := lib.tan angle
    let x := root (1 / (1 / sqA + k * k / sqB))
    let x := if 0.5 * pi < angle ∧ angle < 1.5 * pi then -x else x
    let k := lib.tan (0.5 * pi - angle)
    let y := root (1 / (k * k / sqA + 1 / sqB))
    let y := if pi < angle then -y else y
    some { m_x := lib.toFloat x, m_y := lib.toFloat y }

/-- `n` turns of the loop of `quadCurve` and of `bezier` -/
def samples (pp : F → F → PathPoint F) (step : F) : Nat → F → F → List (PathPoint F)
  | 0, _, _ => []
  | n + 1, tA, tB =>
    let tA := tA + step
    let tB := tB - step
    pp tA tB :: samples pp step n tA tB

/-- The literals are doubles: what they multiply is a double until it is stored. -/
def quadPoint (c1 c2 c3 : PathPoint F) (tA tB : F) : PathPoint F :=
  let a := tB * tB
  let b := lib.toFloat (2 * lib.toDouble tA * lib.toDouble tB)
  let c := tA * tA
  { m_x := c1.m_x * a + c2.m_x * b + c3.m_x * c
    m_y := c1.m_y * a + c2.m_y * b + c3.m_y * c }

def bezierPoint (c1 c2 c3 c4 : PathPoint F) (tA tB : F) : PathPoint F :=
  let tAsq := tA * tA
  let tBsq := tB * tB
  let a := tBsq * tB
  let b := lib.toFloat (3 * lib.toDouble tA * lib.toDouble tBsq)
  let c := lib.toFloat (3 * lib.toDouble tB * lib.toDouble tAsq)
  let d := tAsq * tA
  { m_x := c1.m_x * a + c2.m_x * b + c3.m_x * c + c4.m_x * d
    m_y := c1.m_y * a + c2.m_y * b + c3.m_y * c + c4.m_y * d }

def quadCurve (segments : Nat) (c1 c2 c3 : PathPoint F) : List (PathPoint F) :=
  samples (quadPoint lib c1 c2 c3) (lib.toFloat (1 / (segments : D))) (segments - 1) 0 1 ++ [c3]

def bezier (segments : Nat) (c1 c2 c3 c4 : PathPoint F) : List (PathPoint F) :=
  samples (bezierPoint lib c1 c2 c3 c4) (lib.toFloat (1 / (segments : D))) (segments - 1) 0 1 ++ [c4]

/-- a point behind a polygon, where it is not its last one -/
def appendNew (poly : Subpath F) (p : PathPoint F) : Subpath F :=
  if differs poly.last p then poly.append [p] else poly

def addArcPoint (fuel : Nat) (center radius : PathPoint F) (poly : Subpath F) (angle : D) : Option (Subpath F) := do
  let p ← getEllipsePointByAngle lib fuel angle (lib.toDouble radius.m_x) (lib.toDouble radius.m_y)
  some (appendNew poly { m_x := p.m_x + center.m_x, m_y := p.m_y + center.m_y })

/-- the angle of the vector from `q` to `p` -/
def vectorAngle (p q : PathPoint F) : D := lib.atan2 (p.m_y - q.m_y) (p.m_x - q.m_x)

def addArcPoints (fuel : Nat) (m_end m_center m_radius : PathPoint F) (m_clockwise : Bool) (poly : Subpath F) :
    Option (Subpath F) := do
  let startPoint := poly.last
  let curAngle := vectorAngle lib startPoint m_center
  let endAngle := vectorAngle lib m_end m_center
  let radius := if m_radius.m_x < m_radius.m_y then m_radius.m_y else m_radius.m_x
  let angleStep := 2 / lib.toDouble radius
  let angleStep := if lib.piDouble / 8 < angleStep then lib.piDouble / 8 else angleStep
  let endAngle :=
    if m_clockwise then
      if endAngle ≤ curAngle ∨ equal startPoint m_end = true then endAngle + 2 * lib.piDouble else endAngle
    else if curAngle ≤ endAngle ∨ equal startPoint m_end = true then endAngle - 2 * lib.piDouble else endAngle
  let angleStep := if m_clockwise then angleStep else -angleStep
  let (_, poly) ← loopWhile
    (fun turn => if m_clockwise then decide (turn.1 < endAngle) else decide (endAngle < turn.1))
    (fun turn => (addArcPoint lib fuel m_center m_radius turn.2 turn.1).map fun poly => (turn.1 + angleStep, poly))
    fuel (curAngle + angleStep, poly)
  some (appendNew poly m_end)

/-! ## the box -/

def FloatRect.maxX (r : FloatRect F) : F := r.x + r.width
def FloatRect.maxY (r : FloatRect F) : F := r.y + r.height

/-- one coordinate of a box, and its size there, when a point is added -/
def inflateSpan (x width p : F) : F × F :=
  if p < x then (p, x + width - p)
  else
    let w := p - x
    (x, if width < w then w else width)

def inflateRectToContainPoint (r : FloatRect F) (x y : F) : FloatRect F :=
  if r.width == 0 && r.height == 0 && r.x == 0 && r.y == 0 then
    { r with x := if x == 0 then 0.001 else x, y := if y == 0 then 0.001 else y }
  else
    let horizontal := inflateSpan r.x r.width x
    let vertical := inflateSpan r.y r.height y
    { x := horizontal.1, y := vertical.1, width := horizontal.2, height := vertical.2 }

/-- from the first quadrant, counted from zero -/
def quadrant (point origin : PathPoint F) : Fin 4 :=
  if point.m_x < origin.m_x then if point.m_y < origin.m_y then 2 else 1
  else if point.m_y < origin.m_y then 3 else 0

def isQuadrantOnBottom (q : Fin 4) : Bool := q == 0 || q == 1

/-- the turns of `nextQuadrant` from `q2` to `q1` -/
def quadrantDiff (q1 q2 : Fin 4) : Nat := (q1 - q2).val

def extremeVectors (i : Fin 4) : F × F :=
  match i with
  | 0 => (0, 1)
  | 1 => (-1, 0)
  | 2 => (0, -1)
  | 3 => (1, 0)

/-- the extremes that an arc passes, from `startPoint` to `endPoint` -/
def containsExtremes (startPoint endPoint m_center : PathPoint F) (i : Fin 4) : Bool :=
  let q0 := quadrant startPoint m_center
  let q1 := quadrant endPoint m_center
  if q0 = q1 then
    startPoint.m_x == endPoint.m_x || isQuadrantOnBottom q0 != decide (endPoint.m_x < startPoint.m_x)
  else decide (quadrantDiff i q0 < quadrantDiff q1 q0)

def PlatformPathElement.inflateRectToContainMe (e : PlatformPathElement F) (r : FloatRect F) (lastPoint : PathPoint F) :
    FloatRect F :=
  match e with
  | .PathArcTo m_end m_center m_radius m_clockwise =>
    let startPoint := if m_clockwise then lastPoint else m_end
    let endPoint := if m_clockwise then m_end else lastPoint
    let r := inflateRectToContainPoint r startPoint.m_x startPoint.m_y
    let r := inflateRectToContainPoint r endPoint.m_x endPoint.m_y
    ((List.finRange 4).filter (containsExtremes startPoint endPoint m_center)).foldl
      (fun r i => inflateRectToContainPoint r (m_center.m_x + m_radius.m_x * (extremeVectors i).1)
        (m_center.m_y + m_radius.m_y * (extremeVectors i).2)) r
  | e => e.points.foldl (fun r p => inflateRectToContainPoint r p.m_x p.m_y) r

/-! ## the path -/

def PlatformPathWKC.new : PlatformPathWKC F :=
  { m_elements := [], m_boundingRect := { x := 0, y := 0, width := 0, height := 0 }
    m_subpaths := [], m_currentPoint := origin, m_penLifted := true, m_closed := false }

def ensureSubpath (s : PlatformPathWKC F) : PlatformPathWKC F :=
  if s.m_penLifted then
    { s with m_penLifted := false, m_subpaths := s.m_subpaths ++ [⟨[s.m_currentPoint], List.cons_ne_nil _ _⟩] }
  else s

/-- the last subpath, when an element is drawn on it -/
def drawOn (fuel : Nat) (e : PlatformPathElement F) (m_currentPoint : PathPoint F) (last : Subpath F) :
    Option (Subpath F) :=
  match e with
  | .PathLineTo m_end => some (last.append [m_end])
  | .PathArcTo m_end m_center m_radius m_clockwise => addArcPoints lib fuel m_end m_center m_radius m_clockwise last
  | .PathQuadCurveTo m_point0 m_point1 => some (last.append (quadCurve lib 50 m_currentPoint m_point0 m_point1))
  | .PathBezierCurveTo m_point0 m_point1 m_point2 =>
    some (last.append (bezier lib 100 m_currentPoint m_point0 m_point1 m_point2))
  | _ => some last

def closeSubpath (s : PlatformPathWKC F) : PlatformPathWKC F :=
  let s := { s with m_penLifted := true }
  match s.m_subpaths.getLast? with
  | some last =>
    let first := last.1.head last.2
    if differs s.m_currentPoint first then
      { s with m_subpaths := s.m_subpaths.dropLast ++ [last.append [first]], m_currentPoint := first }
    else s
  | none => { s with m_currentPoint := origin }

/-- There is no result where a loop of an arc does not end, or the pen is down without a subpath. -/
def addToSubpath (fuel : Nat) (s : PlatformPathWKC F) (e : PlatformPathElement F) : Option (PlatformPathWKC F) :=
  match e with
  | .PathMoveTo m_end => some { s with m_penLifted := true, m_currentPoint := m_end }
  | .PathCloseSubpath => some (closeSubpath s)
  | e => do
    let s := ensureSubpath s
    let last ← s.m_subpaths.getLast?
    let last ← drawOn lib fuel e s.m_currentPoint last
    some { s with m_subpaths := s.m_subpaths.dropLast ++ [last], m_currentPoint := last.last }

/-- first the box, then the subpath -/
def append (fuel : Nat) (s : PlatformPathWKC F) (e : PlatformPathElement F) : Option (PlatformPathWKC F) := do
  let s := { s with m_boundingRect := e.inflateRectToContainMe s.m_boundingRect s.lastPoint }
  let s ← addToSubpath lib fuel s e
  some { s with m_elements := s.m_elements ++ [e] }

/-- the loop over the elements of another path: first the subpath, then the box -/
def appendElements (fuel : Nat) (s : PlatformPathWKC F) : List (PlatformPathElement F) → Option (PlatformPathWKC F)
  | [] => some s
  | it :: rest => do
    let s ← addToSubpath lib fuel s it
    let s := { s with m_boundingRect := it.inflateRectToContainMe s.m_boundingRect s.lastPoint }
    appendElements fuel { s with m_elements := s.m_elements ++ [it] } rest

def appendPath (fuel : Nat) (s p : PlatformPathWKC F) : Option (PlatformPathWKC F) :=
  appendElements lib fuel s p.m_elements

/-! ## the two appends -/

variable {lib} {fuel : Nat} {s s' : PlatformPathWKC F} {e : PlatformPathElement F}

theorem ensureSubpath_box (s : PlatformPathWKC F) (r : FloatRect F) :
    ensureSubpath { s with m_boundingRect := r } = { ensureSubpath s with m_boundingRect := r } := by
  unfold ensureSubpath
  dsimp only
  split <;> rfl

theorem closeSubpath_box (s : PlatformPathWKC F) (r : FloatRect F) :
    closeSubpath { s with m_boundingRect := r } = { closeSubpath s with m_boundingRect := r } := by
  unfold closeSubpath
  dsimp only
  split
  · split <;> rfl
  · rfl

theorem addToSubpath_box (s : PlatformPathWKC F) (r : FloatRect F) (e : PlatformPathElement F) :
    addToSubpath lib fuel { s with m_boundingRect := r } e =
      (addToSubpath lib fuel s e).map fun s => { s with m_boundingRect := r } := by
  cases e with
  | PathMoveTo m_end => rfl
  | PathCloseSubpath => exact congrArg some (closeSubpath_box s r)
  | _ =>
    simp only [addToSubpath, ensureSubpath_box]
    cases (ensureSubpath s).m_subpaths.getLast? with
    | none => rfl
    | some last =>
      simp only [Option.bind_eq_bind, Option.bind_some, Option.map_bind]
      rfl

theorem ensureSubpath_keeps (s : PlatformPathWKC F) :
    (ensureSubpath s).m_elements = s.m_elements ∧ (ensureSubpath s).m_boundingRect = s.m_boundingRect := by
  unfold ensureSubpath
  split <;> exact ⟨rfl, rfl⟩

theorem closeSubpath_keeps (s : PlatformPathWKC F) :
    (closeSubpath s).m_elements = s.m_elements ∧ (closeSubpath s).m_boundingRect = s.m_boundingRect := by
  unfold closeSubpath
  dsimp only
  split
  · split <;> exact ⟨rfl, rfl⟩
  · exact ⟨rfl, rfl⟩

theorem addToSubpath_keeps (h : addToSubpath lib fuel s e = some s') :
    s'.m_elements = s.m_elements ∧ s'.m_boundingRect = s.m_boundingRect := by
  cases e with
  | PathMoveTo m_end =>
    obtain rfl := Option.some.inj h
    exact ⟨rfl, rfl⟩
  | PathCloseSubpath =>
    obtain rfl := Option.some.inj h
    exact closeSubpath_keeps s
  | _ =>
    simp only [addToSubpath, Option.bind_eq_bind, Option.bind_eq_some_iff] at h
    obtain ⟨last, -, last', -, hs'⟩ := h
    obtain rfl := Option.some.inj hs'
    exact ensureSubpath_keeps s

theorem lastPoint_of_elements (h : s'.m_elements = s.m_elements) : s'.lastPoint = s.lastPoint := by
  unfold PlatformPathWKC.lastPoint
  rw [h]

theorem append_eq_bind (s : PlatformPathWKC F) (e : PlatformPathElement F) :
    append lib fuel s e = (addToSubpath lib fuel s e).bind fun s' =>
      some { s' with
        m_boundingRect := e.inflateRectToContainMe s'.m_boundingRect s'.lastPoint
        m_elements := s'.m_elements ++ [e] } := by
  unfold append
  dsimp only
  rw [addToSubpath_box]
  cases hdrawn : addToSubpath lib fuel s e with
  | none => rfl
  | some s' =>
    obtain ⟨helements, hbox⟩ := addToSubpath_keeps hdrawn
    rw [Option.bind_some, lastPoint_of_elements helements, hbox]
    rfl

/-- Appending a path is appending its elements. -/
theorem appendPath_eq_foldlM (lib : MathLib F D) (fuel : Nat) (s p : PlatformPathWKC F) :
    appendPath lib fuel s p = p.m_elements.foldlM (append lib fuel) s := by
  unfold appendPath
  induction p.m_elements generalizing s with
  | nil => rfl
  | cons it rest ih =>
    rw [List.foldlM_cons, append_eq_bind]
    unfold appendElements
    cases addToSubpath lib fuel s it with
    | none => rfl
    | some s' => exact ih _

end

/-! ## without arcs, in exact arithmetic -/

/-- `float` and `double` are the same, and nothing is rounded. -/
structure Exact (lib : MathLib ℚ ℚ) : Prop where
  toDouble : ∀ x, lib.toDouble x = x
  toFloat : ∀ x, lib.toFloat x = x

def ofCall : Paths.PlatformPathElement → PlatformPathElement ℚ
  | .PathMoveTo point => .PathMoveTo point
  | .PathLineTo point => .PathLineTo point
  | .PathQuadCurveTo cp p => .PathQuadCurveTo cp p
  | .PathBezierCurveTo cp1 cp2 p => .PathBezierCurveTo cp1 cp2 p
  | .PathCloseSubpath => .PathCloseSubpath

def FloatRect.exact (r : FloatRect ℚ) : Paths.FloatRect := { x := r.x, y := r.y, width := r.width, height := r.height }

def PlatformPathWKC.exact (s : PlatformPathWKC ℚ) : Paths.PlatformPathWKC :=
  { m_boundingRect := s.m_boundingRect.exact, m_subpaths := s.m_subpaths, m_currentPoint := s.m_currentPoint
    m_penLifted := s.m_penLifted }

section
variable {lib : MathLib ℚ ℚ} {fuel : Nat} {s : PlatformPathWKC ℚ} {e : Paths.PlatformPathElement}

theorem exact_samples (pp : ℚ → ℚ → PathPoint ℚ) (step : ℚ) (n : Nat) (tA tB : ℚ) :
    samples pp step n tA tB = Paths.samples pp step n tA tB := by
  induction n generalizing tA tB with
  | zero => rfl
  | succ n ih =>
    show pp (tA + step) (tB - step) :: samples pp step n (tA + step) (tB - step) = _
    rw [ih]
    rfl

theorem exact_quadCurve (h : Exact lib) (segments : Nat) (c1 c2 c3 : PathPoint ℚ) :
    quadCurve lib segments c1 c2 c3 = Paths.quadCurve segments c1 c2 c3 := by
  have hpoint : quadPoint lib c1 c2 c3 = Paths.quadPoint c1 c2 c3 := by
    funext tA tB
    unfold quadPoint Paths.quadPoint
    simp only [h.toDouble, h.toFloat]
  unfold quadCurve Paths.quadCurve
  rw [hpoint, exact_samples, h.toFloat]

theorem exact_bezier (h : Exact lib) (segments : Nat) (c1 c2 c3 c4 : PathPoint ℚ) :
    bezier lib segments c1 c2 c3 c4 = Paths.bezier segments c1 c2 c3 c4 := by
  have hpoint : bezierPoint lib c1 c2 c3 c4 = Paths.bezierPoint c1 c2 c3 c4 := by
    funext tA tB
    unfold bezierPoint Paths.bezierPoint
    simp only [h.toDouble, h.toFloat]
  unfold bezier Paths.bezier
  rw [hpoint, exact_samples, h.toFloat]

theorem exact_inflateRectToContainPoint (r : FloatRect ℚ) (p : PathPoint ℚ) :
    (inflateRectToContainPoint r p.m_x p.m_y).exact = Paths.inflateRectToContainPoint r.exact p := by
  unfold inflateRectToContainPoint Paths.inflateRectToContainPoint FloatRect.exact
  have hthousandth : (0.001 : ℚ) = 1 / 1000 := by norm_num
  simp only [Bool.and_eq_true, beq_iff_eq, and_assoc, hthousandth]
  split <;> rfl

theorem exact_inflateRectToContainMe (e : Paths.PlatformPathElement) (r : FloatRect ℚ) (p : PathPoint ℚ) :
    ((ofCall e).inflateRectToContainMe r p).exact = e.inflateRectToContainMe r.exact := by
  have hloop : ∀ (points : List (PathPoint ℚ)) (r : FloatRect ℚ),
      (points.foldl (fun r p => inflateRectToContainPoint r p.m_x p.m_y) r).exact =
        points.foldl Paths.inflateRectToContainPoint r.exact := by
    intro points
    induction points with
    | nil => exact fun r => rfl
    | cons p rest ih =>
      intro r
      rw [List.foldl_cons, List.foldl_cons, ih, exact_inflateRectToContainPoint]
  cases e <;> exact hloop _ r

theorem differs_iff (a b : PathPoint ℚ) : differs a b = true ↔ a ≠ b := by
  unfold differs
  rw [Bool.or_eq_true, bne_iff_ne, bne_iff_ne]
  constructor
  · rintro (h | h) rfl <;> exact h rfl
  · intro h
    by_contra hsame
    rw [not_or, not_not, not_not] at hsame
    exact h (by cases a; cases b; simp_all)

theorem exact_ensureSubpath (s : PlatformPathWKC ℚ) : (ensureSubpath s).exact = Paths.ensureSubpath s.exact := by
  unfold ensureSubpath Paths.ensureSubpath PlatformPathWKC.exact
  dsimp only
  split <;> rfl

theorem exact_closeSubpath (s : PlatformPathWKC ℚ) : (closeSubpath s).exact = Paths.closeSubpath s.exact := by
  unfold closeSubpath Paths.closeSubpath PlatformPathWKC.exact
  dsimp only
  cases s.m_subpaths.getLast? with
  | none => rfl
  | some last =>
    dsimp only
    by_cases hdiffers : differs s.m_currentPoint (last.1.head last.2) = true
    · rw [if_pos hdiffers, if_pos ((differs_iff _ _).mp hdiffers)]
      rfl
    · rw [if_neg hdiffers, if_neg fun hne => hdiffers ((differs_iff _ _).mpr hne)]

theorem exact_drawOn (h : Exact lib) (e : Paths.PlatformPathElement) (p : PathPoint ℚ) (last : Subpath ℚ) :
    drawOn lib fuel (ofCall e) p last = some (last.append (e.drawn p)) := by
  cases e with
  | PathMoveTo | PathCloseSubpath => exact congrArg some (Subtype.ext (List.append_nil last.1).symm)
  | PathLineTo point => rfl
  | PathQuadCurveTo cp p' =>
    show some (last.append (quadCurve lib 50 p cp p')) = _
    rw [exact_quadCurve h]
    rfl
  | PathBezierCurveTo cp1 cp2 p' =>
    show some (last.append (bezier lib 100 p cp1 cp2 p')) = _
    rw [exact_bezier h]
    rfl

theorem ensureSubpath_ne_nil (hpen : s.m_penLifted = false → s.m_subpaths ≠ []) : (ensureSubpath s).m_subpaths ≠ [] := by
  unfold ensureSubpath
  split
  · exact List.append_ne_nil_of_right_ne_nil _ (List.cons_ne_nil _ _)
  · next hdown => exact hpen (by simpa using hdown)

theorem exact_addToSubpath (fuel : Nat) (h : Exact lib) (hpen : s.m_penLifted = false → s.m_subpaths ≠ [])
    (e : Paths.PlatformPathElement) :
    ∃ s', addToSubpath lib fuel s (ofCall e) = some s' ∧ s'.exact = Paths.addToSubpath s.exact e ∧
      (s'.m_penLifted = false → s'.m_subpaths ≠ []) := by
  have hdraw : ∀ line : Paths.PlatformPathElement, ∃ s',
      (do
        let s := ensureSubpath s
        let last ← s.m_subpaths.getLast?
        let last ← drawOn lib fuel (ofCall line) s.m_currentPoint last
        some { s with m_subpaths := s.m_subpaths.dropLast ++ [last], m_currentPoint := last.last }) = some s' ∧
      s'.exact = Paths.drawSubpath s.exact line ∧ (s'.m_penLifted = false → s'.m_subpaths ≠ []) := by
    intro line
    obtain ⟨last, hlast⟩ : ∃ last, (ensureSubpath s).m_subpaths.getLast? = some last :=
      ⟨_, List.getLast?_eq_some_getLast (ensureSubpath_ne_nil hpen)⟩
    dsimp only
    rw [hlast]
    refine ⟨_, by rw [Option.bind_eq_bind, Option.bind_some, exact_drawOn h]; rfl, ?_, ?_⟩
    · unfold Paths.drawSubpath Paths.extendSubpath
      rw [← exact_ensureSubpath]
      dsimp only [PlatformPathWKC.exact]
      rw [hlast]
      rfl
    · exact fun _ => List.append_ne_nil_of_right_ne_nil _ (List.cons_ne_nil _ _)
  cases e with
  | PathMoveTo point => exact ⟨_, rfl, rfl, fun hdown => absurd hdown (by simp)⟩
  | PathCloseSubpath =>
    refine ⟨_, rfl, exact_closeSubpath s, fun hdown => absurd hdown ?_⟩
    have hlifted := Paths.closeSubpath_penLifted s.exact
    rw [← exact_closeSubpath] at hlifted
    simpa [PlatformPathWKC.exact] using hlifted
  | PathLineTo point => exact hdraw (.PathLineTo point)
  | PathQuadCurveTo cp p => exact hdraw (.PathQuadCurveTo cp p)
  | PathBezierCurveTo cp1 cp2 p => exact hdraw (.PathBezierCurveTo cp1 cp2 p)

theorem exact_append (fuel : Nat) (h : Exact lib) (hpen : s.m_penLifted = false → s.m_subpaths ≠ [])
    (e : Paths.PlatformPathElement) :
    ∃ s', append lib fuel s (ofCall e) = some s' ∧ s'.exact = Paths.append s.exact e ∧
      (s'.m_penLifted = false → s'.m_subpaths ≠ []) ∧ s'.m_elements = s.m_elements ++ [ofCall e] := by
  let boxed := { s with m_boundingRect := (ofCall e).inflateRectToContainMe s.m_boundingRect s.lastPoint }
  obtain ⟨s', hs', hexact, hpen'⟩ := exact_addToSubpath (s := boxed) fuel h hpen e
  refine ⟨{ s' with m_elements := s'.m_elements ++ [ofCall e] }, ?_, ?_, hpen', ?_⟩
  · show (addToSubpath lib fuel boxed (ofCall e)).bind _ = _
    rw [hs']
    rfl
  · show s'.exact = _
    have hboxed : boxed.exact = { s.exact with m_boundingRect := e.inflateRectToContainMe s.exact.m_boundingRect } := by
      unfold PlatformPathWKC.exact
      rw [exact_inflateRectToContainMe]
    rw [hexact, hboxed]
    rfl
  · show s'.m_elements ++ [ofCall e] = _
    rw [(addToSubpath_keeps hs').1]

end

end Arcs
end Wkc
