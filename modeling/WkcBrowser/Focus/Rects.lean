import WkcBrowser.Graphics.Tiles

/-!
# Rectangles in a direction (SpatialNavigation.cpp)

* `isRectInDirection`, `alignmentForRects`, `entryAndExitPointsForDirection`   how a rectangle lies to another one;
* `virtualRectForDirection`                   the rectangle of an area of an image map;
* `front`, `Ahead`                            how far a rectangle reaches, and when one is ahead of another;
* `ahead_of_isRectInDirection`                what lies in the direction and does not contain the old one is ahead of it.

A `LayoutUnit` is an `int`, and pages are small enough for sums and squares of coordinates.
-/

namespace Wkc.Focus
open Canvas

/-! ## IntRect.cpp -/

def isEmpty (r : IntRect) : Bool := r.width ≤ 0 || r.height ≤ 0

def contains (r other : IntRect) : Bool :=
  r.x ≤ other.x && r.maxX ≥ other.maxX && r.y ≤ other.y && r.maxY ≥ other.maxY

def intersects (r other : IntRect) : Bool :=
  !isEmpty r && !isEmpty other && r.x < other.maxX && other.x < r.maxX && r.y < other.maxY && other.y < r.maxY

/-- The division of C++ rounds to zero. -/
def center (r : IntRect) : IntPoint := ⟨r.x + Int.tdiv r.width 2, r.y + Int.tdiv r.height 2⟩

def distanceSquaredToPoint (p q : IntPoint) : Int := (p.x - q.x) * (p.x - q.x) + (p.y - q.y) * (p.y - q.y)

/-! ## SpatialNavigation.cpp -/

inductive FocusDirection
  | up
  | down
  | left
  | right
  deriving DecidableEq, Repr

inductive RectsAlignment
  | None
  | Partial
  | OverlapPartial
  | Full
  | OverlapFull
  | SpecialAlignment
  deriving DecidableEq, Repr

/-- the values of the enumeration -/
def RectsAlignment.rank : RectsAlignment → Nat
  | None => 0
  | Partial => 1
  | OverlapPartial => 2
  | Full => 3
  | OverlapFull => 4
  | SpecialAlignment => 5

def isHorizontalMove (d : FocusDirection) : Bool := d == .left || d == .right

def start (d : FocusDirection) (r : IntRect) : Int := if isHorizontalMove d then r.y else r.x

def middle (d : FocusDirection) (r : IntRect) : Int := if isHorizontalMove d then (center r).y else (center r).x

def finish (d : FocusDirection) (r : IntRect) : Int := if isHorizontalMove d then r.maxY else r.maxX

def areRectsFullyAligned (d : FocusDirection) (a b : IntRect) : Bool :=
  (middle d b ≥ start d a && middle d b ≤ finish d a) || (middle d a ≥ start d b && middle d a ≤ finish d b) ||
    start d b == start d a || finish d b == finish d a

def areRectsPartiallyAligned (d : FocusDirection) (a b : IntRect) : Bool :=
  (start d b ≥ start d a && start d b ≤ finish d a) || (finish d b ≥ start d a && finish d b ≤ finish d a) ||
    (middle d b ≥ start d a && middle d b ≤ finish d a) || (finish d b ≥ start d a && finish d b ≤ finish d a)

def areRectsMoreThanFullScreenApart (d : FocusDirection) (cur target : IntRect) (viewSize : IntSize) : Bool :=
  match d with
  | .left => cur.x - target.maxX > viewSize.width
  | .right => target.x - cur.maxX > viewSize.width
  | .up => cur.y - target.maxY > viewSize.height
  | .down => target.y - cur.maxY > viewSize.height

def alignmentForRects (d : FocusDirection) (cur target : IntRect) (viewSize : IntSize) : RectsAlignment :=
  if areRectsMoreThanFullScreenApart d cur target viewSize then .None
  else if areRectsFullyAligned d cur target then (if intersects cur target then .OverlapFull else .Full)
  else if areRectsPartiallyAligned d cur target then (if intersects cur target then .OverlapPartial else .Partial)
  else .None

def isRectInDirection (d : FocusDirection) (cur target : IntRect) : Bool :=
  if contains target cur || contains cur target then true
  else
    let intersected := intersects cur target
    match d with
    | .left => if intersected then target.maxX < cur.maxX else target.maxX ≤ cur.x
    | .right => if intersected then target.x > cur.x else target.x ≥ cur.maxX
    | .up => if intersected then target.maxY < cur.maxY else target.maxY ≤ cur.y
    | .down => if intersected then target.y > cur.y else target.y ≥ cur.maxY

def below (a b : IntRect) : Bool := a.y > b.maxY

def rightOf (a b : IntRect) : Bool := a.x > b.maxX

/-- the coordinates along the direction, of the exit and of the entry -/
def alongDirection (d : FocusDirection) (starting potential : IntRect) : Int × Int :=
  let isStartingRectInPotentialRect := contains potential starting
  let isPotentialRectInStartingRect := contains starting potential
  let intersected := intersects starting potential
  match d with
  | .left =>
    if isStartingRectInPotentialRect then (starting.x, potential.x)
    else if isPotentialRectInStartingRect || intersected then (starting.maxX, potential.maxX)
    else (starting.x, potential.maxX)
  | .up =>
    if isStartingRectInPotentialRect then (starting.y, potential.y)
    else if isPotentialRectInStartingRect || intersected then (starting.maxY, potential.maxY)
    else (starting.y, potential.maxY)
  | .right =>
    if isStartingRectInPotentialRect then (starting.maxX, potential.maxX)
    else if isPotentialRectInStartingRect || intersected then (starting.x, potential.x)
    else (starting.maxX, potential.x)
  | .down =>
    if isStartingRectInPotentialRect then (starting.maxY, potential.maxY)
    else if isPotentialRectInStartingRect || intersected then (starting.y, potential.y)
    else (starting.maxY, potential.y)

def acrossDirection (d : FocusDirection) (starting potential : IntRect) : Int × Int :=
  if isHorizontalMove d then
    if below starting potential then (starting.y, potential.maxY)
    else if below potential starting then (starting.maxY, potential.y)
    else
      let y := Int.tdiv (max starting.y potential.y + min starting.maxY potential.maxY) 2
      (y, y)
  else
    if rightOf starting potential then (starting.x, potential.maxX)
    else if rightOf potential starting then (starting.maxX, potential.x)
    else
      let x := Int.tdiv (max starting.x potential.x + min starting.maxX potential.maxX) 2
      (x, x)

/-- `exitPoint` and `entryPoint` -/
def entryAndExitPointsForDirection (d : FocusDirection) (starting potential : IntRect) : IntPoint × IntPoint :=
  let along := alongDirection d starting potential
  let across := acrossDirection d starting potential
  if isHorizontalMove d then (⟨along.1, across.1⟩, ⟨along.2, across.2⟩)
  else (⟨across.1, along.1⟩, ⟨across.2, along.2⟩)

def virtualRectForDirection (d : FocusDirection) (r : IntRect) (width : Int) : IntRect :=
  match d with
  | .left => { r with x := r.maxX - width, width := width }
  | .up => { r with y := r.maxY - width, height := width }
  | .right => { r with width := width }
  | .down => { r with height := width }

/-! ## ahead -/

/-- how far a rectangle reaches, seen from behind -/
def front (d : FocusDirection) (r : IntRect) : Int :=
  match d with
  | .left => -r.maxX
  | .right => r.x
  | .up => -r.maxY
  | .down => r.y

/-- `r'` begins farther on, or as far and inside `r` -/
def Ahead (d : FocusDirection) (r r' : IntRect) : Prop :=
  front d r < front d r' ∨ (front d r = front d r' ∧ contains r r' = true ∧ contains r' r = false)

theorem contains_iff {r other : IntRect} : contains r other = true ↔
    r.x ≤ other.x ∧ other.maxX ≤ r.maxX ∧ r.y ≤ other.y ∧ other.maxY ≤ r.maxY := by
  simp [contains, and_assoc]

theorem contains_refl (r : IntRect) : contains r r = true := by
  rw [contains_iff]
  omega

theorem contains_trans {a b c : IntRect} (hab : contains a b = true) (hbc : contains b c = true) :
    contains a c = true := by
  rw [contains_iff] at hab hbc ⊢
  omega

theorem isEmpty_eq_false {r : IntRect} : isEmpty r = false ↔ 0 < r.width ∧ 0 < r.height := by
  simp [isEmpty]

theorem ahead_irrefl (d : FocusDirection) (r : IntRect) : ¬ Ahead d r r := by
  rintro (h | ⟨-, h, h'⟩)
  · exact lt_irrefl _ h
  · rw [h] at h'
    exact absurd h' (by simp)

theorem ahead_trans {d : FocusDirection} {a b c : IntRect} (hab : Ahead d a b) (hbc : Ahead d b c) : Ahead d a c := by
  rcases hab with hab | ⟨hab, hin, hout⟩
  · rcases hbc with hbc | ⟨hbc, -, -⟩ <;> exact Or.inl (by omega)
  · rcases hbc with hbc | ⟨hbc, hin', hout'⟩
    · exact Or.inl (by omega)
    · refine Or.inr ⟨by omega, contains_trans hin hin', ?_⟩
      cases hca : contains c a with
      | false => rfl
      | true =>
        rw [contains_trans hca hin] at hout'
        exact absurd hout' (by simp)

theorem ahead_of_isRectInDirection {d : FocusDirection} {cur target : IntRect} (hcur : isEmpty cur = false)
    (hdir : isRectInDirection d cur target = true) (hout : contains target cur = false) : Ahead d cur target := by
  obtain ⟨hwidth, hheight⟩ := isEmpty_eq_false.mp hcur
  unfold isRectInDirection at hdir
  rw [hout, Bool.false_or] at hdir
  split at hdir
  · rename_i hin
    have hedges := contains_iff.mp hin
    have hfront : front d cur ≤ front d target := by
      cases d <;> simp only [front] <;> omega
    rcases lt_or_eq_of_le hfront with hlt | heq
    · exact Or.inl hlt
    · exact Or.inr ⟨heq, hin, hout⟩
  · left
    have hmaxX : cur.maxX = cur.x + cur.width := rfl
    have hmaxY : cur.maxY = cur.y + cur.height := rfl
    cases d <;> simp only [front] at hdir ⊢ <;> split at hdir <;> simp only [decide_eq_true_eq] at hdir <;> omega

end Wkc.Focus
