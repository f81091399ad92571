import WkcBrowser.Graphics.PathBounds

/-!
# Moving a path that is not finished

* `AffineTransform`, `FloatSize`      what moves a path;
* `PlatformPathWKC.translate`, `PlatformPathWKC.transform`      the elements, the box and the subpaths are moved, the
  current point is not;
* `Pen`, `penAt`          where the calls have put the pen, as a plan of its own;
* `drawn_mapped`          a mapped curve is the curve of the mapped points;
* `Image.append`, `Alike.append`      two paths drawn side by side;
* `Followed`, `moved_iff` when drawing goes on as if all points had been moved.

Coordinates are rational numbers; paths have no arcs.
-/

namespace Wkc
namespace PathMoves
open Wkc.Paths (PathPoint PathPolygon PlatformPathElement Subpath FloatRect origin)

/-! ## what moves a path -/

structure FloatSize where
  width : ℚ
  height : ℚ
  deriving DecidableEq

/-- the six numbers of the matrix -/
structure AffineTransform where
  m0 : ℚ
  m1 : ℚ
  m2 : ℚ
  m3 : ℚ
  m4 : ℚ
  m5 : ℚ
  deriving DecidableEq

def AffineTransform.det (t : AffineTransform) : ℚ := t.m0 * t.m3 - t.m1 * t.m2

def AffineTransform.isInvertible (t : AffineTransform) : Bool := t.det != 0

def AffineTransform.isIdentityOrTranslation (t : AffineTransform) : Bool :=
  t.m0 == 1 && t.m1 == 0 && t.m2 == 0 && t.m3 == 1

def AffineTransform.mapPoint (t : AffineTransform) (p : PathPoint ℚ) : PathPoint ℚ :=
  { m_x := t.m0 * p.m_x + t.m2 * p.m_y + t.m4, m_y := t.m1 * p.m_x + t.m3 * p.m_y + t.m5 }

def movePoint (offset : FloatSize) (p : PathPoint ℚ) : PathPoint ℚ :=
  { m_x := p.m_x + offset.width, m_y := p.m_y + offset.height }

def moveRect (delta : FloatSize) (r : FloatRect) : FloatRect :=
  { r with x := r.x + delta.width, y := r.y + delta.height }

def min4 (a b c d : ℚ) : ℚ := min (min a b) (min c d)
def max4 (a b c d : ℚ) : ℚ := max (max a b) (max c d)

def boundingBox (p1 p2 p3 p4 : PathPoint ℚ) : FloatRect :=
  let left := min4 p1.m_x p2.m_x p3.m_x p4.m_x
  let top := min4 p1.m_y p2.m_y p3.m_y p4.m_y
  let right := max4 p1.m_x p2.m_x p3.m_x p4.m_x
  let bottom := max4 p1.m_y p2.m_y p3.m_y p4.m_y
  { x := left, y := top, width := right - left, height := bottom - top }

def AffineTransform.mapRect (t : AffineTransform) (rect : FloatRect) : FloatRect :=
  if t.isIdentityOrTranslation then moveRect { width := t.m4, height := t.m5 } rect
  else
    boundingBox (t.mapPoint { m_x := rect.x, m_y := rect.y }) (t.mapPoint { m_x := rect.maxX, m_y := rect.y })
      (t.mapPoint { m_x := rect.maxX, m_y := rect.maxY }) (t.mapPoint { m_x := rect.x, m_y := rect.maxY })

/-! ## a path with its elements -/

/-- an element with other points: `move` and `transform` -/
def mapElement (f : PathPoint ℚ → PathPoint ℚ) : PlatformPathElement → PlatformPathElement
  | .PathMoveTo point => .PathMoveTo (f point)
  | .PathLineTo point => .PathLineTo (f point)
  | .PathQuadCurveTo cp p => .PathQuadCurveTo (f cp) (f p)
  | .PathBezierCurveTo cp1 cp2 p => .PathBezierCurveTo (f cp1) (f cp2) (f p)
  | .PathCloseSubpath => .PathCloseSubpath

def mapSubpath (f : PathPoint ℚ → PathPoint ℚ) (s : Subpath) : Subpath :=
  ⟨s.1.map f, fun h => s.2 (List.map_eq_nil_iff.mp h)⟩

structure PlatformPathWKC extends Paths.PlatformPathWKC where
  m_elements : List PlatformPathElement

def PlatformPathWKC.new : PlatformPathWKC := { Paths.PlatformPathWKC.new with m_elements := [] }

def append (s : PlatformPathWKC) (e : PlatformPathElement) : PlatformPathWKC :=
  { Paths.append s.toPlatformPathWKC e with m_elements := s.m_elements ++ [e] }

/-- `moveTo`, `addLineTo`, `addQuadCurveTo`, `addBezierCurveTo` and `closeSubpath`, one after another -/
def draw (s : PlatformPathWKC) (calls : List PlatformPathElement) : PlatformPathWKC := calls.foldl append s

/-- The current point stays where it is. -/
def PlatformPathWKC.mapped (s : PlatformPathWKC) (f : PathPoint ℚ → PathPoint ℚ) (box : FloatRect → FloatRect) :
    PlatformPathWKC :=
  { s with
    m_elements := s.m_elements.map (mapElement f)
    m_boundingRect := box s.m_boundingRect
    m_subpaths := s.m_subpaths.map (mapSubpath f) }

def PlatformPathWKC.translate (s : PlatformPathWKC) (size : FloatSize) : PlatformPathWKC :=
  s.mapped (movePoint size) (moveRect size)

def PlatformPathWKC.transform (s : PlatformPathWKC) (t : AffineTransform) : PlatformPathWKC :=
  s.mapped t.mapPoint t.mapRect

/-! ## what is wanted -/

/-- the same elements and subpaths -/
def Same (a b : PlatformPathWKC) : Prop := a.m_elements = b.m_elements ∧ a.m_subpaths = b.m_subpaths

/-- where the calls have put the pen -/
structure Pen where
  position : PathPoint ℚ
  /-- a call has put it there: it is not the origin of a new path -/
  placed : Bool
  /-- the beginning of the last subpath -/
  start : Option (PathPoint ℚ)
  down : Bool
  /-- every subpath began where a call had put the pen -/
  rooted : Bool
  deriving DecidableEq

def Pen.new : Pen := { position := origin, placed := false, start := none, down := false, rooted := true }

def Pen.lineTo (pen : Pen) (p : PathPoint ℚ) : Pen :=
  if pen.down then { pen with position := p }
  else { position := p, placed := true, start := some pen.position, down := true, rooted := pen.rooted && pen.placed }

def Pen.step (pen : Pen) : PlatformPathElement → Pen
  | .PathMoveTo point => { pen with position := point, placed := true, down := false }
  | .PathLineTo point => pen.lineTo point
  | .PathQuadCurveTo _ p => pen.lineTo p
  | .PathBezierCurveTo _ _ p => pen.lineTo p
  | .PathCloseSubpath =>
    { pen with position := pen.start.getD origin, placed := pen.start.isSome, down := false }

def penAt (calls : List PlatformPathElement) : Pen := calls.foldl Pen.step Pen.new

/-- The first call that follows does not ask where the pen is, or finds it where it should be. -/
def Pen.Follows (pen : Pen) (f : PathPoint ℚ → PathPoint ℚ) : List PlatformPathElement → Prop
  | [] => True
  | .PathMoveTo _ :: _ => True
  | .PathLineTo _ :: _ => pen.down = true ∨ f pen.position = pen.position
  | .PathCloseSubpath :: _ => ∀ v, pen.start = some v → (pen.position = f v ↔ pen.position = v)
  | _ :: _ => f pen.position = pen.position

/-- No subpath of `s1` begins at the origin of a new path, or `f` leaves it; and `s2` does not go on from a place that is
not moved. -/
def Followed (f : PathPoint ℚ → PathPoint ℚ) (s1 s2 : List PlatformPathElement) : Prop :=
  ((penAt s1).rooted = true ∨ f origin = origin) ∧ ((penAt s1).placed = true → (penAt s1).Follows f s2)

/-! ## mapped curves -/

section
variable {t : AffineTransform} {a b c d v : PathPoint ℚ}

theorem pathPoint_ext (hx : a.m_x = b.m_x) (hy : a.m_y = b.m_y) : a = b := by
  cases a
  cases b
  exact congrArg₂ PathPoint.mk hx hy

theorem mapPoint_injective (h : t.isInvertible = true) : Function.Injective t.mapPoint := by
  intro a b hab
  have hdet : t.m0 * t.m3 - t.m1 * t.m2 ≠ 0 := by simpa [AffineTransform.isInvertible, AffineTransform.det] using h
  have hx : t.m0 * a.m_x + t.m2 * a.m_y + t.m4 = t.m0 * b.m_x + t.m2 * b.m_y + t.m4 := congrArg PathPoint.m_x hab
  have hy : t.m1 * a.m_x + t.m3 * a.m_y + t.m5 = t.m1 * b.m_x + t.m3 * b.m_y + t.m5 := congrArg PathPoint.m_y hab
  apply pathPoint_ext
  · have hprod : (t.m0 * t.m3 - t.m1 * t.m2) * (a.m_x - b.m_x) = 0 := by linear_combination t.m3 * hx - t.m2 * hy
    exact sub_eq_zero.mp ((mul_eq_zero.mp hprod).resolve_left hdet)
  · have hprod : (t.m0 * t.m3 - t.m1 * t.m2) * (a.m_y - b.m_y) = 0 := by linear_combination t.m0 * hy - t.m1 * hx
    exact sub_eq_zero.mp ((mul_eq_zero.mp hprod).resolve_left hdet)

/-- a translation as a matrix -/
def AffineTransform.ofOffset (offset : FloatSize) : AffineTransform :=
  { m0 := 1, m1 := 0, m2 := 0, m3 := 1, m4 := offset.width, m5 := offset.height }

theorem ofOffset_mapPoint (offset : FloatSize) : (AffineTransform.ofOffset offset).mapPoint = movePoint offset := by
  funext p
  simp [AffineTransform.ofOffset, AffineTransform.mapPoint, movePoint]

theorem ofOffset_isInvertible (offset : FloatSize) : (AffineTransform.ofOffset offset).isInvertible = true := by
  simp [AffineTransform.ofOffset, AffineTransform.isInvertible, AffineTransform.det]

theorem quadPoint_mapped {tA tB : ℚ} (h : tA + tB = 1) :
    Paths.quadPoint (t.mapPoint a) (t.mapPoint b) (t.mapPoint c) tA tB = t.mapPoint (Paths.quadPoint a b c tA tB) := by
  obtain rfl : tB = 1 - tA := by linarith
  apply pathPoint_ext
  all_goals
    simp only [Paths.quadPoint, AffineTransform.mapPoint]
    ring

theorem bezierPoint_mapped {tA tB : ℚ} (h : tA + tB = 1) :
    Paths.bezierPoint (t.mapPoint a) (t.mapPoint b) (t.mapPoint c) (t.mapPoint d) tA tB =
      t.mapPoint (Paths.bezierPoint a b c d tA tB) := by
  obtain rfl : tB = 1 - tA := by linarith
  apply pathPoint_ext
  all_goals
    simp only [Paths.bezierPoint, AffineTransform.mapPoint]
    ring

theorem samples_mapped {f : PathPoint ℚ → PathPoint ℚ} {pp pp' : ℚ → ℚ → PathPoint ℚ}
    (h : ∀ tA tB, tA + tB = 1 → pp' tA tB = f (pp tA tB)) (step : ℚ) (n : Nat) {tA tB : ℚ} (hsum : tA + tB = 1) :
    Paths.samples pp' step n tA tB = (Paths.samples pp step n tA tB).map f := by
  induction n generalizing tA tB with
  | zero => rfl
  | succ n ih =>
    have hnext : tA + step + (tB - step) = 1 := by linarith
    show pp' (tA + step) (tB - step) :: Paths.samples pp' step n (tA + step) (tB - step) = _
    rw [h _ _ hnext, ih hnext]
    rfl

theorem drawn_mapped (t : AffineTransform) (e : PlatformPathElement) (c : PathPoint ℚ) :
    (mapElement t.mapPoint e).drawn (t.mapPoint c) = (e.drawn c).map t.mapPoint := by
  cases e with
  | PathMoveTo | PathCloseSubpath | PathLineTo => rfl
  | PathQuadCurveTo cp p =>
    show Paths.quadCurve 50 _ _ _ = (Paths.quadCurve 50 _ _ _).map _
    unfold Paths.quadCurve
    rw [samples_mapped (fun _ _ => quadPoint_mapped) _ _ (by norm_num), List.map_append]
    rfl
  | PathBezierCurveTo cp1 cp2 p =>
    show Paths.bezier 100 _ _ _ _ = (Paths.bezier 100 _ _ _ _).map _
    unfold Paths.bezier
    rw [samples_mapped (fun _ _ => bezierPoint_mapped) _ _ (by norm_num), List.map_append]
    rfl

end

/-! ## calls on a path -/

/-- many calls, the elements left out -/
def drawAll (s : Paths.PlatformPathWKC) (calls : List PlatformPathElement) : Paths.PlatformPathWKC :=
  calls.foldl Paths.append s

def lastStart (s : Paths.PlatformPathWKC) : Option (PathPoint ℚ) :=
  s.m_subpaths.getLast?.map fun ⟨points, hne⟩ => points.head hne

/-- the same but for the box -/
def Agree (a b : Paths.PlatformPathWKC) : Prop := ∃ r, b = { a with m_boundingRect := r }

/-- a call that draws, to `p` -/
structure Draws (e : PlatformPathElement) (p : PathPoint ℚ) : Prop where
  drawn : ∀ c, ∃ init, e.drawn c = init ++ [p]
  addToSubpath : ∀ s, Paths.addToSubpath s e = Paths.drawSubpath s e
  step : ∀ pen : Pen, pen.step e = pen.lineTo p

section
variable {a b s : Paths.PlatformPathWKC} {e : PlatformPathElement} {p c a' b' : PathPoint ℚ}
  {points : List (PathPoint ℚ)} {calls : List PlatformPathElement}

theorem draw_path (s : PlatformPathWKC) (calls : List PlatformPathElement) :
    (draw s calls).toPlatformPathWKC = drawAll s.toPlatformPathWKC calls ∧
      (draw s calls).m_elements = s.m_elements ++ calls := by
  induction calls generalizing s with
  | nil => exact ⟨rfl, (List.append_nil _).symm⟩
  | cons e rest ih =>
    obtain ⟨hpath, helements⟩ := ih (append s e)
    refine ⟨hpath, helements.trans ?_⟩
    show (s.m_elements ++ [e]) ++ rest = _
    rw [List.append_assoc]
    rfl

theorem draws_lineTo (p : PathPoint ℚ) : Draws (.PathLineTo p) p := ⟨fun _ => ⟨[], rfl⟩, fun _ => rfl, fun _ => rfl⟩

theorem draws_quadCurveTo (cp p : PathPoint ℚ) : Draws (.PathQuadCurveTo cp p) p :=
  ⟨fun _ => ⟨_, rfl⟩, fun _ => rfl, fun _ => rfl⟩

theorem draws_bezierCurveTo (cp1 cp2 p : PathPoint ℚ) : Draws (.PathBezierCurveTo cp1 cp2 p) p :=
  ⟨fun _ => ⟨_, rfl⟩, fun _ => rfl, fun _ => rfl⟩

theorem element_cases (e : PlatformPathElement) :
    (∃ p, e = .PathMoveTo p) ∨ e = .PathCloseSubpath ∨ ∃ p, Draws e p := by
  cases e with
  | PathMoveTo p => exact Or.inl ⟨p, rfl⟩
  | PathCloseSubpath => exact Or.inr (Or.inl rfl)
  | PathLineTo p => exact Or.inr (Or.inr ⟨p, draws_lineTo p⟩)
  | PathQuadCurveTo cp p => exact Or.inr (Or.inr ⟨p, draws_quadCurveTo cp p⟩)
  | PathBezierCurveTo cp1 cp2 p => exact Or.inr (Or.inr ⟨p, draws_bezierCurveTo cp1 cp2 p⟩)

theorem Draws.ne_nil (h : Draws e p) (c : PathPoint ℚ) : e.drawn c ≠ [] := by
  obtain ⟨init, hinit⟩ := h.drawn c
  rw [hinit]
  exact List.append_ne_nil_of_right_ne_nil _ (List.cons_ne_nil _ _)

/-! ### the box is not read -/

theorem ensureSubpath_box (s : Paths.PlatformPathWKC) (r : FloatRect) :
    Paths.ensureSubpath { s with m_boundingRect := r } = { Paths.ensureSubpath s with m_boundingRect := r } := by
  unfold Paths.ensureSubpath
  dsimp only
  split <;> rfl

theorem extendSubpath_box (s : Paths.PlatformPathWKC) (r : FloatRect) (points : List (PathPoint ℚ)) :
    Paths.extendSubpath { s with m_boundingRect := r } points =
      { Paths.extendSubpath s points with m_boundingRect := r } := by
  unfold Paths.extendSubpath
  dsimp only
  cases s.m_subpaths.getLast? <;> rfl

theorem addToSubpath_box (s : Paths.PlatformPathWKC) (r : FloatRect) (e : PlatformPathElement) :
    Paths.addToSubpath { s with m_boundingRect := r } e = { Paths.addToSubpath s e with m_boundingRect := r } := by
  have hdraw : ∀ line, Paths.drawSubpath { s with m_boundingRect := r } line =
      { Paths.drawSubpath s line with m_boundingRect := r } := by
    intro line
    unfold Paths.drawSubpath
    dsimp only
    rw [ensureSubpath_box, extendSubpath_box]
  cases e with
  | PathMoveTo point => rfl
  | PathCloseSubpath =>
    show Paths.closeSubpath _ = { Paths.closeSubpath s with m_boundingRect := r }
    unfold Paths.closeSubpath
    dsimp only
    split
    · split <;> rfl
    · rfl
  | _ => exact hdraw _

theorem agree_fields : Agree a b ↔ b.m_subpaths = a.m_subpaths ∧ b.m_currentPoint = a.m_currentPoint ∧
    b.m_penLifted = a.m_penLifted := by
  constructor
  · rintro ⟨r, rfl⟩
    exact ⟨rfl, rfl, rfl⟩
  · rintro ⟨hsubpaths, hcurrent, hpen⟩
    refine ⟨b.m_boundingRect, ?_⟩
    rw [← hsubpaths, ← hcurrent, ← hpen]

theorem append_eq (s : Paths.PlatformPathWKC) (e : PlatformPathElement) :
    Paths.append s e =
      { Paths.addToSubpath s e with m_boundingRect := e.inflateRectToContainMe s.m_boundingRect } :=
  addToSubpath_box s _ e

theorem agree_append (s : Paths.PlatformPathWKC) (e : PlatformPathElement) :
    Agree (Paths.addToSubpath s e) (Paths.append s e) :=
  ⟨_, append_eq s e⟩

theorem Agree.append (h : Agree a b) (e : PlatformPathElement) : Agree (Paths.append a e) (Paths.append b e) := by
  obtain ⟨r, rfl⟩ := h
  refine ⟨e.inflateRectToContainMe r, ?_⟩
  rw [append_eq, append_eq, addToSubpath_box]

theorem Agree.trans {d : Paths.PlatformPathWKC} (h : Agree a b) (h' : Agree b d) : Agree a d := by
  obtain ⟨r, rfl⟩ := h
  obtain ⟨r', rfl⟩ := h'
  exact ⟨r', rfl⟩

theorem Agree.symm (h : Agree a b) : Agree b a := by
  obtain ⟨r, rfl⟩ := h
  exact ⟨a.m_boundingRect, rfl⟩

theorem Agree.subpaths (h : Agree a b) : b.m_subpaths = a.m_subpaths := (agree_fields.mp h).1

theorem Agree.drawAll (h : Agree a b) (calls : List PlatformPathElement) : Agree (drawAll a calls) (drawAll b calls) := by
  induction calls generalizing a b with
  | nil => exact h
  | cons e rest ih => exact ih (h.append e)

/-! ### what is drawn stays -/

/-- Every subpath is still there, and may have become longer. -/
def Older (a b : Paths.PlatformPathWKC) : Prop :=
  ∀ (i : Nat) (p : Subpath), a.m_subpaths[i]? = some p → ∃ p' : Subpath, b.m_subpaths[i]? = some p' ∧ p.1 <+: p'.1

theorem older_of_subpaths (h : b.m_subpaths = a.m_subpaths) : Older a b := by
  intro i p hp
  exact ⟨p, h ▸ hp, List.prefix_refl _⟩

theorem Older.trans {d : Paths.PlatformPathWKC} (h : Older a b) (h' : Older b d) : Older a d := by
  intro i p hp
  obtain ⟨p', hp', hprefix⟩ := h i p hp
  obtain ⟨p'', hp'', hprefix'⟩ := h' i p' hp'
  exact ⟨p'', hp'', hprefix.trans hprefix'⟩

theorem older_longer {last : Subpath} (hlast : a.m_subpaths.getLast? = some last)
    (hb : b.m_subpaths = a.m_subpaths.dropLast ++ [last.append points]) : Older a b := by
  intro i p hp
  have hsplit : a.m_subpaths = a.m_subpaths.dropLast ++ [last] := (List.dropLast_append_getLast? last hlast).symm
  rw [hsplit, List.getElem?_append] at hp
  rw [hb, List.getElem?_append]
  split at hp
  · next hlt =>
    rw [if_pos hlt]
    exact ⟨p, hp, List.prefix_refl _⟩
  · next hge =>
    rw [if_neg hge]
    obtain ⟨hi, hp⟩ := List.getElem?_eq_some_iff.mp hp
    have hzero : i - a.m_subpaths.dropLast.length = 0 := by simpa using hi
    rw [hzero]
    refine ⟨_, rfl, ?_⟩
    have hp : last = p := by simpa [hzero] using hp
    rw [← hp]
    exact List.prefix_append _ _

theorem older_ensureSubpath (s : Paths.PlatformPathWKC) : Older s (Paths.ensureSubpath s) := by
  unfold Paths.ensureSubpath
  split
  · intro i p hp
    refine ⟨p, ?_, List.prefix_refl _⟩
    show (s.m_subpaths ++ _)[i]? = some p
    rw [List.getElem?_append_left (List.getElem?_eq_some_iff.mp hp).1, hp]
  · exact older_of_subpaths rfl

theorem older_extendSubpath (s : Paths.PlatformPathWKC) (points : List (PathPoint ℚ)) :
    Older s (Paths.extendSubpath s points) := by
  unfold Paths.extendSubpath
  split
  · exact older_of_subpaths rfl
  · next last hlast => exact older_longer hlast rfl

theorem older_append (s : Paths.PlatformPathWKC) (e : PlatformPathElement) : Older s (Paths.append s e) := by
  refine Older.trans ?_ (older_of_subpaths (agree_append s e).subpaths)
  rcases element_cases e with ⟨p, rfl⟩ | rfl | ⟨p, hdraws⟩
  · exact older_of_subpaths rfl
  · show Older s (Paths.closeSubpath s)
    unfold Paths.closeSubpath
    dsimp only
    split
    · next last hlast =>
      split
      · exact older_longer hlast rfl
      · exact older_of_subpaths rfl
    · exact older_of_subpaths rfl
  · rw [hdraws.addToSubpath]
    exact (older_ensureSubpath s).trans (older_extendSubpath _ _)

theorem older_drawAll (s : Paths.PlatformPathWKC) (calls : List PlatformPathElement) : Older s (drawAll s calls) := by
  induction calls generalizing s with
  | nil => exact older_of_subpaths rfl
  | cons e rest ih => exact (older_append s e).trans (ih _)

/-- a vertex, by its subpath and its place there -/
def vertexAt (s : Paths.PlatformPathWKC) (i j : Nat) : Option (PathPoint ℚ) := s.m_subpaths[i]?.bind fun p => p.1[j]?

theorem Older.vertexAt (h : Older a b) {i j : Nat} {v : PathPoint ℚ} (hv : vertexAt a i j = some v) :
    vertexAt b i j = some v := by
  obtain ⟨p, hp, hj⟩ := Option.bind_eq_some_iff.mp hv
  obtain ⟨p', hp', more, hmore⟩ := h i p hp
  unfold PathMoves.vertexAt
  rw [hp', Option.bind_some, ← hmore, List.getElem?_append_left (List.getElem?_eq_some_iff.mp hj).1, hj]

theorem subpaths_ne_of_vertexAt {i j : Nat} {v w : PathPoint ℚ} (ha : vertexAt a i j = some v)
    (hb : vertexAt b i j = some w) (hne : v ≠ w) (calls more : List PlatformPathElement) :
    (drawAll a calls).m_subpaths ≠ (drawAll b more).m_subpaths := by
  intro hsame
  have ha' := (older_drawAll a calls).vertexAt ha
  have hb' := (older_drawAll b more).vertexAt hb
  unfold vertexAt at ha' hb'
  rw [hsame, hb'] at ha'
  exact hne (Option.some.inj ha').symm

/-! ### the pen -/

theorem lastStart_longer {last : Subpath} (hlast : a.m_subpaths.getLast? = some last)
    (hb : b.m_subpaths = a.m_subpaths.dropLast ++ [last.append points]) : lastStart b = lastStart a := by
  unfold lastStart
  rw [hb, hlast, List.getLast?_concat]
  exact congrArg some (List.head_append_of_ne_nil last.2)

theorem lastStart_eq_none : lastStart s = none ↔ s.m_subpaths = [] := by
  unfold lastStart
  rw [Option.map_eq_none_iff, List.getLast?_eq_none_iff]

theorem ensureSubpath_lastStart (s : Paths.PlatformPathWKC) :
    lastStart (Paths.ensureSubpath s) = if s.m_penLifted then some s.m_currentPoint else lastStart s := by
  unfold Paths.ensureSubpath lastStart
  split
  · rw [List.getLast?_concat]
    rfl
  · rfl

theorem ensureSubpath_penLifted (s : Paths.PlatformPathWKC) : (Paths.ensureSubpath s).m_penLifted = false := by
  unfold Paths.ensureSubpath
  split
  · rfl
  · next hdown => simpa using hdown

theorem extendSubpath_lastStart (s : Paths.PlatformPathWKC) (points : List (PathPoint ℚ)) :
    lastStart (Paths.extendSubpath s points) = lastStart s := by
  unfold Paths.extendSubpath
  split
  · rfl
  · next last hlast => exact lastStart_longer hlast rfl

theorem extendSubpath_penLifted (s : Paths.PlatformPathWKC) (points : List (PathPoint ℚ)) :
    (Paths.extendSubpath s points).m_penLifted = s.m_penLifted := by
  unfold Paths.extendSubpath
  split <;> rfl

theorem extendSubpath_currentPoint (hne : s.m_subpaths ≠ []) (init : List (PathPoint ℚ)) (p : PathPoint ℚ) :
    (Paths.extendSubpath s (init ++ [p])).m_currentPoint = p := by
  unfold Paths.extendSubpath
  rw [List.getLast?_eq_some_getLast hne]
  have hend : ∀ (l : List (PathPoint ℚ)) (h : l ++ (init ++ [p]) ≠ []), (l ++ (init ++ [p])).getLast h = p := by
    intro l h
    simp
  exact hend _ _

theorem drawSubpath_lastStart (s : Paths.PlatformPathWKC) (e : PlatformPathElement) :
    lastStart (Paths.drawSubpath s e) = if s.m_penLifted then some s.m_currentPoint else lastStart s := by
  unfold Paths.drawSubpath
  rw [extendSubpath_lastStart, ensureSubpath_lastStart]

theorem drawSubpath_penLifted (s : Paths.PlatformPathWKC) (e : PlatformPathElement) :
    (Paths.drawSubpath s e).m_penLifted = false := by
  unfold Paths.drawSubpath
  rw [extendSubpath_penLifted, ensureSubpath_penLifted]

theorem drawSubpath_currentPoint (h : Draws e p) (hpen : s.m_penLifted = false → s.m_subpaths ≠ []) :
    (Paths.drawSubpath s e).m_currentPoint = p := by
  unfold Paths.drawSubpath
  obtain ⟨init, hinit⟩ := h.drawn (Paths.ensureSubpath s).m_currentPoint
  dsimp only
  rw [hinit]
  exact extendSubpath_currentPoint (Paths.ensureSubpath_ne_nil hpen) init p

theorem closeSubpath_lastStart (s : Paths.PlatformPathWKC) : lastStart (Paths.closeSubpath s) = lastStart s := by
  unfold Paths.closeSubpath
  dsimp only
  split
  · next last hlast =>
    split
    · exact lastStart_longer hlast rfl
    · rfl
  · rfl

theorem closeSubpath_currentPoint (s : Paths.PlatformPathWKC) :
    (Paths.closeSubpath s).m_currentPoint = (lastStart s).getD origin := by
  unfold Paths.closeSubpath lastStart
  dsimp only
  cases s.m_subpaths.getLast? with
  | none => rfl
  | some last =>
    dsimp only
    split
    · rfl
    · next hsame => exact not_not.mp hsame

/-- the pen is where the plan has it -/
structure Describes (pen : Pen) (s : Paths.PlatformPathWKC) : Prop where
  position : s.m_currentPoint = pen.position
  penLifted : s.m_penLifted = !pen.down
  start : lastStart s = pen.start
  down : pen.down = true → pen.start ≠ none ∧ pen.placed = true
  unplaced : pen.placed = false → pen.position = origin ∧ pen.start = none
  unrooted : pen.rooted = false → vertexAt s 0 0 = some origin

theorem describes_new : Describes Pen.new Paths.PlatformPathWKC.new where
  position := rfl
  penLifted := rfl
  start := rfl
  down := fun h => absurd h (by simp [Pen.new])
  unplaced := fun _ => ⟨rfl, rfl⟩
  unrooted := fun h => absurd h (by simp [Pen.new])

theorem Describes.ne_nil {pen : Pen} (h : Describes pen s) (hlifted : s.m_penLifted = false) : s.m_subpaths ≠ [] := by
  intro hnil
  have hdown : pen.down = true := by simpa [h.penLifted] using hlifted
  exact (h.down hdown).1 (h.start ▸ lastStart_eq_none.mpr hnil)

theorem Describes.nil {pen : Pen} (h : Describes pen s) (hnone : pen.start = none) : s.m_subpaths = [] :=
  lastStart_eq_none.mp (h.start.trans hnone)

theorem vertexAt_begun (hlifted : s.m_penLifted = true) (e : PlatformPathElement) :
    vertexAt (Paths.drawSubpath s e) s.m_subpaths.length 0 = some s.m_currentPoint := by
  unfold Paths.drawSubpath
  apply (older_extendSubpath _ _).vertexAt
  unfold Paths.ensureSubpath vertexAt
  rw [if_pos hlifted, List.getElem?_concat_length]
  rfl

theorem Describes.agree {pen : Pen} (h : Describes pen a) (hagree : Agree a b) : Describes pen b := by
  obtain ⟨r, rfl⟩ := hagree
  exact ⟨h.position, h.penLifted, h.start, h.down, h.unplaced, h.unrooted⟩

theorem Describes.lineTo {pen : Pen} (h : Describes pen s) (hdraws : Draws e p) :
    Describes (pen.lineTo p) (Paths.drawSubpath s e) := by
  have hcurrent := drawSubpath_currentPoint hdraws h.ne_nil
  have hstart := drawSubpath_lastStart s e
  have holder := (older_ensureSubpath s).trans (older_extendSubpath _ (e.drawn (Paths.ensureSubpath s).m_currentPoint))
  unfold Pen.lineTo
  cases hdown : pen.down with
  | true =>
    rw [h.penLifted, hdown] at hstart
    refine ⟨hcurrent, ?_, hstart.trans h.start, fun _ => h.down hdown, ?_, fun hroot => holder.vertexAt (h.unrooted hroot)⟩
    · rw [drawSubpath_penLifted]
      rfl
    · exact fun hplaced => absurd (h.down hdown).2 (by simpa using hplaced)
  | false =>
    have hlifted : s.m_penLifted = true := by rw [h.penLifted, hdown]; rfl
    rw [if_pos hlifted, h.position] at hstart
    refine ⟨hcurrent, drawSubpath_penLifted s e, hstart, fun _ => ⟨by simp, rfl⟩, fun hplaced => absurd hplaced (by simp), ?_⟩
    intro hroot
    rcases Bool.and_eq_false_iff.mp hroot with hroot | hplaced
    · exact holder.vertexAt (h.unrooted hroot)
    · obtain ⟨horigin, hnone⟩ := h.unplaced hplaced
      have hbegun := vertexAt_begun hlifted e
      rw [h.position, horigin, h.nil hnone] at hbegun
      exact hbegun

theorem Describes.append {pen : Pen} (h : Describes pen s) (e : PlatformPathElement) :
    Describes (pen.step e) (Paths.append s e) := by
  apply Describes.agree _ (agree_append s e)
  rcases element_cases e with ⟨p, rfl⟩ | rfl | ⟨p, hdraws⟩
  · exact ⟨rfl, rfl, h.start, fun hdown => absurd hdown (by simp [Pen.step]), fun hplaced => absurd hplaced (by simp [Pen.step]),
      h.unrooted⟩
  · show Describes _ (Paths.closeSubpath s)
    have hstart := closeSubpath_lastStart s
    refine ⟨?_, Paths.closeSubpath_penLifted s, hstart.trans h.start, fun hdown => absurd hdown (by simp [Pen.step]), ?_, ?_⟩
    · rw [closeSubpath_currentPoint, h.start]
      rfl
    · intro hplaced
      have hnone : pen.start = none := by simpa [Pen.step] using hplaced
      exact ⟨by simp [Pen.step, hnone], hnone⟩
    · intro hroot
      have holder : Older s (Paths.closeSubpath s) :=
        (older_append s .PathCloseSubpath).trans (older_of_subpaths (agree_append s .PathCloseSubpath).symm.subpaths)
      exact holder.vertexAt (h.unrooted hroot)
  · rw [hdraws.addToSubpath, hdraws.step]
    exact h.lineTo hdraws

theorem describes_drawAll {pen : Pen} (h : Describes pen s) (calls : List PlatformPathElement) :
    Describes (calls.foldl Pen.step pen) (drawAll s calls) := by
  induction calls generalizing pen s with
  | nil => exact h
  | cons e rest ih => exact ih (h.append e)

theorem describes_built (calls : List PlatformPathElement) :
    Describes (penAt calls) (drawAll Paths.PlatformPathWKC.new calls) :=
  describes_drawAll describes_new calls

/-! ### two paths side by side -/

def vertices (s : Paths.PlatformPathWKC) : Nat := (s.m_subpaths.map fun p => p.1.length).sum

/-- They differ in their finished subpaths only, or in how long the last one is. -/
structure Alike (a b : Paths.PlatformPathWKC) : Prop where
  currentPoint : a.m_currentPoint = b.m_currentPoint
  penLifted : a.m_penLifted = b.m_penLifted
  start : lastStart a = lastStart b
  pen : a.m_penLifted = false → a.m_subpaths ≠ []

theorem Alike.ne_nil (h : Alike a b) : b.m_penLifted = false → b.m_subpaths ≠ [] := by
  intro hlifted hnil
  rw [← lastStart_eq_none, ← h.start, lastStart_eq_none] at hnil
  exact h.pen (h.penLifted.trans hlifted) hnil

theorem vertices_longer {last : Subpath} (points : List (PathPoint ℚ)) (hlast : a.m_subpaths.getLast? = some last)
    (hb : b.m_subpaths = a.m_subpaths.dropLast ++ [last.append points]) : vertices b = vertices a + points.length := by
  have hsplit : a.m_subpaths = a.m_subpaths.dropLast ++ [last] := (List.dropLast_append_getLast? last hlast).symm
  unfold vertices
  rw [hb, hsplit, List.dropLast_concat]
  simp [Paths.Subpath.append]
  omega

theorem drawSubpath_vertices (hpen : s.m_penLifted = false → s.m_subpaths ≠ []) (e : PlatformPathElement) :
    vertices (Paths.drawSubpath s e) =
      vertices s + (if s.m_penLifted then 1 else 0) + (e.drawn s.m_currentPoint).length := by
  have hensure : vertices (Paths.ensureSubpath s) = vertices s + if s.m_penLifted then 1 else 0 := by
    unfold Paths.ensureSubpath vertices
    split <;> simp
  unfold Paths.drawSubpath
  dsimp only
  rw [Paths.ensureSubpath_currentPoint, ← hensure]
  have hlast := List.getLast?_eq_some_getLast (Paths.ensureSubpath_ne_nil hpen)
  exact vertices_longer _ hlast (by unfold Paths.extendSubpath; rw [hlast])

theorem closeSubpath_of_eq (h : ∀ v, lastStart s = some v → s.m_currentPoint = v) :
    (Paths.closeSubpath s).m_subpaths = s.m_subpaths := by
  unfold lastStart at h
  unfold Paths.closeSubpath
  dsimp only
  cases hlast : s.m_subpaths.getLast? with
  | none => rfl
  | some last =>
    dsimp only
    rw [hlast] at h
    rw [if_neg (not_not.mpr (h _ rfl))]

theorem closeSubpath_of_ne {v : PathPoint ℚ} (hv : lastStart s = some v) (hne : s.m_currentPoint ≠ v) :
    vertices (Paths.closeSubpath s) = vertices s + 1 := by
  unfold lastStart at hv
  unfold Paths.closeSubpath
  dsimp only
  cases hlast : s.m_subpaths.getLast? with
  | none =>
    rw [hlast] at hv
    exact absurd hv (by simp)
  | some last =>
    dsimp only
    rw [hlast] at hv
    obtain rfl := Option.some.inj hv
    rw [if_pos hne]
    exact vertices_longer [last.1.head last.2] hlast rfl

theorem vertices_of_subpaths (h : b.m_subpaths = a.m_subpaths) : vertices b = vertices a := by
  unfold vertices
  rw [h]

theorem Alike.close (h : Alike a b) :
    vertices (Paths.closeSubpath a) + vertices b = vertices (Paths.closeSubpath b) + vertices a := by
  by_cases hback : ∀ v, lastStart a = some v → a.m_currentPoint = v
  · have hb : ∀ v, lastStart b = some v → b.m_currentPoint = v := by
      rw [← h.start, ← h.currentPoint]
      exact hback
    rw [vertices_of_subpaths (closeSubpath_of_eq hback), vertices_of_subpaths (closeSubpath_of_eq hb), Nat.add_comm]
  · push Not at hback
    obtain ⟨v, hv, hne⟩ := hback
    have hb : vertices (Paths.closeSubpath b) = vertices b + 1 :=
      closeSubpath_of_ne (h.start ▸ hv) (h.currentPoint ▸ hne)
    rw [closeSubpath_of_ne hv hne, hb]
    omega

theorem Alike.append (h : Alike a b) (e : PlatformPathElement) :
    Alike (Paths.append a e) (Paths.append b e) ∧
      vertices (Paths.append a e) + vertices b = vertices (Paths.append b e) + vertices a := by
  rw [append_eq, append_eq]
  suffices hadd : Alike (Paths.addToSubpath a e) (Paths.addToSubpath b e) ∧
      vertices (Paths.addToSubpath a e) + vertices b = vertices (Paths.addToSubpath b e) + vertices a from
    ⟨⟨hadd.1.currentPoint, hadd.1.penLifted, hadd.1.start, hadd.1.pen⟩, hadd.2⟩
  rcases element_cases e with ⟨p, rfl⟩ | rfl | ⟨p, hdraws⟩
  · exact ⟨⟨rfl, rfl, h.start, fun hlifted => absurd hlifted (by simp [Paths.addToSubpath])⟩, Nat.add_comm _ _⟩
  · show Alike (Paths.closeSubpath a) (Paths.closeSubpath b) ∧
      vertices (Paths.closeSubpath a) + vertices b = vertices (Paths.closeSubpath b) + vertices a
    have hlifted := Paths.closeSubpath_penLifted a
    refine ⟨⟨?_, ?_, ?_, fun hdown => absurd hdown (by simp [hlifted])⟩, h.close⟩
    · rw [closeSubpath_currentPoint, closeSubpath_currentPoint, h.start]
    · rw [hlifted, Paths.closeSubpath_penLifted]
    · rw [closeSubpath_lastStart, closeSubpath_lastStart, h.start]
  · rw [hdraws.addToSubpath, hdraws.addToSubpath]
    have hlifted := drawSubpath_penLifted a e
    refine ⟨⟨?_, ?_, ?_, fun _ hnil => ?_⟩, ?_⟩
    · rw [drawSubpath_currentPoint hdraws h.pen, drawSubpath_currentPoint hdraws h.ne_nil]
    · rw [hlifted, drawSubpath_penLifted]
    · rw [drawSubpath_lastStart, drawSubpath_lastStart, h.start, h.penLifted, h.currentPoint]
    · have hnone := lastStart_eq_none.mpr hnil
      rw [drawSubpath_lastStart] at hnone
      cases hpen : a.m_penLifted with
      | true => simp [hpen] at hnone
      | false =>
        rw [hpen] at hnone
        exact h.pen hpen (lastStart_eq_none.mp hnone)
    · rw [drawSubpath_vertices h.pen, drawSubpath_vertices h.ne_nil, h.penLifted, h.currentPoint]
      omega

theorem Alike.drawAll (h : Alike a b) (calls : List PlatformPathElement) :
    vertices (drawAll a calls) + vertices b = vertices (drawAll b calls) + vertices a := by
  induction calls generalizing a b with
  | nil => exact Nat.add_comm _ _
  | cons e rest ih =>
    obtain ⟨hnext, hadded⟩ := h.append e
    have hrest := ih hnext
    show vertices (PathMoves.drawAll (Paths.append a e) rest) + _ = vertices (PathMoves.drawAll (Paths.append b e) rest) + _
    omega

/-! ### another current point -/

/-- the same path with the pen at `c` -/
def withPen (s : Paths.PlatformPathWKC) (c : PathPoint ℚ) : Paths.PlatformPathWKC := { s with m_currentPoint := c }

/-- The calls draw the same from `c` as from the current point. -/
def Goes (s : Paths.PlatformPathWKC) (c : PathPoint ℚ) : List PlatformPathElement → Prop
  | [] => True
  | .PathMoveTo _ :: _ => True
  | .PathLineTo _ :: _ => s.m_penLifted = false ∨ c = s.m_currentPoint
  | .PathCloseSubpath :: _ => ∀ v, lastStart s = some v → (c = v ↔ s.m_currentPoint = v)
  | _ :: _ => c = s.m_currentPoint

theorem drawAll_draw_ne (hdraws : Draws e p) (hpen : s.m_penLifted = false → s.m_subpaths ≠ []) (hc : c ≠ s.m_currentPoint)
    (hfirst : s.m_penLifted = false → (e.drawn c).head? ≠ (e.drawn s.m_currentPoint).head?)
    (calls : List PlatformPathElement) :
    (drawAll (withPen s c) (e :: calls)).m_subpaths ≠ (drawAll s (e :: calls)).m_subpaths := by
  have hfollow : ∀ (a : Paths.PlatformPathWKC) {i j : Nat} {v : PathPoint ℚ},
      vertexAt (Paths.drawSubpath a e) i j = some v → vertexAt (Paths.append a e) i j = some v := by
    intro a i j v hv
    rw [← hdraws.addToSubpath] at hv
    exact (older_of_subpaths (agree_append a e).subpaths).vertexAt hv
  cases hlifted : s.m_penLifted with
  | true =>
    have hc' : vertexAt (Paths.drawSubpath (withPen s c) e) s.m_subpaths.length 0 = some c :=
      vertexAt_begun (s := withPen s c) hlifted e
    have hs := vertexAt_begun hlifted e
    exact subpaths_ne_of_vertexAt (hfollow _ hc') (hfollow _ hs) hc calls calls
  | false =>
    have hne := hpen hlifted
    have hlast := List.getLast?_eq_some_getLast hne
    have hvertex : ∀ c : PathPoint ℚ,
        vertexAt (Paths.drawSubpath (withPen s c) e) (s.m_subpaths.length - 1)
          (s.m_subpaths.getLast hne).1.length = (e.drawn c).head? := by
      intro c
      unfold Paths.drawSubpath Paths.ensureSubpath withPen
      dsimp only
      rw [hlifted, if_neg (by simp)]
      unfold Paths.extendSubpath vertexAt
      dsimp only
      rw [hlast]
      dsimp only
      rw [← List.length_dropLast, List.getElem?_concat_length, Option.bind_some]
      show ((s.m_subpaths.getLast hne).1 ++ e.drawn c)[_]? = _
      rw [List.getElem?_append_right (Nat.le_refl _), Nat.sub_self, List.head?_eq_getElem?]
    have hat := hvertex c
    have hs : vertexAt (Paths.drawSubpath s e) _ _ = _ := hvertex s.m_currentPoint
    obtain ⟨v, hv⟩ : ∃ v, (e.drawn c).head? = some v := ⟨_, List.head?_eq_some_head (hdraws.ne_nil c)⟩
    obtain ⟨w, hw⟩ : ∃ w, (e.drawn s.m_currentPoint).head? = some w := ⟨_, List.head?_eq_some_head (hdraws.ne_nil _)⟩
    refine subpaths_ne_of_vertexAt (hfollow _ (hat.trans hv)) (hfollow _ (hs.trans hw)) ?_ calls calls
    rintro rfl
    exact hfirst hlifted (hv.trans hw.symm)

theorem quadCurve_head_ne {cp : PathPoint ℚ} (h : a' ≠ b') :
    (Paths.quadCurve 50 a' cp p).head? ≠ (Paths.quadCurve 50 b' cp p).head? := by
  intro hsame
  have hpoint : Paths.quadPoint a' cp p (0 + 1 / (50 : Nat)) (1 - 1 / (50 : Nat)) =
      Paths.quadPoint b' cp p (0 + 1 / (50 : Nat)) (1 - 1 / (50 : Nat)) := Option.some.inj hsame
  unfold Paths.quadPoint at hpoint
  rw [PathPoint.mk.injEq] at hpoint
  obtain ⟨hx, hy⟩ := hpoint
  exact h (pathPoint_ext (by norm_num at hx; linarith) (by norm_num at hy; linarith))

theorem bezier_head_ne {cp1 cp2 : PathPoint ℚ} (h : a' ≠ b') :
    (Paths.bezier 100 a' cp1 cp2 p).head? ≠ (Paths.bezier 100 b' cp1 cp2 p).head? := by
  intro hsame
  have hpoint : Paths.bezierPoint a' cp1 cp2 p (0 + 1 / (100 : Nat)) (1 - 1 / (100 : Nat)) =
      Paths.bezierPoint b' cp1 cp2 p (0 + 1 / (100 : Nat)) (1 - 1 / (100 : Nat)) := Option.some.inj hsame
  unfold Paths.bezierPoint at hpoint
  rw [PathPoint.mk.injEq] at hpoint
  obtain ⟨hx, hy⟩ := hpoint
  exact h (pathPoint_ext (by norm_num at hx; linarith) (by norm_num at hy; linarith))

theorem drawAll_of_agree (h : Agree (Paths.append a e) (Paths.append b e)) (calls : List PlatformPathElement) :
    (drawAll a (e :: calls)).m_subpaths = (drawAll b (e :: calls)).m_subpaths :=
  (h.drawAll calls).subpaths.symm

theorem closeSubpath_at (h : ∀ v, lastStart s = some v → (c = v ↔ s.m_currentPoint = v)) :
    Agree (Paths.closeSubpath (withPen s c)) (Paths.closeSubpath s) := by
  unfold lastStart at h
  unfold Paths.closeSubpath withPen
  dsimp only
  cases hlast : s.m_subpaths.getLast? with
  | none => exact ⟨s.m_boundingRect, rfl⟩
  | some last =>
    rw [hlast] at h
    have hiff := h _ rfl
    dsimp only
    by_cases hback : c = last.1.head last.2
    · rw [if_neg (not_not.mpr hback), if_neg (not_not.mpr (hiff.mp hback))]
      exact agree_fields.mpr ⟨rfl, (hiff.mp hback).trans hback.symm, rfl⟩
    · rw [if_pos hback, if_pos fun hs => hback (hiff.mpr hs)]
      exact ⟨s.m_boundingRect, rfl⟩

theorem drawAll_close_ne {v : PathPoint ℚ} (hv : lastStart s = some v) (h : ¬ (c = v ↔ s.m_currentPoint = v))
    (calls : List PlatformPathElement) :
    (drawAll (withPen s c) (.PathCloseSubpath :: calls)).m_subpaths ≠
      (drawAll s (.PathCloseSubpath :: calls)).m_subpaths := by
  intro hsame
  have hclosed : ∀ a : Paths.PlatformPathWKC, lastStart a = some v → (Paths.closeSubpath a).m_currentPoint = v := by
    intro a ha
    rw [closeSubpath_currentPoint, ha]
    rfl
  have halike : Alike (Paths.closeSubpath (withPen s c)) (Paths.closeSubpath s) := by
    have hlifted := Paths.closeSubpath_penLifted (withPen s c)
    refine ⟨?_, ?_, ?_, fun hdown => absurd hdown (by simp [hlifted])⟩
    · rw [hclosed (withPen s c) hv, hclosed s hv]
    · rw [hlifted, Paths.closeSubpath_penLifted]
    · rw [closeSubpath_lastStart, closeSubpath_lastStart]
      rfl
  have hcount := halike.drawAll calls
  have hrest : ∀ a : Paths.PlatformPathWKC,
      (drawAll a (.PathCloseSubpath :: calls)).m_subpaths = (drawAll (Paths.closeSubpath a) calls).m_subpaths := by
    intro a
    exact ((agree_append a .PathCloseSubpath).drawAll calls).subpaths
  rw [hrest, hrest] at hsame
  rw [vertices_of_subpaths hsame] at hcount
  have hat : vertices (withPen s c) = vertices s := vertices_of_subpaths rfl
  by_cases hback : s.m_currentPoint = v
  · have hne : c ≠ v := fun hc => h ⟨fun _ => hback, fun _ => hc⟩
    have hlonger := closeSubpath_of_ne (s := withPen s c) hv hne
    have hkept := vertices_of_subpaths (closeSubpath_of_eq (s := s) fun w hw => hback.trans (Option.some.inj (hv.symm.trans hw)))
    omega
  · have hc : c = v := by
      by_contra hne
      exact h ⟨fun h => absurd h hne, fun h => absurd h hback⟩
    have hlonger := closeSubpath_of_ne hv hback
    have hkept := vertices_of_subpaths
      (closeSubpath_of_eq (s := withPen s c) fun w hw => hc.trans (Option.some.inj (hv.symm.trans hw)))
    omega

theorem drawAll_at_iff (hpen : s.m_penLifted = false → s.m_subpaths ≠ []) (c : PathPoint ℚ)
    (calls : List PlatformPathElement) :
    (drawAll (withPen s c) calls).m_subpaths = (drawAll s calls).m_subpaths ↔ Goes s c calls := by
  by_cases hc : c = s.m_currentPoint
  · subst hc
    refine ⟨fun _ => ?_, fun _ => rfl⟩
    match calls with
    | [] => trivial
    | .PathMoveTo _ :: _ => trivial
    | .PathLineTo _ :: _ => exact Or.inr rfl
    | .PathCloseSubpath :: _ => exact fun _ _ => Iff.rfl
    | .PathQuadCurveTo _ _ :: _ => rfl
    | .PathBezierCurveTo _ _ _ :: _ => rfl
  match calls with
  | [] => exact ⟨fun _ => trivial, fun _ => rfl⟩
  | .PathMoveTo p :: rest => exact ⟨fun _ => trivial, fun _ => rfl⟩
  | .PathLineTo p :: rest =>
    constructor
    · intro hsame
      left
      by_contra hup
      refine drawAll_draw_ne (draws_lineTo p) hpen hc (fun hdown => absurd hdown hup) rest hsame
    · rintro (hdown | hsame)
      · apply drawAll_of_agree
        refine ((agree_append _ _).symm.trans ?_).trans (agree_append s _)
        show Agree (Paths.drawSubpath _ _) (Paths.drawSubpath s _)
        unfold Paths.drawSubpath Paths.ensureSubpath withPen
        dsimp only
        rw [hdown, if_neg (by simp), if_neg (by simp)]
        unfold Paths.extendSubpath
        dsimp only
        rw [List.getLast?_eq_some_getLast (hpen hdown)]
        exact agree_fields.mpr ⟨rfl, rfl, hdown⟩
      · exact absurd hsame hc
  | .PathCloseSubpath :: rest =>
    constructor
    · intro hsame v hv
      by_contra hdiffers
      exact drawAll_close_ne hv hdiffers rest hsame
    · intro h
      apply drawAll_of_agree
      have hclosed : Agree (Paths.addToSubpath (withPen s c) .PathCloseSubpath) (Paths.addToSubpath s .PathCloseSubpath) :=
        closeSubpath_at h
      exact ((agree_append _ _).symm.trans hclosed).trans (agree_append s _)
  | .PathQuadCurveTo cp p :: rest =>
    refine ⟨fun hsame => ?_, fun h => absurd h hc⟩
    exact absurd hsame (drawAll_draw_ne (draws_quadCurveTo cp p) hpen hc (fun _ => quadCurve_head_ne hc) rest)
  | .PathBezierCurveTo cp1 cp2 p :: rest =>
    refine ⟨fun hsame => ?_, fun h => absurd h hc⟩
    exact absurd hsame (drawAll_draw_ne (draws_bezierCurveTo cp1 cp2 p) hpen hc (fun _ => bezier_head_ne hc) rest)

/-! ### the moved path -/

/-- the whole path moved, its pen too -/
def imageOf (f : PathPoint ℚ → PathPoint ℚ) (s : Paths.PlatformPathWKC) : Paths.PlatformPathWKC :=
  { s with m_subpaths := s.m_subpaths.map (mapSubpath f), m_currentPoint := f s.m_currentPoint }

variable {t : AffineTransform}

theorem imageOf_lastStart (f : PathPoint ℚ → PathPoint ℚ) (s : Paths.PlatformPathWKC) :
    lastStart (imageOf f s) = (lastStart s).map f := by
  unfold lastStart imageOf
  rw [List.getLast?_map, Option.map_map, Option.map_map]
  congr 1
  funext last
  exact List.head_map _

theorem imageOf_ensureSubpath (f : PathPoint ℚ → PathPoint ℚ) (s : Paths.PlatformPathWKC) :
    Paths.ensureSubpath (imageOf f s) = imageOf f (Paths.ensureSubpath s) := by
  unfold Paths.ensureSubpath imageOf
  dsimp only
  split
  · rw [List.map_append]
    rfl
  · rfl

theorem mapSubpath_append (f : PathPoint ℚ → PathPoint ℚ) (last : Subpath) (points : List (PathPoint ℚ)) :
    (mapSubpath f last).append (points.map f) = mapSubpath f (last.append points) := by
  apply Subtype.ext
  show last.1.map f ++ points.map f = (last.1 ++ points).map f
  rw [List.map_append]

theorem imageOf_extendSubpath (f : PathPoint ℚ → PathPoint ℚ) (s : Paths.PlatformPathWKC) (points : List (PathPoint ℚ)) :
    Paths.extendSubpath (imageOf f s) (points.map f) = imageOf f (Paths.extendSubpath s points) := by
  unfold Paths.extendSubpath imageOf
  dsimp only
  rw [List.getLast?_map]
  cases s.m_subpaths.getLast? with
  | none => rfl
  | some last =>
    have hend : ((mapSubpath f last).append (points.map f)).1.getLast ((mapSubpath f last).append (points.map f)).2 =
        f ((last.append points).1.getLast (last.append points).2) := by
      simp only [mapSubpath_append]
      exact List.getLast_map _
    dsimp only [Option.map_some]
    rw [hend, mapSubpath_append, List.map_append, List.map_dropLast]
    rfl

theorem imageOf_closeSubpath (hinv : t.isInvertible = true) (h : s.m_subpaths ≠ [] ∨ t.mapPoint origin = origin) :
    Paths.closeSubpath (imageOf t.mapPoint s) = imageOf t.mapPoint (Paths.closeSubpath s) := by
  unfold Paths.closeSubpath imageOf
  dsimp only
  rw [List.getLast?_map]
  cases hlast : s.m_subpaths.getLast? with
  | none =>
    have horigin : t.mapPoint origin = origin := h.resolve_left (not_not.mpr (List.getLast?_eq_none_iff.mp hlast))
    dsimp only [Option.map_none]
    rw [horigin]
  | some last =>
    have hfirst : (mapSubpath t.mapPoint last).1.head (mapSubpath t.mapPoint last).2 = t.mapPoint (last.1.head last.2) :=
      List.head_map _
    dsimp only [Option.map_some]
    rw [hfirst]
    by_cases hback : s.m_currentPoint = last.1.head last.2
    · rw [if_neg (not_not.mpr hback), if_neg (not_not.mpr (congrArg _ hback))]
    · rw [if_pos hback, if_pos fun hsame => hback (mapPoint_injective hinv hsame)]
      dsimp only
      have hlonger : (mapSubpath t.mapPoint last).append [t.mapPoint (last.1.head last.2)] =
          mapSubpath t.mapPoint (last.append [last.1.head last.2]) :=
        mapSubpath_append t.mapPoint last [last.1.head last.2]
      rw [hlonger, List.map_append, List.map_dropLast]
      rfl

theorem imageOf_addToSubpath (hinv : t.isInvertible = true)
    (h : e = .PathCloseSubpath → s.m_subpaths ≠ [] ∨ t.mapPoint origin = origin) :
    Paths.addToSubpath (imageOf t.mapPoint s) (mapElement t.mapPoint e) = imageOf t.mapPoint (Paths.addToSubpath s e) := by
  have hdraw : ∀ line : PlatformPathElement, Paths.drawSubpath (imageOf t.mapPoint s) (mapElement t.mapPoint line) =
      imageOf t.mapPoint (Paths.drawSubpath s line) := by
    intro line
    unfold Paths.drawSubpath
    dsimp only
    rw [imageOf_ensureSubpath, ← imageOf_extendSubpath, ← drawn_mapped]
    rfl
  cases e with
  | PathMoveTo point => rfl
  | PathCloseSubpath => exact imageOf_closeSubpath hinv (h rfl)
  | PathLineTo point => exact hdraw (.PathLineTo point)
  | PathQuadCurveTo cp p => exact hdraw (.PathQuadCurveTo cp p)
  | PathBezierCurveTo cp1 cp2 p => exact hdraw (.PathBezierCurveTo cp1 cp2 p)

/-! ## drawing goes on -/

theorem penAt_concat (calls : List PlatformPathElement) (e : PlatformPathElement) :
    penAt (calls ++ [e]) = (penAt calls).step e := by
  unfold penAt
  rw [List.foldl_append]
  rfl

theorem drawAll_concat (s : Paths.PlatformPathWKC) (calls : List PlatformPathElement) (e : PlatformPathElement) :
    drawAll s (calls ++ [e]) = Paths.append (drawAll s calls) e := by
  unfold drawAll
  rw [List.foldl_append]
  rfl

theorem drawAll_append (s : Paths.PlatformPathWKC) (calls more : List PlatformPathElement) :
    drawAll s (calls ++ more) = drawAll (drawAll s calls) more := by
  unfold drawAll
  rw [List.foldl_append]

/-- what the mapped calls have in common with the calls themselves -/
structure Pen.Parallel (a b : Pen) : Prop where
  placed : b.placed = a.placed
  start : b.start.isSome = a.start.isSome
  down : b.down = a.down
  rooted : b.rooted = a.rooted

theorem Pen.Parallel.lineTo {a b : Pen} (h : Parallel a b) (p q : PathPoint ℚ) : Parallel (a.lineTo p) (b.lineTo q) := by
  unfold Pen.lineTo
  rw [h.down]
  split
  · exact ⟨h.placed, h.start, rfl, h.rooted⟩
  · exact ⟨rfl, rfl, rfl, by rw [h.rooted, h.placed]⟩

theorem penAt_mapped (f : PathPoint ℚ → PathPoint ℚ) (calls : List PlatformPathElement) :
    (penAt calls).Parallel (penAt (calls.map (mapElement f))) := by
  induction calls using List.reverseRecOn with
  | nil => exact ⟨rfl, rfl, rfl, rfl⟩
  | append_singleton calls e ih =>
    rw [List.map_append, List.map_singleton, penAt_concat, penAt_concat]
    cases e with
    | PathMoveTo point => exact ⟨rfl, ih.start, rfl, ih.rooted⟩
    | PathCloseSubpath => exact ⟨ih.start, ih.start, rfl, ih.rooted⟩
    | PathLineTo | PathQuadCurveTo | PathBezierCurveTo => exact ih.lineTo _ _

theorem Pen.rooted_of_step {pen : Pen} (h : (pen.step e).rooted = true) : pen.rooted = true := by
  have hline : ∀ p, (pen.lineTo p).rooted = true → pen.rooted = true := by
    intro p hp
    unfold Pen.lineTo at hp
    split at hp
    · exact hp
    · exact (Bool.and_eq_true_iff.mp hp).1
  cases e with
  | PathMoveTo | PathCloseSubpath => exact h
  | PathLineTo | PathQuadCurveTo | PathBezierCurveTo => exact hline _ h

theorem agree_imageOf (f : PathPoint ℚ → PathPoint ℚ) (h : Agree a b) : Agree (imageOf f a) (imageOf f b) := by
  obtain ⟨r, rfl⟩ := h
  exact ⟨r, rfl⟩

theorem Describes.placed_lineTo {pen : Pen} (h : Describes pen s) (p : PathPoint ℚ) : (pen.lineTo p).placed = true := by
  unfold Pen.lineTo
  split
  · next hdown => exact (h.down hdown).2
  · rfl

theorem imageOf_append (hinv : t.isInvertible = true)
    (h : e = .PathCloseSubpath → s.m_subpaths ≠ [] ∨ t.mapPoint origin = origin) :
    Agree (imageOf t.mapPoint (Paths.append s e)) (Paths.append (imageOf t.mapPoint s) (mapElement t.mapPoint e)) := by
  have himage := agree_imageOf t.mapPoint (agree_append s e).symm
  rw [← imageOf_addToSubpath hinv h] at himage
  exact himage.trans (agree_append _ _)

theorem mapped_append {pen : Pen} (hinv : t.isInvertible = true) (h : Describes pen s)
    (hroot : (pen.step e).rooted = true ∨ t.mapPoint origin = origin) :
    Agree (if (pen.step e).placed then imageOf t.mapPoint (Paths.append s e) else Paths.append s e)
      (Paths.append (if pen.placed then imageOf t.mapPoint s else s) (mapElement t.mapPoint e)) := by
  rcases element_cases e with ⟨p, rfl⟩ | rfl | ⟨p, hdraws⟩
  · show Agree (imageOf t.mapPoint _) _
    split
    · exact imageOf_append hinv fun hclose => absurd hclose (by simp)
    · next hplaced =>
      have hempty := h.nil (h.unplaced (by simpa using hplaced)).2
      exact agree_fields.mpr ⟨by simp [imageOf, Paths.append, Paths.addToSubpath, mapElement, hempty], rfl, rfl⟩
  · cases hstart : pen.start with
    | none =>
      have hempty := h.nil hstart
      rw [if_neg (by simp [Pen.step, hstart])]
      split
      · refine agree_fields.mpr ?_
        simp [imageOf, Paths.append, Paths.addToSubpath, Paths.closeSubpath, mapElement, hempty]
      · exact ⟨_, rfl⟩
    | some v =>
      have hplaced : pen.placed = true := by
        by_contra hnot
        rw [(h.unplaced (by simpa using hnot)).2] at hstart
        exact absurd hstart (by simp)
      have hne : s.m_subpaths ≠ [] := by
        intro hempty
        rw [← lastStart_eq_none, h.start, hstart] at hempty
        exact absurd hempty (by simp)
      rw [if_pos (by simp [Pen.step, hstart]), if_pos hplaced]
      exact imageOf_append hinv fun _ => Or.inl hne
  · have hplaced' := h.placed_lineTo p
    rw [← hdraws.step] at hplaced'
    rw [if_pos hplaced']
    have hdrawn : Agree (imageOf t.mapPoint (Paths.append s e))
        (Paths.append (imageOf t.mapPoint s) (mapElement t.mapPoint e)) := by
      apply imageOf_append hinv
      rintro rfl
      obtain ⟨init, hinit⟩ := hdraws.drawn origin
      exact absurd hinit (by simp [PlatformPathElement.drawn])
    split
    · exact hdrawn
    · next hplaced =>
      -- the first subpath begins at the origin, which stays
      obtain ⟨hcurrent, hnone⟩ := h.unplaced (by simpa using hplaced)
      have horigin : t.mapPoint origin = origin := by
        refine hroot.resolve_left fun hrooted => hplaced ?_
        rw [hdraws.step] at hrooted
        unfold Pen.lineTo at hrooted
        split at hrooted
        · next hdown => exact (h.down hdown).2
        · exact (Bool.and_eq_true_iff.mp hrooted).2
      have hsame : Agree (imageOf t.mapPoint s) s := by
        refine agree_fields.mpr ⟨?_, ?_, rfl⟩
        · rw [h.nil hnone]
          simp [imageOf, h.nil hnone]
        · show s.m_currentPoint = t.mapPoint s.m_currentPoint
          rw [h.position, hcurrent, horigin]
      exact hdrawn.trans (hsame.append _)

theorem mapped_drawAll (hinv : t.isInvertible = true) (calls : List PlatformPathElement)
    (hroot : (penAt calls).rooted = true ∨ t.mapPoint origin = origin) :
    Agree
      (if (penAt calls).placed then imageOf t.mapPoint (drawAll Paths.PlatformPathWKC.new calls)
        else drawAll Paths.PlatformPathWKC.new calls)
      (drawAll Paths.PlatformPathWKC.new (calls.map (mapElement t.mapPoint))) := by
  induction calls using List.reverseRecOn with
  | nil => exact ⟨_, rfl⟩
  | append_singleton calls e ih =>
    rw [penAt_concat] at hroot ⊢
    have hagree := (ih (hroot.imp_left Pen.rooted_of_step)).append (mapElement t.mapPoint e)
    rw [List.map_append, List.map_singleton, drawAll_concat, drawAll_concat]
    exact (mapped_append hinv (describes_built calls) hroot).trans hagree

theorem goes_iff {pen : Pen} (hinv : t.isInvertible = true) (h : Describes pen s) (calls : List PlatformPathElement) :
    Goes (imageOf t.mapPoint s) s.m_currentPoint (calls.map (mapElement t.mapPoint)) ↔ pen.Follows t.mapPoint calls := by
  have hposition := h.position
  match calls with
  | [] => exact Iff.rfl
  | .PathMoveTo _ :: _ => exact Iff.rfl
  | .PathLineTo _ :: _ =>
    show s.m_penLifted = false ∨ s.m_currentPoint = t.mapPoint s.m_currentPoint ↔ _ ∨ _
    rw [h.penLifted, hposition, eq_comm (a := pen.position), Bool.not_eq_false']
  | .PathCloseSubpath :: _ =>
    show (∀ v, lastStart (imageOf t.mapPoint s) = some v → (s.m_currentPoint = v ↔ t.mapPoint s.m_currentPoint = v)) ↔
      ∀ v, pen.start = some v → (pen.position = t.mapPoint v ↔ pen.position = v)
    rw [imageOf_lastStart, h.start, hposition]
    cases pen.start with
    | none => simp
    | some v => simp [(mapPoint_injective hinv).eq_iff]
  | .PathQuadCurveTo _ _ :: _ =>
    show s.m_currentPoint = t.mapPoint s.m_currentPoint ↔ t.mapPoint pen.position = pen.position
    rw [hposition, eq_comm]
  | .PathBezierCurveTo _ _ _ :: _ =>
    show s.m_currentPoint = t.mapPoint s.m_currentPoint ↔ t.mapPoint pen.position = pen.position
    rw [hposition, eq_comm]

theorem mapped_subpaths_iff (hinv : t.isInvertible = true) (s1 s2 : List PlatformPathElement) (box : FloatRect) :
    (drawAll { drawAll Paths.PlatformPathWKC.new s1 with
        m_boundingRect := box
        m_subpaths := (drawAll Paths.PlatformPathWKC.new s1).m_subpaths.map (mapSubpath t.mapPoint) }
        (s2.map (mapElement t.mapPoint))).m_subpaths =
      (drawAll Paths.PlatformPathWKC.new ((s1 ++ s2).map (mapElement t.mapPoint))).m_subpaths ↔
    Followed t.mapPoint s1 s2 := by
  have hdescribes := describes_built s1
  set path := drawAll Paths.PlatformPathWKC.new s1
  set moved : Paths.PlatformPathWKC :=
    { path with m_boundingRect := box, m_subpaths := path.m_subpaths.map (mapSubpath t.mapPoint) } with hmoved
  rw [List.map_append, drawAll_append]
  by_cases hroot : (penAt s1).rooted = true ∨ t.mapPoint origin = origin
  · have hagree := (mapped_drawAll hinv s1 hroot).drawAll (s2.map (mapElement t.mapPoint))
    rw [hagree.subpaths]
    unfold Followed
    rw [and_iff_right hroot]
    split
    · next hplaced =>
      rw [forall_prop_of_true hplaced, ← goes_iff hinv hdescribes]
      have hpen : (imageOf t.mapPoint path).m_penLifted = false → (imageOf t.mapPoint path).m_subpaths ≠ [] :=
        fun hlifted hnil => hdescribes.ne_nil hlifted (List.map_eq_nil_iff.mp hnil)
      rw [← drawAll_at_iff hpen]
      have hat : Agree moved (withPen (imageOf t.mapPoint path) path.m_currentPoint) := ⟨path.m_boundingRect, rfl⟩
      rw [(hat.drawAll _).subpaths]
    · next hplaced =>
      have hempty := hdescribes.nil (hdescribes.unplaced (by simpa using hplaced)).2
      have hat : Agree moved path := agree_fields.mpr ⟨by rw [hmoved]; simp [hempty], rfl, rfl⟩
      exact ⟨fun _ h => absurd h hplaced, fun _ => ((hat.drawAll _).subpaths).symm⟩
  · -- the first vertex of both
    obtain ⟨hrooted, horigin⟩ := not_or.mp hroot
    have hfirst := hdescribes.unrooted (by simpa using hrooted)
    have hmapped := (describes_built (s1.map (mapElement t.mapPoint))).unrooted
      ((penAt_mapped t.mapPoint s1).rooted.trans (by simpa using hrooted))
    have hmovedFirst : vertexAt moved 0 0 = some (t.mapPoint origin) := by
      obtain ⟨p, hp, hv⟩ := Option.bind_eq_some_iff.mp hfirst
      unfold vertexAt
      show ((path.m_subpaths.map (mapSubpath t.mapPoint))[0]?).bind _ = _
      rw [List.getElem?_map, hp]
      show (p.1.map t.mapPoint)[0]? = _
      rw [List.getElem?_map, hv]
      rfl
    refine ⟨fun hsame => ?_, fun h => absurd h.1 hroot⟩
    exact absurd hsame (subpaths_ne_of_vertexAt hmovedFirst hmapped horigin _ _)

end

theorem same_iff {t : AffineTransform} (hinv : t.isInvertible = true) (s1 s2 : List PlatformPathElement)
    (box : FloatRect → FloatRect) :
    Same (draw ((draw .new s1).mapped t.mapPoint box) (s2.map (mapElement t.mapPoint)))
        (draw .new ((s1 ++ s2).map (mapElement t.mapPoint))) ↔
      Followed t.mapPoint s1 s2 := by
  obtain ⟨hpath, helements⟩ := draw_path .new s1
  obtain ⟨hmoved, hmovedElements⟩ :=
    draw_path ((draw .new s1).mapped t.mapPoint box) (s2.map (mapElement t.mapPoint))
  obtain ⟨hbuilt, hbuiltElements⟩ := draw_path .new ((s1 ++ s2).map (mapElement t.mapPoint))
  have hsame : (draw ((draw .new s1).mapped t.mapPoint box) (s2.map (mapElement t.mapPoint))).m_elements =
      (draw .new ((s1 ++ s2).map (mapElement t.mapPoint))).m_elements := by
    rw [hmovedElements, hbuiltElements, List.map_append]
    show (draw .new s1).m_elements.map _ ++ _ = _
    rw [helements]
    rfl
  unfold Same
  rw [and_iff_right hsame, hmoved, hbuilt]
  show (drawAll { (draw .new s1).toPlatformPathWKC with m_boundingRect := _, m_subpaths := _ } _).m_subpaths = _ ↔ _
  rw [hpath]
  exact mapped_subpaths_iff hinv s1 s2 _

/-- Drawing goes on after `translate` and `transform` as if all points had been moved, exactly where the pen does not
matter. -/
theorem moved_iff (s1 s2 : List PlatformPathElement) :
    (∀ size : FloatSize,
      Same (draw ((draw .new s1).translate size) (s2.map (mapElement (movePoint size))))
          (draw .new ((s1 ++ s2).map (mapElement (movePoint size)))) ↔
        Followed (movePoint size) s1 s2) ∧
    ∀ t : AffineTransform, t.isInvertible = true →
      (Same (draw ((draw .new s1).transform t) (s2.map (mapElement t.mapPoint)))
          (draw .new ((s1 ++ s2).map (mapElement t.mapPoint))) ↔
        Followed t.mapPoint s1 s2) := by
  constructor
  · intro size
    have hsize := same_iff (ofOffset_isInvertible size) s1 s2 (moveRect size)
    rw [ofOffset_mapPoint] at hsize
    exact hsize
  · intro t hinv
    exact same_iff hinv s1 s2 t.mapRect

/-- a line that is made twice as large while the pen is down -/
theorem moved_iff_scaled :
    let t : AffineTransform := { m0 := 2, m1 := 0, m2 := 0, m3 := 2, m4 := 0, m5 := 0 }
    let s1 : List PlatformPathElement := [.PathMoveTo { m_x := 1, m_y := 1 }, .PathLineTo { m_x := 3, m_y := 1 }]
    let s2 : List PlatformPathElement := [.PathLineTo { m_x := 3, m_y := 3 }, .PathCloseSubpath]
    t.isInvertible = true ∧ Followed t.mapPoint s1 s2 ∧
      Same (draw ((draw .new s1).transform t) (s2.map (mapElement t.mapPoint)))
        (draw .new ((s1 ++ s2).map (mapElement t.mapPoint))) := by
  intro t s1 s2
  have hfollowed : Followed t.mapPoint s1 s2 := ⟨Or.inl (by decide), fun _ => Or.inl (by decide)⟩
  have hinv : t.isInvertible = true := by decide +kernel
  exact ⟨hinv, hfollowed, ((moved_iff s1 s2).2 t hinv).mpr hfollowed⟩

/-- The line begins where `moveTo` put the pen, which was not moved. -/
theorem pen_left_behind :
    let size : FloatSize := { width := 5, height := 0 }
    let s1 : List PlatformPathElement := [.PathMoveTo { m_x := 1, m_y := 1 }]
    let s2 : List PlatformPathElement := [.PathLineTo { m_x := 2, m_y := 2 }]
    let moved := draw ((draw .new s1).translate size) (s2.map (mapElement (movePoint size)))
    let wanted := draw .new ((s1 ++ s2).map (mapElement (movePoint size)))
    moved.m_subpaths.map Subtype.val = [[{ m_x := 1, m_y := 1 }, { m_x := 7, m_y := 2 }]] ∧
      wanted.m_subpaths.map Subtype.val = [[{ m_x := 6, m_y := 1 }, { m_x := 7, m_y := 2 }]] ∧ ¬ Same moved wanted := by
  intro size s1 s2 moved wanted
  have hmoved : moved.m_subpaths.map Subtype.val = [[{ m_x := 1, m_y := 1 }, { m_x := 7, m_y := 2 }]] := by decide +kernel
  have hwanted : wanted.m_subpaths.map Subtype.val = [[{ m_x := 6, m_y := 1 }, { m_x := 7, m_y := 2 }]] := by
    decide +kernel
  refine ⟨hmoved, hwanted, fun hsame => ?_⟩
  rw [hsame.2, hwanted] at hmoved
  exact absurd hmoved (by decide +kernel)

end PathMoves
end Wkc
