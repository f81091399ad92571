import WkcBrowser.Focus.Rects
import WkcBrowser.Lib.Best
import Mathlib.Data.Prod.Lex
import Mathlib.Data.Int.Order.Basic

/-!
# Candidates for the focus (FocusController.cpp, SpatialNavigation.cpp)

* `Visible`, `Node`               what the search asks of a node and of what it shows;
* `FocusCandidate`, `ofNode`      a candidate, and how it starts;
* `distanceDataForNode`           how it lies to the current position;
* `updateFocusCandidateIfNeeded`  which candidates are eligible, and which of two is closer;
* `eligible`, `Beats`             a candidate with its key, and when it is better than another;
* `update_eq`                     the update keeps the best of the eligible candidates.
-/

namespace Wkc.Focus
open Canvas

/-! ## the page -/

/-- a node that is shown, with its renderer -/
structure Visible where
  id : Nat
  isFrameOwnerElement : Bool
  hasATag : Bool
  /-- `absoluteQuads`, as rectangles of the page -/
  quads : List IntRect
  offscreen : Bool
  offscreenAfterScrolling : FocusDirection → Bool

structure Border where
  left : Int
  top : Int
  right : Int
  bottom : Int

structure Node where
  id : Nat
  isElementNode : Bool
  isKeyboardFocusable : Bool
  isFrameOwnerElement : Bool
  canScrollInDirection : FocusDirection → Bool
  isScrollableContainer : Bool
  isTextArea : Bool
  hasContentFrame : Bool
  tabIndex : Int
  offscreen : Bool
  /-- the rectangle of an area of an image map -/
  area : Option IntRect
  /-- of other nodes: `getRect`, or for an empty link the composite one -/
  bounding : IntRect
  border : Border
  /-- the node itself, or the image of an area; none without a renderer -/
  visible : Option Visible

structure Page where
  viewSize : IntSize
  /-- `llroundf(distanceDataBetweenPoints(..))` of the exit and the entry -/
  distance : FocusDirection → IntPoint → IntPoint → Int
  /-- whether the node hit at a point of the page is in a visible node -/
  hit : Nat → IntPoint → Bool

def ignoreBorder (r : IntRect) (b : Border) : IntRect :=
  ⟨r.x + b.left, r.y + b.top, r.width - b.left - b.right, r.height - b.top - b.bottom⟩

/-- `virtualRectForAreaElementAndDirection`, or `nodeRectInAbsoluteCoordinates` without the border -/
def Node.rect (a : Node) (d : FocusDirection) : IntRect :=
  match a.area with
  | some r => virtualRectForDirection d r 1
  | none => ignoreBorder a.bounding a.border

/-- where the search from a focused node starts -/
def Node.startingRect (a : Node) (d : FocusDirection) : IntRect :=
  if !a.offscreen then ignoreBorder a.bounding a.border
  else
    match a.area with
    | some r => virtualRectForDirection d r 1
    | none => ⟨0, 0, 0, 0⟩

/-! ## candidates -/

def maxDistance : Int := 9223372036854775807

structure FocusCandidate where
  visibleNode : Visible
  focusableNode : Node
  rect : IntRect
  isOffscreen : Bool
  isOffscreenAfterScrolling : Bool
  distance : Int := maxDistance
  alignment : RectsAlignment := .None
  exitRect : IntRect := ⟨0, 0, 0, 0⟩
  entryRect : IntRect := ⟨0, 0, 0, 0⟩
  distanceFromCenter : Int := maxDistance

/-- the fields of the candidate `current` that are read -/
structure Current where
  rect : IntRect
  entryRect : IntRect
  exitRect : IntRect
  direction : Option FocusDirection
  deriving DecidableEq

def ofNode (a : Node) (d : FocusDirection) : Option FocusCandidate :=
  a.visible.map fun visibleNode =>
    { visibleNode
      focusableNode := a
      rect := a.rect d
      isOffscreen := visibleNode.offscreen
      isOffscreenAfterScrolling := visibleNode.offscreenAfterScrolling d }

/-- the rectangles that are looked at: those of a node in several parts, or the one of the candidate -/
def rectsOf (candidate : FocusCandidate) : List IntRect :=
  if candidate.visibleNode.quads.length = 1 then [candidate.rect] else candidate.visibleNode.quads

section
variable (page : Page) (d : FocusDirection) (current : Current)

/-- the rectangle was left last, in this direction, or has the current one in it -/
def excluded (r : IntRect) : Bool :=
  (some d == current.direction && r == current.exitRect) || contains r current.entryRect

/-- a rectangle that is a better entry than those before it -/
def enter (r : IntRect) (candidate : FocusCandidate) : FocusCandidate :=
  let alignment := alignmentForRects d current.entryRect r page.viewSize
  if alignment.rank < candidate.alignment.rank then candidate
  else
    let points := entryAndExitPointsForDirection d current.entryRect r
    let distance := page.distance d points.1 points.2
    if alignment.rank > candidate.alignment.rank || distance < candidate.distance then
      { candidate with
        alignment := alignment
        distance := distance
        distanceFromCenter := distanceSquaredToPoint (center current.entryRect) points.2
        exitRect := current.entryRect
        entryRect := r }
    else candidate

/-- the loop over the rectangles -/
def overRects : List IntRect → FocusCandidate → FocusCandidate
  | [], candidate => candidate
  | r :: rs, candidate =>
    if isEmpty r then overRects rs candidate
    else if excluded d current r then { candidate with alignment := .None, distance := maxDistance }
    else if !isRectInDirection d current.entryRect r then overRects rs candidate
    else overRects rs (enter page d current r candidate)

def distanceDataForNode (candidate : FocusCandidate) : FocusCandidate :=
  let candidate := { candidate with alignment := .None, distance := maxDistance }
  if !intersects current.rect candidate.rect && !isRectInDirection d current.rect candidate.rect then candidate
  else overRects page d current (rectsOf candidate) candidate

/-- rectangles of the same size next to one another, like a drop down list -/
def isSpecial (candidate : FocusCandidate) : Bool :=
  candidate.alignment == .Full &&
    (candidate.rect.width == current.rect.width && candidate.rect.height == current.rect.height) &&
    (candidate.rect.x == current.rect.x || candidate.rect.y == current.rect.y) && candidate.distance < 10

/-- the heuristic adjustments -/
def adjustedAlignment (candidate : FocusCandidate) : RectsAlignment :=
  let alignment := if isSpecial current candidate then .SpecialAlignment else candidate.alignment
  if d == .up || d == .down then
    let alignment := if alignment == .Partial then .Full else alignment
    if alignment == .OverlapPartial then .OverlapFull else alignment
  else alignment

def adjust (candidate : FocusCandidate) : FocusCandidate :=
  { candidate with alignment := adjustedAlignment d current candidate }

/-- the candidate with its key, if it is eligible: the part of `updateFocusCandidateIfNeeded` before `closest` is read -/
def eligible (candidate : FocusCandidate) : Option FocusCandidate :=
  if candidate.visibleNode.hasATag && isEmpty candidate.rect then none
  else if candidate.visibleNode.isFrameOwnerElement then none
  else if candidate.focusableNode.tabIndex < 0 then none
  else if candidate.isOffscreen then none
  else
    let candidate := distanceDataForNode page d current candidate
    if candidate.distance = maxDistance then none
    else if candidate.isOffscreenAfterScrolling && candidate.alignment.rank < RectsAlignment.Full.rank then none
    else some (adjust d current candidate)

/-- the hit test where two candidates are as close -/
def onTop (candidate closest : FocusCandidate) : Bool :=
  let r := Tiled.intersection candidate.rect closest.rect
  !isEmpty r && page.hit candidate.visibleNode.id ⟨r.x + Int.tdiv r.width 2, r.y + Int.tdiv r.height 2⟩

/-- the rest of it, with another candidate in `closest` -/
def closer (candidate closest : FocusCandidate) : FocusCandidate :=
  if candidate.alignment.rank < closest.alignment.rank then closest
  else if candidate.alignment.rank > closest.alignment.rank then candidate
  else if candidate.distance > closest.distance then closest
  else if candidate.distance < closest.distance then candidate
  else if candidate.distanceFromCenter > closest.distanceFromCenter then closest
  else if candidate.distanceFromCenter < closest.distanceFromCenter then candidate
  else if onTop page candidate closest then candidate
  else closest

def updateFocusCandidateIfNeeded (candidate : FocusCandidate) (closest : Option FocusCandidate) : Option FocusCandidate :=
  match eligible page d current candidate with
  | none => closest
  | some candidate =>
    match closest with
    | none => some candidate
    | some closest => some (closer page candidate closest)

end

/-! ## keys -/

/-- adjusted alignment, then smaller distance, then smaller distance from the center -/
def Beats (c c' : FocusCandidate) : Prop :=
  c'.alignment.rank < c.alignment.rank ∨ (c.alignment.rank = c'.alignment.rank ∧
    (c.distance < c'.distance ∨ (c.distance = c'.distance ∧ c.distanceFromCenter < c'.distanceFromCenter)))

abbrev Key := Int ×ₗ Int ×ₗ Int

/-- the same as a number of three digits, where the smaller one is better -/
def key (c : FocusCandidate) : Key := toLex (-(c.alignment.rank : Int), toLex (c.distance, c.distanceFromCenter))

theorem key_lt_iff {c c' : FocusCandidate} : key c < key c' ↔ Beats c c' := by
  rw [key, key, Prod.Lex.toLex_lt_toLex, Prod.Lex.toLex_lt_toLex, Beats]
  constructor
  all_goals
    rintro (h | ⟨h, h'⟩)
    · exact Or.inl (by omega)
    · exact Or.inr ⟨by omega, h'⟩

theorem key_eq_iff {c c' : FocusCandidate} : key c = key c' ↔ c.alignment.rank = c'.alignment.rank ∧
    c.distance = c'.distance ∧ c.distanceFromCenter = c'.distanceFromCenter := by
  rw [key, key, toLex_inj, Prod.mk.injEq, toLex_inj, Prod.mk.injEq]
  constructor
  all_goals
    rintro ⟨h, h'⟩
    exact ⟨by omega, h'⟩

section
variable {page : Page} {d : FocusDirection} {current : Current}

theorem closer_eq (c m : FocusCandidate) : Best.keep key (onTop page) (some m) c = some (closer page c m) := by
  have hlt : key c < key m ↔ Beats c m := key_lt_iff
  have heq : key c = key m ↔ _ := key_eq_iff
  rw [Best.keep]
  unfold closer
  by_cases hless : c.alignment.rank < m.alignment.rank
  · have hnot : ¬ (key c < key m ∨ key c = key m ∧ onTop page c m = true) := by
      rw [hlt, heq, Beats]
      omega
    rw [if_neg hnot, if_pos hless]
  · rw [if_neg hless]
    by_cases hmore : c.alignment.rank > m.alignment.rank
    · rw [if_pos (Or.inl (hlt.mpr (Or.inl hmore))), if_pos hmore]
    · rw [if_neg hmore]
      have hrank : c.alignment.rank = m.alignment.rank := by omega
      by_cases hfar : c.distance > m.distance
      · have hnot : ¬ (key c < key m ∨ key c = key m ∧ onTop page c m = true) := by
          rw [hlt, heq, Beats]
          omega
        rw [if_neg hnot, if_pos hfar]
      · rw [if_neg hfar]
        by_cases hnear : c.distance < m.distance
        · rw [if_pos (Or.inl (hlt.mpr (Or.inr ⟨hrank, Or.inl hnear⟩))), if_pos hnear]
        · rw [if_neg hnear]
          have hdist : c.distance = m.distance := by omega
          by_cases hout : c.distanceFromCenter > m.distanceFromCenter
          · have hnot : ¬ (key c < key m ∨ key c = key m ∧ onTop page c m = true) := by
              rw [hlt, heq, Beats]
              omega
            rw [if_neg hnot, if_pos hout]
          · rw [if_neg hout]
            by_cases hin : c.distanceFromCenter < m.distanceFromCenter
            · rw [if_pos (Or.inl (hlt.mpr (Or.inr ⟨hrank, Or.inr ⟨hdist, hin⟩⟩))), if_pos hin]
            · rw [if_neg hin]
              have hsame : key c = key m := heq.mpr ⟨hrank, hdist, by omega⟩
              have hnot : ¬ key c < key m := by
                rw [hsame]
                exact lt_irrefl _
              by_cases htop : onTop page c m = true
              · rw [if_pos (Or.inr ⟨hsame, htop⟩), if_pos htop]
              · rw [if_neg (by tauto), if_neg htop]

theorem update_eq (c : FocusCandidate) (closest : Option FocusCandidate) :
    updateFocusCandidateIfNeeded page d current c closest =
      match eligible page d current c with
      | none => closest
      | some c => Best.keep key (onTop page) closest c := by
  unfold updateFocusCandidateIfNeeded
  cases eligible page d current c with
  | none => rfl
  | some c =>
    cases closest with
    | none => rfl
    | some m => exact (closer_eq c m).symm

end

/-! ## what a measured candidate says -/

section
variable {page : Page} {d : FocusDirection} {current : Current}

/-- the parts of a candidate that the measuring leaves alone, and where its entry rectangle comes from -/
structure Traces (d : FocusDirection) (current : Current) (candidate c : FocusCandidate) : Prop where
  node : c.focusableNode = candidate.focusableNode
  offscreen : c.isOffscreen = candidate.isOffscreen
  /-- the entry rectangle is one of those in the direction that do not contain the current one -/
  entry : c.distance ≠ maxDistance → c.entryRect ∈ rectsOf candidate ∧ isEmpty c.entryRect = false ∧
    isRectInDirection d current.entryRect c.entryRect = true ∧ contains c.entryRect current.entryRect = false

theorem traces_overRects {candidate c : FocusCandidate} (h : Traces d current candidate c) {rs : List IntRect}
    (hrs : rs ⊆ rectsOf candidate) : Traces d current candidate (overRects page d current rs c) := by
  induction rs generalizing c with
  | nil => exact h
  | cons r rs ih =>
    have hrest : rs ⊆ rectsOf candidate := List.Subset.trans (List.subset_cons_self r rs) hrs
    rw [overRects]
    split
    · exact ih h hrest
    · rename_i hempty
      split
      · exact ⟨h.node, h.offscreen, fun hne => absurd rfl hne⟩
      · rename_i hexcluded
        split
        · exact ih h hrest
        · rename_i hdir
          apply ih _ hrest
          have hout : contains r current.entryRect = false := by
            rw [excluded, Bool.or_eq_true, not_or, Bool.not_eq_true, Bool.not_eq_true] at hexcluded
            exact hexcluded.2
          have hin : isRectInDirection d current.entryRect r = true := by simpa using hdir
          unfold enter
          simp only
          split
          · exact h
          · split
            · exact ⟨h.node, h.offscreen, fun _ => ⟨hrs List.mem_cons_self, by simpa using hempty,
                hin, hout⟩⟩
            · exact h

theorem traces_adjust {candidate c : FocusCandidate} (h : Traces d current candidate c) :
    Traces d current candidate (adjust d current c) := ⟨h.node, h.offscreen, h.entry⟩

theorem traces_distanceDataForNode (candidate : FocusCandidate) :
    Traces d current candidate (distanceDataForNode page d current candidate) := by
  have hstart : Traces d current candidate { candidate with alignment := .None, distance := maxDistance } :=
    ⟨rfl, rfl, fun hne => absurd rfl hne⟩
  unfold distanceDataForNode
  simp only
  split
  · exact hstart
  · exact traces_overRects hstart (List.Subset.refl _)

theorem eligible_spec {candidate c : FocusCandidate} (h : eligible page d current candidate = some c) :
    candidate.isOffscreen = false ∧ (distanceDataForNode page d current candidate).distance ≠ maxDistance ∧
      c = adjust d current (distanceDataForNode page d current candidate) := by
  unfold eligible at h
  simp only [Option.ite_none_left_eq_some] at h
  obtain ⟨-, -, -, hoff, hdist, -, h⟩ := h
  exact ⟨by simpa using hoff, hdist, (Option.some.inj h).symm⟩

/-- the rectangles of a node that is shown -/
def Node.rects (a : Node) (d : FocusDirection) : List IntRect := ((ofNode a d).map rectsOf).getD []

theorem rects_of {a : Node} {candidate : FocusCandidate} (hof : ofNode a d = some candidate) :
    a.rects d = rectsOf candidate := by
  rw [Node.rects, hof]
  rfl

/-- what is known of an eligible candidate -/
structure Eligible (d : FocusDirection) (current : Current) (a : Node) (c : FocusCandidate) : Prop where
  node : c.focusableNode = a
  offscreen : c.isOffscreen = false
  distance : c.distance ≠ maxDistance
  mem : c.entryRect ∈ a.rects d
  nonempty : isEmpty c.entryRect = false
  inDirection : isRectInDirection d current.entryRect c.entryRect = true
  notAround : contains c.entryRect current.entryRect = false

theorem eligible_of {a : Node} {candidate c : FocusCandidate} (hof : ofNode a d = some candidate)
    (h : eligible page d current candidate = some c) : Eligible d current a c := by
  obtain ⟨hoff, hdist, rfl⟩ := eligible_spec h
  have htraces := traces_adjust (@traces_distanceDataForNode page d current candidate)
  obtain ⟨hmem, hempty, hdir, hout⟩ := htraces.entry hdist
  obtain ⟨v, -, hcandidate⟩ := Option.map_eq_some_iff.mp hof
  refine ⟨?_, ?_, hdist, ?_, hempty, hdir, hout⟩
  · rw [htraces.node, ← hcandidate]
  · rw [htraces.offscreen, hoff]
  · rw [rects_of hof]
    exact hmem

theorem overRects_excluded {r : IntRect} {rs : List IntRect} (hr : r ∈ rs) (hempty : isEmpty r = false)
    (hexcluded : excluded d current r = true) (c : FocusCandidate) :
    (overRects page d current rs c).distance = maxDistance := by
  induction rs generalizing c with
  | nil => exact absurd hr List.not_mem_nil
  | cons r' rs ih =>
    rw [overRects]
    rcases List.mem_cons.mp hr with rfl | hr
    · simp [hempty, hexcluded]
    · split
      · exact ih hr c
      · split
        · rfl
        · split
          · exact ih hr c
          · exact ih hr _

theorem distance_excluded {candidate : FocusCandidate} {r : IntRect} (hr : r ∈ rectsOf candidate)
    (hempty : isEmpty r = false) (hexcluded : excluded d current r = true) :
    (distanceDataForNode page d current candidate).distance = maxDistance := by
  unfold distanceDataForNode
  simp only
  split
  · rfl
  · exact overRects_excluded hr hempty hexcluded _

theorem Eligible.ahead {a : Node} {c : FocusCandidate} (h : Eligible d current a c)
    (hcurrent : isEmpty current.entryRect = false) : Ahead d current.entryRect c.entryRect :=
  ahead_of_isRectInDirection hcurrent h.inDirection h.notAround

end

end Wkc.Focus
