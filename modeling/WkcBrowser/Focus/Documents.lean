import WkcBrowser.Focus.Rects
import WkcBrowser.Lib.Walks
import Mathlib.Data.List.Perm.Basic
import Mathlib.Data.List.Nodup

/-!
# Documents, frames and rectangles (FocusController.cpp, Node.cpp)

* `Node`, `Page`                  what the searches in a rectangle ask of a node, and the nodes of all frames;
* `isNodeInSpecificRect`, `isScrollableContainerNode`   the checks;
* `Line`                          the nodes that a traversal of a document comes to, with those of their frames;
* `forwardLine`, `backwardLine`   the lines of `traverseNextNode` and of `traversePreviousNodePostOrder`;
* `Linked`                        a node with children is followed by another one;
* `forwardLine_nodes`, `backwardLine_nodes`   the lines have all nodes.
-/

namespace Wkc.RectFocus
open Canvas Focus Walks

/-! ## nodes -/

structure Node where
  id : Nat
  isFrameOwnerElement : Bool
  hasContentFrame : Bool
  isFocusable : Bool
  isKeyboardFocusable : Bool
  isShadowHost : Bool
  hasCustomFocusLogic : Bool
  tabIndex : Int
  hasOffscreenRect : Bool
  /-- the renderer is a box with something to scroll, and the node is no document -/
  canBeScrolled : Bool
  isTextArea : Bool
  isArea : Bool
  /-- the view of its document, by which contents are moved to the window -/
  view : Option IntPoint
  /-- `getRect`, or the rectangle of an area; none without the renderer of the node, or of the image -/
  rect : Option IntRect
  /-- `absoluteBoundingBoxRect`; none without a renderer -/
  box : Option IntRect
  rendered : isFrameOwnerElement = true ∧ isFocusable = true ∨ canBeScrolled = true → box.isSome = true
  focusable : isKeyboardFocusable = true → isFocusable = true
  deriving DecidableEq

namespace Node

def contentsToWindow (view : IntPoint) (r : IntRect) : IntRect := ⟨r.x + view.x, r.y + view.y, r.width, r.height⟩

/-- `event` is 0 -/
def isNonFocusableShadowHost (a : Node) : Bool := !a.isKeyboardFocusable && a.isShadowHost && !a.hasCustomFocusLogic

def adjustedTabIndex (a : Node) : Int := if a.isNonFocusableShadowHost then 0 else a.tabIndex

def isNodeInSpecificRect (a : Node) (specificRect : Option IntRect) : Bool :=
  match specificRect.filter fun r => !isEmpty r with
  | none => !a.hasOffscreenRect
  | some specificRect =>
    match a.view, a.rect with
    | some view, some rect => !isEmpty rect && intersects specificRect (contentsToWindow view rect)
    | _, _ => false

def isScrollableContainerNode (a : Node) (hasChildNodes : Bool) : Bool := a.canBeScrolled && hasChildNodes

/-- a container that is searched in the place of itself -/
def isContainer (a : Node) (hasChildNodes : Bool) : Bool := a.isScrollableContainerNode hasChildNodes && !a.isTextArea

/-- in the rectangle, with a tab index of at least 0 -/
def isUsable (rect : Option IntRect) (a : Node) : Bool := a.isNodeInSpecificRect rect && 0 ≤ a.adjustedTabIndex

def hasFrame (a : Node) : Bool := a.isFrameOwnerElement && a.hasContentFrame

end Node

/-- a node that is shown and takes no focus, such as a text or the body -/
def shown (id : Nat) (box : IntRect) : Node where
  id := id
  isFrameOwnerElement := false
  hasContentFrame := false
  isFocusable := false
  isKeyboardFocusable := false
  isShadowHost := false
  hasCustomFocusLogic := false
  tabIndex := 0
  hasOffscreenRect := false
  canBeScrolled := false
  isTextArea := false
  isArea := false
  view := some ⟨0, 0⟩
  rect := some box
  box := some box
  rendered := by simp
  focusable := by simp

/-- a link or a button; an unchecked radio button next to a checked one does not take the focus of the keyboard -/
def control (id : Nat) (isKeyboardFocusable : Bool) (box : IntRect) : Node :=
  { shown id box with
    isFocusable := true
    isKeyboardFocusable := isKeyboardFocusable
    rendered := fun _ => rfl
    focusable := fun _ => rfl }

/-- a div with tabindex="0" that can be scrolled -/
def scrollable (id : Nat) (box : IntRect) : Node :=
  { control id true box with
    canBeScrolled := true
    rendered := fun _ => rfl
    focusable := fun _ => rfl }

/-! ## lines -/

/-- a node, whether it has children, the line of the document in it, and the nodes behind it -/
inductive Line
  | nil
  | node (a : Node) (hasChildNodes : Bool) (content next : Line)

namespace Line

def nodes : Line → List Node
  | nil => []
  | node a _ content next => a :: (content.nodes ++ next.nodes)

def Linked : Line → Prop
  | nil => True
  | node _ hasChildNodes content next => (hasChildNodes = true → next ≠ nil) ∧ content.Linked ∧ next.Linked

end Line

def hasNodes : Forest Node → Bool
  | .nil => false
  | .node _ _ _ _ => true

/-- the nodes of a document, given its children, and then those behind it -/
def forwardLine : Forest Node → Line → Line
  | .nil, behind => behind
  | .node a children content next, behind =>
    .node a (hasNodes children) (forwardLine content .nil) (forwardLine children (forwardLine next behind))

def backwardLine : Forest Node → Line → Line
  | .nil, behind => behind
  | .node a children content next, behind =>
    backwardLine next (.node a (hasNodes children) (backwardLine content .nil) (backwardLine children behind))

/-- the children of the main document -/
structure Page where
  nodes : Forest Node
  distinct : (nodes.toList.map Node.id).Nodup

section
variable (nodes : Forest Node) (behind : Line)

theorem forwardLine_nodes : (forwardLine nodes behind).nodes.Perm (nodes.toList ++ behind.nodes) := by
  induction nodes generalizing behind with
  | nil => exact List.Perm.refl _
  | node a children content next hchildren hcontent hnext =>
    have hcontent : (forwardLine content .nil).nodes.Perm content.toList := by
      simpa [Line.nodes] using hcontent .nil
    have hnext := (hchildren (forwardLine next behind)).trans ((hnext behind).append_left children.toList)
    show (a :: (_ ++ _)).Perm (a :: (children.toList ++ (content.toList ++ next.toList) ++ behind.nodes))
    refine List.Perm.cons a ((hcontent.append hnext).trans ?_)
    rw [List.append_assoc, List.append_assoc]
    exact List.perm_append_comm_assoc _ _ _

theorem backwardLine_nodes : (backwardLine nodes behind).nodes.Perm (nodes.toList ++ behind.nodes) := by
  induction nodes generalizing behind with
  | nil => exact List.Perm.refl _
  | node a children content next hchildren hcontent hnext =>
    have hcontent : (backwardLine content .nil).nodes.Perm content.toList := by
      simpa [Line.nodes] using hcontent .nil
    have hturn := (hcontent.append (hchildren behind)).cons a
    have hturned := (hnext (.node a (hasNodes children) _ _)).trans (hturn.append_left next.toList)
    refine hturned.trans ?_
    show (next.toList ++ _).Perm (a :: (children.toList ++ (content.toList ++ next.toList) ++ behind.nodes))
    refine List.perm_middle.trans (List.Perm.cons a ?_)
    rw [← List.append_assoc, ← List.append_assoc, ← List.append_assoc]
    refine List.Perm.append_right behind.nodes (List.perm_append_comm.trans ?_)
    rw [List.append_assoc]
    exact List.perm_append_comm.append_left children.toList

theorem forwardLine_ne_nil (h : hasNodes nodes = true) : forwardLine nodes behind ≠ .nil := by
  cases nodes with
  | nil => exact absurd h (by simp [hasNodes])
  | node a children content next => simp [forwardLine]

theorem backwardLine_ne_nil (h : hasNodes nodes = true ∨ behind ≠ .nil) : backwardLine nodes behind ≠ .nil := by
  induction nodes generalizing behind with
  | nil => exact h.resolve_left (by simp [hasNodes])
  | node a children content next hchildren hcontent hnext => exact hnext _ (Or.inr (by simp))

theorem forwardLine_linked (h : behind.Linked) : (forwardLine nodes behind).Linked := by
  induction nodes generalizing behind with
  | nil => exact h
  | node a children content next hchildren hcontent hnext =>
    exact ⟨forwardLine_ne_nil children _, hcontent .nil trivial, hchildren _ (hnext behind h)⟩

theorem backwardLine_linked (h : behind.Linked) : (backwardLine nodes behind).Linked := by
  induction nodes generalizing behind with
  | nil => exact h
  | node a children content next hchildren hcontent hnext =>
    have hfirst : hasNodes children = true → backwardLine children behind ≠ .nil :=
      fun h => backwardLine_ne_nil children behind (Or.inl h)
    exact hnext _ ⟨hfirst, hcontent .nil trivial, hchildren behind h⟩

end

end Wkc.RectFocus
