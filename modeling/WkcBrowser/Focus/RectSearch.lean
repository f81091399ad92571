import WkcBrowser.Focus.FirstLast

/-!
# The two searches in a rectangle (FocusController.cpp)

* `findVerticallyFocusableNodeInRect`, `findHorizontallyFocusableNodeInRect`   the searches, over a line;
* `hits`                  the nodes at which the first one would stop, one after the other;
* `vertically_eq`         it stops at the first one;
* `plainHits`             those of the document itself, without what is in its frames;
* `Suffix`                what lies behind a node of a document, and `behind_of_suffix`, where a search goes on.
-/

namespace Wkc.RectFocus
open Canvas Focus

/-! ## nodes and their parts -/

/-- what all searches ask before they look at a node -/
def Node.isMatched (rect : IntRect) (a : Node) : Bool := a.isFocusable && a.isUsable (some rect)

/-- a frame owner, or a container that is searched -/
def Node.isEntered (a : Node) (hasChildNodes : Bool) : Bool := a.isFrameOwnerElement || a.isContainer hasChildNodes

/-- `nodeRect`, of a node with a renderer: the part of its box in the rectangle; none without a view -/
def Node.part (rect : IntRect) (a : Node) (box : IntRect) : Option IntRect :=
  a.view.map fun view => Tiled.intersection (Node.contentsToWindow view box) rect

/-- what is searched of a frame or a container; none if the search ends there -/
def Node.entry (rect : IntRect) (a : Node) : Option IntRect :=
  if a.isFrameOwnerElement && !a.hasContentFrame then none else a.box.bind (a.part rect)

def findVerticallyFocusableNodeInRect (enableContainer : Bool) : IntRect → Line → Option Node
  | _, .nil => none
  | rect, .node a hasChildNodes content next =>
    if !a.isMatched rect then findVerticallyFocusableNodeInRect enableContainer rect next
    else if a.isEntered hasChildNodes then
      match a.entry rect with
      | none => none
      | some nodeRect =>
        let childNode :=
          if a.isFrameOwnerElement then findVerticallyFocusableNodeInRect enableContainer nodeRect content
          else findVerticallyFocusableNodeInRect enableContainer nodeRect next
        if childNode.isSome then childNode
        else if enableContainer then some a
        else findVerticallyFocusableNodeInRect enableContainer rect next
    else some a

abbrev Candidate := Option (Node × IntRect)

/-- the update of `candidateNode` -/
def leftmost (d : FocusDirection) (candidate : Candidate) (a : Node) (nodeRect : IntRect) : Candidate :=
  if isEmpty nodeRect then candidate
  else
    match candidate with
    | none => some (a, nodeRect)
    | some (c, r) =>
      if d = .right ∧ r.x > nodeRect.x ∨ d = .left ∧ r.x < nodeRect.x then some (a, nodeRect) else some (c, r)

/-- none when a renderer is missing; `child` is the node that the walk has moved to, for the frame or container that it
was found in -/
def findHorizontallyFocusableNodeInRect (d : FocusDirection) (enableContainer : Bool) :
    Option Nat → IntRect → Candidate → Line → Option (Option Node)
  | _, _, candidate, .nil => some (candidate.map Prod.fst)
  | some child, rect, candidate, .node a _ content next =>
    if a.id = child then
      match a.box with
      | none => none
      | some box =>
        match a.part rect box with
        | none => some none
        | some nodeRect =>
          findHorizontallyFocusableNodeInRect d enableContainer none rect (leftmost d candidate a nodeRect) next
    else if child ∈ content.nodes.map Node.id then
      findHorizontallyFocusableNodeInRect d enableContainer (some child) rect candidate content
    else findHorizontallyFocusableNodeInRect d enableContainer (some child) rect candidate next
  | none, rect, candidate, .node a hasChildNodes content next =>
    let arrived :=
      match a.box with
      | none => none
      | some box =>
        match a.part rect box with
        | none => some none
        | some nodeRect =>
          findHorizontallyFocusableNodeInRect d enableContainer none rect (leftmost d candidate a nodeRect) next
    if !a.isMatched rect then findHorizontallyFocusableNodeInRect d enableContainer none rect candidate next
    else if a.isEntered hasChildNodes then
      match a.entry rect with
      | none => some none
      | some nodeRect =>
        let childNode :=
          if a.isFrameOwnerElement then findHorizontallyFocusableNodeInRect d enableContainer none nodeRect none content
          else findHorizontallyFocusableNodeInRect d enableContainer none nodeRect none next
        match childNode with
        | none => none
        | some none =>
          if enableContainer then arrived
          else findHorizontallyFocusableNodeInRect d enableContainer none rect candidate next
        | some (some child) =>
          if a.isFrameOwnerElement then
            findHorizontallyFocusableNodeInRect d enableContainer (some child.id) rect candidate content
          else findHorizontallyFocusableNodeInRect d enableContainer (some child.id) rect candidate next
    else arrived

/-! ## where the first search stops -/

/-- in a frame or a container that the search cannot go into, it ends -/
def hits : IntRect → Line → List Node
  | _, .nil => []
  | rect, .node a hasChildNodes content next =>
    if !a.isMatched rect then hits rect next
    else if a.isEntered hasChildNodes then
      match a.entry rect with
      | none => []
      | some nodeRect => (if a.isFrameOwnerElement then hits nodeRect content else hits nodeRect next) ++ hits rect next
    else a :: hits rect next

def Node.isPlainHit (rect : IntRect) (a : Node) (hasChildNodes : Bool) : Bool :=
  a.isMatched rect && !a.isEntered hasChildNodes

def plainHits (rect : IntRect) : Line → List Node
  | .nil => []
  | .node a hasChildNodes _ next => (if a.isPlainHit rect hasChildNodes then [a] else []) ++ plainHits rect next

section
variable {rect : IntRect} {a : Node} {hasChildNodes : Bool} {content next : Line}

theorem isPlainHit_unmatched (h : (!a.isMatched rect) = true) : a.isPlainHit rect hasChildNodes = false := by
  simp only [Bool.not_eq_true'] at h
  simp [Node.isPlainHit, h]

theorem isPlainHit_entered (h : a.isEntered hasChildNodes = true) : a.isPlainHit rect hasChildNodes = false := by
  simp [Node.isPlainHit, h]

theorem isPlainHit_stop (hmatched : ¬(!a.isMatched rect) = true) (hentered : ¬a.isEntered hasChildNodes = true) :
    a.isPlainHit rect hasChildNodes = true := by
  simp only [Bool.not_eq_true] at hentered
  simp only [Bool.not_eq_true', Bool.not_eq_false] at hmatched
  simp [Node.isPlainHit, hmatched, hentered]

theorem plainHits_skip (h : a.isPlainHit rect hasChildNodes = false) :
    plainHits rect (.node a hasChildNodes content next) = plainHits rect next := by
  rw [plainHits, h]
  rfl

theorem plainHits_stop (h : a.isPlainHit rect hasChildNodes = true) :
    plainHits rect (.node a hasChildNodes content next) = a :: plainHits rect next := by
  rw [plainHits, h]
  rfl

end

theorem vertically_eq (rect : IntRect) (line : Line) :
    findVerticallyFocusableNodeInRect false rect line = (hits rect line).head? := by
  induction line generalizing rect with
  | nil => rfl
  | node a hasChildNodes content next hcontent hnext =>
    rw [findVerticallyFocusableNodeInRect, hits]
    split
    · exact hnext rect
    · split
      · cases a.entry rect with
        | none => rfl
        | some nodeRect =>
          show (if Option.isSome (if a.isFrameOwnerElement then _ else _) then _ else _) = _
          rw [hcontent nodeRect, hnext nodeRect, hnext rect]
          rw [List.head?_append, ← apply_ite List.head?]
          cases (if a.isFrameOwnerElement = true then hits nodeRect content else hits nodeRect next).head? <;> rfl
      · rfl

theorem mem_plainHits {rect : IntRect} {line : Line} {b : Node} (h : b ∈ plainHits rect line) :
    b.isMatched rect = true ∧ b.isFrameOwnerElement = false := by
  induction line with
  | nil => exact absurd h List.not_mem_nil
  | node a hasChildNodes content next hcontent hnext =>
    rcases List.mem_append.mp h with h | h
    · split at h
      · next hplain =>
        rw [List.mem_singleton.mp h]
        simp only [Node.isPlainHit, Node.isEntered, Bool.and_eq_true, Bool.not_eq_true', Bool.or_eq_false_iff] at hplain
        exact ⟨hplain.1, hplain.2.1⟩
      · exact absurd h List.not_mem_nil
    · exact hnext h

theorem plainHits_subset {rect : IntRect} {line : Line} : plainHits rect line ⊆ line.nodes := by
  induction line with
  | nil => exact List.Subset.refl _
  | node a hasChildNodes content next hcontent hnext =>
    intro b hb
    rw [Line.nodes, List.mem_cons, List.mem_append]
    rcases List.mem_append.mp hb with hb | hb
    · split at hb
      · exact Or.inl (List.mem_singleton.mp hb)
      · exact absurd hb List.not_mem_nil
    · exact Or.inr (Or.inr (hnext hb))

/-! ## going on behind a node -/

namespace Line

/-- the nodes behind a node, in its document -/
def behind (id : Nat) : Line → Option Line
  | nil => none
  | node a _ content next => if a.id = id then some next else (behind id content).or (behind id next)

/-- the nodes from a node on, in its document -/
def fromNode (id : Nat) : Line → Option Line
  | nil => none
  | node a hasChildNodes content next =>
    if a.id = id then some (node a hasChildNodes content next) else (fromNode id content).or (fromNode id next)

/-- how many nodes of the document there are -/
def length : Line → Nat
  | nil => 0
  | node _ _ _ next => length next + 1

/-- the line from a node of the document on, or its end -/
inductive Suffix (line : Line) : Line → Prop
  | refl : Suffix line line
  | step {a : Node} {hasChildNodes : Bool} {content next : Line} (h : Suffix line next) :
      Suffix line (node a hasChildNodes content next)

section
variable {line whole content next : Line} {a : Node} {hasChildNodes : Bool} {id : Nat}

theorem Suffix.behind (h : Suffix (node a hasChildNodes content next) whole) : Suffix next whole := by
  induction h with
  | refl => exact .step .refl
  | step _ ih => exact .step ih

theorem Suffix.nodes_subset (h : Suffix line whole) : line.nodes ⊆ whole.nodes := by
  induction h with
  | refl => exact List.Subset.refl _
  | step _ ih =>
    intro b hb
    exact List.mem_cons_of_mem _ (List.mem_append_right _ (ih hb))

theorem ids_node : (node a hasChildNodes content next).nodes.map Node.id =
    a.id :: (content.nodes.map Node.id ++ next.nodes.map Node.id) := by
  rw [nodes, List.map_cons, List.map_append]

theorem Suffix.distinct (h : Suffix line whole) (hdistinct : (whole.nodes.map Node.id).Nodup) :
    (line.nodes.map Node.id).Nodup := by
  induction h with
  | refl => exact hdistinct
  | step _ ih =>
    rw [ids_node, List.nodup_cons] at hdistinct
    exact ih (List.nodup_append.mp hdistinct.2).2.1

theorem Suffix.trans {line' : Line} (h : Suffix line line') (h' : Suffix line' whole) : Suffix line whole := by
  induction h' with
  | refl => exact h
  | step _ ih => exact .step ih

theorem Suffix.length_le (h : Suffix line whole) : length line ≤ length whole := by
  induction h with
  | refl => exact Nat.le_refl _
  | step _ ih => exact Nat.le_succ_of_le ih

theorem behind_eq_none (h : id ∉ line.nodes.map Node.id) : line.behind id = none := by
  induction line with
  | nil => rfl
  | node a hasChildNodes content next hcontent hnext =>
    rw [ids_node, List.mem_cons, List.mem_append, not_or, not_or] at h
    rw [behind, if_neg (Ne.symm h.1), hcontent h.2.1, hnext h.2.2]
    rfl

theorem behind_of_suffix (hdistinct : (whole.nodes.map Node.id).Nodup)
    (h : Suffix (node a hasChildNodes content next) whole) : whole.behind a.id = some next := by
  induction h with
  | refl => exact if_pos rfl
  | @step b hasChildNodes' content' next' h ih =>
    rw [ids_node, List.nodup_cons] at hdistinct
    obtain ⟨hnotin, hdistinct⟩ := hdistinct
    have hin : a.id ∈ next'.nodes.map Node.id := List.mem_map_of_mem (h.nodes_subset List.mem_cons_self)
    have hne : b.id ≠ a.id := fun heq => hnotin (heq ▸ List.mem_append_right _ hin)
    have hcontent : a.id ∉ content'.nodes.map Node.id := fun hc => List.disjoint_of_nodup_append hdistinct hc hin
    rw [behind, if_neg hne, behind_eq_none hcontent, ih (List.nodup_append.mp hdistinct).2.1]
    rfl

end

end Line

section
variable {rect : IntRect}

theorem plainHits_of_suffix {line whole : Line} (h : Line.Suffix line whole) :
    plainHits rect line ⊆ plainHits rect whole := by
  induction h with
  | refl => exact List.Subset.refl _
  | step _ ih => exact fun a ha => List.mem_append_right _ (ih ha)

theorem plainHits_subset_candidates (line : Line) : plainHits rect line ⊆ candidates (some rect) line := by
  induction line with
  | nil => exact List.Subset.refl _
  | node a hasChildNodes content next hcontent hnext =>
    intro b hb
    rw [candidates_node, List.mem_append, List.mem_append]
    rcases List.mem_append.mp hb with hb | hb
    · split at hb
      · next hplain =>
        simp only [Node.isPlainHit, Node.isMatched, Node.isEntered, Bool.and_eq_true, Bool.not_eq_true',
          Bool.or_eq_false_iff] at hplain
        have hcandidate : isCandidate (some rect) a hasChildNodes = true := by simp [isCandidate, hplain]
        rw [if_pos hcandidate]
        exact Or.inl hb
      · exact absurd hb List.not_mem_nil
    · exact Or.inr (Or.inr (hnext hb))

end

theorem forwardLine_distinct (page : Page) : ((forwardLine page.nodes .nil).nodes.map Node.id).Nodup := by
  rw [((forwardLine_nodes page.nodes .nil).map Node.id).nodup_iff]
  simpa [Line.nodes] using page.distinct

end Wkc.RectFocus
