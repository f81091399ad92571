import WkcBrowser.Focus.RectSearch
import WkcBrowser.Lib.Turns

/-!
# Entering a page in a rectangle (`findNextFocusableNodeInRect`)

* `findNextFocusableNodeInRect`   the loop that starts one of the two searches again;
* `targets`, `Enters`             the nodes that are meant, and what is meant of the one returned;
* `Leads`, `inSight`              how frames, containers and nodes must lie on the walk, and what it comes to;
* `leads_first`                   then the first stop is meant, or the search begins again behind it;
* `Vertical`, `vertical_ends`     pages on which the vertical searches come to a node that is meant.
-/

namespace Wkc.RectFocus
open Canvas Focus Turns

section
variable (page : Page) (d : FocusDirection) (rect : IntRect) (enableContainer : Bool)

/-- the last child of the last child, and so on -/
def lastLeaf : Line → Line
  | .nil => .nil
  | .node a hasChildNodes content next => if hasChildNodes then lastLeaf next else .node a hasChildNodes content next

def firstStart : Line :=
  if d = .up then lastLeaf (backwardLine page.nodes .nil) else forwardLine page.nodes .nil

/-- `traverseNextNode`, in every direction, and the nodes that the search comes to from there -/
def nextStart (a : Node) : Line :=
  match (forwardLine page.nodes .nil).behind a.id with
  | some (.node b hasChildNodes content next) =>
    if d = .up then ((backwardLine page.nodes .nil).fromNode b.id).getD .nil else .node b hasChildNodes content next
  | _ => .nil

def searchFrom (start : Line) : Option (Option Node) :=
  if d = .up ∨ d = .down then some (findVerticallyFocusableNodeInRect enableContainer rect start)
  else findHorizontallyFocusableNodeInRect d enableContainer none rect none start

def turn (start : Line) : Option (Turn Line (Option Node)) :=
  match searchFrom d rect enableContainer start with
  | none => none
  | some none => some (.done none)
  | some (some node) =>
    if node.isKeyboardFocusable then some (.done (some node))
    else
      match nextStart page d node with
      | .nil => some (.done (some node))
      | start => some (.next start)

def findNextFocusableNodeInRect (fuel : Nat) : Outcome (Option Node) :=
  run (turn page d rect enableContainer) fuel (firstStart page d)

/-! ## what is meant -/

def targets : List Node :=
  (candidates (some rect) (forwardLine page.nodes .nil)).filter Node.isKeyboardFocusable

/-- the part of a node inside of the rectangle -/
def Node.inside (a : Node) : Option IntRect := ((a.box.or a.rect).bind (a.part rect)).filter fun r => !isEmpty r

/-- the part of `a` begins further in the direction than the one of `b`: further left for `right` -/
def Further (a b : Node) : Prop :=
  ∃ r r', a.inside rect = some r ∧ b.inside rect = some r' ∧ (d = .right ∧ r.x < r'.x ∨ d = .left ∧ r.x > r'.x)

structure Enters (node : Option Node) : Prop where
  focusable : ∀ a, node = some a → a.isKeyboardFocusable = true ∧ a.isUsable (some rect) = true
  complete : node = none → targets page rect = []
  edge : ∀ a, node = some a → ∀ t ∈ targets page rect, ¬ Further d rect t a

/-! ## down and up -/

/-- The walk stops at a node that takes the focus of the keyboard, not at one that is only cut off. `again`: the search
can begin again behind a node of the document. -/
def Leads : Bool → IntRect → Line → Prop
  | _, _, .nil => True
  | again, rect, .node a hasChildNodes content next =>
    if !a.isMatched rect then Leads again rect next
    else if a.isEntered hasChildNodes then
      match a.entry rect with
      | none => False
      | some nodeRect =>
        match if a.isFrameOwnerElement then hits nodeRect content else hits nodeRect next with
        | [] => Leads again rect next
        | child :: _ =>
          if a.isFrameOwnerElement then (isEmpty nodeRect = true → isEmpty rect = true) ∧ Leads false nodeRect content
          -- in a container the search may pass over others
          else (isEmpty nodeRect = true → isEmpty rect = true) ∧ Leads false nodeRect next ∨
            (hits rect next).head? = some child ∧ Leads again rect next
    else a.isKeyboardFocusable = true ∨ again = true ∧ next ≠ .nil ∧ Leads again rect next

/-- the nodes of the document to stop at, and those of its frames -/
def inSight (rect : IntRect) : Line → List Node
  | .nil => []
  | .node a hasChildNodes content next =>
    (if !a.isMatched rect then []
      else if a.isFrameOwnerElement then (a.entry rect).elim [] fun nodeRect => hits nodeRect content
      else if a.isContainer hasChildNodes then [] else [a]) ++ inSight rect next

/-- The walk leads to a node, and comes to one if one is meant. -/
structure Vertical : Prop where
  leads : Leads (d == .down) rect (firstStart page d)
  met : targets page rect ≠ [] → ∃ a ∈ inSight rect (firstStart page d), a.isKeyboardFocusable = true

end

section
variable {page : Page} {rect : IntRect}

theorem Enters.nothing {d : FocusDirection} (h : targets page rect = []) : Enters page d rect none where
  focusable _ ha := by cases ha
  complete _ := h
  edge _ ha := by cases ha

theorem Enters.vertical {d : FocusDirection} {a : Node} (hd : d = .up ∨ d = .down)
    (hfocusable : a.isKeyboardFocusable = true) (husable : a.isUsable (some rect) = true) :
    Enters page d rect (some a) where
  focusable _ ha := Option.some.inj ha ▸ ⟨hfocusable, husable⟩
  complete h := by cases h
  edge _ _ _ _ hfurther := by
    obtain ⟨_, _, -, -, ⟨h, -⟩ | ⟨h, -⟩⟩ := hfurther <;> rcases hd with hd | hd <;> rw [hd] at h <;> cases h

section
variable {d : FocusDirection} {enableContainer : Bool} {start : Line} {a : Node}

theorem turn_nothing (h : searchFrom d rect enableContainer start = some none) :
    turn page d rect enableContainer start = some (.done none) := by
  rw [turn, h]

theorem turn_accepted (h : searchFrom d rect enableContainer start = some (some a))
    (ha : a.isKeyboardFocusable = true) : turn page d rect enableContainer start = some (.done (some a)) := by
  rw [turn, h]
  exact if_pos ha

theorem turn_again (h : searchFrom d rect enableContainer start = some (some a)) (ha : ¬a.isKeyboardFocusable = true)
    (hne : nextStart page d a ≠ .nil) : turn page d rect enableContainer start = some (.next (nextStart page d a)) := by
  rw [turn, h]
  refine (if_neg ha).trans ?_
  cases hnext : nextStart page d a with
  | nil => exact absurd hnext hne
  | node b hasChildNodes content next => rfl

end

/-! ## the first stop -/

theorem intersects_of_intersection {box r : IntRect} (h : intersects (Tiled.intersection box rect) r = true) :
    intersects rect r = true := by
  unfold Tiled.intersection at h
  simp only at h
  split at h
  · exact absurd h (by simp [intersects, isEmpty, Tiled.setLocationAndSizeFromEdges])
  · next hedges =>
    simp only [intersects, isEmpty, Bool.and_eq_true, Bool.not_eq_true', Bool.or_eq_false_iff, decide_eq_true_eq,
      decide_eq_false_iff_not] at h ⊢
    simp only [Tiled.setLocationAndSizeFromEdges, IntRect.maxX, IntRect.maxY] at h hedges ⊢
    omega

theorem usable_of_entry {a c : Node} {nodeRect : IntRect} (hentry : a.entry rect = some nodeRect)
    (hpart : isEmpty nodeRect = true → isEmpty rect = true) (h : c.isUsable (some nodeRect) = true) :
    c.isUsable (some rect) = true := by
  obtain ⟨box, rfl⟩ : ∃ box, nodeRect = Tiled.intersection box rect := by
    rw [Node.entry] at hentry
    split at hentry
    · cases hentry
    · obtain ⟨box, -, hbox⟩ := Option.bind_eq_some_iff.mp hentry
      obtain ⟨view, -, hbox⟩ := Option.map_eq_some_iff.mp hbox
      exact ⟨_, hbox.symm⟩
  rw [Node.isUsable, Bool.and_eq_true] at h ⊢
  refine ⟨?_, h.2⟩
  have h := h.1
  unfold Node.isNodeInSpecificRect at h ⊢
  by_cases hempty : isEmpty (Tiled.intersection box rect) = true
  · simpa [Option.filter, hempty, hpart hempty] using h
  · cases hview : c.view with
    | none => simp [Option.filter, hempty, hview] at h
    | some view =>
      cases hrect : c.rect with
      | none => simp [Option.filter, hempty, hview, hrect] at h
      | some r =>
        simp only [Option.filter, hempty, Bool.not_false, if_true, hview, hrect, Bool.and_eq_true] at h
        have hin := intersects_of_intersection h.2
        have hrect' : isEmpty rect = false := by
          simp only [intersects, Bool.and_eq_true, Bool.not_eq_true'] at hin
          exact hin.1.1.1.1.1
        simpa [Option.filter, hview, hrect, hrect', hin] using h.1

/-- Where a search that may begin again has stopped: at a node of the document, with all in sight still in front of it. -/
def GoesOn (rect : IntRect) (line : Line) (c : Node) : Prop :=
  ¬c.isKeyboardFocusable = true ∧ ∃ hasChildNodes content next,
    Line.Suffix (.node c hasChildNodes content next) line ∧ next ≠ .nil ∧ Leads true rect next ∧
      ∀ b ∈ inSight rect line, b.isKeyboardFocusable = true → b ∈ inSight rect next

theorem GoesOn.step {a c : Node} {hasChildNodes : Bool} {content next : Line}
    (hsight : inSight rect (.node a hasChildNodes content next) = inSight rect next) (h : GoesOn rect next c) :
    GoesOn rect (.node a hasChildNodes content next) c := by
  obtain ⟨hkeyboard, hasChildNodes', content', next', hsuffix, hne, hleads, hin⟩ := h
  exact ⟨hkeyboard, hasChildNodes', content', next', .step hsuffix, hne, hleads, hsight ▸ hin⟩

/-- The first stop is meant, or the search begins again behind it. -/
def FirstStop (again : Bool) (rect : IntRect) (line : Line) : Prop :=
  match (hits rect line).head? with
  | none => inSight rect line = []
  | some c => (c.isKeyboardFocusable = true ∧ c.isUsable (some rect) = true) ∨ again = true ∧ GoesOn rect line c

theorem FirstStop.step {again : Bool} {a : Node} {hasChildNodes : Bool} {content next : Line}
    (hhead : (hits rect (.node a hasChildNodes content next)).head? = (hits rect next).head?)
    (hsight : inSight rect (.node a hasChildNodes content next) = inSight rect next) (h : FirstStop again rect next) :
    FirstStop again rect (.node a hasChildNodes content next) := by
  unfold FirstStop at h ⊢
  rw [hhead]
  cases hc : (hits rect next).head? with
  | none =>
    rw [hc] at h
    exact hsight.trans h
  | some c =>
    rw [hc] at h
    exact h.imp_right fun h => ⟨h.1, h.2.step hsight⟩

theorem FirstStop.part {a child : Node} {nodeRect : IntRect} {line : Line} {others : List Node}
    (hentry : a.entry rect = some nodeRect) (hpart : isEmpty nodeRect = true → isEmpty rect = true)
    (hhits : hits nodeRect line = child :: others) (h : FirstStop false nodeRect line) :
    child.isKeyboardFocusable = true ∧ child.isUsable (some rect) = true := by
  unfold FirstStop at h
  rw [hhits] at h
  obtain ⟨hkeyboard, husable⟩ := h.resolve_right (by simp)
  exact ⟨hkeyboard, usable_of_entry hentry hpart husable⟩

theorem leads_first {again : Bool} {line : Line} (h : Leads again rect line) : FirstStop again rect line := by
  induction line generalizing again rect with
  | nil => rfl
  | node a hasChildNodes content next hcontent hnext =>
    rw [Leads] at h
    by_cases hmatched : (!a.isMatched rect) = true
    · rw [if_pos hmatched] at h
      refine FirstStop.step ?_ ?_ (hnext h)
      · rw [hits, if_pos hmatched]
      · rw [inSight, if_pos hmatched]
        rfl
    rw [if_neg hmatched] at h
    by_cases hentered : a.isEntered hasChildNodes = true
    · rw [if_pos hentered] at h
      cases hentry : a.entry rect with
      | none =>
        rw [hentry] at h
        exact h.elim
      | some nodeRect =>
        rw [hentry] at h
        have hhits : hits rect (.node a hasChildNodes content next) =
            (if a.isFrameOwnerElement = true then hits nodeRect content else hits nodeRect next) ++ hits rect next := by
          rw [hits, if_neg hmatched, if_pos hentered, hentry]
        by_cases howner : a.isFrameOwnerElement = true
        · simp only [howner, if_true] at h hhits
          cases hin : hits nodeRect content with
          | nil =>
            rw [hin] at h hhits
            refine FirstStop.step (congrArg List.head? hhits) ?_ (hnext h)
            rw [inSight, if_neg hmatched, if_pos howner, hentry]
            simp [hin]
          | cons child others =>
            rw [hin] at h hhits
            rw [FirstStop, hhits]
            exact Or.inl (FirstStop.part hentry h.1 hin (hcontent h.2))
        · have hcontainer : a.isContainer hasChildNodes = true := by
            simpa [Node.isEntered, howner] using hentered
          have hsight : inSight rect (.node a hasChildNodes content next) = inSight rect next := by
            rw [inSight, if_neg hmatched, if_neg howner, if_pos hcontainer]
            rfl
          simp only [howner] at h hhits
          cases hin : hits nodeRect next with
          | nil =>
            rw [hin] at h hhits
            exact FirstStop.step (congrArg List.head? hhits) hsight (hnext h)
          | cons child others =>
            rw [hin] at h hhits
            rcases h with ⟨hpart, hleads⟩ | ⟨hfirst, hleads⟩
            · rw [FirstStop, hhits]
              exact Or.inl (FirstStop.part hentry hpart hin (hnext hleads))
            · exact FirstStop.step ((congrArg List.head? hhits).trans hfirst.symm) hsight (hnext hleads)
    rw [if_neg hentered] at h
    have hsight : inSight rect (.node a hasChildNodes content next) = a :: inSight rect next := by
      simp only [Node.isEntered, Bool.or_eq_true, not_or] at hentered
      rw [inSight, if_neg hmatched, if_neg hentered.1, if_neg hentered.2]
      rfl
    rw [FirstStop, hits, if_neg hmatched, if_neg hentered]
    by_cases hkeyboard : a.isKeyboardFocusable = true
    · refine Or.inl ⟨hkeyboard, ?_⟩
      simp only [Node.isMatched, Bool.not_eq_true', Bool.not_eq_false, Bool.and_eq_true] at hmatched
      exact hmatched.2
    · obtain ⟨hagain, hne, hleads⟩ := h.resolve_left hkeyboard
      refine Or.inr ⟨hagain, hkeyboard, hasChildNodes, content, next, .refl, hne, hagain ▸ hleads, fun b hb hb' => ?_⟩
      rw [hsight] at hb
      exact (List.mem_cons.mp hb).resolve_left fun heq => hkeyboard (heq ▸ hb')

theorem target_of_plainHit {line : Line} {a : Node} (hsuffix : Line.Suffix line (forwardLine page.nodes .nil))
    (ha : a ∈ plainHits rect line) (hkeyboard : a.isKeyboardFocusable = true) : a ∈ targets page rect :=
  List.mem_filter.mpr ⟨plainHits_subset_candidates _ (plainHits_of_suffix hsuffix ha), hkeyboard⟩

theorem nextStart_of_suffix {d : FocusDirection} {a : Node} {hasChildNodes : Bool} {content next : Line} (hd : d ≠ .up)
    (h : Line.Suffix (.node a hasChildNodes content next) (forwardLine page.nodes .nil)) :
    nextStart page d a = next := by
  rw [nextStart, Line.behind_of_suffix (forwardLine_distinct page) h]
  cases next with
  | nil => rfl
  | node b hasChildNodes content next => exact if_neg hd


/-- a line from which a vertical search comes to a node that is meant -/
structure VerticalFrom (d : FocusDirection) (page : Page) (rect : IntRect) (line : Line) : Prop where
  leads : Leads (d == .down) rect line
  met : targets page rect ≠ [] → ∃ a ∈ inSight rect line, a.isKeyboardFocusable = true
  suffix : d = .down → Line.Suffix line (forwardLine page.nodes .nil)

theorem vertical_keeps {d : FocusDirection} (hd : d = .up ∨ d = .down) {line : Line} (h : VerticalFrom d page rect line) :
    Keeps (turn page d rect false) (VerticalFrom d page rect) (Enters page d rect) Line.length line := by
  have hsearch : searchFrom d rect false line = some (hits rect line).head? := by
    rw [searchFrom, if_pos hd, vertically_eq]
  have hfirst := leads_first h.leads
  rw [FirstStop] at hfirst
  cases hhead : (hits rect line).head? with
  | none =>
    rw [hhead] at hfirst hsearch
    rw [Keeps, turn_nothing hsearch]
    refine Enters.nothing (by_contra fun hne => ?_)
    obtain ⟨a, ha, -⟩ := h.met hne
    rw [show inSight rect line = [] from hfirst] at ha
    exact absurd ha List.not_mem_nil
  | some c =>
    rw [hhead] at hfirst hsearch
    rcases hfirst with ⟨hkeyboard, husable⟩ |
      ⟨hagain, hkeyboard, hasChildNodes, content, next, hsuffix, hne, hleads, hsight⟩
    · rw [Keeps, turn_accepted hsearch hkeyboard]
      exact Enters.vertical hd hkeyboard husable
    · have hdown : d = .down := beq_iff_eq.mp hagain
      have hwhole := hsuffix.trans (h.suffix hdown)
      have hstart : nextStart page d c = next := nextStart_of_suffix (by simp [hdown]) hwhole
      rw [Keeps, turn_again hsearch hkeyboard (hstart ▸ hne), hstart]
      refine ⟨⟨hagain ▸ hleads, fun htargets => ?_, fun _ => hwhole.behind⟩, ?_⟩
      · obtain ⟨a, ha, hkeyboard⟩ := h.met htargets
        exact ⟨a, hsight a ha hkeyboard, hkeyboard⟩
      · exact Nat.lt_of_lt_of_le (Nat.lt_succ_self _) hsuffix.length_le

theorem vertical_ends {d : FocusDirection} (hd : d = .up ∨ d = .down) (h : Vertical page d rect) :
    ∃ fuel node, findNextFocusableNodeInRect page d rect false fuel = .ended node ∧ Enters page d rect node := by
  refine run_ends Line.length (fun _ hline => vertical_keeps hd hline) ⟨h.leads, h.met, fun hdown => ?_⟩
  rw [firstStart, if_neg (by simp [hdown])]
  exact .refl

end

/-! ## a page with a frame and a container -/

def frameOwner : Node :=
  { control 3 true ⟨0, 30, 50, 20⟩ with
    isFrameOwnerElement := true
    hasContentFrame := true
    rendered := fun _ => rfl
    focusable := fun _ => rfl }

/-- an unchecked radio button, a frame with a text, a container with a link, and a link -/
def settled : Page where
  nodes := .node (shown 1 ⟨0, 0, 100, 100⟩)
    (.node (control 2 false ⟨0, 0, 50, 20⟩) .nil .nil
      (.node frameOwner .nil (.node (shown 4 ⟨0, 30, 20, 20⟩) .nil .nil .nil)
        (.node (scrollable 5 ⟨0, 60, 50, 30⟩) (.node (control 6 true ⟨0, 60, 40, 20⟩) .nil .nil .nil) .nil
          (.node (control 7 true ⟨0, 90, 50, 10⟩) .nil .nil .nil)))) .nil .nil
  distinct := by decide

end Wkc.RectFocus
