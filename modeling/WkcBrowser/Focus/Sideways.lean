import WkcBrowser.Focus.Entering
import WkcBrowser.Lib.Best
import Mathlib.Order.Basic
import Mathlib.Data.Int.Order.Basic

/-!
# Entering a page from the left or the right (`findHorizontallyFocusableNodeInRect`)

* `pickable`              the nodes of a document that the walk compares, with their parts;
* `edge`                  how far a part reaches;
* `Straight`              the walk leaves out no node of the document, and comes to none of a frame;
* `horizontally_eq`       then it finds the first of those that reach furthest;
* `Sideways`              pages on which the search comes to a node that is meant;
* `sideways_ends`         it does;
* `enters`                all four directions.
-/

namespace Wkc.RectFocus
open Canvas Focus Turns

/-- the part that is compared, if it is not empty -/
def Node.picked (rect : IntRect) (a : Node) : Option IntRect := (a.box.bind (a.part rect)).filter fun r => !isEmpty r

def pickable (rect : IntRect) (line : Line) : List (Node × IntRect) :=
  (plainHits rect line).filterMap fun a => (a.picked rect).map fun r => (a, r)

def edge (d : FocusDirection) (p : Node × IntRect) : Int := if d = .left then -p.2.x else p.2.x

/-- the first of those that reach furthest -/
def pick (d : FocusDirection) (l : List (Node × IntRect)) : Candidate := Best.best (edge d) (fun _ _ => false) l

def Straight (d : FocusDirection) : IntRect → Line → Prop
  | _, .nil => True
  | rect, .node a hasChildNodes content next =>
    if !a.isMatched rect then Straight d rect next
    else if a.isEntered hasChildNodes then
      match a.entry rect with
      | none => False
      | some nodeRect =>
        (if a.isFrameOwnerElement then hits nodeRect content = []
          else Straight d nodeRect next ∧
            ∀ c ∈ pick d (pickable nodeRect next), (plainHits rect next).head? = some c.1) ∧
          Straight d rect next
    else (a.box.bind (a.part rect)).isSome = true ∧ Straight d rect next

section
variable {d : FocusDirection} {rect : IntRect}

theorem leftmost_eq (hd : d = .left ∨ d = .right) (candidate : Candidate) (a : Node) (r : IntRect) :
    leftmost d candidate a r =
      if isEmpty r then candidate else Best.keep (edge d) (fun _ _ => false) candidate (a, r) := by
  unfold leftmost
  split
  · rfl
  · cases candidate with
    | none => rfl
    | some c =>
      rw [Best.keep]
      rcases hd with rfl | rfl <;> simp [edge]

theorem pickable_cons {a : Node} {hasChildNodes : Bool} {content next : Line}
    (h : a.isPlainHit rect hasChildNodes = false) : pickable rect (.node a hasChildNodes content next) = pickable rect next := by
  rw [pickable, plainHits_skip h, pickable]

theorem horizontally_of_hits {line : Line} (h : hits rect line = []) :
    findHorizontallyFocusableNodeInRect d false none rect none line = some none := by
  induction line generalizing rect with
  | nil => rfl
  | node a hasChildNodes content next hcontent hnext =>
    rw [hits] at h
    rw [findHorizontallyFocusableNodeInRect]
    split
    · next hmatched => exact hnext ((if_pos hmatched).symm.trans h)
    · next hmatched =>
      have h := (if_neg hmatched).symm.trans h
      split
      · next hentered =>
        have h := (if_pos hentered).symm.trans h
        cases hentry : a.entry rect with
        | none => rfl
        | some nodeRect =>
          rw [hentry] at h
          obtain ⟨hinner, hrest⟩ := List.append_eq_nil_iff.mp h
          have hchild : (if a.isFrameOwnerElement = true then
              findHorizontallyFocusableNodeInRect d false none nodeRect none content
              else findHorizontallyFocusableNodeInRect d false none nodeRect none next) = some none := by
            by_cases howner : a.isFrameOwnerElement = true
            · rw [if_pos howner] at hinner ⊢
              exact hcontent hinner
            · rw [if_neg howner] at hinner ⊢
              exact hnext hinner
          simp only [hchild]
          exact hnext hrest
      · next hentered => exact absurd ((if_neg hentered).symm.trans h) (by simp)

theorem Straight.next {a : Node} {hasChildNodes : Bool} {content next : Line}
    (h : Straight d rect (.node a hasChildNodes content next)) : Straight d rect next := by
  rw [Straight] at h
  split at h
  · exact h
  · split at h
    · cases hentry : a.entry rect with
      | none =>
        rw [hentry] at h
        exact h.elim
      | some nodeRect =>
        rw [hentry] at h
        exact h.2
    · exact h.2

/-- the candidate after the walk over some nodes of the document -/
def picking (d : FocusDirection) (candidate : Candidate) (l : List (Node × IntRect)) : Candidate :=
  l.foldl (Best.keep (edge d) fun _ _ => false) candidate

theorem arrived_eq (hd : d = .left ∨ d = .right) {a : Node} {hasChildNodes : Bool} {content next : Line}
    (hplain : a.isPlainHit rect hasChildNodes = true) {r : IntRect} (hpart : a.box.bind (a.part rect) = some r)
    (candidate : Candidate) :
    picking d (leftmost d candidate a r) (pickable rect next) =
      picking d candidate (pickable rect (.node a hasChildNodes content next)) := by
  rw [leftmost_eq hd, pickable, pickable, plainHits_stop hplain, List.filterMap_cons, Node.picked, hpart]
  cases hempty : isEmpty r <;> simp [Option.filter, hempty, picking]

/-- The walk compares all plain hits of the document. -/
def Walks (d : FocusDirection) (line : Line) : Prop :=
  ∀ rect candidate, Straight d rect line → findHorizontallyFocusableNodeInRect d false none rect candidate line =
    some ((picking d candidate (pickable rect line)).map Prod.fst)

/-- So it does when it moves to the first one of them. -/
def Moves (d : FocusDirection) (line : Line) : Prop :=
  ∀ rect candidate c, Straight d rect line → (plainHits rect line).head? = some c →
    findHorizontallyFocusableNodeInRect d false (some c.id) rect candidate line =
      some ((picking d candidate (pickable rect line)).map Prod.fst)

section
variable {a : Node} {hasChildNodes : Bool} {content next : Line}

theorem arrived_walks (hd : d = .left ∨ d = .right) (hwalks : Walks d next) (hstraight : Straight d rect next)
    (hplain : a.isPlainHit rect hasChildNodes = true) (hsome : (a.box.bind (a.part rect)).isSome = true)
    (candidate : Candidate) :
    (match a.box with
      | none => none
      | some box =>
        match a.part rect box with
        | none => some none
        | some nodeRect =>
          findHorizontallyFocusableNodeInRect d false none rect (leftmost d candidate a nodeRect) next) =
      some ((picking d candidate (pickable rect (.node a hasChildNodes content next))).map Prod.fst) := by
  obtain ⟨r, hr⟩ := Option.isSome_iff_exists.mp hsome
  obtain ⟨box, hbox, hpart⟩ := Option.bind_eq_some_iff.mp hr
  rw [← arrived_eq hd hplain hr, ← hwalks rect _ hstraight, hbox]
  simp only [hpart]

theorem walks_node (hd : d = .left ∨ d = .right) (hwalks : Walks d next) (hmoves : Moves d next) :
    Walks d (.node a hasChildNodes content next) := by
  intro rect candidate hstraight
  have hrest := hstraight.next
  rw [findHorizontallyFocusableNodeInRect]
  rw [Straight] at hstraight
  by_cases hmatched : (!a.isMatched rect) = true
  · rw [if_pos hmatched, hwalks rect candidate hrest, pickable_cons (isPlainHit_unmatched hmatched)]
  rw [if_neg hmatched] at hstraight ⊢
  by_cases hentered : a.isEntered hasChildNodes = true
  · rw [if_pos hentered] at hstraight ⊢
    rw [pickable_cons (isPlainHit_entered hentered)]
    cases hentry : a.entry rect with
    | none =>
      rw [hentry] at hstraight
      exact hstraight.elim
    | some nodeRect =>
      rw [hentry] at hstraight
      obtain ⟨hinner, -⟩ := hstraight
      by_cases howner : a.isFrameOwnerElement = true
      · rw [if_pos howner] at hinner
        simp only [howner, if_true, horizontally_of_hits hinner]
        exact hwalks rect candidate hrest
      · rw [if_neg howner] at hinner
        obtain ⟨hinside, hfirst⟩ := hinner
        simp only [howner, hwalks nodeRect none hinside]
        cases hpick : picking d none (pickable nodeRect next) with
        | none => exact hwalks rect candidate hrest
        | some c => exact hmoves rect candidate c.1 hrest (hfirst c hpick)
  · rw [if_neg hentered] at hstraight ⊢
    exact arrived_walks hd hwalks hrest (isPlainHit_stop hmatched hentered) hstraight.1 candidate

theorem moves_node (hd : d = .left ∨ d = .right)
    (hdistinct : ((Line.node a hasChildNodes content next).nodes.map Node.id).Nodup) (hwalks : Walks d next)
    (hmoves : Moves d next) : Moves d (.node a hasChildNodes content next) := by
  intro rect candidate c hstraight hhead
  have hrest := hstraight.next
  rw [findHorizontallyFocusableNodeInRect]
  by_cases hplain : a.isPlainHit rect hasChildNodes = true
  · rw [plainHits_stop hplain] at hhead
    obtain rfl : a = c := Option.some.inj hhead
    rw [if_pos rfl]
    refine arrived_walks hd hwalks hrest hplain ?_ candidate
    simp only [Node.isPlainHit, Bool.and_eq_true, Bool.not_eq_true'] at hplain
    rw [Straight, hplain.1, hplain.2] at hstraight
    exact hstraight.1
  · rw [plainHits_skip (Bool.not_eq_true _ ▸ hplain)] at hhead
    rw [Line.ids_node, List.nodup_cons] at hdistinct
    obtain ⟨hnotin, hdistinct⟩ := hdistinct
    have hin : c.id ∈ next.nodes.map Node.id := List.mem_map_of_mem (plainHits_subset (List.mem_of_head? hhead))
    have hne : a.id ≠ c.id := fun heq => hnotin (heq ▸ List.mem_append_right _ hin)
    have hcontent : c.id ∉ content.nodes.map Node.id := fun h => List.disjoint_of_nodup_append hdistinct h hin
    rw [if_neg hne, if_neg hcontent, pickable_cons (Bool.not_eq_true _ ▸ hplain)]
    exact hmoves rect candidate c hrest hhead

end

theorem horizontally_both (hd : d = .left ∨ d = .right) {line : Line} (hdistinct : (line.nodes.map Node.id).Nodup) :
    Walks d line ∧ Moves d line := by
  induction line with
  | nil => exact ⟨fun _ _ _ => rfl, fun _ _ _ _ h => by cases h⟩
  | node a hasChildNodes content next hcontent hnext =>
    have hbehind : Line.Suffix next (.node a hasChildNodes content next) := .step .refl
    obtain ⟨hwalks, hmoves⟩ := hnext (hbehind.distinct hdistinct)
    exact ⟨walks_node hd hwalks hmoves, moves_node hd hdistinct hwalks hmoves⟩

theorem horizontally_eq (hd : d = .left ∨ d = .right) {line : Line} (hdistinct : (line.nodes.map Node.id).Nodup)
    (h : Straight d rect line) : searchFrom d rect false line = some ((pick d (pickable rect line)).map Prod.fst) := by
  rw [searchFrom, if_neg (by rcases hd with rfl | rfl <;> simp)]
  exact (horizontally_both hd hdistinct).1 rect none h

/-! ## what is compared -/

theorem mem_pickable {line : Line} {q : Node × IntRect} (h : q ∈ pickable rect line) :
    q.1 ∈ plainHits rect line ∧ q.1.picked rect = some q.2 := by
  obtain ⟨a, ha, hq⟩ := List.mem_filterMap.mp h
  obtain ⟨r, hr, rfl⟩ := Option.map_eq_some_iff.mp hq
  exact ⟨ha, hr⟩

theorem inside_of_picked {a : Node} {r : IntRect} (h : a.picked rect = some r) : a.inside rect = some r := by
  unfold Node.picked at h
  unfold Node.inside
  cases hbox : a.box with
  | none =>
    rw [hbox] at h
    cases h
  | some box =>
    rw [hbox] at h
    exact h

theorem further_iff (hd : d = .left ∨ d = .right) {a b : Node} {r : IntRect} (hb : b.inside rect = some r) :
    Further d rect a b ↔ ∃ r', a.inside rect = some r' ∧ edge d (a, r') < edge d (b, r) := by
  have hedge : ∀ r', (d = .right ∧ r'.x < r.x ∨ d = .left ∧ r'.x > r.x) ↔ edge d (a, r') < edge d (b, r) := by
    intro r'
    rcases hd with rfl | rfl <;> simp [edge]
  constructor
  · rintro ⟨r', r'', ha, hb', h⟩
    obtain rfl : r = r'' := Option.some.inj (hb.symm.trans hb')
    exact ⟨r', ha, (hedge r').mp h⟩
  · rintro ⟨r', ha, h⟩
    exact ⟨r', r, ha, hb, (hedge r').mpr h⟩

theorem pickable_split {line : Line} {front behind : List (Node × IntRect)} {b : Node × IntRect}
    (h : pickable rect line = front ++ b :: behind) :
    ∃ hasChildNodes content next, Line.Suffix (.node b.1 hasChildNodes content next) line ∧
      pickable rect (.node b.1 hasChildNodes content next) = b :: behind ∧ pickable rect next = behind := by
  induction line generalizing front with
  | nil => exact absurd h (by simp [pickable, plainHits])
  | node a hasChildNodes content next hcontent hnext =>
    have hlater : ∀ front, pickable rect next = front ++ b :: behind → ∃ hasChildNodes' content' next',
        Line.Suffix (.node b.1 hasChildNodes' content' next') (.node a hasChildNodes content next) ∧
          pickable rect (.node b.1 hasChildNodes' content' next') = b :: behind ∧ pickable rect next' = behind := by
      intro front h
      obtain ⟨hasChildNodes', content', next', hsuffix, hnext'⟩ := hnext h
      exact ⟨hasChildNodes', content', next', .step hsuffix, hnext'⟩
    have hall := h
    by_cases hplain : a.isPlainHit rect hasChildNodes = true
    · rw [pickable, plainHits_stop hplain, List.filterMap_cons] at h
      cases hpicked : a.picked rect with
      | none =>
        rw [hpicked] at h
        exact hlater front h
      | some r =>
        rw [hpicked] at h
        rcases List.cons_eq_append_iff.mp h with ⟨hfront, hb⟩ | ⟨front', -, hfront⟩
        · rw [hfront] at hall
          obtain ⟨rfl, rfl⟩ := List.cons.inj hb
          exact ⟨hasChildNodes, content, next, .refl, hall, rfl⟩
        · exact hlater front' hfront
    · rw [pickable_cons (Bool.not_eq_true _ ▸ hplain)] at h
      exact hlater front h

end

/-! ## the search -/

section
variable (d : FocusDirection) (page : Page) (rect : IntRect)

/-- The last node of the document is none of those that are compared. -/
def EndFree : Line → Prop
  | .nil => True
  | .node a hasChildNodes content next =>
    (next = .nil → pickable rect (.node a hasChildNodes content next) = []) ∧ EndFree next

/-- For each node that is meant, in whatever frame, one of the document reaches as far, and is not passed for a node
behind it; if none is meant, the search does not end at the last node. -/
structure Sideways (line : Line) : Prop where
  straight : Straight d rect line
  met : ∀ t ∈ targets page rect, ∃ front q behind, pickable rect line = front ++ q :: behind ∧
    q.1.isKeyboardFocusable = true ∧ ¬ Further d rect t q.1 ∧ ∀ b ∈ behind, ¬ edge d b < edge d q
  last : targets page rect = [] → EndFree rect line

/-- a line of the document, from which the search comes to a node that is meant -/
def SidewaysFrom (line : Line) : Prop := Line.Suffix line (forwardLine page.nodes .nil) ∧ Sideways d page rect line

/-- The search comes to a node that is meant. -/
def Entered : Prop :=
  match d with
  | .up => Vertical page .up rect
  | .down => Vertical page .down rect
  | d => Sideways d page rect (forwardLine page.nodes .nil)

end

section
variable {d : FocusDirection} {page : Page} {rect : IntRect}

theorem Straight.suffix {line whole : Line} (hsuffix : Line.Suffix line whole) (h : Straight d rect whole) :
    Straight d rect line := by
  induction hsuffix with
  | refl => exact h
  | step _ ih => exact ih h.next

theorem EndFree.suffix {line whole : Line} (hsuffix : Line.Suffix line whole) (h : EndFree rect whole) :
    EndFree rect line := by
  induction hsuffix with
  | refl => exact h
  | step _ ih => exact ih h.2

theorem split_behind {α : Type*} {front behind front' behind' : List α} {p b : α}
    (h : front ++ p :: behind = front' ++ b :: behind') (hne : p ≠ b) (hfront : b ∈ behind → p ∉ front') :
    ∃ others, behind' = others ++ p :: behind := by
  rcases List.append_eq_append_iff.mp h with ⟨others, hothers, hp⟩ | ⟨others, hothers, hb⟩
  · rcases List.cons_eq_append_iff.mp hp with ⟨-, heq⟩ | ⟨others', hcons, hbehind⟩
    · exact absurd (List.cons.inj heq).1.symm hne
    · refine absurd ?_ (hfront (hbehind ▸ List.mem_append_right _ List.mem_cons_self))
      rw [hothers, hcons]
      exact List.mem_append_right _ List.mem_cons_self
  · rcases List.cons_eq_append_iff.mp hb with ⟨-, heq⟩ | ⟨others', -, hbehind⟩
    · exact absurd (List.cons.inj heq).1 hne
    · exact ⟨others', hbehind⟩

theorem Enters.sideways (hd : d = .left ∨ d = .right) {line : Line} {b : Node × IntRect}
    (hb : pick d (pickable rect line) = some b) (hkeyboard : b.1.isKeyboardFocusable = true)
    (hmet : ∀ t ∈ targets page rect, ∃ q ∈ pickable rect line, ¬ Further d rect t q.1) :
    Enters page d rect (some b.1) where
  focusable a ha := by
    obtain rfl : b.1 = a := Option.some.inj ha
    have hmatched := (mem_plainHits (mem_pickable (Best.best_mem _ _ hb)).1).1
    exact ⟨hkeyboard, (Bool.and_eq_true _ _ ▸ hmatched).2⟩
  complete h := by cases h
  edge a ha t ht hfurther := by
    obtain rfl : b.1 = a := Option.some.inj ha
    obtain ⟨q, hq, hnot⟩ := hmet t ht
    have hbInside := inside_of_picked (mem_pickable (Best.best_mem _ _ hb)).2
    have hqInside := inside_of_picked (mem_pickable hq).2
    obtain ⟨r, hr, hlt⟩ := (further_iff hd hbInside).mp hfurther
    refine hnot ((further_iff hd hqInside).mpr ⟨r, hr, lt_of_lt_of_le hlt ?_⟩)
    exact not_lt.mp (Best.best_unbeaten _ _ hb q hq)

theorem sideways_keeps (hd : d = .left ∨ d = .right) {line : Line} (h : SidewaysFrom d page rect line) :
    Keeps (turn page d rect false) (SidewaysFrom d page rect) (Enters page d rect) Line.length line := by
  obtain ⟨hsuffix, h⟩ := h
  have hup : d ≠ .up := by rcases hd with rfl | rfl <;> simp
  have hsearch := horizontally_eq hd (hsuffix.distinct (forwardLine_distinct page)) h.straight
  cases hpick : pick d (pickable rect line) with
  | none =>
    rw [hpick] at hsearch
    rw [Keeps, turn_nothing hsearch]
    refine Enters.nothing (List.eq_nil_iff_forall_not_mem.mpr fun t ht => ?_)
    obtain ⟨front, q, behind, hline, -⟩ := h.met t ht
    rw [(Best.best_eq_none (edge d) _).mp hpick] at hline
    exact absurd hline (by simp)
  | some b =>
    rw [hpick] at hsearch
    obtain ⟨front', behind', hsplit, hfront'⟩ := Best.best_first (edge d) hpick
    obtain ⟨hasChildNodes, content, next, hb, hlast, hnext⟩ := pickable_split hsplit
    have hstart : nextStart page d b.1 = next := nextStart_of_suffix hup (hb.trans hsuffix)
    have hbehind := hb.behind
    by_cases hkeyboard : b.1.isKeyboardFocusable = true
    · rw [Keeps, turn_accepted hsearch hkeyboard]
      refine Enters.sideways hd hpick hkeyboard fun t ht => ?_
      obtain ⟨front, q, behind, hline, -, hnot, -⟩ := h.met t ht
      exact ⟨q, by simp [hline], hnot⟩
    · -- what is as good as a node that is meant is still in front of the search
      have hmet : ∀ t ∈ targets page rect, ∃ front q behind, pickable rect next = front ++ q :: behind ∧
          q.1.isKeyboardFocusable = true ∧ ¬ Further d rect t q.1 ∧ ∀ b ∈ behind, ¬ edge d b < edge d q := by
        intro t ht
        obtain ⟨front, q, behind, hline, hq, hnot, hedges⟩ := h.met t ht
        obtain ⟨others, hothers⟩ := split_behind (hline.symm.trans hsplit) (fun heq => hkeyboard (heq ▸ hq))
          fun hin hfront => hedges b hin (hfront' q hfront)
        exact ⟨others, q, behind, hnext.trans hothers, hq, hnot, hedges⟩
      have hne : next ≠ .nil := by
        intro hnil
        have hnone : targets page rect = [] := by
          refine List.eq_nil_iff_forall_not_mem.mpr fun t ht => ?_
          obtain ⟨front, q, behind, hline, -⟩ := hmet t ht
          rw [hnil] at hline
          exact absurd hline (by simp [pickable, plainHits])
        have hempty := ((h.last hnone).suffix hb).1 hnil
        rw [hlast] at hempty
        cases hempty
      rw [Keeps, turn_again hsearch hkeyboard (by rw [hstart]; exact hne), hstart]
      refine ⟨⟨hbehind.trans hsuffix, h.straight.suffix hbehind, hmet, fun hnone => ?_⟩, ?_⟩
      · exact ((h.last hnone).suffix hb).2
      · exact Nat.lt_of_lt_of_le (Nat.lt_succ_self _) hb.length_le

theorem sideways_ends (hd : d = .left ∨ d = .right) (h : Sideways d page rect (forwardLine page.nodes .nil)) :
    ∃ fuel node, findNextFocusableNodeInRect page d rect false fuel = .ended node ∧ Enters page d rect node := by
  have hstart : firstStart page d = forwardLine page.nodes .nil := if_neg (by rcases hd with rfl | rfl <;> simp)
  rw [← hstart] at h
  exact run_ends Line.length (fun _ hline => sideways_keeps hd hline) ⟨hstart ▸ .refl, h⟩

/-- From a page on which the search comes to a node that is meant, it ends with one that is meant. -/
theorem enters (d : FocusDirection) (page : Page) (rect : IntRect) (h : Entered d page rect) :
    ∃ fuel node, findNextFocusableNodeInRect page d rect false fuel = .ended node ∧ Enters page d rect node := by
  cases d with
  | up => exact vertical_ends (Or.inl rfl) h
  | down => exact vertical_ends (Or.inr rfl) h
  | left => exact sideways_ends (Or.inl rfl) h
  | right => exact sideways_ends (Or.inr rfl) h

/-! ## up, from the last leaf -/

def linkWithText : Page where
  nodes := .node (shown 1 ⟨0, 0, 100, 100⟩)
    (.node (control 2 true ⟨0, 0, 50, 20⟩) (.node (shown 3 ⟨0, 0, 50, 20⟩) .nil .nil .nil) .nil .nil) .nil .nil
  distinct := by decide

def radioAndText : Page where
  nodes := .node (shown 1 ⟨0, 0, 100, 100⟩)
    (.node (control 2 false ⟨0, 0, 50, 20⟩) .nil .nil (.node (shown 3 ⟨50, 0, 50, 20⟩) .nil .nil .nil)) .nil .nil
  distinct := by decide

theorem enters_settled :
    (∃ fuel node, findNextFocusableNodeInRect settled .down ⟨0, 0, 100, 100⟩ false fuel = .ended node ∧
        Enters settled .down ⟨0, 0, 100, 100⟩ node) ∧
      ∃ fuel node, findNextFocusableNodeInRect settled .right ⟨0, 0, 100, 100⟩ false fuel = .ended node ∧
        Enters settled .right ⟨0, 0, 100, 100⟩ node := by
  have htargets : targets settled ⟨0, 0, 100, 100⟩ = [control 6 true ⟨0, 60, 40, 20⟩, control 7 true ⟨0, 90, 50, 10⟩] := rfl
  constructor
  · apply enters
    refine ⟨Or.inr ⟨rfl, nofun, Or.inl ⟨by decide, Or.inl rfl⟩⟩, fun _ => ⟨control 6 true ⟨0, 60, 40, 20⟩, ?_, rfl⟩⟩
    decide
  · apply enters
    have hpickable : pickable ⟨0, 0, 100, 100⟩ (forwardLine settled.nodes .nil) =
        [(control 2 false ⟨0, 0, 50, 20⟩, ⟨0, 0, 50, 20⟩)] ++ (control 6 true ⟨0, 60, 40, 20⟩, ⟨0, 60, 40, 20⟩) ::
          [(control 7 true ⟨0, 90, 50, 10⟩, ⟨0, 90, 50, 10⟩)] := rfl
    refine ⟨⟨rfl, rfl, ⟨⟨rfl, trivial⟩, ?_⟩, rfl, rfl, trivial⟩, fun t ht => ?_, fun hnone => ?_⟩
    · intro c hc
      cases hc
      rfl
    · refine ⟨_, _, _, hpickable, rfl, ?_, by decide⟩
      rw [htargets] at ht
      rintro ⟨r, r', hr, hr', h⟩
      rcases List.mem_pair.mp ht with rfl | rfl
      all_goals
        cases hr
        cases hr'
        exact absurd h (by decide)
    · rw [htargets] at hnone
      cases hnone

/-- A search upwards begins behind a link with a text in it, and begins again on the wrong side of a radio button. -/
theorem up_misses_or_never_ends :
    (¬ ∃ fuel node, findNextFocusableNodeInRect linkWithText .up ⟨0, 0, 100, 100⟩ false fuel = .ended node ∧
        Enters linkWithText .up ⟨0, 0, 100, 100⟩ node) ∧
      ∀ fuel, findNextFocusableNodeInRect radioAndText .up ⟨0, 0, 100, 100⟩ false fuel = .running := by
  constructor
  · rintro ⟨fuel, node, hrun, henters⟩
    have hnothing : findNextFocusableNodeInRect linkWithText .up ⟨0, 0, 100, 100⟩ false 1 = .ended none := rfl
    have htargets := henters.complete (ended_unique hrun hnothing)
    have hlink : targets linkWithText ⟨0, 0, 100, 100⟩ = [control 2 true ⟨0, 0, 50, 20⟩] := rfl
    rw [hlink] at htargets
    cases htargets
  · have hturn : turn radioAndText .up ⟨0, 0, 100, 100⟩ false (firstStart radioAndText .up) =
        some (.next (firstStart radioAndText .up)) := rfl
    intro fuel
    induction fuel with
    | zero => rfl
    | succ fuel ih =>
      rw [findNextFocusableNodeInRect, run, hturn]
      exact ih

end

end Wkc.RectFocus
