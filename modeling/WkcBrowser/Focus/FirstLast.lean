import WkcBrowser.Focus.Documents

/-!
# The first and the last focusable node (`findFirstFocusableNode`, `findLastFocusableNode`)

* `find`                          the loop of both searches over a line;
* `candidates`                    the nodes that are meant, those of a frame at the place of its owner;
* `Checked`                       no node that is passed over, or taken, without a check makes a difference;
* `find_iff`                      the loop finds the first candidate exactly then.
-/

namespace Wkc.RectFocus
open Canvas Focus Walks

section
variable (rect : Option IntRect)

/-- none when a null node is used; `replaced` if the node was taken for its container, in the middle of a turn -/
def find : Bool → Line → Option (Option Node)
  | replaced, .nil => if replaced then none else some none
  | replaced, .node a hasChildNodes content next =>
    let arrived := if a.isFocusable && !a.isFrameOwnerElement then some (some a) else find false next
    if replaced then arrived
    else if !a.isUsable rect then find false next
    else if a.isFrameOwnerElement then
      if a.hasContentFrame then
        match find false content with
        | some none => arrived
        | found => found
      else arrived
    else if a.isContainer hasChildNodes then find true next
    else arrived

def findFirstFocusableNode (page : Page) : Option (Option Node) := find rect false (forwardLine page.nodes .nil)

def findLastFocusableNode (page : Page) : Option (Option Node) := find rect false (backwardLine page.nodes .nil)

/-! ## what is meant -/

def isCandidate (a : Node) (hasChildNodes : Bool) : Bool :=
  a.isFocusable && a.isUsable rect && !a.isFrameOwnerElement && !a.isContainer hasChildNodes

def candidates : Line → List Node
  | .nil => []
  | .node a hasChildNodes content next =>
    (if isCandidate rect a hasChildNodes then [a] else []) ++
      ((if a.hasFrame then candidates content else []) ++ candidates next)

/-- the candidates of the frame of a node, which are the first ones if the node is none -/
def inFrame (a : Node) (content : Line) : List Node := if a.hasFrame then candidates rect content else []

def Checked : Bool → Line → Prop
  | _, .nil => True
  | replaced, .node a hasChildNodes content next =>
    if replaced then
      if a.isFocusable && !a.isFrameOwnerElement then a.isUsable rect = true ∧ a.isContainer hasChildNodes = false
      else inFrame rect a content = [] ∧ Checked false next
    else if !a.isUsable rect then inFrame rect a content = [] ∧ Checked false next
    else if a.hasFrame then Checked false content ∧ (candidates rect content = [] → Checked false next)
    else if a.isFrameOwnerElement then Checked false next
    else if a.isContainer hasChildNodes then Checked true next
    else if a.isFocusable then True
    else Checked false next

end

section
variable {rect : Option IntRect}

theorem candidates_subset (line : Line) : candidates rect line ⊆ line.nodes := by
  induction line with
  | nil => exact List.Subset.refl _
  | node a hasChildNodes content next hcontent hnext =>
    intro b hb
    rw [candidates, List.mem_append, List.mem_append] at hb
    rw [Line.nodes, List.mem_cons, List.mem_append]
    rcases hb with hb | hb | hb
    · split at hb
      · exact Or.inl (List.mem_singleton.mp hb)
      · exact absurd hb List.not_mem_nil
    · split at hb
      · exact Or.inr (Or.inl (hcontent hb))
      · exact absurd hb List.not_mem_nil
    · exact Or.inr (Or.inr (hnext hb))

theorem inFrame_subset (a : Node) (content : Line) : inFrame rect a content ⊆ content.nodes := by
  unfold inFrame
  split
  · exact candidates_subset content
  · exact List.nil_subset _

theorem arrived_mem {a b : Node} {next : Line} (hnext : find rect false next = some (some b) → b ∈ next.nodes)
    (h : (if a.isFocusable && !a.isFrameOwnerElement then some (some a) else find rect false next) = some (some b)) :
    b = a ∨ b ∈ next.nodes := by
  split at h
  · cases h
    exact Or.inl rfl
  · exact Or.inr (hnext h)

theorem find_mem {line : Line} {replaced : Bool} {b : Node} (h : find rect replaced line = some (some b)) :
    b ∈ line.nodes := by
  induction line generalizing replaced with
  | nil => cases replaced <;> cases h
  | node a hasChildNodes content next hcontent hnext =>
    rw [Line.nodes, List.mem_cons, List.mem_append]
    rw [find] at h
    have harrived : _ → b = a ∨ b ∈ content.nodes ∨ b ∈ next.nodes :=
      fun h => (arrived_mem hnext h).imp_right Or.inr
    split at h
    · exact harrived h
    · split at h
      · exact Or.inr (Or.inr (hnext h))
      · split at h
        · split at h
          · split at h
            · exact harrived h
            · exact Or.inr (Or.inl (hcontent h))
          · exact harrived h
        · split at h
          · exact Or.inr (Or.inr (hnext h))
          · exact harrived h

/-! ## no null node -/

theorem hasChildNodes_of_isContainer {a : Node} {hasChildNodes : Bool} (h : a.isContainer hasChildNodes = true) :
    hasChildNodes = true := by
  unfold Node.isContainer Node.isScrollableContainerNode at h
  simp only [Bool.and_eq_true] at h
  exact h.1.2

theorem find_ne_none {line : Line} {replaced : Bool} (hlinked : line.Linked) (hne : replaced = true → line ≠ .nil) :
    find rect replaced line ≠ none := by
  induction line generalizing replaced with
  | nil =>
    cases replaced with
    | false => simp [find]
    | true => exact absurd rfl (hne rfl)
  | node a hasChildNodes content next hcontent hnext =>
    obtain ⟨hfirst, hcontentLinked, hnextLinked⟩ := hlinked
    have hnextFound : find rect false next ≠ none := hnext hnextLinked (by simp)
    have harrived :
        (if a.isFocusable && !a.isFrameOwnerElement then some (some a) else find rect false next) ≠ none := by
      split
      · simp
      · exact hnextFound
    rw [find]
    split
    · exact harrived
    · split
      · exact hnextFound
      · split
        · split
          · split
            · exact harrived
            · exact hcontent hcontentLinked (by simp)
          · exact harrived
        · split
          · next hcontainer =>
            exact hnext hnextLinked fun _ => hfirst (hasChildNodes_of_isContainer hcontainer)
          · exact harrived

/-! ## the first candidate -/

theorem front_iff {front behind : List Node} {found : Option (Option Node)}
    (h : ∀ b, found = some (some b) → b ∉ front) :
    found = some (front ++ behind).head? ↔ front = [] ∧ found = some behind.head? := by
  cases front with
  | nil => simp
  | cons c front =>
    refine ⟨fun hfound => ?_, fun hfound => absurd hfound.1 (by simp)⟩
    exact absurd List.mem_cons_self (h c hfound)

section
variable {a : Node} {hasChildNodes : Bool} {content next : Line}

theorem candidates_node : candidates rect (.node a hasChildNodes content next) =
    (if isCandidate rect a hasChildNodes then [a] else []) ++ (inFrame rect a content ++ candidates rect next) := rfl

theorem behind_iff (hdisjoint : content.nodes.Disjoint next.nodes)
    (hcandidate : isCandidate rect a hasChildNodes = false) :
    find rect false next = some (candidates rect (.node a hasChildNodes content next)).head? ↔
      inFrame rect a content = [] ∧ find rect false next = some (candidates rect next).head? := by
  rw [candidates_node, hcandidate]
  exact front_iff fun b hb hin => hdisjoint (inFrame_subset a content hin) (find_mem hb)

theorem arrived_iff (hnodup : (Line.node a hasChildNodes content next).nodes.Nodup) :
    (if a.isFocusable && !a.isFrameOwnerElement then some (some a) else find rect false next) =
        some (candidates rect (.node a hasChildNodes content next)).head? ↔
      if a.isFocusable && !a.isFrameOwnerElement then a.isUsable rect = true ∧ a.isContainer hasChildNodes = false
      else inFrame rect a content = [] ∧ find rect false next = some (candidates rect next).head? := by
  obtain ⟨hnotin, hrest⟩ := List.nodup_cons.mp hnodup
  have hdisjoint : content.nodes.Disjoint next.nodes := List.disjoint_of_nodup_append hrest
  by_cases hfocusable : (a.isFocusable && !a.isFrameOwnerElement) = true
  · rw [if_pos hfocusable, if_pos hfocusable, candidates_node]
    rw [Bool.and_eq_true] at hfocusable
    have hcandidate : isCandidate rect a hasChildNodes = (a.isUsable rect && !a.isContainer hasChildNodes) := by
      unfold isCandidate
      rw [hfocusable.1, hfocusable.2]
      simp
    cases hc : isCandidate rect a hasChildNodes with
    | true =>
      rw [hc] at hcandidate
      simpa using hcandidate.symm
    | false =>
      rw [hc] at hcandidate
      have hhead : some (some a) ≠ some (inFrame rect a content ++ candidates rect next).head? := by
        intro h
        have hmem := List.mem_of_head? (Option.some.inj h).symm
        refine hnotin ((List.mem_append.mp hmem).elim (fun h => ?_) fun h => ?_)
        · exact List.mem_append_left _ (inFrame_subset a content h)
        · exact List.mem_append_right _ (candidates_subset next h)
      refine ⟨fun h => absurd h hhead, fun h => ?_⟩
      rw [h.1, h.2] at hcandidate
      cases hcandidate
  · rw [if_neg hfocusable, if_neg hfocusable]
    apply behind_iff hdisjoint
    unfold isCandidate
    cases hf : a.isFocusable <;> cases ho : a.isFrameOwnerElement <;> simp_all

theorem frame_iff (hdisjoint : content.nodes.Disjoint next.nodes) (hframe : a.hasFrame = true)
    (hne : find rect false content ≠ none) :
    (match find rect false content with
      | some none => find rect false next
      | found => found) = some (candidates rect (.node a hasChildNodes content next)).head? ↔
      find rect false content = some (candidates rect content).head? ∧
        (candidates rect content = [] → find rect false next = some (candidates rect next).head?) := by
  have howner : a.isFrameOwnerElement = true := (Bool.and_eq_true _ _ ▸ hframe).1
  have hcandidate : isCandidate rect a hasChildNodes = false := by simp [isCandidate, howner]
  have hin : inFrame rect a content = candidates rect content := if_pos hframe
  cases hfound : find rect false content with
  | none => exact absurd hfound hne
  | some found =>
    cases found with
    | none =>
      show find rect false next = _ ↔ _
      rw [behind_iff hdisjoint hcandidate, hin]
      cases candidates rect content <;> simp
    | some b =>
      rw [candidates_node, hcandidate, hin]
      have hb : b ∉ candidates rect next := fun h => hdisjoint (find_mem hfound) (candidates_subset next h)
      cases hcontent : candidates rect content with
      | nil =>
        refine ⟨fun h => ?_, fun h => absurd h.1 (by simp)⟩
        exact absurd (List.mem_of_head? (Option.some.inj h).symm) hb
      | cons c front => simp

end

theorem find_iff {line : Line} {replaced : Bool} (hnodup : line.nodes.Nodup) (hlinked : line.Linked)
    (hne : replaced = true → line ≠ .nil) :
    find rect replaced line = some (candidates rect line).head? ↔ Checked rect replaced line := by
  induction line generalizing replaced with
  | nil =>
    cases replaced with
    | false => simp [find, candidates, Checked]
    | true => exact absurd rfl (hne rfl)
  | node a hasChildNodes content next hcontent hnext =>
    obtain ⟨hnotin, hrest⟩ := List.nodup_cons.mp hnodup
    obtain ⟨hcontentNodup, hnextNodup, -⟩ := List.nodup_append.mp hrest
    have hdisjoint : content.nodes.Disjoint next.nodes := List.disjoint_of_nodup_append hrest
    obtain ⟨hfirst, hcontentLinked, hnextLinked⟩ := hlinked
    have hbehind : find rect false next = some (candidates rect next).head? ↔ Checked rect false next :=
      hnext hnextNodup hnextLinked (by simp)
    have harrived := @arrived_iff rect a hasChildNodes content next hnodup
    rw [hbehind] at harrived
    rw [find, Checked]
    by_cases hreplaced : replaced = true
    · rw [if_pos hreplaced, if_pos hreplaced]
      exact harrived
    rw [if_neg hreplaced, if_neg hreplaced]
    by_cases husable : (!a.isUsable rect) = true
    · rw [if_pos husable, if_pos husable, ← hbehind]
      apply behind_iff hdisjoint
      simp only [isCandidate, Bool.not_eq_true'] at husable ⊢
      simp [husable]
    rw [if_neg husable, if_neg husable]
    by_cases hframe : a.hasFrame = true
    · obtain ⟨howner, hcontentFrame⟩ := Bool.and_eq_true _ _ ▸ hframe
      rw [if_pos hframe, if_pos howner, if_pos hcontentFrame, howner, ← hbehind,
        ← hcontent hcontentNodup hcontentLinked (by simp)]
      have hne : find rect false content ≠ none := find_ne_none hcontentLinked (by simp)
      simpa using frame_iff hdisjoint hframe hne
    rw [if_neg hframe]
    have hin : inFrame rect a content = [] := if_neg hframe
    by_cases howner : a.isFrameOwnerElement = true
    · have hcontentFrame : ¬a.hasContentFrame = true := fun h => hframe (by simp [Node.hasFrame, howner, h])
      rw [if_pos howner, if_pos howner, if_neg hcontentFrame]
      simpa [howner, hin] using harrived
    rw [if_neg howner, if_neg howner]
    by_cases hcontainer : a.isContainer hasChildNodes = true
    · rw [if_pos hcontainer, if_pos hcontainer]
      rw [candidates_node, show isCandidate rect a hasChildNodes = false by simp [isCandidate, hcontainer], hin]
      exact hnext hnextNodup hnextLinked fun _ => hfirst (hasChildNodes_of_isContainer hcontainer)
    rw [if_neg hcontainer, if_neg hcontainer]
    rw [harrived, hin]
    simp only [Bool.not_eq_true] at howner hcontainer husable
    rw [howner, hcontainer]
    cases a.isFocusable <;> simp_all

end

/-! ## pages -/

theorem Page.nodup (page : Page) : page.nodes.toList.Nodup := List.Nodup.of_map Node.id page.distinct

theorem forwardLine_nodup (page : Page) : (forwardLine page.nodes .nil).nodes.Nodup := by
  rw [(forwardLine_nodes page.nodes .nil).nodup_iff]
  simpa [Line.nodes] using page.nodup

theorem backwardLine_nodup (page : Page) : (backwardLine page.nodes .nil).nodes.Nodup := by
  rw [(backwardLine_nodes page.nodes .nil).nodup_iff]
  simpa [Line.nodes] using page.nodup

/-- Each search ends without using a null node, and finds the first candidate of its order if and only if the nodes it
does not check make no difference. -/
theorem first_and_last_iff (page : Page) (rect : Option IntRect) :
    (findFirstFocusableNode rect page ≠ none ∧ findLastFocusableNode rect page ≠ none) ∧
      (findFirstFocusableNode rect page = some (candidates rect (forwardLine page.nodes .nil)).head? ↔
        Checked rect false (forwardLine page.nodes .nil)) ∧
      (findLastFocusableNode rect page = some (candidates rect (backwardLine page.nodes .nil)).head? ↔
        Checked rect false (backwardLine page.nodes .nil)) := by
  have hforward := forwardLine_linked page.nodes .nil trivial
  have hbackward := backwardLine_linked page.nodes .nil trivial
  refine ⟨⟨find_ne_none hforward (by simp), find_ne_none hbackward (by simp)⟩, ?_, ?_⟩
  · exact find_iff (forwardLine_nodup page) hforward (by simp)
  · exact find_iff (backwardLine_nodup page) hbackward (by simp)

/-- a link that is scrolled to, below what is seen of the box -/
def linkBelow : Node := control 2 true ⟨0, 500, 50, 20⟩

def boxWithLink : Page where
  nodes := .node (scrollable 1 ⟨0, 0, 100, 100⟩) (.node linkBelow .nil .nil .nil) .nil .nil
  distinct := by decide

/-- The first child of a container is taken although it is outside of the rectangle. -/
theorem child_outside_is_taken :
    let rect : Option IntRect := some ⟨0, 0, 100, 100⟩
    (findFirstFocusableNode rect boxWithLink = some (some linkBelow) ∧
        candidates rect (forwardLine boxWithLink.nodes .nil) = []) ∧
      (findLastFocusableNode rect boxWithLink = some (some linkBelow) ∧
        candidates rect (backwardLine boxWithLink.nodes .nil) = []) := by
  decide

end Wkc.RectFocus
