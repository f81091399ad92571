import WkcBrowser.Focus.Picks

/-!
# Asking twice

* `SameAnswer`     the second of two calls gives the same node, and where there is none the memory stays;
* `Undisturbed`    both calls measure all nodes as from where the first one starts;
* `same_answer`    then the answer is the same, but not if what was found lies in the focused node;
* `insideOut`      a link in the focused box: the second call starts at the link, and does not find it.
-/

namespace Wkc.Focus
open Canvas Walks

/-- two calls with nothing in between -/
def SameAnswer (page : Page) (nodes : Forest Node) (d : FocusDirection) (contentsRect : IntRect) (focused : Node)
    (memory : Memory) : Prop :=
  let first := findNextFocusableNode page nodes d contentsRect focused memory
  (findNextFocusableNode page nodes d contentsRect focused first.2).1 = first.1 ∧ (first.1 = none → first.2 = memory)

section
variable (q : Query) (nodes : Forest Node) (memory : Memory)

/-- Both calls measure all nodes as from where the first one starts. -/
structure Undisturbed : Prop where
  first : Steady q (current q memory) nodes memory
  second : ∀ c, bestFrom q (current q memory) (visits (shape q) nodes) = some c →
    Steady q (current q memory) nodes (remember q (current q memory) c)

/-- the two searches, each of them from its own position -/
structure Straight (c : FocusCandidate) : Prop where
  first : Steady q (current q memory) nodes memory
  best : bestFrom q (current q memory) (visits (shape q) nodes) = some c
  second : Steady q (current q (remember q (current q memory) c)) nodes (remember q (current q memory) c)

variable {q nodes memory}

theorem measured_again {from_ : Current} {a : Node} {c : FocusCandidate} (h : measured q from_ a = some c)
    {again : Current} (hagain : again.entryRect = c.entryRect) : measured q again a = none := by
  obtain ⟨heligible, -, -⟩ := eligible_of_measured q h
  obtain ⟨candidate, hcandidate, -⟩ := Option.bind_eq_some_iff.mp h
  have hof : ofNode a q.direction = some candidate := by
    unfold candidateOf at hcandidate
    simp only [Option.ite_none_left_eq_some] at hcandidate
    exact hcandidate.2.2.2
  have hexcluded : excluded q.direction again c.entryRect = true := by
    unfold excluded
    rw [hagain, contains_refl, Bool.or_true]
  have hmem := heligible.mem
  rw [rects_of hof] at hmem
  cases hmeasured : measured q again a with
  | none => rfl
  | some c' =>
    obtain ⟨candidate', hcandidate', heligible'⟩ := Option.bind_eq_some_iff.mp hmeasured
    obtain rfl := Option.some.inj (hcandidate.symm.trans hcandidate')
    exact absurd (distance_excluded hmem heligible.nonempty hexcluded) (eligible_spec heligible').2.1

theorem current_remember (from_ : Current) {c : FocusCandidate} (hempty : isEmpty c.entryRect = false)
    (hinside : contains q.startingRect c.entryRect = true) :
    (current q (remember q from_ c)).entryRect = c.entryRect := by
  show (if !isEmpty c.entryRect && contains q.startingRect c.entryRect then c.entryRect else q.startingRect) = _
  simp [hempty, hinside]

theorem picked_again (h : Undisturbed q nodes memory) {s : State}
    (hs : s = findFocusableNodeInDirection q nodes { memory := memory }) :
    (findFocusableNodeInDirection q nodes { memory := s.memory }).closest = s.closest := by
  have hfirst := find_eq_best q h.first
  have hmemory := find_memory q nodes memory
  rw [← hs] at hfirst hmemory
  cases hbest : bestFrom q (current q memory) (visits (shape q) nodes) with
  | none =>
    rw [hfirst, hbest] at hmemory
    rw [hmemory, hs]
  | some c =>
    rw [hfirst, hbest] at hmemory
    rw [hmemory, find_eq_best q (h.second c hbest), hfirst]

theorem not_picked_again {c : FocusCandidate} (h : Straight q nodes memory c)
    (hinside : contains q.startingRect c.entryRect = true) {c' : FocusCandidate}
    (hc' : (findFocusableNodeInDirection q nodes { memory := remember q (current q memory) c }).closest = some c') :
    c'.focusableNode ≠ c.focusableNode := by
  obtain ⟨a, -, ha⟩ := mem_of_bestFrom q h.best
  obtain ⟨heligible, -, -⟩ := eligible_of_measured q ha
  rw [find_eq_best q h.second] at hc'
  obtain ⟨a', -, ha'⟩ := mem_of_bestFrom q hc'
  obtain ⟨heligible', -, -⟩ := eligible_of_measured q ha'
  rw [heligible.node, heligible'.node]
  rintro rfl
  have hnone := measured_again ha (current_remember (current q memory) heligible.nonempty hinside)
  exact absurd (ha'.symm.trans hnone) (by simp)

end

/-- The second call gives the same node where both measure the nodes as from one position, but never where what is
found first lies in the starting rectangle. -/
theorem same_answer (page : Page) (nodes : Forest Node) (d : FocusDirection) (contentsRect : IntRect) (focused : Node)
    (memory : Memory) :
    (Undisturbed (queryOf page d contentsRect focused) nodes memory →
      SameAnswer page nodes d contentsRect focused memory) ∧
    ∀ c, Straight (queryOf page d contentsRect focused) nodes memory c →
      contains (focused.startingRect d) c.entryRect = true → ¬ SameAnswer page nodes d contentsRect focused memory := by
  constructor
  · intro h
    unfold SameAnswer
    simp only [findNextFocusableNode_eq]
    refine ⟨by rw [picked_again h rfl], fun hnone => ?_⟩
    rw [Option.map_eq_none_iff] at hnone
    rw [find_memory, hnone]
  · rintro c h hinside ⟨hsame, -⟩
    simp only [findNextFocusableNode_eq] at hsame
    have hfirst := (find_eq_best _ h.first).trans h.best
    rw [find_memory, hfirst] at hsame
    obtain ⟨c', hc', hnode⟩ := Option.map_eq_some_iff.mp hsame
    exact not_picked_again h hinside hc' hnode

/-! ## a focused box -/

def box : Node := link 0 ⟨0, 0, 100, 100⟩ [⟨0, 0, 100, 100⟩]

/-- a link below the box -/
def lower : Node := link 6 ⟨0, 150, 100, 10⟩ [⟨0, 150, 100, 10⟩]

def underneath : Forest Node := withChildren box .nil (withChildren lower .nil .nil)

def insideOut : Forest Node := withChildren box (withChildren farther .nil .nil) .nil

theorem same_answer_underneath : SameAnswer plainPage underneath .down ⟨0, 0, 1000, 1000⟩ box {} := by
  have hflat : ∀ a ∈ underneath.toList,
      (shape (queryOf plainPage .down ⟨0, 0, 1000, 1000⟩ box)).turn a = .pass ∨
        (shape (queryOf plainPage .down ⟨0, 0, 1000, 1000⟩ box)).turn a = .visit := by
    intro a ha
    rcases List.mem_pair.mp ha with rfl | rfl <;> exact Or.inr rfl
  apply (same_answer plainPage underneath .down ⟨0, 0, 1000, 1000⟩ box {}).1
  refine ⟨steady_of_flat _ hflat fun _ _ => rfl, fun c hc => steady_of_flat _ hflat fun a ha => ?_⟩
  obtain rfl := Option.some.inj hc
  rcases List.mem_pair.mp ha with rfl | rfl <;> rfl

/-- The link in the box is found once. -/
theorem link_inside : ¬ SameAnswer plainPage insideOut .down ⟨0, 0, 1000, 1000⟩ box {} := by
  rintro ⟨h, -⟩
  exact absurd (congrArg (Option.map Node.id) h) (by decide)

end Wkc.Focus
