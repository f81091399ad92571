import WkcBrowser.Focus.Picks
import WkcBrowser.Lib.Runs

/-!
# Holding a direction

* `press`              the node that is found gets the focus;
* `Kept`               the focused node's starting rectangle has the one by which it was entered in it, and nothing behind that is found;
* `Onward`, `ahead_of_entry`, `ahead_of_steady`      then the next one is entered ahead;
* `moves_apart`        so no node is entered twice by the same rectangle;
* `hollow`             a link on two lines with a border, and two links in its gap, which are gone around.
-/

namespace Wkc.Focus
open Canvas Walks Runs

/-- the focus, and the moves so far with the rectangles that were entered -/
structure Held where
  focused : Node
  memory : Memory := {}
  moves : List (Nat × IntRect) := []

section
variable (page : Page) (nodes : Forest Node) (d : FocusDirection)

def press (s : Held) (contentsRect : IntRect) : Held :=
  match findNextFocusableNode page nodes d contentsRect s.focused s.memory with
  | (none, memory) => { s with memory := memory }
  | (some a, memory) => { focused := a, memory := memory, moves := s.moves ++ [(a.id, memory.m_lastEntryRect)] }

/-- After the first move, the search starts from where the focused node was entered, in all its calls. -/
def Kept (s : Held) (contentsRect : IntRect) : Prop :=
  s.moves ≠ [] →
    contains (s.focused.startingRect d) s.memory.m_lastEntryRect = true ∧
      (s.focused.startingRect d = s.memory.m_lastEntryRect ∨
        Steady (queryOf page d contentsRect s.focused) (current (queryOf page d contentsRect s.focused) s.memory) nodes
          s.memory)

/-- the nodes with their rectangles -/
def entries : List (Nat × IntRect) := nodes.toList.flatMap fun a => (a.rects d).map fun r => (a.id, r)

/-- the rectangle of the last move, or one ahead of it -/
def Onward (entry r : IntRect) : Prop := isEmpty r = false ∧ (r = entry ∨ Ahead d entry r)

structure Apart (s : Held) : Prop where
  apart : s.moves.Pairwise fun p p' => Ahead d p.2 p'.2
  last : ∀ p ∈ s.moves, Onward d p.2 s.memory.m_lastEntryRect
  known : s.moves ⊆ entries nodes d

variable {page nodes d}

theorem Onward.ahead {entry r r' : IntRect} (h : Onward d entry r) (hahead : Ahead d r r') : Ahead d entry r' := by
  rcases h.2 with rfl | h
  · exact hahead
  · exact ahead_trans h hahead

theorem onward_current {q : Query} (hentry : isEmpty q.startingRect = false) {m : Memory}
    (hm : isEmpty m.m_lastEntryRect = false → Onward q.direction q.startingRect m.m_lastEntryRect) :
    Onward q.direction q.startingRect (current q m).entryRect := by
  show Onward _ _ (if !isEmpty m.m_lastEntryRect && contains q.startingRect m.m_lastEntryRect then m.m_lastEntryRect
    else q.startingRect)
  split
  · rename_i h
    rw [Bool.and_eq_true, Bool.not_eq_true'] at h
    exact hm h.1
  · exact ⟨hentry, Or.inl rfl⟩

theorem ahead_of_entry {q : Query} (hentry : isEmpty q.startingRect = false) {nodes : Forest Node} {memory : Memory}
    (hsame : q.startingRect = memory.m_lastEntryRect) {c : FocusCandidate}
    (h : (findFocusableNodeInDirection q nodes { memory := memory }).closest = some c) :
    Ahead q.direction q.startingRect c.entryRect := by
  have hfound : isEmpty c.entryRect = false ∧ Ahead q.direction q.startingRect c.entryRect := by
    apply find_inv q (P := fun c => isEmpty c.entryRect = false ∧ Ahead q.direction q.startingRect c.entryRect)
      (M := fun m => isEmpty m.m_lastEntryRect = false → Onward q.direction q.startingRect m.m_lastEntryRect)
      (C := fun from_ => Onward q.direction q.startingRect from_.entryRect) _ _ _ _ h
    · intro from_ c a _ hfrom hc
      obtain ⟨heligible, -, -⟩ := eligible_of_measured q hc
      exact ⟨heligible.nonempty, hfrom.ahead (heligible.ahead hfrom.1)⟩
    · exact fun m hm => onward_current hentry hm
    · exact fun from_ c _ hc _ => ⟨hc.1, Or.inr hc.2⟩
    · intro _
      rw [← hsame]
      exact ⟨hentry, Or.inl rfl⟩
  exact hfound.2

theorem ahead_of_steady {q : Query} {nodes : Forest Node} {memory : Memory}
    (hempty : isEmpty memory.m_lastEntryRect = false) (hinside : contains q.startingRect memory.m_lastEntryRect = true)
    (hsteady : Steady q (current q memory) nodes memory) {c : FocusCandidate}
    (h : (findFocusableNodeInDirection q nodes { memory := memory }).closest = some c) :
    Ahead q.direction memory.m_lastEntryRect c.entryRect := by
  have hcurrent : (current q memory).entryRect = memory.m_lastEntryRect := by
    show (if !isEmpty memory.m_lastEntryRect && contains q.startingRect memory.m_lastEntryRect then
      memory.m_lastEntryRect else q.startingRect) = _
    simp [hempty, hinside]
  rw [find_eq_best q hsteady] at h
  obtain ⟨a, -, ha⟩ := mem_of_bestFrom q h
  obtain ⟨heligible, -, -⟩ := eligible_of_measured q ha
  rw [← hcurrent] at hempty ⊢
  exact heligible.ahead hempty

theorem press_cases (s : Held) (contentsRect : IntRect) :
    (∃ memory, press page nodes d s contentsRect = { s with memory := memory } ∧ memory = s.memory) ∨
    ∃ c, (findFocusableNodeInDirection (queryOf page d contentsRect s.focused) nodes
        { memory := s.memory }).closest = some c ∧
      press page nodes d s contentsRect =
        { focused := c.focusableNode
          memory := remember (queryOf page d contentsRect s.focused)
            (current (queryOf page d contentsRect s.focused) s.memory) c
          moves := s.moves ++ [(c.focusableNode.id, c.entryRect)] } := by
  unfold press
  rw [findNextFocusableNode_eq]
  simp only [find_memory]
  cases (findFocusableNodeInDirection (queryOf page d contentsRect s.focused) nodes { memory := s.memory }).closest with
  | none => exact Or.inl ⟨s.memory, rfl, rfl⟩
  | some c => exact Or.inr ⟨c, rfl, rfl⟩

theorem found_known {q : Query} (hd : q.direction = d) {memory : Memory} {c : FocusCandidate}
    (h : (findFocusableNodeInDirection q nodes { memory := memory }).closest = some c) :
    isEmpty c.entryRect = false ∧ (c.focusableNode.id, c.entryRect) ∈ entries nodes d := by
  obtain ⟨a, ha, from_, hc⟩ := measured_of_find q h
  obtain ⟨heligible, -, -⟩ := eligible_of_measured q hc
  refine ⟨heligible.nonempty, ?_⟩
  unfold entries
  rw [heligible.node, List.mem_flatMap, ← hd]
  exact ⟨a, ha, List.mem_map_of_mem heligible.mem⟩

theorem apart_press {s : Held} (contentsRect : IntRect) (hkept : Kept page nodes d s contentsRect)
    (h : Apart nodes d s) : Apart nodes d (press page nodes d s contentsRect) := by
  rcases press_cases s contentsRect with ⟨memory, hpress, rfl⟩ | ⟨c, hc, hpress⟩
  · rw [hpress]
    exact h
  · obtain ⟨hempty, hknown⟩ := found_known rfl hc
    have hahead : ∀ p ∈ s.moves, Ahead d p.2 c.entryRect := by
      intro p hp
      obtain ⟨hinside, hcase⟩ := hkept (List.ne_nil_of_mem hp)
      have hlast := h.last p hp
      apply hlast.ahead
      rcases hcase with hsame | hsteady
      · rw [← hsame] at hlast ⊢
        exact ahead_of_entry (q := queryOf page d contentsRect s.focused) hlast.1 hsame hc
      · exact ahead_of_steady (q := queryOf page d contentsRect s.focused) hlast.1 hinside hsteady hc
    rw [hpress]
    refine ⟨?_, ?_, ?_⟩
    · rw [List.pairwise_append]
      refine ⟨h.apart, List.pairwise_singleton _ _, fun p hp p' hp' => ?_⟩
      rw [List.mem_singleton.mp hp']
      exact hahead p hp
    · intro p hp
      refine ⟨hempty, ?_⟩
      rcases List.mem_append.mp hp with hp | hp
      · exact Or.inr (hahead p hp)
      · rw [List.mem_singleton.mp hp]
        exact Or.inl rfl
    · refine List.append_subset.mpr ⟨h.known, fun p hp => ?_⟩
      rw [List.mem_singleton.mp hp]
      exact hknown

theorem nodup_of_apart {s : Held} (h : Apart nodes d s) : s.moves.Nodup := by
  apply h.apart.imp
  rintro p p' hahead rfl
  exact ahead_irrefl d p.2 hahead

end

/-- Where every press is kept, no node is entered twice by the same rectangle, and there are as many moves at most as
nodes with rectangles. -/
theorem moves_apart (page : Page) (nodes : Forest Node) (d : FocusDirection) (start : Node) (presses : List IntRect)
    (hkept : Along (press page nodes d) (Kept page nodes d) { focused := start } presses) :
    (run (press page nodes d) { focused := start } presses).moves.Nodup ∧
      (run (press page nodes d) { focused := start } presses).moves.length ≤ (entries nodes d).length := by
  have hstart : Apart nodes d { focused := start } := ⟨List.Pairwise.nil, by simp, List.nil_subset _⟩
  have hend := hkept.inv (fun s contentsRect hkept h => apart_press contentsRect hkept h) hstart
  exact ⟨nodup_of_apart hend, (nodup_of_apart hend).length_le_of_subset hend.known⟩

/-! ## around -/

/-- a link on two lines, with a border -/
def twoLines : Node :=
  { link 1 ⟨0, 0, 150, 20⟩ [⟨100, 0, 50, 10⟩, ⟨0, 10, 50, 10⟩] with border := ⟨1, 1, 1, 1⟩ }

/-- links between the first line and the second one -/
def upper : Node := link 2 ⟨60, 2, 20, 3⟩ [⟨60, 2, 20, 3⟩]
def under : Node := link 3 ⟨60, 5, 20, 4⟩ [⟨60, 5, 20, 4⟩]

def hollow : Forest Node :=
  withChildren twoLines .nil (withChildren upper .nil (withChildren under .nil .nil))

def whole : IntRect := ⟨0, 0, 1000, 1000⟩

theorem moves_apart_upper :
    (run (press plainPage hollow .down) { focused := upper } [whole, whole]).moves.Nodup ∧
      (run (press plainPage hollow .down) { focused := upper } [whole, whole]).moves.length ≤
        (entries hollow .down).length := by
  apply moves_apart
  exact ⟨fun h => absurd rfl h, fun _ => ⟨by decide, Or.inl (by decide)⟩, trivial⟩

/-- The border hides the line that was entered last, and the search starts again from the top. -/
theorem goes_around :
    ¬ (run (press plainPage hollow .down) { focused := under } [whole, whole, whole, whole]).moves.Nodup := by
  have hmoves : (run (press plainPage hollow .down) { focused := under } [whole, whole, whole, whole]).moves =
      [(1, ⟨0, 10, 50, 10⟩), (2, ⟨60, 2, 20, 3⟩), (3, ⟨60, 5, 20, 4⟩), (1, ⟨0, 10, 50, 10⟩)] := by decide
  rw [hmoves]
  decide

end Wkc.Focus
