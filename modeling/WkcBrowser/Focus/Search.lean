import WkcBrowser.Focus.Candidates
import WkcBrowser.Lib.Walks

/-!
# The search in a direction (FocusController.cpp)

* `Query`, `Memory`                what the search is asked, and what it remembers of the last one;
* `findFocusableNodeInDirection`   the loop over the nodes, which calls itself for containers and frames;
* `findNextFocusableNode`          the search from the focused node;
* `measured`, `bestFrom`           what a node is measured as from a position, and the best of some nodes;
* `Steady`                         every node is measured as from the position of the outermost call;
* `find_eq_best`                   then the best node is found.
-/

namespace Wkc.Focus
open Canvas Walks

/-- the arguments, and the focused node -/
structure Query where
  page : Page
  direction : FocusDirection
  startingRect : IntRect
  contentsRect : Option IntRect
  focused : Option Nat

structure Memory where
  m_lastExitRect : IntRect := ⟨0, 0, 0, 0⟩
  m_lastEntryRect : IntRect := ⟨0, 0, 0, 0⟩
  m_lastDirection : Option FocusDirection := none
  deriving DecidableEq

structure State where
  memory : Memory
  closest : Option FocusCandidate := none

def isNodeInContentsRect (contentsRect : IntRect) (a : Node) : Bool :=
  if isEmpty contentsRect then !a.offscreen
  else if a.visible.isNone then false
  else
    let rect := a.area.getD (ignoreBorder a.bounding a.border)
    !isEmpty rect && intersects contentsRect rect

section
variable (q : Query)

/-- the candidate that a node is, unless the loop goes on without it -/
def candidateOf (a : Node) : Option FocusCandidate :=
  if q.focused == some a.id then none
  else if !a.isElementNode then none
  else if !a.isKeyboardFocusable && !a.isFrameOwnerElement && !a.canScrollInDirection q.direction then none
  else ofNode a q.direction

/-- the turns of `findFocusableNodeInDirection` -/
def shape : Shape Node where
  turn a :=
    if q.contentsRect.any fun contentsRect => !isNodeInContentsRect contentsRect a then .pass
    else if a.isScrollableContainer && !a.isTextArea then .enter
    else if a.hasContentFrame && (candidateOf q a).any fun c => c.visibleNode.isFrameOwnerElement then .visitEnter
    else .visit
  skips a := a.isFrameOwnerElement || a.canScrollInDirection q.direction || a.isScrollableContainer

/-- `current`, as a call fills it in -/
def current (memory : Memory) : Current where
  rect := q.startingRect
  entryRect :=
    if !isEmpty memory.m_lastEntryRect && contains q.startingRect memory.m_lastEntryRect then memory.m_lastEntryRect
    else q.startingRect
  exitRect := memory.m_lastExitRect
  direction := memory.m_lastDirection

/-- what a call remembers at its end -/
def remember (current : Current) (closest : FocusCandidate) : Memory where
  m_lastExitRect := current.entryRect
  m_lastEntryRect := closest.entryRect
  m_lastDirection := some q.direction

def walker : Walker Node Current State where
  visit current a s :=
    match candidateOf q a with
    | none => s
    | some candidate =>
      { s with closest := updateFocusCandidateIfNeeded q.page q.direction current candidate s.closest }
  enter s := current q s.memory
  leave current s :=
    match s.closest with
    | none => s
    | some closest =>
      if closest.focusableNode.isElementNode && closest.distance ≠ maxDistance then
        { s with memory := remember q current closest }
      else s

def findFocusableNodeInDirection (nodes : Forest Node) (s : State) : State := call (shape q) (walker q) nodes s

end

/-- what the focused node and the memory make of a query -/
def queryOf (page : Page) (direction : FocusDirection) (contentsRect : IntRect) (focused : Node) : Query where
  page := page
  direction := direction
  startingRect := focused.startingRect direction
  contentsRect := some contentsRect
  focused := some focused.id

/-- with a focused node; the node that is returned, and the memory -/
def findNextFocusableNode (page : Page) (nodes : Forest Node) (direction : FocusDirection) (contentsRect : IntRect)
    (focused : Node) (memory : Memory) : Option Node × Memory :=
  let s := findFocusableNodeInDirection (queryOf page direction contentsRect focused) nodes { memory := memory }
  match s.closest with
  | none => (none, s.memory)
  | some closest =>
    if !closest.focusableNode.isElementNode then (none, s.memory)
    else if closest.isOffscreen then (none, s.memory)
    else (some closest.focusableNode, s.memory)

/-! ## what the search is for -/

section
variable (q : Query)

/-- the candidate that a node is from some position, with its key, if it is eligible -/
def measured (from_ : Current) (a : Node) : Option FocusCandidate :=
  (candidateOf q a).bind (eligible q.page q.direction from_)

def bestFrom (from_ : Current) (nodes : List Node) : Option FocusCandidate :=
  Best.best key (onTop q.page) (nodes.filterMap (measured q from_))

/-- the nodes that a search comes to, and from where each of them is measured -/
structure Trail where
  memory : Memory
  measuredFrom : List (Current × Node) := []

/-- the positions, if the best node so far is always the one that is best from `ref` -/
def trailer (ref : Current) : Walker Node Current Trail where
  visit current a t := { t with measuredFrom := t.measuredFrom ++ [(current, a)] }
  enter t := current q t.memory
  leave current t :=
    match bestFrom q ref (t.measuredFrom.map Prod.snd) with
    | none => t
    | some closest => { t with memory := remember q current closest }

def trail (ref : Current) (nodes : Forest Node) (memory : Memory) : Trail :=
  call (shape q) (trailer q ref) nodes { memory := memory }

/-- All nodes are measured as from `ref`. -/
def Steady (ref : Current) (nodes : Forest Node) (memory : Memory) : Prop :=
  ∀ p ∈ (trail q ref nodes memory).measuredFrom, measured q p.1 p.2 = measured q ref p.2

theorem eligible_of_measured {from_ : Current} {a : Node} {c : FocusCandidate} (h : measured q from_ a = some c) :
    Eligible q.direction from_ a c ∧ a.isElementNode = true ∧ q.focused ≠ some a.id := by
  obtain ⟨candidate, hcandidate, h⟩ := Option.bind_eq_some_iff.mp h
  unfold candidateOf at hcandidate
  simp only [Option.ite_none_left_eq_some] at hcandidate
  obtain ⟨hfocused, helement, -, hof⟩ := hcandidate
  exact ⟨eligible_of hof h, by simpa using helement, by simpa using hfocused⟩

theorem bestFrom_concat (from_ : Current) (nodes : List Node) (a : Node) :
    bestFrom q from_ (nodes ++ [a]) =
      match measured q from_ a with
      | none => bestFrom q from_ nodes
      | some c => Best.keep key (onTop q.page) (bestFrom q from_ nodes) c := by
  unfold bestFrom
  rw [List.filterMap_append]
  cases hmeasured : measured q from_ a with
  | none => simp [hmeasured]
  | some c =>
    have hone : [a].filterMap (measured q from_) = [c] := by simp [hmeasured]
    rw [hone, Best.best_concat]

theorem bestFrom_eq_none {from_ : Current} {nodes : List Node} :
    bestFrom q from_ nodes = none ↔ ∀ a ∈ nodes, measured q from_ a = none := by
  rw [bestFrom, Best.best_eq_none, List.filterMap_eq_nil_iff]

theorem visit_closest (from_ : Current) (a : Node) (s : State) :
    (walker q).visit from_ a s =
      { s with
        closest := match measured q from_ a with
          | none => s.closest
          | some c => Best.keep key (onTop q.page) s.closest c } := by
  show (match candidateOf q a with | none => s | some candidate => _) = _
  unfold measured
  cases candidateOf q a with
  | none => rfl
  | some candidate =>
    rw [Option.bind_some]
    exact congrArg (State.mk s.memory) (update_eq candidate s.closest)

theorem mem_of_bestFrom {from_ : Current} {nodes : List Node} {c : FocusCandidate}
    (h : bestFrom q from_ nodes = some c) : ∃ a ∈ nodes, measured q from_ a = some c :=
  List.mem_filterMap.mp (Best.best_mem key (onTop q.page) h)

theorem leave_some {s : State} {c : FocusCandidate} (hclosest : s.closest = some c)
    (helement : c.focusableNode.isElementNode = true) (hdistance : c.distance ≠ maxDistance) (from_ : Current) :
    (walker q).leave from_ s = { s with memory := remember q from_ c } := by
  show (match s.closest with | none => s | some closest => _) = _
  rw [hclosest]
  simp [helement, hdistance]

theorem leave_none {s : State} (hclosest : s.closest = none) (from_ : Current) : (walker q).leave from_ s = s := by
  show (match s.closest with | none => s | some closest => _) = _
  rw [hclosest]

theorem leave_closest (from_ : Current) (s : State) : ((walker q).leave from_ s).closest = s.closest := by
  show (match s.closest with | none => s | some closest => _ : State).closest = _
  split
  · rfl
  · split <;> rfl

theorem leave_memory (from_ : Current) (s : State) : ((walker q).leave from_ s).memory = s.memory ∨
    ∃ c, s.closest = some c ∧ ((walker q).leave from_ s).memory = remember q from_ c := by
  show (match s.closest with | none => s | some closest => _ : State).memory = s.memory ∨
    ∃ c, s.closest = some c ∧ (match s.closest with | none => s | some closest => _ : State).memory = remember q from_ c
  split
  · exact Or.inl rfl
  · rename_i c hc
    split
    · exact Or.inr ⟨c, hc, rfl⟩
    · exact Or.inl rfl

theorem trailer_leave_nodes (ref c : Current) (t : Trail) :
    ((trailer q ref).leave c t).measuredFrom = t.measuredFrom := by
  show (match bestFrom q ref (t.measuredFrom.map Prod.snd) with
    | none => t
    | some closest => { t with memory := remember q c closest }).measuredFrom = _
  split <;> rfl

/-- the search and its trail -/
def Follows (ref : Current) (s : State) (t : Trail) : Prop :=
  s.memory = t.memory ∧ s.closest = bestFrom q ref (t.measuredFrom.map Prod.snd)

theorem simulates (ref : Current) : Simulates (walker q) (trailer q ref) (Follows q ref)
    (fun t => ∀ p ∈ t.measuredFrom, measured q p.1 p.2 = measured q ref p.2) (fun _ => True) where
  lasting :=
    { visit := fun h p hp => h p (List.mem_append_left _ hp)
      leave := by
        intro c t h
        rwa [trailer_leave_nodes] at h }
  visit := by
    rintro c a s t - ⟨hmemory, hclosest⟩ hgood
    have hsame : measured q c a = measured q ref a := hgood (c, a) (List.mem_append_right _ List.mem_cons_self)
    refine ⟨by rw [visit_closest]; exact hmemory, ?_⟩
    show _ = bestFrom q ref ((t.measuredFrom ++ [(c, a)]).map Prod.snd)
    rw [visit_closest, List.map_append, List.map_singleton, bestFrom_concat, hsame, hclosest]
  enter := by
    rintro s t ⟨hmemory, -⟩
    show current q s.memory = current q t.memory ∧ True
    rw [hmemory]
    exact ⟨rfl, trivial⟩
  leave := by
    rintro c s t - ⟨hmemory, hclosest⟩ -
    show Follows q ref _ (match bestFrom q ref (t.measuredFrom.map Prod.snd) with
      | none => t
      | some closest => { t with memory := remember q c closest })
    cases hbest : bestFrom q ref (t.measuredFrom.map Prod.snd) with
    | none =>
      rw [hbest] at hclosest
      rw [leave_none q hclosest]
      exact ⟨hmemory, hclosest.trans hbest.symm⟩
    | some b =>
      obtain ⟨a, -, ha⟩ := mem_of_bestFrom q hbest
      obtain ⟨heligible, helement, -⟩ := eligible_of_measured q ha
      rw [hbest] at hclosest
      rw [leave_some q hclosest (by rw [heligible.node]; exact helement) heligible.distance]
      exact ⟨rfl, hclosest.trans hbest.symm⟩

theorem trail_nodes (ref : Current) (nodes : Forest Node) (memory : Memory) :
    (trail q ref nodes memory).measuredFrom.map Prod.snd = visits (shape q) nodes := by
  have hleave : ∀ c t, ((trailer q ref).leave c t).measuredFrom.map Prod.snd = t.measuredFrom.map Prod.snd :=
    fun c t => by rw [trailer_leave_nodes]
  have hvisit : ∀ c a t, ((trailer q ref).visit c a t).measuredFrom.map Prod.snd =
      t.measuredFrom.map Prod.snd ++ [a] := by
    intro c a t
    show (t.measuredFrom ++ [(c, a)]).map Prod.snd = _
    rw [List.map_append, List.map_singleton]
  rw [trail, call, hleave]
  exact walk_list (f := fun t : Trail => t.measuredFrom.map Prod.snd) hvisit hleave nodes _ _

theorem find_eq_best {ref : Current} {nodes : Forest Node} {memory : Memory} (h : Steady q ref nodes memory) :
    (findFocusableNodeInDirection q nodes { memory := memory }).closest = bestFrom q ref (visits (shape q) nodes) := by
  have hstart : Follows q ref { memory := memory } { memory := memory } := ⟨rfl, rfl⟩
  have hend := (call_sim (simulates q ref) nodes hstart h).2
  have hnodes := trail_nodes q ref nodes memory
  rw [trail] at hnodes
  rw [findFocusableNodeInDirection, hend, hnodes]

/-! ## what a search leaves -/

theorem find_inv {P : FocusCandidate → Prop} {M : Memory → Prop} {C : Current → Prop} {nodes : Forest Node}
    (hmeasured : ∀ from_ c, ∀ a ∈ nodes.toList, C from_ → measured q from_ a = some c → P c)
    (hcurrent : ∀ m, M m → C (current q m)) (hremember : ∀ from_ c, C from_ → P c → M (remember q from_ c))
    {memory : Memory} (hmemory : M memory) {c : FocusCandidate}
    (h : (findFocusableNodeInDirection q nodes { memory := memory }).closest = some c) : P c := by
  have hinv : (∀ c, (findFocusableNodeInDirection q nodes { memory := memory }).closest = some c → P c) ∧
      M (findFocusableNodeInDirection q nodes { memory := memory }).memory := by
    apply call_inv (P := fun s : State => (∀ c, s.closest = some c → P c) ∧ M s.memory) (C := C) nodes
    · rintro from_ s a ha hfrom ⟨hclosest, hm⟩
      rw [visit_closest]
      refine ⟨?_, hm⟩
      cases hc : measured q from_ a with
      | none => exact hclosest
      | some c =>
        intro c' hc'
        rcases Best.keep_or key (onTop q.page) hc' with hnew | hold
        · rw [← hnew]
          exact hmeasured from_ c a ha hfrom hc
        · exact hclosest c' hold
    · exact fun s hs => hcurrent s.memory hs.2
    · rintro from_ s hfrom ⟨hclosest, hm⟩
      refine ⟨by rw [leave_closest]; exact hclosest, ?_⟩
      rcases leave_memory q from_ s with hsame | ⟨c, hc, hnew⟩
      · rw [hsame]
        exact hm
      · rw [hnew]
        exact hremember from_ c hfrom (hclosest c hc)
    · exact ⟨fun c hc => absurd hc (by simp), hmemory⟩
  exact hinv.1 c h

theorem measured_of_find {nodes : Forest Node} {memory : Memory} {c : FocusCandidate}
    (h : (findFocusableNodeInDirection q nodes { memory := memory }).closest = some c) :
    ∃ a ∈ nodes.toList, ∃ from_, measured q from_ a = some c :=
  find_inv q (P := fun c => ∃ a ∈ nodes.toList, ∃ from_, measured q from_ a = some c) (M := fun _ => True)
    (C := fun _ => True) (fun from_ _ a ha _ hc => ⟨a, ha, from_, hc⟩) (fun _ _ => trivial) (fun _ _ _ _ => trivial)
    trivial h

/-- If nothing is found, the memory is the same, else it is as at the end of the outermost call. -/
theorem find_memory (nodes : Forest Node) (memory : Memory) :
    (findFocusableNodeInDirection q nodes { memory := memory }).memory =
      match (findFocusableNodeInDirection q nodes { memory := memory }).closest with
      | none => memory
      | some c => remember q (current q memory) c := by
  cases hclosest : (findFocusableNodeInDirection q nodes { memory := memory }).closest with
  | none =>
    have hinv : (findFocusableNodeInDirection q nodes { memory := memory }).closest = none →
        (findFocusableNodeInDirection q nodes { memory := memory }).memory = memory := by
      apply call_inv (P := fun s : State => s.closest = none → s.memory = memory) (C := fun _ => True) nodes
      · intro from_ s a _ _ hs
        rw [visit_closest]
        cases measured q from_ a with
        | none => exact hs
        | some c =>
          intro hnone
          obtain ⟨c', hc'⟩ := Best.keep_some key (onTop q.page) s.closest c
          exact absurd (hc'.symm.trans hnone) (by simp)
      · exact fun _ _ => trivial
      · intro from_ s _ hs hnone
        rw [leave_closest] at hnone
        rw [leave_none q hnone]
        exact hs hnone
      · exact fun _ => rfl
    exact hinv hclosest
  | some c =>
    obtain ⟨a, -, from_, hc⟩ := measured_of_find q hclosest
    obtain ⟨heligible, helement, -⟩ := eligible_of_measured q hc
    rw [findFocusableNodeInDirection, call] at hclosest ⊢
    have hwalk : (walk (shape q) (walker q) nodes (current q memory) { memory := memory }).closest = some c := by
      rw [← leave_closest q (current q memory)]
      exact hclosest
    show ((walker q).leave (current q memory) (walk (shape q) (walker q) nodes (current q memory) _)).memory = _
    rw [leave_some q hwalk (by rw [heligible.node]; exact helement) heligible.distance]

end

theorem findNextFocusableNode_eq (page : Page) (nodes : Forest Node) (d : FocusDirection) (contentsRect : IntRect)
    (focused : Node) (memory : Memory) :
    findNextFocusableNode page nodes d contentsRect focused memory =
      let s := findFocusableNodeInDirection (queryOf page d contentsRect focused) nodes { memory := memory }
      (s.closest.map fun c => c.focusableNode, s.memory) := by
  unfold findNextFocusableNode
  cases hclosest : (findFocusableNodeInDirection (queryOf page d contentsRect focused) nodes
    { memory := memory }).closest with
  | none => simp [hclosest]
  | some c =>
    obtain ⟨a, -, from_, hc⟩ := measured_of_find _ hclosest
    obtain ⟨heligible, helement, -⟩ := eligible_of_measured _ hc
    simp [hclosest, heligible.node, helement, heligible.offscreen]

section
variable (q : Query)

/-! ## when a search is steady -/

theorem steady_of_flat {nodes : Forest Node} {ref : Current} {memory : Memory}
    (hflat : ∀ a ∈ nodes.toList, (shape q).turn a = .pass ∨ (shape q).turn a = .visit)
    (hsame : ∀ a ∈ visits (shape q) nodes, measured q (current q memory) a = measured q ref a) :
    Steady q ref nodes memory := by
  have hall : ∀ (l : List Node) (t : Trail), (∀ p ∈ t.measuredFrom, p.1 = current q memory) →
      ∀ p ∈ (l.foldl (fun t a => (trailer q ref).visit (current q memory) a t) t).measuredFrom,
        p.1 = current q memory := by
    intro l
    induction l with
    | nil => exact fun t ht => ht
    | cons a l ih =>
      intro t ht
      apply ih
      intro p hp
      rcases List.mem_append.mp hp with hp | hp
      · exact ht p hp
      · rw [List.mem_singleton.mp hp]
  intro p hp
  have hvisited : p.2 ∈ visits (shape q) nodes := by
    rw [← trail_nodes q ref nodes memory]
    exact List.mem_map_of_mem hp
  rw [trail, call, trailer_leave_nodes, walk_flat hflat] at hp
  rw [hall _ _ (by simp) p hp]
  exact hsame p.2 hvisited

end

end Wkc.Focus
