import WkcBrowser.Focus.Entering
import WkcBrowser.Lib.Best
import Mathlib.Data.Int.Order.Basic

/-!
# The nearest focusable node (`findNearestFocusableNodeFromPoint`)

* `findNearestFocusableNodeFromPoint`   the loop over the nodes that the two searches give;
* `IsNearest`             what is meant of the node returned;
* `nearestOf`             the nearest one of a list;
* `Through`               the searches go through the document, and do not stop in a frame;
* `Enumerates`            pages of which they give the nodes that are meant;
* `nearest_ends`          then the loop ends with the nearest one.
-/

namespace Wkc.RectFocus
open Canvas Focus Turns

/-- the nodes of the document itself -/
def Line.document : Line → List Node
  | .nil => []
  | .node a _ _ next => a :: next.document

/-- a page with the view of its main frame -/
structure MainFrame extends Page where
  view : Option IntPoint
  sameView : ∀ a ∈ (forwardLine nodes .nil).document, a.view = view

def containsPoint (r : IntRect) (p : IntPoint) : Bool := p.x ≥ r.x && p.x < r.maxX && p.y ≥ r.y && p.y < r.maxY

def manhattan (p q : IntPoint) : Int := (p.x - q.x).natAbs + (p.y - q.y).natAbs

def windowToContents (view p : IntPoint) : IntPoint := ⟨p.x - view.x, p.y - view.y⟩

def getNodeRect (a : Node) : IntRect := a.rect.getD ⟨0, 0, 0, 0⟩

def INT_MAX : Int := 2147483647

structure Enumeration where
  node : Option Node
  nearest : Option Node
  nearDist : Int

section
variable (frame : MainFrame) (rect : IntRect) (contentsPoint : IntPoint)

def nextOf (a : Node) : Option Node :=
  findVerticallyFocusableNodeInRect false rect (nextStart frame.toPage .down a)

def nearestTurn (s : Enumeration) : Option (Turn Enumeration (Option Node)) :=
  match s.node with
  | none => some (.done s.nearest)
  | some a =>
    if !a.isKeyboardFocusable then some (.next { s with node := nextOf frame rect a })
    else if containsPoint (getNodeRect a) contentsPoint then some (.done (some a))
    else
      let dist := manhattan contentsPoint (center (getNodeRect a))
      if dist < s.nearDist then some (.next { node := nextOf frame rect a, nearest := some a, nearDist := dist })
      else some (.next { s with node := nextOf frame rect a })

def findNearestFocusableNodeFromPoint (point : IntPoint) (fuel : Nat) : Outcome (Option Node) :=
  match frame.view with
  | none => .ended none
  | some view =>
    match findFirstFocusableNode (some rect) frame.toPage with
    | none => .failed
    | some node =>
      run (nearestTurn frame rect (windowToContents view point)) fuel { node, nearest := none, nearDist := INT_MAX }

/-! ## what is meant -/

/-- the rectangle of a node of any frame, in the coordinates of the main frame, where those of areas already are -/
def inMainFrame (view : IntPoint) (a : Node) : IntRect :=
  match a.view with
  | some v =>
    if a.isArea then getNodeRect a
    else
      let r := Node.contentsToWindow v (getNodeRect a)
      ⟨r.x - view.x, r.y - view.y, r.width, r.height⟩
  | none => getNodeRect a

/-- The node contains the point, or none does and its centre is nearest. -/
structure IsNearest (point : IntPoint) (node : Option Node) : Prop where
  found : node = none ↔ targets frame.toPage rect = []
  meant : ∀ a ∈ node, a ∈ targets frame.toPage rect
  contains : ∀ view ∈ frame.view, ∀ a ∈ node,
    (∃ t ∈ targets frame.toPage rect, containsPoint (inMainFrame view t) (windowToContents view point) = true) →
      containsPoint (inMainFrame view a) (windowToContents view point) = true
  nearest : ∀ view ∈ frame.view, ∀ a ∈ node,
    (¬ ∃ t ∈ targets frame.toPage rect, containsPoint (inMainFrame view t) (windowToContents view point) = true) →
      ∀ t ∈ targets frame.toPage rect, manhattan (windowToContents view point) (center (inMainFrame view a)) ≤
        manhattan (windowToContents view point) (center (inMainFrame view t))

/-! ## when it is found -/

/-- the nodes that end the loop -/
def stops (a : Node) : Bool := a.isKeyboardFocusable && containsPoint (getNodeRect a) contentsPoint

/-- Up to a node that ends the loop the search stops at the nodes of the document only, and at all of them. -/
def Through : Line → Prop
  | .nil => True
  | .node a hasChildNodes content next =>
    if !a.isMatched rect then Through next
    else if a.isEntered hasChildNodes then
      match a.entry rect with
      | none => False
      | some nodeRect =>
        (∀ c ∈ (if a.isFrameOwnerElement then hits nodeRect content else hits nodeRect next).head?,
          (plainHits rect next).head? = some c) ∧ Through next
    else stops contentsPoint a = true ∨ Through next

def distance (a : Node) : Int := manhattan contentsPoint (center (getNodeRect a))

/-- The first node found is the first one of the document, the search goes on through it, and no node of a frame is
better than all of its own. -/
structure Enumerates (view : IntPoint) (point : IntPoint) : Prop where
  checked : Checked (some rect) false (forwardLine frame.nodes .nil)
  first : (candidates (some rect) (forwardLine frame.nodes .nil)).head? =
    (plainHits rect (forwardLine frame.nodes .nil)).head?
  through : Through rect (windowToContents view point) (forwardLine frame.nodes .nil)
  near : ∀ a ∈ plainHits rect (forwardLine frame.nodes .nil), distance (windowToContents view point) a < INT_MAX
  frames : ∀ t ∈ targets frame.toPage rect, ∃ a ∈ plainHits rect (forwardLine frame.nodes .nil),
    a.isKeyboardFocusable = true ∧ (containsPoint (getNodeRect a) (windowToContents view point) = true ∨
      containsPoint (inMainFrame view t) (windowToContents view point) = false ∧
        distance (windowToContents view point) a ≤
          manhattan (windowToContents view point) (center (inMainFrame view t)))

/-- A page without a view has nothing in the rectangle. -/
def Enumerated (point : IntPoint) : Prop :=
  match frame.view with
  | none => targets frame.toPage rect = []
  | some view => Enumerates frame rect view point

end

/-! ## the nearest of a list -/

section
variable {frame : MainFrame} {rect : IntRect} {contentsPoint : IntPoint}

/-- what the loop returns after the nodes of a list, given the nearest one so far -/
def nearestOf (contentsPoint : IntPoint) (nearest : Option Node) (l : List Node) : Option Node :=
  (l.find? (stops contentsPoint)).or
    ((l.filter Node.isKeyboardFocusable).foldl (Best.keep (distance contentsPoint) fun _ _ => false) nearest)

/-- the distance that is kept with the nearest node -/
def nearDistOf (contentsPoint : IntPoint) (nearest : Option Node) : Int :=
  (nearest.map (distance contentsPoint)).getD INT_MAX

theorem through_hits {line : Line} (h : Through rect contentsPoint line) :
    (hits rect line).head? = (plainHits rect line).head? := by
  induction line with
  | nil => rfl
  | node a hasChildNodes content next hcontent hnext =>
    rw [Through] at h
    rw [hits]
    by_cases hmatched : (!a.isMatched rect) = true
    · rw [if_pos hmatched] at h ⊢
      rw [plainHits_skip (isPlainHit_unmatched hmatched)]
      exact hnext h
    rw [if_neg hmatched] at h ⊢
    by_cases hentered : a.isEntered hasChildNodes = true
    · rw [if_pos hentered] at h ⊢
      rw [plainHits_skip (isPlainHit_entered hentered)]
      cases hentry : a.entry rect with
      | none =>
        rw [hentry] at h
        exact h.elim
      | some nodeRect =>
        rw [hentry] at h
        obtain ⟨hinner, hrest⟩ := h
        simp only [List.head?_append]
        cases hhead : (if a.isFrameOwnerElement then hits nodeRect content else hits nodeRect next).head? with
        | none => exact hnext hrest
        | some c => exact (hinner c hhead).symm
    · rw [if_neg hentered, plainHits_stop (isPlainHit_stop hmatched hentered)]
      rfl

theorem first_plainHit {line : Line} {a : Node} (h : Through rect contentsPoint line)
    (ha : (plainHits rect line).head? = some a) : ∃ hasChildNodes content next,
      Line.Suffix (.node a hasChildNodes content next) line ∧ plainHits rect line = a :: plainHits rect next ∧
        (stops contentsPoint a = true ∨ Through rect contentsPoint next) := by
  induction line with
  | nil => cases ha
  | node b hasChildNodes content next hcontent hnext =>
    have hlater : Through rect contentsPoint next → b.isPlainHit rect hasChildNodes = false →
        ∃ hasChildNodes' content' next',
          Line.Suffix (.node a hasChildNodes' content' next') (.node b hasChildNodes content next) ∧
            plainHits rect (.node b hasChildNodes content next) = a :: plainHits rect next' ∧
              (stops contentsPoint a = true ∨ Through rect contentsPoint next') := by
      intro hrest hplain
      rw [plainHits_skip hplain] at ha ⊢
      obtain ⟨hasChildNodes', content', next', hsuffix, hhits⟩ := hnext hrest ha
      exact ⟨hasChildNodes', content', next', .step hsuffix, hhits⟩
    rw [Through] at h
    by_cases hmatched : (!b.isMatched rect) = true
    · rw [if_pos hmatched] at h
      exact hlater h (isPlainHit_unmatched hmatched)
    rw [if_neg hmatched] at h
    by_cases hentered : b.isEntered hasChildNodes = true
    · rw [if_pos hentered] at h
      cases hentry : b.entry rect with
      | none =>
        rw [hentry] at h
        exact h.elim
      | some nodeRect =>
        rw [hentry] at h
        exact hlater h.2 (isPlainHit_entered hentered)
    · rw [if_neg hentered] at h
      rw [plainHits_stop (isPlainHit_stop hmatched hentered)] at ha ⊢
      obtain rfl : b = a := Option.some.inj ha
      exact ⟨hasChildNodes, content, next, .refl, rfl, h⟩

theorem nextOf_eq {a : Node} {hasChildNodes : Bool} {content next : Line}
    (hsuffix : Line.Suffix (.node a hasChildNodes content next) (forwardLine frame.nodes .nil))
    (h : Through rect contentsPoint next) : nextOf frame rect a = (plainHits rect next).head? := by
  rw [nextOf, nextStart_of_suffix (by simp) hsuffix, vertically_eq, through_hits h]

section
variable {nearest : Option Node} {a : Node} {l : List Node}

theorem nearestOf_skip (ha : ¬a.isKeyboardFocusable = true) :
    nearestOf contentsPoint nearest (a :: l) = nearestOf contentsPoint nearest l := by
  have hstops : ¬stops contentsPoint a = true := fun h => ha (Bool.and_eq_true _ _ ▸ h).1
  rw [nearestOf, List.find?_cons_of_neg hstops, List.filter_cons_of_neg ha]
  rfl

theorem nearestOf_stop (ha : stops contentsPoint a = true) : nearestOf contentsPoint nearest (a :: l) = some a := by
  rw [nearestOf, List.find?_cons_of_pos ha]
  rfl

theorem nearestOf_keep (hstops : ¬stops contentsPoint a = true) (ha : a.isKeyboardFocusable = true)
    (hnear : distance contentsPoint a < INT_MAX) :
    nearestOf contentsPoint nearest (a :: l) = nearestOf contentsPoint
      (if distance contentsPoint a < nearDistOf contentsPoint nearest then some a else nearest) l := by
  rw [nearestOf, List.find?_cons_of_neg hstops, List.filter_cons_of_pos ha, List.foldl_cons]
  congr 2
  cases nearest with
  | none => exact (if_pos hnear).symm
  | some b =>
    by_cases hlt : distance contentsPoint a < distance contentsPoint b <;> simp [Best.keep, nearDistOf, hlt]

theorem nearestTurn_skip (ha : ¬a.isKeyboardFocusable = true) {nearDist : Int} :
    nearestTurn frame rect contentsPoint ⟨some a, nearest, nearDist⟩ =
      some (.next ⟨nextOf frame rect a, nearest, nearDist⟩) := by
  simp [nearestTurn, ha]

theorem nearestTurn_keep (ha : a.isKeyboardFocusable = true)
    (hcontains : ¬containsPoint (getNodeRect a) contentsPoint = true) :
    nearestTurn frame rect contentsPoint ⟨some a, nearest, nearDistOf contentsPoint nearest⟩ =
      some (.next ⟨nextOf frame rect a,
        if distance contentsPoint a < nearDistOf contentsPoint nearest then some a else nearest,
        nearDistOf contentsPoint
          (if distance contentsPoint a < nearDistOf contentsPoint nearest then some a else nearest)⟩) := by
  have hturn : nearestTurn frame rect contentsPoint ⟨some a, nearest, nearDistOf contentsPoint nearest⟩ =
      if distance contentsPoint a < nearDistOf contentsPoint nearest then
        some (.next ⟨nextOf frame rect a, some a, distance contentsPoint a⟩)
      else some (.next ⟨nextOf frame rect a, nearest, nearDistOf contentsPoint nearest⟩) := by
    rw [nearestTurn]
    simp only [ha, hcontains]
    rfl
  rw [hturn]
  split <;> rfl

end

/-- The nodes of the document from a line on are still to come. -/
def Coming (frame : MainFrame) (rect : IntRect) (contentsPoint : IntPoint) (s : Enumeration) : Prop :=
  ∃ line, Line.Suffix line (forwardLine frame.nodes .nil) ∧ Through rect contentsPoint line ∧
    s.node = (plainHits rect line).head? ∧ s.nearDist = nearDistOf contentsPoint s.nearest ∧
    nearestOf contentsPoint s.nearest (plainHits rect line) =
      nearestOf contentsPoint none (plainHits rect (forwardLine frame.nodes .nil))

/-- the nodes behind the one that the loop is at -/
def remaining (frame : MainFrame) (s : Enumeration) : Nat :=
  match s.node with
  | none => 0
  | some a => (nextStart frame.toPage .down a).length + 1

theorem coming_keeps (hnear : ∀ a ∈ plainHits rect (forwardLine frame.nodes .nil), distance contentsPoint a < INT_MAX)
    (s : Enumeration) (h : Coming frame rect contentsPoint s) :
    Keeps (nearestTurn frame rect contentsPoint) (Coming frame rect contentsPoint)
      (fun node => node = nearestOf contentsPoint none (plainHits rect (forwardLine frame.nodes .nil)))
      (remaining frame) s := by
  obtain ⟨node, nearest, nearDist⟩ := s
  obtain ⟨line, hsuffix, hthrough, hnode, hdist, hanswer⟩ := h
  simp only at hnode hdist hanswer
  cases hhead : (plainHits rect line).head? with
  | none =>
    rw [hhead] at hnode
    rw [List.head?_eq_none_iff.mp hhead] at hanswer
    rw [hnode, Keeps, nearestTurn]
    exact hanswer
  | some a =>
    rw [hhead] at hnode
    obtain ⟨hasChildNodes, content, next, ha, hhits, hgoes⟩ := first_plainHit hthrough hhead
    have ha := ha.trans hsuffix
    rw [hhits] at hanswer
    have hstart : nextStart frame.toPage .down a = next := nextStart_of_suffix (by simp) ha
    have hcoming : ∀ nearest', Through rect contentsPoint next →
        nearestOf contentsPoint nearest' (plainHits rect next) =
          nearestOf contentsPoint none (plainHits rect (forwardLine frame.nodes .nil)) →
        Coming frame rect contentsPoint ⟨nextOf frame rect a, nearest', nearDistOf contentsPoint nearest'⟩ ∧
          remaining frame ⟨nextOf frame rect a, nearest', nearDistOf contentsPoint nearest'⟩ <
            remaining frame ⟨node, nearest, nearDist⟩ := by
      intro nearest' hrest hsame
      refine ⟨⟨next, ha.behind, hrest, nextOf_eq ha hrest, rfl, hsame⟩, ?_⟩
      have hsize : remaining frame ⟨node, nearest, nearDist⟩ = next.length + 1 := by
        rw [hnode]
        show (nextStart frame.toPage .down a).length + 1 = _
        rw [hstart]
      rw [hsize, nextOf_eq ha hrest]
      cases hnext : (plainHits rect next).head? with
      | none => exact Nat.succ_pos _
      | some b =>
        obtain ⟨hasChildNodes', content', next', hb, -, -⟩ := first_plainHit hrest hnext
        have hlength := hb.length_le
        have hstart' : nextStart frame.toPage .down b = next' := nextStart_of_suffix (by simp) (hb.trans ha.behind)
        show (nextStart frame.toPage .down b).length + 1 < _
        rw [hstart']
        exact Nat.lt_succ_of_le hlength
    subst hnode hdist
    by_cases hkeyboard : a.isKeyboardFocusable = true
    · by_cases hcontains : containsPoint (getNodeRect a) contentsPoint = true
      · have hstops : stops contentsPoint a = true := by simp [stops, hkeyboard, hcontains]
        rw [nearestOf_stop hstops] at hanswer
        rw [Keeps, nearestTurn]
        simpa [hkeyboard, hcontains] using hanswer
      · have hstops : ¬stops contentsPoint a = true := by simp [stops, hcontains]
        have hmem : a ∈ plainHits rect line := hhits ▸ List.mem_cons_self
        rw [nearestOf_keep hstops hkeyboard (hnear a (plainHits_of_suffix hsuffix hmem))] at hanswer
        have hkept := hcoming _ (hgoes.resolve_left hstops) hanswer
        rw [Keeps, nearestTurn_keep hkeyboard hcontains]
        exact hkept
    · rw [nearestOf_skip hkeyboard] at hanswer
      have hstops : ¬stops contentsPoint a = true := by simp [stops, hkeyboard]
      rw [Keeps, nearestTurn_skip hkeyboard]
      exact hcoming nearest (hgoes.resolve_left hstops) hanswer

/-! ## the answer -/

theorem plainHits_subset_document (line : Line) : plainHits rect line ⊆ line.document := by
  induction line with
  | nil => exact List.Subset.refl _
  | node a hasChildNodes content next hcontent hnext =>
    intro b hb
    rcases List.mem_append.mp hb with hb | hb
    · split at hb
      · exact List.mem_singleton.mp hb ▸ List.mem_cons_self
      · exact absurd hb List.not_mem_nil
    · exact List.mem_cons_of_mem a (hnext hb)

theorem inMainFrame_eq {view : IntPoint} {a : Node} (h : a.view = some view) : inMainFrame view a = getNodeRect a := by
  simp [inMainFrame, h, Node.contentsToWindow]

section
variable {view point : IntPoint} {a : Node}

theorem plainHit_inMainFrame (hview : frame.view = some view) (ha : a ∈ plainHits rect (forwardLine frame.nodes .nil)) :
    inMainFrame view a = getNodeRect a :=
  inMainFrame_eq ((frame.sameView a (plainHits_subset_document _ ha)).trans hview)

theorem isNearest_of_contains (hview : frame.view = some view) (ha : a ∈ plainHits rect (forwardLine frame.nodes .nil))
    (hstops : stops (windowToContents view point) a = true) : IsNearest frame rect point (some a) := by
  obtain ⟨hkeyboard, hcontains⟩ := Bool.and_eq_true _ _ ▸ hstops
  rw [← plainHit_inMainFrame hview ha] at hcontains
  have hmeant : a ∈ targets frame.toPage rect := target_of_plainHit .refl ha hkeyboard
  refine ⟨⟨fun hnone => (by cases hnone), fun hempty => ?_⟩, fun b hb => ?_, fun view' hview' b hb _ => ?_,
    fun view' hview' b hb hnone => ?_⟩
  · rw [hempty] at hmeant
    exact absurd hmeant List.not_mem_nil
  · obtain rfl : a = b := Option.some.inj hb
    exact hmeant
  · obtain rfl : a = b := Option.some.inj hb
    obtain rfl : view = view' := Option.some.inj (hview.symm.trans hview')
    exact hcontains
  · obtain rfl : view = view' := Option.some.inj (hview.symm.trans hview')
    exact absurd ⟨a, hmeant, hcontains⟩ hnone

/-- When no node of the document contains the point, the nearest of them is nearer than those of the frames. -/
theorem isNearest_of_best (hview : frame.view = some view) (h : Enumerates frame rect view point)
    (hstops : ∀ b ∈ plainHits rect (forwardLine frame.nodes .nil), ¬stops (windowToContents view point) b = true) :
    IsNearest frame rect point (Best.best (distance (windowToContents view point)) (fun _ _ => false)
      ((plainHits rect (forwardLine frame.nodes .nil)).filter Node.isKeyboardFocusable)) := by
  have hframes : ∀ t ∈ targets frame.toPage rect, ∃ b ∈ plainHits rect (forwardLine frame.nodes .nil),
      b.isKeyboardFocusable = true ∧ containsPoint (inMainFrame view t) (windowToContents view point) = false ∧
        distance (windowToContents view point) b ≤
          manhattan (windowToContents view point) (center (inMainFrame view t)) := by
    intro t ht
    obtain ⟨b, hb, hkeyboard, hcontains | hnot⟩ := h.frames t ht
    · exact absurd (show stops _ b = true by simp [stops, hkeyboard, hcontains]) (hstops b hb)
    · exact ⟨b, hb, hkeyboard, hnot⟩
  have hmem : ∀ {b}, b ∈ Best.best (distance (windowToContents view point)) (fun _ _ => false)
      ((plainHits rect (forwardLine frame.nodes .nil)).filter Node.isKeyboardFocusable) →
        b ∈ plainHits rect (forwardLine frame.nodes .nil) ∧ b.isKeyboardFocusable = true :=
    fun hb => List.mem_filter.mp (Best.best_mem _ _ hb)
  refine ⟨⟨fun hnone => ?_, fun hempty => ?_⟩, fun b hb => ?_, fun view' hview' b hb hcontains => ?_,
    fun view' hview' b hb _ t ht => ?_⟩
  · have hkeyboards := (Best.best_eq_none _ _).mp hnone
    refine List.eq_nil_iff_forall_not_mem.mpr fun t ht => ?_
    obtain ⟨b, hb, hkeyboard, -⟩ := hframes t ht
    have hin := List.mem_filter.mpr ⟨hb, hkeyboard⟩
    rw [hkeyboards] at hin
    exact absurd hin List.not_mem_nil
  · refine Option.eq_none_iff_forall_ne_some.mpr fun b hb => ?_
    have hmeant : b ∈ targets frame.toPage rect := target_of_plainHit .refl (hmem hb).1 (hmem hb).2
    rw [hempty] at hmeant
    exact absurd hmeant List.not_mem_nil
  · exact target_of_plainHit .refl (hmem hb).1 (hmem hb).2
  · obtain rfl : view = view' := Option.some.inj (hview.symm.trans hview')
    obtain ⟨t, ht, hcontains⟩ := hcontains
    obtain ⟨_, _, _, hnot, _⟩ := hframes t ht
    rw [hnot] at hcontains
    cases hcontains
  · obtain rfl : view = view' := Option.some.inj (hview.symm.trans hview')
    obtain ⟨c, hc, hkeyboard, -, hle⟩ := hframes t ht
    rw [plainHit_inMainFrame hview (hmem hb).1]
    have hunbeaten := Best.best_unbeaten _ _ hb c (List.mem_filter.mpr ⟨hc, hkeyboard⟩)
    exact (not_lt.mp hunbeaten).trans hle

end

theorem nearestOf_isNearest {view point : IntPoint} (hview : frame.view = some view)
    (h : Enumerates frame rect view point) : IsNearest frame rect point
      (nearestOf (windowToContents view point) none (plainHits rect (forwardLine frame.nodes .nil))) := by
  unfold nearestOf
  cases hstop : (plainHits rect (forwardLine frame.nodes .nil)).find? (stops (windowToContents view point)) with
  | some a => exact isNearest_of_contains hview (List.mem_of_find?_eq_some hstop) (List.find?_some hstop)
  | none => exact isNearest_of_best hview h (List.find?_eq_none.mp hstop)

end

/-- On a page of which the searches give the nodes that are meant, the loop ends with the nearest of them. -/
theorem nearest_ends (frame : MainFrame) (rect : IntRect) (point : IntPoint) (h : Enumerated frame rect point) :
    ∃ fuel node, findNearestFocusableNodeFromPoint frame rect point fuel = .ended node ∧
      IsNearest frame rect point node := by
  unfold Enumerated at h
  unfold findNearestFocusableNodeFromPoint
  cases hview : frame.view with
  | none =>
    rw [hview] at h
    refine ⟨0, none, rfl, ⟨fun _ => h, fun _ => rfl⟩, fun _ ha => ?_, fun _ _ _ ha => ?_, fun _ _ _ ha => ?_⟩
    · cases ha
    · cases ha
    · cases ha
  | some view =>
    rw [hview] at h
    have hlinked := forwardLine_linked frame.nodes .nil trivial
    have hfirst : findFirstFocusableNode (some rect) frame.toPage =
        some (plainHits rect (forwardLine frame.nodes .nil)).head? := by
      rw [← h.first]
      exact (find_iff (forwardLine_nodup frame.toPage) hlinked (by simp)).mpr h.checked
    rw [hfirst]
    have hcoming : Coming frame rect (windowToContents view point)
        ⟨(plainHits rect (forwardLine frame.nodes .nil)).head?, none, INT_MAX⟩ :=
      ⟨_, .refl, h.through, rfl, rfl, rfl⟩
    obtain ⟨fuel, node, hrun, rfl⟩ := run_ends (remaining frame) (coming_keeps h.near) hcoming
    exact ⟨fuel, _, hrun, nearestOf_isNearest hview h⟩

def settledShown : MainFrame where
  toPage := settled
  view := some ⟨0, 0⟩
  sameView := by decide

theorem nearest_ends_settled :
    ∃ fuel node, findNearestFocusableNodeFromPoint settledShown ⟨0, 0, 100, 100⟩ ⟨70, 70⟩ fuel = .ended node ∧
      IsNearest settledShown ⟨0, 0, 100, 100⟩ ⟨70, 70⟩ node := by
  apply nearest_ends
  have hhits : plainHits ⟨0, 0, 100, 100⟩ (forwardLine settledShown.nodes .nil) =
      [control 2 false ⟨0, 0, 50, 20⟩, control 6 true ⟨0, 60, 40, 20⟩, control 7 true ⟨0, 90, 50, 10⟩] := rfl
  have htargets : targets settledShown.toPage ⟨0, 0, 100, 100⟩ =
      [control 6 true ⟨0, 60, 40, 20⟩, control 7 true ⟨0, 90, 50, 10⟩] := rfl
  have hbehind : Through ⟨0, 0, 100, 100⟩ ⟨70, 70⟩
      (forwardLine (.node (control 6 true ⟨0, 60, 40, 20⟩) .nil .nil .nil)
        (forwardLine (.node (control 7 true ⟨0, 90, 50, 10⟩) .nil .nil .nil) .nil)) := Or.inr (Or.inr trivial)
  refine ⟨trivial, rfl, Or.inr ⟨fun c hc => ?_, fun c hc => ?_, hbehind⟩, ?_, ?_⟩
  · cases hc
  · cases hc
    rfl
  · rw [hhits]
    decide
  · rw [hhits, htargets]
    decide

def frameBetweenLinks : MainFrame where
  nodes := .node (shown 1 ⟨0, 0, 100, 100⟩)
    (.node (control 2 true ⟨0, 0, 50, 20⟩) .nil .nil
      (.node frameOwner .nil (.node (control 4 true ⟨0, 30, 20, 20⟩) .nil .nil .nil)
        (.node (control 5 true ⟨0, 60, 50, 20⟩) .nil .nil .nil))) .nil .nil
  distinct := by decide
  view := some ⟨0, 0⟩
  sameView := by decide

/-- The link behind the frame has the point in it, and is not looked at. -/
theorem link_behind_a_frame_is_missed :
    ¬ ∃ fuel node, findNearestFocusableNodeFromPoint frameBetweenLinks ⟨0, 0, 100, 100⟩ ⟨10, 70⟩ fuel = .ended node ∧
      IsNearest frameBetweenLinks ⟨0, 0, 100, 100⟩ ⟨10, 70⟩ node := by
  rintro ⟨fuel, node, hrun, hnearest⟩
  have hframe : findNearestFocusableNodeFromPoint frameBetweenLinks ⟨0, 0, 100, 100⟩ ⟨10, 70⟩ 3 =
    .ended (some (control 4 true ⟨0, 30, 20, 20⟩)) := rfl
  have hnode : node = some (control 4 true ⟨0, 30, 20, 20⟩) := ended_unique hrun hframe
  have hbehind : control 5 true ⟨0, 60, 50, 20⟩ ∈ targets frameBetweenLinks.toPage ⟨0, 0, 100, 100⟩ := by decide
  have hcontains := hnearest.contains ⟨0, 0⟩ rfl _ hnode ⟨_, hbehind, by decide⟩
  exact absurd hcontains (by decide)

end Wkc.RectFocus
