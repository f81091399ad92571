import WkcBrowser.Graphics.Pixels

/-!
# The handles of a selection (WKCWebView.cpp)

* `Content`                            what a node of the walk renders;
* `getSelectionTopBottomFromNode`      the two scans over the characters of a text, with the ranges they ask for;
* `selectionStartEnd`                  the nodes that are asked for the start and for the end;
* `Handled`                            it ends, asks for characters only, and reports the edge that is meant;
* `handled_iff`                        so it does unless a text it reaches is empty or shorter than the offset, or the
                                       start is behind a text of several edges, or the offset leads astray in a text
                                       behind the anchor.
-/

namespace Wkc.Handles
open Canvas

/-- a text of a node; `rects i` are the rectangles of the characters `[i, i+1)` -/
structure Text where
  length : Nat
  rects : Int → List IntRect

/-- Nothing is rendered outside of the text. -/
def Text.char (t : Text) (i : Int) : List IntRect := if 0 ≤ i ∧ i < t.length then t.rects i else []

inductive Content
  | noRenderer
  | br (rects : List IntRect)
  | text (t : Text)
  | box (rects : List IntRect)

/-- `top` and `bottom` -/
structure Points where
  top : IntPoint
  bottom : IntPoint
  deriving DecidableEq

def getPointsFromIntRect (r : IntRect) (fromRight : Bool) : Points :=
  let x := if fromRight then r.x + r.width else r.x
  ⟨⟨x, r.y⟩, ⟨x, r.y + r.height⟩⟩

/-- `rects[0]`, if there is one -/
def pointsOf (rects : List IntRect) (fromRight : Bool) : Option Points :=
  rects.head?.map fun r => getPointsFromIntRect r fromRight

/-- The scan for the first character; `endOffset` is `startOffset + 1` all along. -/
def forward (t : Text) : Nat → Int → List Int → List IntRect → Option (List Int × List IntRect)
  | 0, _, _, _ => none
  | fuel + 1, startOffset, asked, rects =>
    if rects = [] ∧ startOffset + 1 ≠ t.length then
      forward t fuel (startOffset + 1) (asked ++ [startOffset + 1]) (t.char (startOffset + 1))
    else some (asked, rects)

/-- the scan for the last one -/
def backward (t : Text) : Nat → Int → Bool → List Int → List IntRect → Option (List Int × List IntRect × Bool)
  | 0, _, _, _, _ => none
  | fuel + 1, startOffset, fromRight, asked, rects =>
    if rects = [] ∧ startOffset ≠ 0 then
      backward t fuel (startOffset - 1) true (asked ++ [startOffset - 1]) (t.char (startOffset - 1))
    else some (asked, rects, fromRight)

/-- where the ranges are asked for, and the points where there are any; `none` is a scan that has not ended -/
def getSelectionTopBottomFromNode (fuel : Nat) (node : Content) (offset : Int) (fromRight : Bool) :
    Option (List Int × Option Points) :=
  match node with
  | .noRenderer => some ([], none)
  | .br rects => some ([], pointsOf rects fromRight)
  | .box rects => some ([], pointsOf rects fromRight)
  | .text t =>
    let startOffset := if offset = t.length then offset - 1 else offset
    let fromRight := if offset = t.length then true else fromRight
    (forward t fuel startOffset [startOffset] (t.char startOffset)).bind fun (asked, rects) =>
      (backward t fuel startOffset fromRight asked rects).map fun (asked, rects, fromRight) =>
        (asked, pointsOf rects fromRight)

/-- the anchor types of a `Position` that the switches take -/
inductive Anchor
  | offsetInAnchor (offset : Nat)
  | beforeAnchor
  | afterAnchor
  deriving DecidableEq

/-- a node that was asked: the place in it that is meant, the ranges asked for and what was found -/
structure Visit where
  node : Content
  /-- an offset, or the end of the node; behind the anchor it is the start of the node -/
  place : Option Int
  asked : List Int
  found : Option Points

def visit (fuel : Nat) (node : Content) (offset place : Int) : Option Visit :=
  (getSelectionTopBottomFromNode fuel node offset false).map fun (asked, found) => ⟨node, some place, asked, found⟩

def visitAfter (fuel : Nat) (node : Content) : Option Visit :=
  (getSelectionTopBottomFromNode fuel node 0 true).map fun (asked, found) => ⟨node, none, asked, found⟩

/-- `while (node)` with `traverseNextNode`, until one gives points; the offset is passed on as it is -/
def walk (fuel : Nat) (offset : Int) : Int → List Content → Option (List Visit)
  | _, [] => some []
  | place, node :: nodes =>
    (visit fuel node offset place).bind fun v =>
      if v.found.isSome then some [v] else (walk fuel offset 0 nodes).map fun vs => v :: vs

/-- an end of the selection: its anchor, what follows that in the document, and its anchor type -/
structure Position where
  node : Content
  next : List Content
  anchor : Anchor

/-- the switch over `start.anchorType()` -/
def startVisits (fuel : Nat) (start : Position) : Option (List Visit) :=
  match start.anchor with
  | .offsetInAnchor offset => walk fuel offset offset (start.node :: start.next)
  | .beforeAnchor => (visit fuel start.node 0 0).map fun v => [v]
  | .afterAnchor => (visitAfter fuel start.node).map fun v => [v]

/-- the switch over `end.anchorType()` -/
def endVisits (fuel : Nat) (finish : Position) : Option (List Visit) :=
  match finish.anchor with
  | .offsetInAnchor offset => (visit fuel finish.node offset offset).map fun v => [v]
  | .afterAnchor => walk fuel 0 0 finish.next
  | .beforeAnchor => (visit fuel finish.node 0 0).map fun v => [v]

/-- the nodes asked for the start and for the end; a handle is what the last of them has found -/
def selectionStartEnd (fuel : Nat) (start finish : Position) : Option (List Visit × List Visit) :=
  (startVisits fuel start).bind fun starts => (endVisits fuel finish).map fun ends => (starts, ends)

/-! ## what is meant -/

/-- the first rendered character from `k` on -/
def Text.FirstFrom (t : Text) (k i : Int) : Prop := k ≤ i ∧ t.char i ≠ [] ∧ ∀ j, k ≤ j → j < i → t.char j = []

/-- the last rendered character before `k` -/
def Text.LastBefore (t : Text) (k i : Int) : Prop := i < k ∧ t.char i ≠ [] ∧ ∀ j, i < j → j < k → t.char j = []

def Text.NoneFrom (t : Text) (k : Int) : Prop := ∀ j, k ≤ j → t.char j = []

def Text.Rendered (t : Text) : Prop := ∃ i, t.char i ≠ []

/-- the left edge of the first character from `k` on, or the right edge of the last one before it -/
def Text.Reports (t : Text) (k : Int) (found : Option Points) : Prop :=
  (∃ i, t.FirstFrom k i ∧ found = pointsOf (t.char i) false) ∨
    (t.NoneFrom k ∧ ∃ i, t.LastBefore k i ∧ found = pointsOf (t.char i) true)

/-- a text is asked for its characters only, and reports an edge if it has a rendered one -/
def Visit.Good (v : Visit) : Prop :=
  ∀ t, v.node = .text t → (∀ i ∈ v.asked, 0 ≤ i ∧ i < t.length) ∧
    (t.Rendered → t.Reports (v.place.getD t.length) v.found)

def Handled (start finish : Position) : Prop :=
  ∃ fuel starts ends, selectionStartEnd fuel start finish = some (starts, ends) ∧ ∀ v ∈ starts ++ ends, v.Good

/-! ## the condition -/

/-- whether there is something to point to -/
def gives : Content → Bool
  | .noRenderer => false
  | .br rects => !rects.isEmpty
  | .text t => (List.range t.length).any fun i => !(t.char i).isEmpty
  | .box rects => !rects.isEmpty

/-- a text that is not empty, and long enough for the offset -/
def Fits (offset : Int) (node : Content) : Prop := ∀ t, node = .text t → 0 < t.length ∧ offset ≤ t.length

/-- the edge at the offset is the one at the place -/
def SameEdge (offset place : Int) (node : Content) : Prop :=
  ∀ t, node = .text t → ∀ found, t.Reports offset found → t.Reports place found

/-- the nodes up to the first that gives points, behind the anchor from their start -/
def FitsFrom (offset : Int) : Int → List Content → Prop
  | _, [] => True
  | place, node :: nodes =>
    (Fits offset node ∧ SameEdge offset place node) ∧ (gives node = false → FitsFrom offset 0 nodes)

/-- a text that is not empty, and whose first and last character end at the same edge -/
def OneEdge (node : Content) : Prop :=
  ∀ t, node = .text t → 0 < t.length ∧ ∀ i j, t.FirstFrom 0 i → t.LastBefore t.length j →
    pointsOf (t.char i) true = pointsOf (t.char j) true

def StartFits (start : Position) : Prop :=
  match start.anchor with
  | .offsetInAnchor offset => FitsFrom offset offset (start.node :: start.next)
  | .beforeAnchor => Fits 0 start.node
  | .afterAnchor => OneEdge start.node

def EndFits (finish : Position) : Prop :=
  match finish.anchor with
  | .offsetInAnchor offset => Fits offset finish.node
  | .afterAnchor => FitsFrom 0 0 finish.next
  | .beforeAnchor => Fits 0 finish.node

/-! ## characters -/

section
variable {t : Text}

theorem char_eq_nil {i : Int} (h : ¬ (0 ≤ i ∧ i < t.length)) : t.char i = [] := if_neg h

theorem inside_of_char {i : Int} (h : t.char i ≠ []) : 0 ≤ i ∧ i < t.length := by
  by_contra hout
  exact h (char_eq_nil hout)

theorem noneFrom_length : t.NoneFrom t.length := fun _ hj => char_eq_nil (by omega)

theorem gives_text : gives (.text t) = true ↔ t.Rendered := by
  simp only [gives, List.any_eq_true, List.mem_range, Bool.not_eq_true', List.isEmpty_eq_false_iff]
  constructor
  · rintro ⟨i, -, hi⟩
    exact ⟨i, hi⟩
  · rintro ⟨i, hi⟩
    have hin := inside_of_char hi
    exact ⟨i.toNat, by omega, by rwa [Int.toNat_of_nonneg hin.1]⟩

theorem pointsOf_isSome {rects : List IntRect} {fromRight : Bool} : (pointsOf rects fromRight).isSome = !rects.isEmpty := by
  cases rects <;> rfl

/-! ## the scans -/

theorem forward_asked {fuel : Nat} {s : Int} {asked asked' : List Int} {rects rects' : List IntRect}
    (h : forward t fuel s asked rects = some (asked', rects')) : asked ⊆ asked' := by
  induction fuel generalizing s asked rects with
  | zero => simp [forward] at h
  | succ fuel ih =>
    rw [forward] at h
    split at h
    · exact List.Subset.trans (List.subset_append_left _ _) (ih h)
    · cases h
      exact List.Subset.refl _

theorem backward_asked {fuel : Nat} {s : Int} {fromRight fromRight' : Bool} {asked asked' : List Int}
    {rects rects' : List IntRect} (h : backward t fuel s fromRight asked rects = some (asked', rects', fromRight')) :
    asked ⊆ asked' := by
  induction fuel generalizing s fromRight asked rects with
  | zero => simp [backward] at h
  | succ fuel ih =>
    rw [backward] at h
    split at h
    · exact List.Subset.trans (List.subset_append_left _ _) (ih h)
    · cases h
      exact List.Subset.refl _

theorem forward_total {fuel : Nat} {s : Int} (hs : s < t.length) (hfuel : t.length - s ≤ fuel) (asked : List Int)
    (rects : List IntRect) : ∃ r, forward t fuel s asked rects = some r := by
  induction fuel generalizing s asked rects with
  | zero => omega
  | succ fuel ih =>
    rw [forward]
    split
    · exact ih (by omega) (by omega) _ _
    · exact ⟨_, rfl⟩

theorem backward_total {fuel : Nat} {s : Int} (hs : 0 ≤ s) (hfuel : s < fuel) (fromRight : Bool) (asked : List Int)
    (rects : List IntRect) : ∃ r, backward t fuel s fromRight asked rects = some r := by
  induction fuel generalizing s fromRight asked rects with
  | zero => omega
  | succ fuel ih =>
    rw [backward]
    split
    · exact ih (by omega) (by omega) _ _ _
    · exact ⟨_, rfl⟩

theorem forward_spec {fuel : Nat} {s : Int} (hs : 0 ≤ s) (hlt : s < t.length) {asked asked' : List Int}
    (hasked : ∀ i ∈ asked, 0 ≤ i ∧ i < t.length) {rects : List IntRect}
    (h : forward t fuel s asked (t.char s) = some (asked', rects)) : (∀ i ∈ asked', 0 ≤ i ∧ i < t.length) ∧
      ((∃ i, t.FirstFrom s i ∧ rects = t.char i) ∨ (t.NoneFrom s ∧ rects = [])) := by
  induction fuel generalizing s asked with
  | zero => simp [forward] at h
  | succ fuel ih =>
    rw [forward] at h
    split at h
    · rename_i hmore
      have hnext : ∀ i ∈ asked ++ [s + 1], 0 ≤ i ∧ i < t.length := by
        rw [List.forall_mem_append]
        exact ⟨hasked, List.forall_mem_singleton.mpr (by omega)⟩
      obtain ⟨hinside, ⟨i, ⟨hle, hne, hbefore⟩, hrects⟩ | ⟨hnone, hrects⟩⟩ := ih (by omega) (by omega) hnext h
      · refine ⟨hinside, Or.inl ⟨i, ⟨by omega, hne, fun j hj hji => ?_⟩, hrects⟩⟩
        by_cases hjs : j = s
        · rw [hjs, hmore.1]
        · exact hbefore j (by omega) hji
      · refine ⟨hinside, Or.inr ⟨fun j hj => ?_, hrects⟩⟩
        by_cases hjs : j = s
        · rw [hjs, hmore.1]
        · exact hnone j (by omega)
    · rename_i hstop
      cases h
      refine ⟨hasked, ?_⟩
      by_cases hempty : t.char s = []
      · refine Or.inr ⟨fun j hj => ?_, hempty⟩
        by_cases hjs : j = s
        · rw [hjs, hempty]
        · exact char_eq_nil (by have : s + 1 = t.length := by tauto
                                omega)
      · exact Or.inl ⟨s, ⟨le_refl s, hempty, fun j hj hjs => absurd hjs (by omega)⟩, rfl⟩

theorem backward_spec {fuel : Nat} {s : Int} (hs : 0 ≤ s) (hlt : s < t.length) {fromRight fromRight' : Bool}
    {asked asked' : List Int} (hasked : ∀ i ∈ asked, 0 ≤ i ∧ i < t.length) {rects : List IntRect}
    (hempty : t.char s = []) (h : backward t fuel s fromRight asked [] = some (asked', rects, fromRight')) :
    (∀ i ∈ asked', 0 ≤ i ∧ i < t.length) ∧
      ((∃ i, t.LastBefore s i ∧ rects = t.char i ∧ fromRight' = true) ∨ ((∀ j < s, t.char j = []) ∧ rects = [])) := by
  induction fuel generalizing s fromRight asked with
  | zero => simp [backward] at h
  | succ fuel ih =>
    rw [backward] at h
    split at h
    · rename_i hmore
      have hpos : 0 ≤ s - 1 := by omega
      have hnext : ∀ i ∈ asked ++ [s - 1], 0 ≤ i ∧ i < t.length := by
        rw [List.forall_mem_append]
        exact ⟨hasked, List.forall_mem_singleton.mpr (by omega)⟩
      by_cases hprev : t.char (s - 1) = []
      · rw [hprev] at h
        obtain ⟨hinside, ⟨i, ⟨hle, hne, hafter⟩, hrects⟩ | ⟨hnone, hrects⟩⟩ := ih hpos (by omega) hnext hprev h
        · refine ⟨hinside, Or.inl ⟨i, ⟨by omega, hne, fun j hj hji => ?_⟩, hrects⟩⟩
          by_cases hjs : j = s - 1
          · rw [hjs, hprev]
          · exact hafter j hj (by omega)
        · refine ⟨hinside, Or.inr ⟨fun j hj => ?_, hrects⟩⟩
          by_cases hjs : j = s - 1
          · rw [hjs, hprev]
          · exact hnone j (by omega)
      · have hstop : backward t fuel (s - 1) true (asked ++ [s - 1]) (t.char (s - 1)) = some (asked', rects, fromRight') := h
        cases fuel with
        | zero => simp [backward] at hstop
        | succ fuel =>
          rw [backward, if_neg (by tauto)] at hstop
          cases hstop
          exact ⟨hnext, Or.inl ⟨s - 1, ⟨by omega, hprev, fun j hj hjs => absurd hjs (by omega)⟩, rfl, rfl⟩⟩
    · rename_i hstop
      cases h
      have hzero : s = 0 := by tauto
      exact ⟨hasked, Or.inr ⟨fun j hj => char_eq_nil (by omega), rfl⟩⟩

/-! ## one node -/

theorem text_asked {fuel : Nat} {k : Int} {fromRight : Bool} {asked : List Int} {found : Option Points}
    (h : getSelectionTopBottomFromNode fuel (.text t) k fromRight = some (asked, found)) :
    (if k = t.length then k - 1 else k) ∈ asked := by
  obtain ⟨⟨asked₁, rects₁⟩, hforward, h⟩ := Option.bind_eq_some_iff.mp h
  obtain ⟨⟨asked₂, rects₂, fromRight₂⟩, hbackward, h⟩ := Option.map_eq_some_iff.mp h
  cases h
  exact backward_asked hbackward (forward_asked hforward (List.mem_singleton_self _))

theorem text_total {fuel : Nat} {k : Int} (hk : 0 ≤ k) (hpos : 0 < t.length) (hle : k ≤ t.length)
    (hfuel : t.length < fuel) (fromRight : Bool) :
    ∃ r, getSelectionTopBottomFromNode fuel (.text t) k fromRight = some r := by
  have hs : 0 ≤ (if k = t.length then k - 1 else k) ∧ (if k = t.length then k - 1 else k) < t.length := by
    split <;> omega
  rw [getSelectionTopBottomFromNode]
  generalize (if k = t.length then k - 1 else k) = s at hs
  generalize (if k = t.length then true else fromRight) = right
  have hback : s < fuel := by omega
  obtain ⟨⟨asked, rects⟩, hforward⟩ := @forward_total t fuel s hs.2 (by omega) [s] (t.char s)
  obtain ⟨⟨asked', rects', right'⟩, hbackward⟩ := @backward_total t fuel s hs.1 hback right asked rects
  refine ⟨(asked', pointsOf rects' right'), ?_⟩
  simp [hforward, hbackward]

theorem forward_never {fuel : Nat} {s : Int} (hs : t.length ≤ s) (asked : List Int) :
    forward t fuel s asked [] = none := by
  induction fuel generalizing s asked with
  | zero => rfl
  | succ fuel ih =>
    rw [forward, if_pos ⟨rfl, by omega⟩, char_eq_nil (by omega)]
    exact ih (by omega) _

theorem backward_never {fuel : Nat} {s : Int} (hs : s < 0) (fromRight : Bool) (asked : List Int) :
    backward t fuel s fromRight asked [] = none := by
  induction fuel generalizing s fromRight asked with
  | zero => rfl
  | succ fuel ih =>
    rw [backward, if_pos ⟨rfl, by omega⟩, char_eq_nil (by omega)]
    exact ih (by omega) _ _

/-- In an empty text, or behind the end of one, a scan has passed the place where it would end. -/
theorem text_never {k : Int} (hk : 0 ≤ k) (h : ¬ (0 < t.length ∧ k ≤ t.length)) (fuel : Nat) (fromRight : Bool) :
    getSelectionTopBottomFromNode fuel (.text t) k fromRight = none := by
  rw [getSelectionTopBottomFromNode]
  by_cases hend : k = t.length
  · have hzero : t.length = 0 := by omega
    have hs : k - 1 = -1 := by omega
    rw [if_pos hend, if_pos hend, hs, char_eq_nil (by omega)]
    cases hforward : forward t fuel (-1) [-1] [] with
    | none => rfl
    | some r =>
      have hstop : r = ([-1], []) := by
        cases fuel with
        | zero => simp [forward] at hforward
        | succ fuel =>
          rw [forward, if_neg (by omega)] at hforward
          exact (Option.some.inj hforward).symm
      rw [hstop, Option.bind_some]
      show (backward t fuel (-1) true [-1] []).map _ = none
      rw [backward_never (by omega), Option.map_none]
  · rw [if_neg hend, if_neg hend, char_eq_nil (by omega), forward_never (by omega), Option.bind_none]

theorem text_spec {fuel : Nat} {k : Int} {fromRight : Bool} (hk : 0 ≤ k) (hpos : 0 < t.length) (hle : k ≤ t.length)
    {asked : List Int} {found : Option Points}
    (h : getSelectionTopBottomFromNode fuel (.text t) k fromRight = some (asked, found)) {s : Int}
    (hs : s = if k = t.length then k - 1 else k) : (∀ i ∈ asked, 0 ≤ i ∧ i < t.length) ∧
      ((∃ i, t.FirstFrom s i ∧ found = pointsOf (t.char i) (if k = t.length then true else fromRight)) ∨
        (t.NoneFrom s ∧ ∃ i, t.LastBefore s i ∧ found = pointsOf (t.char i) true) ∨ (¬ t.Rendered ∧ found = none)) := by
  obtain ⟨⟨asked₁, rects₁⟩, hforward, h⟩ := Option.bind_eq_some_iff.mp h
  obtain ⟨⟨asked₂, rects₂, fromRight₂⟩, hbackward, h⟩ := Option.map_eq_some_iff.mp h
  have hasked : asked₂ = asked := congrArg Prod.fst h
  have hresult : pointsOf rects₂ fromRight₂ = found := congrArg Prod.snd h
  rw [← hs] at hforward hbackward
  rw [← hasked, ← hresult]
  have hin : 0 ≤ s ∧ s < t.length := by
    rw [hs]
    split <;> omega
  obtain ⟨hinside, ⟨i, hfirst, hrects⟩ | ⟨hnone, hrects⟩⟩ :=
    forward_spec hin.1 hin.2 (List.forall_mem_singleton.mpr hin) hforward
  · have hkeep : (asked₂, rects₂, fromRight₂) = (asked₁, rects₁, if k = t.length then true else fromRight) := by
      cases fuel with
      | zero => simp [backward] at hbackward
      | succ fuel =>
        rw [backward, if_neg (by rw [hrects]; exact fun hboth => hfirst.2.1 hboth.1)] at hbackward
        exact (Option.some.inj hbackward).symm
    cases hkeep
    exact ⟨hinside, Or.inl ⟨i, hfirst, by rw [hrects]⟩⟩
  · rw [hrects] at hbackward
    obtain ⟨hinside', ⟨i, hlast, hrects', hright⟩ | ⟨hbefore, hrects'⟩⟩ :=
      backward_spec hin.1 hin.2 hinside (hnone s (le_refl s)) hbackward
    · exact ⟨hinside', Or.inr (Or.inl ⟨hnone, i, hlast, by rw [hrects', hright]⟩)⟩
    · refine ⟨hinside', Or.inr (Or.inr ⟨?_, by rw [hrects']; rfl⟩)⟩
      rintro ⟨i, hi⟩
      by_cases his : i < s
      · exact hi (hbefore i his)
      · exact hi (hnone i (by omega))

theorem lastBefore_length {s i : Int} (hs : t.NoneFrom s) (hi : t.LastBefore s i) : t.LastBefore t.length i := by
  obtain ⟨hlt, hne, hafter⟩ := hi
  refine ⟨(inside_of_char hne).2, hne, fun j hij hj => ?_⟩
  by_cases hjs : j < s
  · exact hafter j hij hjs
  · exact hs j (by omega)

theorem firstFrom_unique {k i i' : Int} (hi : t.FirstFrom k i) (hi' : t.FirstFrom k i') : i = i' := by
  by_contra hdiff
  rcases lt_or_gt_of_ne hdiff with hlt | hgt
  · exact hi.2.1 (hi'.2.2 i hi.1 hlt)
  · exact hi'.2.1 (hi.2.2 i' hi'.1 hgt)

theorem lastBefore_unique {k j j' : Int} (hj : t.LastBefore k j) (hj' : t.LastBefore k j') : j = j' := by
  by_contra hdiff
  rcases lt_or_gt_of_ne hdiff with hlt | hgt
  · exact hj'.2.1 (hj.2.2 j' hlt hj'.1)
  · exact hj.2.1 (hj'.2.2 j hgt hj.1)

theorem Text.Reports.unique {k : Int} {a b : Option Points} (ha : t.Reports k a) (hb : t.Reports k b) : a = b := by
  obtain ⟨i, hi, rfl⟩ | ⟨hnone, i, hi, rfl⟩ := ha
  · obtain ⟨i', hi', rfl⟩ | ⟨hnone, -⟩ := hb
    · rw [firstFrom_unique hi hi']
    · exact absurd (hnone i hi.1) hi.2.1
  · obtain ⟨i', hi', -⟩ | ⟨-, i', hi', rfl⟩ := hb
    · exact absurd (hnone i' hi'.1) hi'.2.1
    · rw [lastBefore_unique hi hi']

theorem Text.Reports.rendered {k : Int} {found : Option Points} (h : t.Reports k found) : t.Rendered := by
  obtain ⟨i, hi, -⟩ | ⟨-, i, hi, -⟩ := h <;> exact ⟨i, hi.2.1⟩

theorem exists_lastBefore (m : Nat) {i : Int} (hi : i < m) (hne : t.char i ≠ []) : ∃ j, t.LastBefore m j := by
  induction m with
  | zero =>
    have hin := inside_of_char hne
    omega
  | succ m ih =>
    by_cases hm : t.char m = []
    · have him : i ≠ m := by
        rintro rfl
        exact hne hm
      obtain ⟨j, hlt, hj, hafter⟩ := ih (by omega)
      refine ⟨j, by omega, hj, fun j' hjj' hj' => ?_⟩
      by_cases hjm : j' = m
      · rw [hjm, hm]
      · exact hafter j' hjj' (by omega)
    · exact ⟨m, by omega, hm, fun j' hmj' hj' => absurd hmj' (by omega)⟩

theorem exists_last (h : t.Rendered) : ∃ j, t.LastBefore t.length j := by
  obtain ⟨i, hi⟩ := h
  exact exists_lastBefore t.length (inside_of_char hi).2 hi

theorem reports_length {j : Int} (hj : t.LastBefore t.length j) {found : Option Points} :
    t.Reports t.length found ↔ found = pointsOf (t.char j) true := by
  constructor
  · rintro (⟨i, ⟨hle, hne, -⟩, -⟩ | ⟨-, j', hj', hfound⟩)
    · have hin := inside_of_char hne
      omega
    · rw [hfound, lastBefore_unique hj' hj]
  · intro hfound
    exact Or.inr ⟨noneFrom_length, j, hj, hfound⟩

theorem text_reports {fuel : Nat} {k : Int} (hk : 0 ≤ k) (hpos : 0 < t.length) (hle : k ≤ t.length)
    {asked : List Int} {found : Option Points}
    (h : getSelectionTopBottomFromNode fuel (.text t) k false = some (asked, found)) (hrendered : t.Rendered) :
    t.Reports k found := by
  by_cases hend : k = t.length
  · have hs : k - 1 = if k = t.length then k - 1 else k := by rw [if_pos hend]
    obtain ⟨-, ⟨i, ⟨hle', hne, -⟩, hfound⟩ | ⟨hnone, i, hlast, hfound⟩ | ⟨hnot, -⟩⟩ := text_spec hk hpos hle h hs
    · have hi : i = k - 1 := by
        have hin := inside_of_char hne
        omega
      rw [if_pos hend] at hfound
      refine Or.inr ⟨by rw [hend]; exact noneFrom_length, i, ⟨by omega, hne, fun j hij hj => absurd hij (by omega)⟩, hfound⟩
    · refine Or.inr ⟨by rw [hend]; exact noneFrom_length, i, ?_, hfound⟩
      rw [hend]
      exact lastBefore_length hnone hlast
    · exact absurd hrendered hnot
  · have hs : k = if k = t.length then k - 1 else k := by rw [if_neg hend]
    obtain ⟨-, ⟨i, hfirst, hfound⟩ | ⟨hnone, i, hlast, hfound⟩ | ⟨hnot, -⟩⟩ := text_spec hk hpos hle h hs
    · rw [if_neg hend] at hfound
      exact Or.inl ⟨i, hfirst, hfound⟩
    · exact Or.inr ⟨hnone, i, hlast, hfound⟩
    · exact absurd hrendered hnot

theorem pointsOf_char {i : Int} (h : t.char i ≠ []) (fromRight : Bool) :
    (pointsOf (t.char i) fromRight).isSome = true := by
  rw [pointsOf_isSome, Bool.not_eq_true', List.isEmpty_eq_false_iff]
  exact h

theorem text_found {fuel : Nat} {k : Int} {fromRight : Bool} (hk : 0 ≤ k) (hpos : 0 < t.length) (hle : k ≤ t.length)
    {asked : List Int} {found : Option Points}
    (h : getSelectionTopBottomFromNode fuel (.text t) k fromRight = some (asked, found)) :
    found.isSome = true ↔ t.Rendered := by
  obtain ⟨-, ⟨i, ⟨-, hne, -⟩, hfound⟩ | ⟨-, i, ⟨-, hne, -⟩, hfound⟩ | ⟨hnot, hfound⟩⟩ := text_spec hk hpos hle h rfl
  · rw [hfound]
    exact iff_of_true (pointsOf_char hne _) ⟨i, hne⟩
  · rw [hfound]
    exact iff_of_true (pointsOf_char hne _) ⟨i, hne⟩
  · rw [hfound]
    exact iff_of_false (by simp) hnot

end

/-- turns enough for the scans of a node -/
def turns : Content → Nat
  | .text t => t.length + 1
  | _ => 0

section
variable {fuel : Nat} {node : Content} {k place : Int} {v : Visit}

theorem visit_eq (h : visit fuel node k place = some v) : v.node = node ∧ v.place = some place ∧
    getSelectionTopBottomFromNode fuel node k false = some (v.asked, v.found) := by
  obtain ⟨⟨asked, found⟩, hget, h⟩ := Option.map_eq_some_iff.mp h
  cases h
  exact ⟨rfl, rfl, hget⟩

theorem visitAfter_eq (h : visitAfter fuel node = some v) : v.node = node ∧ v.place = none ∧
    getSelectionTopBottomFromNode fuel node 0 true = some (v.asked, v.found) := by
  obtain ⟨⟨asked, found⟩, hget, h⟩ := Option.map_eq_some_iff.mp h
  cases h
  exact ⟨rfl, rfl, hget⟩

theorem visit_good (hk : 0 ≤ k) (h : visit fuel node k place = some v) :
    v.Good ↔ Fits k node ∧ SameEdge k place node := by
  obtain ⟨hnode, hplace, hget⟩ := visit_eq h
  constructor
  · intro hgood
    have hfits : Fits k node := by
      rintro t rfl
      have hin := (hgood t hnode).1 _ (text_asked hget)
      split at hin <;> omega
    refine ⟨hfits, ?_⟩
    rintro t rfl found hfound
    obtain ⟨hpos, hle⟩ := hfits t rfl
    have hreports := (hgood t hnode).2 hfound.rendered
    rw [hplace] at hreports
    rw [hfound.unique (text_reports hk hpos hle hget hfound.rendered)]
    exact hreports
  · rintro ⟨hfits, hsame⟩ t ht
    obtain rfl : node = .text t := hnode.symm.trans ht
    obtain ⟨hpos, hle⟩ := hfits t rfl
    refine ⟨(text_spec hk hpos hle hget rfl).1, fun hrendered => ?_⟩
    rw [hplace]
    exact hsame t rfl _ (text_reports hk hpos hle hget hrendered)

theorem visit_here (hk : 0 ≤ k) (h : visit fuel node k k = some v) : v.Good ↔ Fits k node :=
  (visit_good hk h).trans (and_iff_left fun _ _ _ hfound => hfound)

theorem visit_found (hk : 0 ≤ k) (hfits : Fits k node) (h : visit fuel node k place = some v) :
    v.found.isSome = gives node := by
  obtain ⟨-, -, hget⟩ := visit_eq h
  cases node with
  | noRenderer =>
    have hfound : none = v.found := congrArg Prod.snd (Option.some.inj hget)
    rw [← hfound]
    rfl
  | br rects | box rects =>
    have hfound : pointsOf rects false = v.found := congrArg Prod.snd (Option.some.inj hget)
    rw [← hfound, pointsOf_isSome]
    rfl
  | text t =>
    obtain ⟨hpos, hle⟩ := hfits t rfl
    rw [Bool.eq_iff_iff, text_found hk hpos hle hget, gives_text]

theorem visit_total (hk : 0 ≤ k) (hfits : Fits k node) (hfuel : turns node ≤ fuel) (place : Int) :
    ∃ v, visit fuel node k place = some v := by
  cases node with
  | noRenderer | br | box => exact ⟨_, rfl⟩
  | text t =>
    obtain ⟨hpos, hle⟩ := hfits t rfl
    obtain ⟨r, hget⟩ := text_total hk hpos hle (show t.length < fuel from hfuel) false
    exact ⟨_, by rw [visit, hget, Option.map_some]⟩

/-- Behind a text the right edge of its first character is given, where that of its last one is meant. -/
theorem visitAfter_good (h : visitAfter fuel node = some v) : v.Good ↔ OneEdge node := by
  obtain ⟨hnode, hplace, hget⟩ := visitAfter_eq h
  have hmeant : ∀ t, node = .text t → 0 < t.length → ((∀ i ∈ v.asked, 0 ≤ i ∧ i < t.length) ∧
      (t.Rendered → t.Reports (v.place.getD t.length) v.found) ↔ ∀ i j, t.FirstFrom 0 i → t.LastBefore t.length j →
        pointsOf (t.char i) true = pointsOf (t.char j) true) := by
    rintro t rfl hpos
    have hzero : ¬ (0 : Int) = t.length := by omega
    have hs : (0 : Int) = if (0 : Int) = t.length then 0 - 1 else 0 := by rw [if_neg hzero]
    obtain ⟨hinside, hcases⟩ := text_spec (le_refl 0) hpos (by omega) hget hs
    rw [if_neg hzero] at hcases
    rw [hplace, Option.getD_none]
    obtain ⟨i, hfirst, hfound⟩ | ⟨-, i, ⟨hlt, hne, -⟩, -⟩ | ⟨hnot, -⟩ := hcases
    · have hrendered : t.Rendered := ⟨i, hfirst.2.1⟩
      obtain ⟨j, hlast⟩ := exists_last hrendered
      rw [reports_length hlast, hfound]
      constructor
      · rintro ⟨-, hedge⟩ i' j' hi' hj'
        rw [firstFrom_unique hi' hfirst, lastBefore_unique hj' hlast]
        exact hedge hrendered
      · intro hedge
        exact ⟨hinside, fun _ => hedge i j hfirst hlast⟩
    · have hin := inside_of_char hne
      omega
    · apply iff_of_true
      · exact ⟨hinside, fun hrendered => absurd hrendered hnot⟩
      · intro i j hi
        exact absurd ⟨i, hi.2.1⟩ hnot
  constructor
  · rintro hgood t rfl
    have hpos : 0 < t.length := by
      have hin := (hgood t hnode).1 _ (text_asked hget)
      split at hin <;> omega
    exact ⟨hpos, (hmeant t rfl hpos).mp (hgood t hnode)⟩
  · intro hedge t ht
    obtain rfl : node = .text t := hnode.symm.trans ht
    obtain ⟨hpos, hsame⟩ := hedge t rfl
    exact (hmeant t rfl hpos).mpr hsame

theorem visitAfter_total (hedge : OneEdge node) (hfuel : turns node ≤ fuel) : ∃ v, visitAfter fuel node = some v := by
  cases node with
  | noRenderer | br | box => exact ⟨_, rfl⟩
  | text t =>
    obtain ⟨r, hget⟩ := text_total (le_refl 0) (hedge t rfl).1 (by omega) (show t.length < fuel from hfuel) true
    exact ⟨_, by rw [visitAfter, hget, Option.map_some]⟩

end

/-! ## a walk -/

section
variable {fuel : Nat} {k place : Int} {nodes : List Content}

theorem fits_of_walk (hk : 0 ≤ k) {vs : List Visit} (h : walk fuel k place nodes = some vs)
    (hgood : ∀ v ∈ vs, v.Good) : FitsFrom k place nodes := by
  induction nodes generalizing place vs with
  | nil => trivial
  | cons node nodes ih =>
    obtain ⟨v, hvisit, h⟩ := Option.bind_eq_some_iff.mp h
    have hfirst : v ∈ vs := by
      split at h
      · cases h
        exact List.mem_cons_self
      · obtain ⟨vs', -, rfl⟩ := Option.map_eq_some_iff.mp h
        exact List.mem_cons_self
    have hfits := (visit_good hk hvisit).mp (hgood v hfirst)
    refine ⟨hfits, fun hnone => ?_⟩
    rw [visit_found hk hfits.1 hvisit, hnone, if_neg Bool.false_ne_true] at h
    obtain ⟨vs', hrest, rfl⟩ := Option.map_eq_some_iff.mp h
    exact ih hrest fun v' hv' => hgood v' (List.mem_cons_of_mem v hv')

theorem walk_good (hk : 0 ≤ k) (hfits : FitsFrom k place nodes)
    (hfuel : (nodes.map turns).sum ≤ fuel) : ∃ vs, walk fuel k place nodes = some vs ∧ ∀ v ∈ vs, v.Good := by
  induction nodes generalizing place with
  | nil => exact ⟨[], rfl, by simp⟩
  | cons node nodes ih =>
    rw [List.map_cons, List.sum_cons] at hfuel
    obtain ⟨hnode, hrest⟩ := hfits
    obtain ⟨v, hvisit⟩ := visit_total hk hnode.1 (show turns node ≤ fuel by omega) place
    have hgood := (visit_good hk hvisit).mpr hnode
    rw [walk, hvisit, Option.bind_some, visit_found hk hnode.1 hvisit]
    split
    · exact ⟨[v], rfl, List.forall_mem_singleton.mpr hgood⟩
    · next hnone =>
      obtain ⟨vs, hvs, hall⟩ := ih (hrest (Bool.eq_false_of_not_eq_true hnone)) (by omega)
      exact ⟨v :: vs, by rw [hvs, Option.map_some], List.forall_mem_cons.mpr ⟨hgood, hall⟩⟩

/-! ## the start and the end -/

/-! only one node is asked -/

theorem fits_of_alone {o : Option Visit} {P : Prop} (hiff : ∀ v, o = some v → (v.Good ↔ P)) {vs : List Visit}
    (h : o.map (fun v => [v]) = some vs) (hgood : ∀ v ∈ vs, v.Good) : P := by
  obtain ⟨v, hvisit, rfl⟩ := Option.map_eq_some_iff.mp h
  exact (hiff v hvisit).mp (hgood v List.mem_cons_self)

theorem good_of_alone {o : Option Visit} {P : Prop} (hiff : ∀ v, o = some v → (v.Good ↔ P)) (hp : P)
    (htotal : ∃ v, o = some v) : ∃ vs, o.map (fun v => [v]) = some vs ∧ ∀ v ∈ vs, v.Good := by
  obtain ⟨v, hvisit⟩ := htotal
  refine ⟨[v], ?_, List.forall_mem_singleton.mpr ((hiff v hvisit).mpr hp)⟩
  rw [hvisit, Option.map_some]

/-- turns enough for an end of the selection -/
def Position.turns (p : Position) : Nat := ((p.node :: p.next).map Handles.turns).sum

theorem startFits_of_good {start : Position} {vs : List Visit} (h : startVisits fuel start = some vs)
    (hgood : ∀ v ∈ vs, v.Good) : StartFits start := by
  unfold startVisits at h
  unfold StartFits
  cases hanchor : start.anchor with
  | offsetInAnchor offset =>
    rw [hanchor] at h
    exact fits_of_walk (Int.natCast_nonneg offset) h hgood
  | beforeAnchor =>
    rw [hanchor] at h
    exact fits_of_alone (fun _ => visit_here (le_refl 0)) h hgood
  | afterAnchor =>
    rw [hanchor] at h
    exact fits_of_alone (fun _ => visitAfter_good) h hgood

theorem startVisits_good {start : Position} (hfits : StartFits start) (hfuel : start.turns ≤ fuel) :
    ∃ vs, startVisits fuel start = some vs ∧ ∀ v ∈ vs, v.Good := by
  have hnode : turns start.node ≤ fuel := by
    rw [Position.turns, List.map_cons, List.sum_cons] at hfuel
    omega
  unfold startVisits
  unfold StartFits at hfits
  cases hanchor : start.anchor with
  | offsetInAnchor offset =>
    rw [hanchor] at hfits
    exact walk_good (Int.natCast_nonneg offset) hfits hfuel
  | beforeAnchor =>
    rw [hanchor] at hfits
    exact good_of_alone (fun _ => visit_here (le_refl 0)) hfits (visit_total (le_refl 0) hfits hnode 0)
  | afterAnchor =>
    rw [hanchor] at hfits
    exact good_of_alone (fun _ => visitAfter_good) hfits (visitAfter_total hfits hnode)

theorem endFits_of_good {finish : Position} {vs : List Visit} (h : endVisits fuel finish = some vs)
    (hgood : ∀ v ∈ vs, v.Good) : EndFits finish := by
  unfold endVisits at h
  unfold EndFits
  cases hanchor : finish.anchor with
  | offsetInAnchor offset =>
    rw [hanchor] at h
    exact fits_of_alone (fun _ => visit_here (Int.natCast_nonneg offset)) h hgood
  | afterAnchor =>
    rw [hanchor] at h
    exact fits_of_walk (le_refl 0) h hgood
  | beforeAnchor =>
    rw [hanchor] at h
    exact fits_of_alone (fun _ => visit_here (le_refl 0)) h hgood

theorem endVisits_good {finish : Position} (hfits : EndFits finish) (hfuel : finish.turns ≤ fuel) :
    ∃ vs, endVisits fuel finish = some vs ∧ ∀ v ∈ vs, v.Good := by
  rw [Position.turns, List.map_cons, List.sum_cons] at hfuel
  have hnode : turns finish.node ≤ fuel := by omega
  unfold endVisits
  unfold EndFits at hfits
  cases hanchor : finish.anchor with
  | offsetInAnchor offset =>
    rw [hanchor] at hfits
    have hk := Int.natCast_nonneg offset
    exact good_of_alone (fun _ => visit_here hk) hfits (visit_total hk hfits hnode offset)
  | afterAnchor =>
    rw [hanchor] at hfits
    exact walk_good (le_refl 0) hfits (by omega)
  | beforeAnchor =>
    rw [hanchor] at hfits
    exact good_of_alone (fun _ => visit_here (le_refl 0)) hfits (visit_total (le_refl 0) hfits hnode 0)

end

/-- The handles are what they should be exactly if the offsets fit the texts that are reached. -/
theorem handled_iff (start finish : Position) : Handled start finish ↔ StartFits start ∧ EndFits finish := by
  constructor
  · rintro ⟨fuel, starts, ends, h, hgood⟩
    rw [List.forall_mem_append] at hgood
    obtain ⟨vs, hstart, h⟩ := Option.bind_eq_some_iff.mp h
    obtain ⟨vs', hend, h⟩ := Option.map_eq_some_iff.mp h
    cases h
    exact ⟨startFits_of_good hstart hgood.1, endFits_of_good hend hgood.2⟩
  · rintro ⟨hstart, hend⟩
    obtain ⟨starts, hstarts, hgood⟩ := @startVisits_good (start.turns + finish.turns) start hstart (by omega)
    obtain ⟨ends, hends, hgood'⟩ := @endVisits_good (start.turns + finish.turns) finish hend (by omega)
    refine ⟨start.turns + finish.turns, starts, ends, ?_, List.forall_mem_append.mpr ⟨hgood, hgood'⟩⟩
    rw [selectionStartEnd, hstarts, Option.bind_some, hends, Option.map_some]

/-- two letters behind each other -/
def ab : Text where
  length := 2
  rects i := [⟨i * 10, 0, 10, 20⟩]

/-- white space that is collapsed -/
def blank : Text where
  length := 5
  rects _ := []

/-- The offset 5 lies behind the white space, and outside of the text that is asked next: the scan never ends. -/
theorem offset_of_another :
    (∀ fuel, selectionStartEnd fuel ⟨.text blank, [.text ab], .offsetInAnchor 5⟩
      ⟨.text ab, [], .offsetInAnchor 2⟩ = none) ∧
      ¬ Handled ⟨.text blank, [.text ab], .offsetInAnchor 5⟩ ⟨.text ab, [], .offsetInAnchor 2⟩ := by
  have hnever : ∀ fuel, selectionStartEnd fuel ⟨.text blank, [.text ab], .offsetInAnchor 5⟩
      ⟨.text ab, [], .offsetInAnchor 2⟩ = none := by
    intro fuel
    have hab : visit fuel (.text ab) 5 0 = none := by
      rw [visit, text_never (by omega) (by decide), Option.map_none]
    have hwalk : walk fuel 5 5 [.text blank, .text ab] = none := by
      rw [walk, walk, hab, Option.bind_none]
      cases hblank : visit fuel (.text blank) 5 5 with
      | none => rfl
      | some v =>
        have hgives : gives (.text blank) = false := by decide
        have hfound := visit_found (by omega) (by rintro _ ⟨⟩; decide) hblank
        rw [Option.bind_some, hfound, hgives]
        rfl
    show (walk fuel 5 5 [.text blank, .text ab]).bind _ = none
    rw [hwalk, Option.bind_none]
  refine ⟨hnever, ?_⟩
  rintro ⟨fuel, starts, ends, h, -⟩
  rw [hnever fuel] at h
  exact absurd h (by simp)

end Wkc.Handles
