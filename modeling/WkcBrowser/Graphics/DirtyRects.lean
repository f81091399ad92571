import WkcBrowser.Lib.Runs
import Mathlib.Algebra.Group.Int.Defs
import Mathlib.Data.Set.Lattice
import Mathlib.Data.Int.Order.Basic

/-!
# The dirty rectangles of a composited layer

* `addDirtyRect`, `addWholeLayer`       the two overloads of `GraphicsLayerPrivate::addDirtyRect`;
* `Call`, `step`                        what a layer is told between two frames;
* `covered`                             the area of a list of rectangles;
* `addDirtyRect_covered`                the area after a call is the area before it and the new rectangle;
* `invalidated_covered`                 so inside the layer the area is what has been invalidated, over every run.

Coordinates are of any linear order with a sum that leaves `x + 0` alone; no other law of the sum is used.
-/

namespace Wkc
namespace Dirty
open Runs

structure WKCFloatRect (α : Type*) where
  fX : α
  fY : α
  fWidth : α
  fHeight : α
  deriving DecidableEq

inductive Call (α : Type*) where
  | setNeedsDisplay
  | setNeedsDisplayInRect (fr : WKCFloatRect α)
  | setContentsNeedsDisplay
  | resetDirtyRects
  -- `layer`: there is one to be displayed
  | layerDidDisplay (layer : Bool)

/-- `notified` counts the calls of `notifySyncRequired`. -/
structure Layer (α : Type*) where
  m_dirtyrects : List (WKCFloatRect α) := []
  m_needsDisplay : Bool := false
  notified : Nat := 0

section
variable {α : Type*} [LinearOrder α] [AddZeroClass α] (WKCFloatRect_ContainRect : WKCFloatRect α → WKCFloatRect α → Bool)
  (width height : α) (client : Bool)

/-! ## the functions of the source -/

def addDirtyRect (m_dirtyrects : List (WKCFloatRect α)) (rect : WKCFloatRect α) : Bool × List (WKCFloatRect α) :=
  if rect.fWidth = 0 ∨ rect.fHeight = 0 then (false, m_dirtyrects)
  else if m_dirtyrects.any fun r => WKCFloatRect_ContainRect r rect then (false, m_dirtyrects)
  else
    match m_dirtyrects.getLast? with
    | some lastAdded =>
      if WKCFloatRect_ContainRect rect lastAdded then (true, m_dirtyrects.dropLast ++ [rect])
      else (true, m_dirtyrects ++ [rect])
    | none => (true, m_dirtyrects ++ [rect])

def wholeLayer : WKCFloatRect α := { fX := 0, fY := 0, fWidth := width, fHeight := height }

/-- `addDirtyRect()`, for the whole layer -/
def addWholeLayer : Bool × List (WKCFloatRect α) := (true, [wholeLayer width height])

/-- what the three functions of `GraphicsLayerWKC` do with the answer of `addDirtyRect` -/
def Layer.notify (s : Layer α) (added : Bool × List (WKCFloatRect α)) : Layer α :=
  { s with
    m_dirtyrects := added.2
    notified := if added.1 && client then s.notified + 1 else s.notified }

def step (s : Layer α) : Call α → Layer α
  | .setNeedsDisplay => { s with m_needsDisplay := true }.notify client (addWholeLayer width height)
  | .setNeedsDisplayInRect fr =>
    { s with m_needsDisplay := true }.notify client (addDirtyRect WKCFloatRect_ContainRect s.m_dirtyrects fr)
  | .setContentsNeedsDisplay => s.notify client (addWholeLayer width height)
  | .resetDirtyRects => { s with m_dirtyrects := [] }
  | .layerDidDisplay layer => if layer then { s with m_dirtyrects := [] } else s

/-! ## what is wanted -/

def WKCFloatRect.points (r : WKCFloatRect α) : Set (α × α) :=
  {p | (r.fX ≤ p.1 ∧ p.1 < r.fX + r.fWidth) ∧ r.fY ≤ p.2 ∧ p.2 < r.fY + r.fHeight}

def covered (rects : List (WKCFloatRect α)) : Set (α × α) := {p | ∃ r ∈ rects, p ∈ r.points}

/-- the rectangles that have been invalidated since the last frame, after one more call -/
def invalidate (rects : List (WKCFloatRect α)) : Call α → List (WKCFloatRect α)
  | .setNeedsDisplay => rects ++ [wholeLayer width height]
  | .setNeedsDisplayInRect fr => rects ++ [fr]
  | .setContentsNeedsDisplay => rects ++ [wholeLayer width height]
  | .resetDirtyRects => []
  | .layerDidDisplay layer => if layer then [] else rects

def invalidated (calls : List (Call α)) : List (WKCFloatRect α) := calls.foldl (invalidate width height) []

def after (calls : List (Call α)) : Layer α :=
  run (step WKCFloatRect_ContainRect width height client) {} calls

/-- A run has lost no pixel, invented none, and told the client of each call that made the area larger. -/
structure Tracks (calls : List (Call α)) : Prop where
  kept : ∀ p ∈ (wholeLayer width height).points, p ∈ covered (invalidated width height calls) →
    p ∈ covered (after WKCFloatRect_ContainRect width height client calls).m_dirtyrects
  only : ∀ p ∈ (wholeLayer width height).points,
    p ∈ covered (after WKCFloatRect_ContainRect width height client calls).m_dirtyrects →
      p ∈ covered (invalidated width height calls)
  notified : ∀ pre call, pre ++ [call] <+: calls →
    ¬ covered (after WKCFloatRect_ContainRect width height client (pre ++ [call])).m_dirtyrects ⊆
      covered (after WKCFloatRect_ContainRect width height client pre).m_dirtyrects → client = true →
    (after WKCFloatRect_ContainRect width height client (pre ++ [call])).notified =
      (after WKCFloatRect_ContainRect width height client pre).notified + 1

/-! ## areas -/

section
variable {rects more : List (WKCFloatRect α)} {rect : WKCFloatRect α}

theorem covered_nil : covered ([] : List (WKCFloatRect α)) = ∅ := by
  ext p
  simp [covered]

theorem covered_append : covered (rects ++ more) = covered rects ∪ covered more := by
  ext p
  simp only [covered, Set.mem_ofPred_eq, Set.mem_union, List.mem_append]
  constructor
  · rintro ⟨r, hr | hr, hp⟩
    · exact Or.inl ⟨r, hr, hp⟩
    · exact Or.inr ⟨r, hr, hp⟩
  · rintro (⟨r, hr, hp⟩ | ⟨r, hr, hp⟩)
    · exact ⟨r, Or.inl hr, hp⟩
    · exact ⟨r, Or.inr hr, hp⟩

theorem covered_singleton : covered [rect] = rect.points := by
  ext p
  simp [covered]

theorem points_subset (h : rect ∈ rects) : rect.points ⊆ covered rects := fun _ hp => ⟨rect, h, hp⟩

theorem points_empty (h : rect.fWidth = 0 ∨ rect.fHeight = 0) : rect.points = ∅ := by
  ext p
  simp only [WKCFloatRect.points, Set.mem_ofPred_eq, Set.mem_empty_iff_false, iff_false]
  rintro ⟨⟨hleft, hright⟩, htop, hbottom⟩
  rcases h with h | h
  · rw [h, add_zero] at hright
    exact absurd hright (not_lt.mpr hleft)
  · rw [h, add_zero] at hbottom
    exact absurd hbottom (not_lt.mpr htop)

end

/-! ## one call -/

section
variable {WKCFloatRect_ContainRect}

theorem addDirtyRect_same {rects : List (WKCFloatRect α)} {rect : WKCFloatRect α}
    (h : (addDirtyRect WKCFloatRect_ContainRect rects rect).1 = false) :
    (addDirtyRect WKCFloatRect_ContainRect rects rect).2 = rects := by
  unfold addDirtyRect at h ⊢
  split
  · rfl
  · rename_i hsize
    rw [if_neg hsize] at h
    split
    · rfl
    · rename_i hany
      rw [if_neg hany] at h
      split at h
      · split at h <;> exact absurd h (by simp)
      · exact absurd h (by simp)

variable {width height client}

theorem step_notified (s : Layer α) (call : Call α)
    (hlarger : ¬ covered (step WKCFloatRect_ContainRect width height client s call).m_dirtyrects ⊆
      covered s.m_dirtyrects) (hclient : client = true) :
    (step WKCFloatRect_ContainRect width height client s call).notified = s.notified + 1 := by
  subst hclient
  have hnil : covered ([] : List (WKCFloatRect α)) ⊆ covered s.m_dirtyrects := by
    rw [covered_nil]
    exact Set.empty_subset _
  cases call with
  | setNeedsDisplay | setContentsNeedsDisplay => rfl
  | setNeedsDisplayInRect fr =>
    cases hadded : (addDirtyRect WKCFloatRect_ContainRect s.m_dirtyrects fr).1 with
    | true =>
      show (if (addDirtyRect WKCFloatRect_ContainRect s.m_dirtyrects fr).1 && true then _ else _) = _
      rw [hadded]
      rfl
    | false =>
      have hsame : (step WKCFloatRect_ContainRect width height true s (.setNeedsDisplayInRect fr)).m_dirtyrects =
        s.m_dirtyrects := addDirtyRect_same hadded
      rw [hsame] at hlarger
      exact absurd subset_rfl hlarger
  | resetDirtyRects => exact absurd hnil hlarger
  | layerDidDisplay layer =>
    cases layer with
    | false => exact absurd subset_rfl hlarger
    | true => exact absurd hnil hlarger

variable (hcontain : ∀ a b, WKCFloatRect_ContainRect a b = true → b.points ⊆ a.points)
include hcontain

theorem addDirtyRect_covered (rects : List (WKCFloatRect α)) (rect : WKCFloatRect α) :
    covered (addDirtyRect WKCFloatRect_ContainRect rects rect).2 = covered rects ∪ rect.points := by
  unfold addDirtyRect
  split
  · rename_i hsize
    rw [points_empty hsize, Set.union_empty]
  · split
    · -- a rectangle that is there already covers the new one
      rename_i hany
      obtain ⟨r, hr, hcontains⟩ := List.any_eq_true.mp hany
      rw [Set.union_eq_left.mpr ((hcontain r rect hcontains).trans (points_subset hr))]
    · split
      · rename_i lastAdded hlast
        split
        · -- the last one is overwritten by one that covers it
          rename_i hcontains
          have hsplit : rects = rects.dropLast ++ [lastAdded] := (List.dropLast_append_getLast? lastAdded hlast).symm
          have hlost : lastAdded.points ⊆ rect.points := hcontain rect lastAdded hcontains
          rw [covered_append, covered_singleton]
          conv_rhs => rw [hsplit, covered_append, covered_singleton]
          rw [Set.union_assoc, Set.union_eq_right.mpr hlost]
        · rw [covered_append, covered_singleton]
      · rw [covered_append, covered_singleton]

theorem step_area {s : Layer α} {rects : List (WKCFloatRect α)}
    (h : covered s.m_dirtyrects ∩ (wholeLayer width height).points = covered rects ∩ (wholeLayer width height).points)
    (client : Bool) (call : Call α) :
    covered (step WKCFloatRect_ContainRect width height client s call).m_dirtyrects ∩ (wholeLayer width height).points =
      covered (invalidate width height rects call) ∩ (wholeLayer width height).points := by
  have hwhole : covered [wholeLayer width height] ∩ (wholeLayer width height).points =
      covered (rects ++ [wholeLayer width height]) ∩ (wholeLayer width height).points := by
    rw [covered_append, covered_singleton, Set.inter_self, Set.union_inter_cancel_right]
  cases call with
  | setNeedsDisplay | setContentsNeedsDisplay => exact hwhole
  | setNeedsDisplayInRect fr =>
    show covered (addDirtyRect WKCFloatRect_ContainRect s.m_dirtyrects fr).2 ∩ _ = covered (rects ++ [fr]) ∩ _
    rw [addDirtyRect_covered hcontain, covered_append, covered_singleton, Set.union_inter_distrib_right, h,
      ← Set.union_inter_distrib_right]
  | resetDirtyRects => rfl
  | layerDidDisplay layer =>
    cases layer with
    | false => exact h
    | true => rfl

theorem invalidated_covered (width height : α) (client : Bool) (calls : List (Call α)) :
    covered (after WKCFloatRect_ContainRect width height client calls).m_dirtyrects ∩ (wholeLayer width height).points =
      covered (invalidated width height calls) ∩ (wholeLayer width height).points := by
  induction calls using List.reverseRecOn with
  | nil => rfl
  | append_singleton calls call ih =>
    have hstep := step_area hcontain ih client call
    unfold after run invalidated at hstep ⊢
    rwa [List.foldl_append, List.foldl_append]

end

/-- Between two frames no invalidated pixel is forgotten and none is added, and the client hears of every change. -/
theorem dirtyRects_track (hcontain : ∀ a b, WKCFloatRect_ContainRect a b = true → b.points ⊆ a.points)
    (calls : List (Call α)) : Tracks WKCFloatRect_ContainRect width height client calls := by
  have harea := invalidated_covered hcontain width height client calls
  refine ⟨?_, ?_, ?_⟩
  · intro p hp hcovered
    have hboth : p ∈ covered (invalidated width height calls) ∩ (wholeLayer width height).points := ⟨hcovered, hp⟩
    rw [← harea] at hboth
    exact hboth.1
  · intro p hp hcovered
    have hboth : p ∈ covered (after WKCFloatRect_ContainRect width height client calls).m_dirtyrects ∩
      (wholeLayer width height).points := ⟨hcovered, hp⟩
    rw [harea] at hboth
    exact hboth.1
  · intro pre call _ hlarger hclient
    have hlast : after WKCFloatRect_ContainRect width height client (pre ++ [call]) =
        step WKCFloatRect_ContainRect width height client (after WKCFloatRect_ContainRect width height client pre) call := by
      unfold after run
      rw [List.foldl_append]
      rfl
    rw [hlast] at hlarger ⊢
    exact step_notified _ call hlarger hclient

end

/-! ### whole numbers -/

def containRect (a b : WKCFloatRect Int) : Bool :=
  decide (a.fX ≤ b.fX) && decide (b.fX + b.fWidth ≤ a.fX + a.fWidth) && decide (a.fY ≤ b.fY) &&
    decide (b.fY + b.fHeight ≤ a.fY + a.fHeight)

theorem containRect_points (a b : WKCFloatRect Int) (h : containRect a b = true) : b.points ⊆ a.points := by
  simp only [containRect, Bool.and_eq_true, decide_eq_true_eq] at h
  obtain ⟨⟨⟨hx, hright⟩, hy⟩, hbottom⟩ := h
  rintro p ⟨⟨hpx, hpright⟩, hpy, hpbottom⟩
  exact ⟨⟨hx.trans hpx, hpright.trans_le hright⟩, hy.trans hpy, hpbottom.trans_le hbottom⟩

theorem dirtyRects_track_run :
    (after containRect 100 100 true [.setNeedsDisplayInRect ⟨10, 10, 5, 5⟩, .setNeedsDisplayInRect ⟨0, 0, 20, 20⟩,
        .setNeedsDisplayInRect ⟨12, 12, 2, 2⟩]).m_dirtyrects = [⟨0, 0, 20, 20⟩] ∧
      Tracks containRect 100 100 true [.setNeedsDisplayInRect ⟨10, 10, 5, 5⟩, .setNeedsDisplayInRect ⟨0, 0, 20, 20⟩,
        .setNeedsDisplayInRect ⟨12, 12, 2, 2⟩] :=
  ⟨by decide, dirtyRects_track containRect 100 100 true containRect_points _⟩

end Dirty
end Wkc
