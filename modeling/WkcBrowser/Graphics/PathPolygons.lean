import WkcBrowser.Lib.Filling
import Mathlib.Algebra.GroupWithZero.Nat
import Mathlib.Algebra.Order.BigOperators.Group.List
import Mathlib.Algebra.Order.Group.Nat
import Mathlib.Tactic.ByContra

/-!
# The polygons of a path, and how they are drawn

* `PathPoint`, `PathPolygon`      a subpath of straight pieces;
* `drawPolygons`                  the points of all polygons in one buffer, handed to the peer;
* `part`                          what a polygon leaves in the buffer: its points, the closing point, a terminator;
* `polygons_eq`                   the loop fills the buffer with the parts of the polygons, as long as they fit;
* `drawPolygons_iff`              when it writes inside the buffer and hands the peer the polygons that were counted.

Coordinates are of any type with a comparison, so that a number that is not equal to itself is one of them.
-/

namespace Wkc
namespace Paths
open Filling

structure PathPoint (α : Type*) where
  m_x : α
  m_y : α
  deriving DecidableEq

abbrev PathPolygon (α : Type*) := List (PathPoint α)

inductive DrawType where
  | EFill | EStroke | EClip | EClipOut
  deriving DecidableEq

/-- a call of one of the peer's drawing functions, with the points it is to read -/
inductive PeerCall (α : Type*) where
  | drawPolyline (points : List (PathPoint α)) (close : Bool)
  | drawPolygon (points : List (PathPoint α))
  | clipPolygon (points : List (PathPoint α))
  | clipOutPolygon (points : List (PathPoint α))
  deriving DecidableEq

def cPointsBufferMaxItems : Nat := 1024

/-- what the first loop of `drawPolygons` counts -/
def totalPoints {α : Type*} (type : DrawType) (polygons : List (PathPolygon α)) : Nat :=
  (polygons.map fun i =>
    let npoints := i.length
    match type with
    | .EFill | .EClip | .EClipOut => if npoints ≤ 2 then 0 else npoints + 2
    | .EStroke => npoints).sum

/-- the state of the second loop -/
structure Drawing (α : Type*) where
  wkcPoints : List (PathPoint α)
  idx : Nat
  calls : List (PeerCall α)

section
variable {α : Type*} [BEq α] (FLT_MIN : α) (transformation : Option (PathPoint α → PathPoint α)) (m_closed : Bool)

def mapPoint (p : PathPoint α) : PathPoint α :=
  match transformation with
  | some map => map p
  | none => p

/-- the closing point, if the last point is not the first; with the number of points there are then -/
def closePolygon (wkcPoints : List (PathPoint α)) (idx npoints : Nat) : Option (List (PathPoint α) × Nat) :=
  wkcPoints[idx + npoints - 1]?.bind fun last => wkcPoints[idx]?.bind fun first =>
    if last.m_x != first.m_x || last.m_y != first.m_y then
      (put wkcPoints (idx + npoints) first).map fun wkcPoints => (wkcPoints, npoints + 1)
    else some (wkcPoints, npoints)

/-- one turn of the second loop -/
def drawOne (type : DrawType) (s : Drawing α) (i : PathPolygon α) : Option (Drawing α) :=
  let npoints := i.length
  if npoints = 0 then some s
  else
    (putAll s.wkcPoints s.idx (i.map (mapPoint transformation))).bind fun wkcPoints =>
      match type with
      | .EFill | .EClip | .EClipOut =>
        (closePolygon wkcPoints s.idx npoints).bind fun closed =>
          (put closed.1 (s.idx + closed.2) { m_x := FLT_MIN, m_y := FLT_MIN }).map fun wkcPoints =>
            { s with wkcPoints, idx := s.idx + (closed.2 + 1) }
      | .EStroke =>
        some { wkcPoints, idx := 0, calls := s.calls ++ [.drawPolyline (wkcPoints.take npoints) m_closed] }

/-- `wkc_calloc` says whether there is room for that many points; `zero` is what a cleared buffer holds. -/
def drawPolygons (wkc_calloc : Nat → Bool) (zero : PathPoint α) (type : DrawType) (polygons : List (PathPolygon α)) :
    Option (List (PeerCall α)) :=
  let total_points := totalPoints type polygons
  if total_points = 0 then some []
  else if total_points > cPointsBufferMaxItems ∧ ¬ wkc_calloc total_points then some []
  else
    let size := if total_points > cPointsBufferMaxItems then total_points else cPointsBufferMaxItems
    (polygons.foldlM (drawOne FLT_MIN transformation m_closed type)
        { wkcPoints := List.replicate size zero, idx := 0, calls := [] }).map fun s =>
      match type with
      | .EFill => s.calls ++ [.drawPolygon (s.wkcPoints.take s.idx)]
      | .EStroke => s.calls
      | .EClip => s.calls ++ [.clipPolygon (s.wkcPoints.take s.idx)]
      | .EClipOut => s.calls ++ [.clipOutPolygon (s.wkcPoints.take s.idx)]

/-! ## what is wanted -/

def isOpen (last first : PathPoint α) : Bool := last.m_x != first.m_x || last.m_y != first.m_y

/-- the points of a polygon, the closing point if it is open, and one terminator -/
def part : PathPolygon α → List (PathPoint α)
  | [] => []
  | p :: ps =>
    let pts := (p :: ps).map (mapPoint transformation)
    let first := mapPoint transformation p
    pts ++ (if isOpen (pts.getLastD first) first then [first] else []) ++ [{ m_x := FLT_MIN, m_y := FLT_MIN }]

/-- the parts of the polygons that have more than two points -/
def wanted (polygons : List (PathPolygon α)) : List (PathPoint α) :=
  (polygons.filter fun i => 2 < i.length).flatMap (part FLT_MIN transformation)

/-- The buffer is too large for the shared one and there is no memory for it. -/
def refused (wkc_calloc : Nat → Bool) (type : DrawType) (polygons : List (PathPolygon α)) : Prop :=
  totalPoints type polygons > cPointsBufferMaxItems ∧ ¬ wkc_calloc (totalPoints type polygons)

instance refused.decidable (wkc_calloc : Nat → Bool) (type : DrawType) (polygons : List (PathPolygon α)) :
    Decidable (refused wkc_calloc type polygons) :=
  inferInstanceAs (Decidable (_ ∧ _))

/-- what the peer is to get: nothing, if there is nothing to draw or no memory for it -/
def handed (wkc_calloc : Nat → Bool) (type : DrawType) (call : List (PathPoint α) → PeerCall α)
    (polygons : List (PathPolygon α)) : List (PeerCall α) :=
  if wanted FLT_MIN transformation polygons = [] ∨ refused wkc_calloc type polygons then []
  else [call (wanted FLT_MIN transformation polygons)]

/-- It writes inside the buffer, and a polygon that is filled or clipped to is handed over as it should be. -/
def Meets (wkc_calloc : Nat → Bool) (zero : PathPoint α) (type : DrawType) (polygons : List (PathPolygon α)) : Prop :=
  ∃ calls, drawPolygons FLT_MIN transformation m_closed wkc_calloc zero type polygons = some calls ∧
    (type = .EFill → calls = handed FLT_MIN transformation wkc_calloc .EFill .drawPolygon polygons) ∧
    (type = .EClip → calls = handed FLT_MIN transformation wkc_calloc .EClip .clipPolygon polygons)

/-- the entries of a polygon in the buffer -/
def entries (i : PathPolygon α) : Nat := (part FLT_MIN transformation i).length

def Fits (wkc_calloc : Nat → Bool) (polygons : List (PathPolygon α)) : DrawType → Prop
  | .EStroke => True
  | .EFill => (∀ i ∈ polygons, i.length = 0 ∨ 2 < i.length) ∨ (∀ i ∈ polygons, i.length ≤ 2) ∨
      refused wkc_calloc .EFill polygons
  | .EClip => (∀ i ∈ polygons, i.length = 0 ∨ 2 < i.length) ∨ (∀ i ∈ polygons, i.length ≤ 2) ∨
      refused wkc_calloc .EClip polygons
  | .EClipOut => (polygons.map (entries FLT_MIN transformation)).sum ≤
        max cPointsBufferMaxItems (totalPoints .EClipOut polygons) ∨ (∀ i ∈ polygons, i.length ≤ 2) ∨
      refused wkc_calloc .EClipOut polygons

/-! ## filling -/

section
variable {size : Nat} {done pts : List (PathPoint α)} {buf : List (PathPoint α)} {first : PathPoint α}

theorem closePolygon_eq (h : Filled size (done ++ first :: pts) buf) :
    closePolygon buf done.length (first :: pts).length =
      if isOpen ((first :: pts).getLastD first) first then
        (put buf (done.length + (first :: pts).length) first).map fun buf => (buf, (first :: pts).length + 1)
      else some (buf, (first :: pts).length) := by
  have hlen : done.length + (first :: pts).length - 1 < (done ++ first :: pts).length := by
    rw [List.length_append, List.length_cons]
    omega
  have hlast : buf[done.length + (first :: pts).length - 1]? = some ((first :: pts).getLastD first) := by
    rw [h.getElem? hlen, List.getElem?_append_right (by rw [List.length_cons]; omega), List.length_cons,
      show done.length + (pts.length + 1) - 1 - done.length = (first :: pts).length - 1 by
        rw [List.length_cons]
        omega,
      ← List.getLast?_eq_getElem?, List.getLastD_cons, List.getLast?_cons, List.getLastD_eq_getLast?]
  have hfirst : buf[done.length]? = some first := by
    rw [h.getElem? (by rw [List.length_append, List.length_cons]; omega), List.getElem?_append_right (Nat.le_refl _),
      Nat.sub_self, List.getElem?_cons_zero]
  unfold closePolygon isOpen
  rw [hlast, hfirst, Option.bind_some, Option.bind_some]

variable {type : DrawType} {calls : List (PeerCall α)}

theorem drawOne_cons (htype : type ≠ .EStroke) (s : Drawing α) (p : PathPoint α) (ps : PathPolygon α) :
    drawOne FLT_MIN transformation m_closed type s (p :: ps) =
      (putAll s.wkcPoints s.idx ((p :: ps).map (mapPoint transformation))).bind fun wkcPoints =>
        (closePolygon wkcPoints s.idx (p :: ps).length).bind fun closed =>
          (put closed.1 (s.idx + closed.2) { m_x := FLT_MIN, m_y := FLT_MIN }).map fun wkcPoints =>
            { s with wkcPoints, idx := s.idx + (closed.2 + 1) } := by
  cases type with
  | EStroke => exact absurd rfl htype
  | EFill | EClip | EClipOut => rfl

theorem drawOne_eq (htype : type ≠ .EStroke) (h : Filled size done buf) (i : PathPolygon α) :
    drawOne FLT_MIN transformation m_closed type { wkcPoints := buf, idx := done.length, calls } i =
      (putAll buf done.length (part FLT_MIN transformation i)).map fun out =>
        { wkcPoints := out, idx := done.length + (part FLT_MIN transformation i).length, calls } := by
  cases i with
  | nil => rfl
  | cons p ps =>
    rw [drawOne_cons FLT_MIN transformation m_closed htype]
    unfold part
    dsimp only
    rw [List.append_assoc, putAll_append, Option.map_bind]
    cases hpts : putAll buf done.length ((p :: ps).map (mapPoint transformation)) with
    | none => rfl
    | some out =>
      have hfilled := h.of_putAll hpts
      rw [List.map_cons] at hfilled
      have hlength : (p :: ps).length = (mapPoint transformation p :: ps.map (mapPoint transformation)).length := by
        rw [List.length_cons, List.length_cons, List.length_map]
      rw [Option.bind_some, Option.bind_some, hlength, closePolygon_eq hfilled, List.map_cons]
      split
      · -- an open polygon: the closing point comes before the terminator
        rw [Function.comp_apply, List.singleton_append, putAll, Option.bind_map, Option.map_bind]
        congr 1
        funext buf
        simp only [Function.comp_apply, putAll_singleton, List.length_append, List.length_cons, List.length_nil,
          Nat.add_assoc, Nat.zero_add, Nat.reduceAdd]
      · simp only [Function.comp_apply, Option.bind_some, List.nil_append, putAll_singleton, List.length_append,
          List.length_cons, List.length_nil, Nat.add_assoc, Nat.zero_add]

theorem polygons_eq (htype : type ≠ .EStroke) (h : Filled size done buf) (calls : List (PeerCall α))
    (polygons : List (PathPolygon α)) :
    polygons.foldlM (drawOne FLT_MIN transformation m_closed type) { wkcPoints := buf, idx := done.length, calls } =
      (putAll buf done.length (polygons.flatMap (part FLT_MIN transformation))).map fun out =>
        { wkcPoints := out, idx := done.length + (polygons.flatMap (part FLT_MIN transformation)).length, calls } := by
  induction polygons generalizing done buf with
  | nil => rfl
  | cons i polygons ih =>
    rw [List.foldlM_cons, drawOne_eq FLT_MIN transformation m_closed htype h, List.flatMap_cons, putAll_append]
    cases hall : putAll buf done.length (part FLT_MIN transformation i) with
    | none => rfl
    | some out =>
      have hrest := ih (h.of_putAll hall)
      rw [List.length_append] at hrest
      rw [List.length_append, Option.bind_some, ← Nat.add_assoc, ← hrest]
      rfl

theorem polylines_drawn (hlength : buf.length = size) (polygons : List (PathPolygon α))
    (hroom : ∀ i ∈ polygons, i.length ≤ size) (calls : List (PeerCall α)) :
    ∃ s, polygons.foldlM (drawOne FLT_MIN transformation m_closed .EStroke) { wkcPoints := buf, idx := 0, calls } =
      some s := by
  induction polygons generalizing buf calls with
  | nil => exact ⟨_, rfl⟩
  | cons i polygons ih =>
    rw [List.forall_mem_cons] at hroom
    rw [List.foldlM_cons]
    cases i with
    | nil => exact ih hlength hroom.2 calls
    | cons p ps =>
      obtain ⟨out, hall, hfilled⟩ := (Filled.nothing hlength).putAll ((p :: ps).map (mapPoint transformation))
        (by rw [List.length_map, List.length_nil, Nat.zero_add]; exact hroom.1)
      obtain ⟨s, hs⟩ := ih hfilled.length hroom.2
        (calls ++ [.drawPolyline (out.take (p :: ps).length) m_closed])
      refine ⟨s, ?_⟩
      have hone : drawOne FLT_MIN transformation m_closed .EStroke { wkcPoints := buf, idx := 0, calls } (p :: ps) =
          some { wkcPoints := out, idx := 0, calls := calls ++ [.drawPolyline (out.take (p :: ps).length) m_closed] } := by
        unfold drawOne
        dsimp only
        rw [if_neg (by simp), show (0 : Nat) = ([] : List (PathPoint α)).length from rfl, hall]
        rfl
      rw [hone]
      exact hs

end

/-! ## counts -/

section
variable {type : DrawType} {polygons : List (PathPolygon α)}

theorem part_nil_iff {i : PathPolygon α} : part FLT_MIN transformation i = [] ↔ i.length = 0 := by
  cases i with
  | nil | cons => simp [part]

theorem length_part_le (i : PathPolygon α) : (part FLT_MIN transformation i).length ≤ i.length + 2 := by
  cases i with
  | nil => exact Nat.zero_le _
  | cons p ps =>
    unfold part
    dsimp only
    split <;> simp

omit [BEq α] in
theorem totalPoints_cons (htype : type ≠ .EStroke) (i : PathPolygon α) :
    totalPoints type (i :: polygons) = (if i.length ≤ 2 then 0 else i.length + 2) + totalPoints type polygons := by
  cases type with
  | EStroke => exact absurd rfl htype
  | EFill | EClip | EClipOut => rfl

omit [BEq α] in
theorem totalPoints_zero_iff (htype : type ≠ .EStroke) :
    totalPoints type polygons = 0 ↔ ∀ i ∈ polygons, i.length ≤ 2 := by
  induction polygons with
  | nil => simp [totalPoints]
  | cons i polygons ih =>
    rw [totalPoints_cons htype, List.forall_mem_cons, Nat.add_eq_zero_iff, ih]
    refine and_congr_left fun _ => ?_
    split <;> omega

theorem wanted_length_le (htype : type ≠ .EStroke) :
    (wanted FLT_MIN transformation polygons).length ≤ totalPoints type polygons := by
  induction polygons with
  | nil => exact Nat.zero_le _
  | cons i polygons ih =>
    rw [totalPoints_cons htype]
    unfold wanted at ih ⊢
    have hle := length_part_le FLT_MIN transformation i
    by_cases hi : 2 < i.length
    · rw [List.filter_cons_of_pos (by simpa using hi), List.flatMap_cons, List.length_append, if_neg (by omega)]
      omega
    · rw [List.filter_cons_of_neg (by simpa using hi), if_pos (by omega), Nat.zero_add]
      exact ih

theorem wanted_nil_iff : wanted FLT_MIN transformation polygons = [] ↔ ∀ i ∈ polygons, i.length ≤ 2 := by
  unfold wanted
  rw [List.flatMap_eq_nil_iff]
  constructor
  · intro h i hi
    by_contra hlong
    have hnil := (part_nil_iff FLT_MIN transformation).mp (h i (List.mem_filter.mpr ⟨hi, by simpa using hlong⟩))
    omega
  · intro h i hi
    have hlong := (List.mem_filter.mp hi).2
    have hshort := h i (List.mem_filter.mp hi).1
    rw [decide_eq_true_iff] at hlong
    omega

theorem wanted_eq_iff : wanted FLT_MIN transformation polygons = polygons.flatMap (part FLT_MIN transformation) ↔
    ∀ i ∈ polygons, i.length = 0 ∨ 2 < i.length := by
  unfold wanted
  rw [flatMap_filter_eq]
  refine forall_congr' fun i => imp_congr_right fun _ => ?_
  rw [part_nil_iff, decide_eq_false_iff_not, or_iff_not_imp_right]

omit [BEq α] in
theorem le_totalPoints_stroke {i : PathPolygon α} (hi : i ∈ polygons) : i.length ≤ totalPoints .EStroke polygons := by
  unfold totalPoints
  exact List.le_sum_of_mem (List.mem_map_of_mem hi)

end

/-! ## drawing -/

theorem bufferSize_eq (total : Nat) : (if total > cPointsBufferMaxItems then total else cPointsBufferMaxItems) =
    max cPointsBufferMaxItems total := by
  split <;> omega

variable (wkc_calloc : Nat → Bool) (zero : PathPoint α) (polygons : List (PathPolygon α))

theorem meets_stroke : Meets FLT_MIN transformation m_closed wkc_calloc zero .EStroke polygons := by
  unfold Meets drawPolygons
  dsimp only
  split
  · exact ⟨[], rfl, nofun, nofun⟩
  split
  · exact ⟨[], rfl, nofun, nofun⟩
  · obtain ⟨s, hs⟩ := polylines_drawn FLT_MIN transformation m_closed List.length_replicate polygons
      (fun i hi => (le_totalPoints_stroke hi).trans (Nat.le_max_right cPointsBufferMaxItems _)) []
    rw [bufferSize_eq, hs]
    exact ⟨s.calls, rfl, nofun, nofun⟩

theorem drawPolygons_eq {type : DrawType} {call : List (PathPoint α) → PeerCall α}
    (hcall : (type = .EFill ∧ call = .drawPolygon) ∨ (type = .EClip ∧ call = .clipPolygon) ∨
      (type = .EClipOut ∧ call = .clipOutPolygon)) :
    drawPolygons FLT_MIN transformation m_closed wkc_calloc zero type polygons =
      if (∀ i ∈ polygons, i.length ≤ 2) ∨ refused wkc_calloc type polygons then some []
      else if (polygons.flatMap (part FLT_MIN transformation)).length ≤
          max cPointsBufferMaxItems (totalPoints type polygons) then
        some [call (polygons.flatMap (part FLT_MIN transformation))]
      else none := by
  have htype : type ≠ .EStroke := by
    rintro rfl
    simp at hcall
  have hfilled : Filled (max cPointsBufferMaxItems (totalPoints type polygons)) []
      (List.replicate (max cPointsBufferMaxItems (totalPoints type polygons)) zero) :=
    Filled.nothing List.length_replicate
  unfold drawPolygons
  dsimp only
  rw [bufferSize_eq]
  by_cases hzero : totalPoints type polygons = 0
  · rw [if_pos hzero, if_pos (Or.inl ((totalPoints_zero_iff htype).mp hzero))]
  rw [if_neg hzero]
  by_cases hrefused : refused wkc_calloc type polygons
  · rw [if_pos (Or.inr hrefused)]
    exact if_pos hrefused
  rw [if_neg (show ¬ (_ ∧ _) from hrefused),
    if_neg (not_or.mpr ⟨fun h => hzero ((totalPoints_zero_iff htype).mpr h), hrefused⟩)]
  have hloop := polygons_eq FLT_MIN transformation m_closed htype hfilled [] polygons
  rw [List.length_nil, Nat.zero_add] at hloop
  rw [hloop]
  by_cases hroom : (polygons.flatMap (part FLT_MIN transformation)).length ≤
      max cPointsBufferMaxItems (totalPoints type polygons)
  · obtain ⟨out, hall, hdone⟩ := hfilled.putAll (polygons.flatMap (part FLT_MIN transformation)) (by
      rw [List.length_nil, Nat.zero_add]
      exact hroom)
    rw [List.length_nil] at hall
    have hfront := hdone.front
    rw [List.nil_append] at hfront
    rw [hall, Option.map_some, Option.map_some, hfront, if_pos hroom]
    rcases hcall with ⟨rfl, rfl⟩ | ⟨rfl, rfl⟩ | ⟨rfl, rfl⟩ <;> rfl
  · have hall := hfilled.putAll_full (polygons.flatMap (part FLT_MIN transformation)) (by
      rw [List.length_nil, Nat.zero_add]
      omega)
    rw [List.length_nil] at hall
    rw [hall, if_neg hroom]
    rfl

theorem handed_iff {type : DrawType} {call : List (PathPoint α) → PeerCall α}
    (hcall : (type = .EFill ∧ call = .drawPolygon) ∨ (type = .EClip ∧ call = .clipPolygon)) :
    drawPolygons FLT_MIN transformation m_closed wkc_calloc zero type polygons =
        some (handed FLT_MIN transformation wkc_calloc type call polygons) ↔
      (∀ i ∈ polygons, i.length = 0 ∨ 2 < i.length) ∨ (∀ i ∈ polygons, i.length ≤ 2) ∨
        refused wkc_calloc type polygons := by
  have htype : type ≠ .EStroke := by
    rintro rfl
    simp at hcall
  have hinj : ∀ a b, call a = call b ↔ a = b := by
    intro a b
    rcases hcall with ⟨-, rfl⟩ | ⟨-, rfl⟩
    · exact PeerCall.drawPolygon.injEq a b ▸ Iff.rfl
    · exact PeerCall.clipPolygon.injEq a b ▸ Iff.rfl
  rw [drawPolygons_eq FLT_MIN transformation m_closed wkc_calloc zero polygons (hcall.imp_right Or.inl)]
  have hnil : wanted FLT_MIN transformation polygons = [] ↔ ∀ i ∈ polygons, i.length ≤ 2 :=
    wanted_nil_iff FLT_MIN transformation
  unfold handed
  by_cases hnothing : (∀ i ∈ polygons, i.length ≤ 2) ∨ refused wkc_calloc type polygons
  · rw [if_pos hnothing, if_pos (hnothing.imp_left hnil.mpr)]
    exact iff_of_true rfl (Or.inr hnothing)
  rw [if_neg hnothing, if_neg (mt (Or.imp_left hnil.mp) hnothing), or_iff_left hnothing,
    ← wanted_eq_iff FLT_MIN transformation]
  have hle : (wanted FLT_MIN transformation polygons).length ≤ totalPoints type polygons :=
    wanted_length_le FLT_MIN transformation htype
  constructor
  · intro h
    split at h
    · have hsame := List.head_eq_of_cons_eq (Option.some.inj h)
      exact ((hinj _ _).mp hsame).symm
    · exact absurd h (by simp)
  · intro h
    rw [← h, if_pos (by omega)]

theorem meets_clipOut : Meets FLT_MIN transformation m_closed wkc_calloc zero .EClipOut polygons ↔
    Fits FLT_MIN transformation wkc_calloc polygons .EClipOut := by
  have hsum : (polygons.map (entries FLT_MIN transformation)).sum =
      (polygons.flatMap (part FLT_MIN transformation)).length := List.length_flatMap.symm
  unfold Meets Fits
  rw [drawPolygons_eq FLT_MIN transformation m_closed wkc_calloc zero polygons (Or.inr (Or.inr ⟨rfl, rfl⟩)), hsum]
  by_cases hnothing : (∀ i ∈ polygons, i.length ≤ 2) ∨ refused wkc_calloc .EClipOut polygons
  · rw [if_pos hnothing]
    exact iff_of_true ⟨[], rfl, nofun, nofun⟩ (Or.inr hnothing)
  rw [if_neg hnothing, or_iff_left hnothing]
  constructor
  · rintro ⟨calls, h, -⟩
    by_contra hfull
    rw [if_neg hfull] at h
    exact absurd h (by simp)
  · intro hroom
    exact ⟨_, if_pos hroom, nofun, nofun⟩

/-- `drawPolygons` stays inside its buffer and hands over what was counted exactly if no polygon of one or two points
comes with longer ones; a path that is clipped out only has to fit. -/
theorem drawPolygons_iff (type : DrawType) :
    Meets FLT_MIN transformation m_closed wkc_calloc zero type polygons ↔
      Fits FLT_MIN transformation wkc_calloc polygons type := by
  cases type with
  | EStroke => exact iff_of_true (meets_stroke FLT_MIN transformation m_closed wkc_calloc zero polygons) trivial
  | EClipOut => exact meets_clipOut FLT_MIN transformation m_closed wkc_calloc zero polygons
  | EFill =>
    refine Iff.trans ?_ (handed_iff FLT_MIN transformation m_closed wkc_calloc zero polygons (Or.inl ⟨rfl, rfl⟩))
    constructor
    · rintro ⟨calls, hcalls, hfill, -⟩
      rw [hcalls, hfill rfl]
    · intro h
      exact ⟨_, h, fun _ => rfl, nofun⟩
  | EClip =>
    refine Iff.trans ?_ (handed_iff FLT_MIN transformation m_closed wkc_calloc zero polygons (Or.inr ⟨rfl, rfl⟩))
    constructor
    · rintro ⟨calls, hcalls, -, hclip⟩
      rw [hcalls, hclip rfl]
    · intro h
      exact ⟨_, h, nofun, fun _ => rfl⟩

end

/-! ### a line and a triangle -/

def line : PathPolygon Int := [{ m_x := 0, m_y := 0 }, { m_x := 9, m_y := 9 }]

def triangle : PathPolygon Int := [{ m_x := 0, m_y := 0 }, { m_x := 9, m_y := 0 }, { m_x := 0, m_y := 9 }]

/-- A line before a triangle is handed over with it, and three hundred of them leave the buffer. -/
theorem lines_overflow :
    drawPolygons (1 : Int) none false (fun _ => true) ⟨0, 0⟩ .EFill [line, triangle] =
        some [.drawPolygon [⟨0, 0⟩, ⟨9, 9⟩, ⟨0, 0⟩, ⟨1, 1⟩, ⟨0, 0⟩, ⟨9, 0⟩, ⟨0, 9⟩, ⟨0, 0⟩, ⟨1, 1⟩]] ∧
      handed (1 : Int) none (fun _ => true) .EFill .drawPolygon [line, triangle] =
        [.drawPolygon [⟨0, 0⟩, ⟨9, 0⟩, ⟨0, 9⟩, ⟨0, 0⟩, ⟨1, 1⟩]] ∧
      drawPolygons (1 : Int) none false (fun _ => true) ⟨0, 0⟩ .EFill (List.replicate 300 line ++ [triangle]) = none ∧
      ¬ (∀ type polygons, Meets (1 : Int) none false (fun _ => true) ⟨0, 0⟩ type polygons) := by
  have hfill : drawPolygons (1 : Int) none false (fun _ => true) ⟨0, 0⟩ .EFill [line, triangle] =
      some [.drawPolygon [⟨0, 0⟩, ⟨9, 9⟩, ⟨0, 0⟩, ⟨1, 1⟩, ⟨0, 0⟩, ⟨9, 0⟩, ⟨0, 9⟩, ⟨0, 0⟩, ⟨1, 1⟩]] := by
    rw [drawPolygons_eq (1 : Int) none false (fun _ => true) ⟨0, 0⟩ _ (Or.inl ⟨rfl, rfl⟩)]
    decide
  have hover : drawPolygons (1 : Int) none false (fun _ => true) ⟨0, 0⟩ .EFill (List.replicate 300 line ++ [triangle]) =
      none := by
    rw [drawPolygons_eq (1 : Int) none false (fun _ => true) ⟨0, 0⟩ _ (Or.inl ⟨rfl, rfl⟩)]
    decide +kernel
  refine ⟨hfill, by decide, hover, ?_⟩
  intro h
  obtain ⟨calls, hcalls, -⟩ := h .EFill (List.replicate 300 line ++ [triangle])
  rw [hover] at hcalls
  exact absurd hcalls (by simp)

end Paths
end Wkc
