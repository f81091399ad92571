import WkcBrowser.Lib.Bytes
import WkcBrowser.Lib.Runs
import WkcBrowser.Lib.Segments
import Mathlib.Logic.Function.Basic

/-!
# `SharedBuffer`: a vector and segments behind it (SharedBuffer.cpp, Vector.h)

* `Vec`                    `Vector<char>` with its capacity;
* `SharedBuffer`           `m_size`, `m_buffer` and `m_segments`;
* `append`, `appendBuffer`, `clear`, `copy`, `buffer`, `getSomeData`, `needsReallocationToMergeBuffers`
                           as in the source; `none` is a read or write outside the memory, or a loop without an end;
* `IsBytes`                what a buffer shows that is a byte string;
* `Rep`                    how the bytes lie in the vector and the segments;
* `copy_rep`, `copy_bytes` a copy shows the same bytes exactly if the segments are full.

Sizes are natural numbers; all of them stay below `2 ^ 32`.
-/

namespace Wkc.SharedBuffers
open Runs Segments

/-- a `char` in memory; `none` was never written -/
abbrev Cell := Option UInt8

def segmentSize : Nat := 0x1000

/-! ## the vector -/

structure Vec where
  cells : List Cell := []
  m_capacity : Nat := 0
  deriving DecidableEq

namespace Vec
variable (v : Vec)

def size : Nat := v.cells.length

def reserveCapacity (newCapacity : Nat) : Vec :=
  if newCapacity ≤ v.m_capacity then v else { v with m_capacity := newCapacity }

def expandCapacity (newMinCapacity : Nat) : Vec :=
  v.reserveCapacity (max newMinCapacity (max 16 (v.m_capacity + v.m_capacity / 4 + 1)))

def append (data : List Cell) : Vec :=
  let newSize := v.size + data.length
  let v := if v.m_capacity < newSize then v.expandCapacity newSize else v
  { v with cells := v.cells ++ data }

/-- new cells of a vector of `char` are not initialized -/
def resize (newSize : Nat) : Vec :=
  if newSize ≤ v.size then { v with cells := v.cells.take newSize }
  else
    let v := if v.m_capacity < newSize then v.expandCapacity newSize else v
    { v with cells := v.cells ++ List.replicate (newSize - v.size) none }

end Vec

/-! ## the buffer -/

structure SharedBuffer where
  m_size : Nat := 0
  m_buffer : Vec := {}
  m_segments : List (List Cell) := []
  deriving DecidableEq

def allocateSegment : List Cell := List.replicate segmentSize none

/-- the turns of the loop that begin with a new segment -/
def copyIntoSegments (segments : List (List Cell)) (data : List Cell) : List (List Cell) :=
  if _h : data = [] then segments
  else
    copyIntoSegments (segments ++ [place allocateSegment 0 (data.take segmentSize)]) (data.drop segmentSize)
termination_by data.length
decreasing_by
  have hpos := List.length_pos_iff.mpr _h
  rw [List.length_drop, segmentSize]
  omega

section
variable (s : SharedBuffer)

/-- `append(const char*, unsigned)` -/
def append (data : List Cell) : Option SharedBuffer :=
  if data = [] then some s
  else
    -- the difference may wrap, at a multiple of the segments' size
    let positionInSegment := (((s.m_size : Int) - s.m_buffer.size) % segmentSize).toNat
    let m_size := s.m_size + data.length
    if m_size ≤ segmentSize then some { s with m_size := m_size, m_buffer := s.m_buffer.append data }
    else if positionInSegment = 0 then
      some { s with m_size := m_size, m_segments := copyIntoSegments s.m_segments data }
    else
      match s.m_segments.getLast? with
      | none => none
      | some last =>
        let bytesToCopy := min data.length (segmentSize - positionInSegment)
        let segments := s.m_segments.dropLast ++ [place last positionInSegment (data.take bytesToCopy)]
        some { s with m_size := m_size, m_segments := copyIntoSegments segments (data.drop bytesToCopy) }

/-- the vector gives its memory back, too -/
def clear (_ : SharedBuffer) : SharedBuffer := {}

def copy : SharedBuffer where
  m_size := s.m_size
  m_buffer := s.m_segments.foldl Vec.append ((Vec.reserveCapacity {} s.m_size).append s.m_buffer.cells)

/-- the loop of `buffer`, into the new cells -/
def mergeSegments : List (List Cell) → Nat → Nat → List Cell → List Cell
  | [], _, _, cells => cells
  | segment :: segments, destination, bytesLeft, cells =>
    let bytesToCopy := min bytesLeft segmentSize
    mergeSegments segments (destination + bytesToCopy) (bytesLeft - bytesToCopy)
      (place cells destination (segment.take bytesToCopy))

/-- the buffer after `buffer()`, which is declared `const` -/
def buffer : SharedBuffer :=
  if s.m_buffer.size < s.m_size then
    let v := s.m_buffer.resize s.m_size
    { s with
      m_buffer := { v with
        cells := mergeSegments s.m_segments s.m_buffer.size (s.m_size - s.m_buffer.size) v.cells }
      m_segments := [] }
  else s

/-- the bytes it points to -/
def getSomeData (position : Nat) : Option (List Cell) :=
  if s.m_size ≤ position then some []
  else
    let consecutiveSize := s.m_buffer.size
    if position < consecutiveSize then some (s.m_buffer.cells.drop position)
    else
      let position := position - consecutiveSize
      let segments := s.m_segments.length
      let segment := position / segmentSize
      if segment < segments then
        let bytesLeft := s.m_size - consecutiveSize
        let segmentedSize := min (segments * segmentSize) bytesLeft
        let positionInSegment := position % segmentSize
        let length := if segment = segments - 1 then segmentedSize - position else segmentSize - positionInSegment
        let cells := (s.m_segments.getD segment []).drop positionInSegment
        if length ≤ cells.length then some (cells.take length) else none
      else some []

/-- `neededSize`, if it returns true -/
def needsReallocationToMergeBuffers : Option Nat :=
  if s.m_buffer.size < s.m_size ∧ s.m_buffer.m_capacity < s.m_size then
    let bufferCapacity := s.m_buffer.m_capacity
    let estimatedSize := bufferCapacity + bufferCapacity / 4 + 1
    some (max s.m_size (max 16 estimatedSize))
  else none

end

/-! ## any number of buffers -/

/-- the loop of `append(SharedBuffer*)`, whose data may be the buffer itself -/
def appendFrom (b data : Nat) : Nat → Nat → (Nat → SharedBuffer) → Option (Nat → SharedBuffer)
  | 0, _, _ => none
  | fuel + 1, position, bufs => do
    let segment ← getSomeData (bufs data) position
    if segment = [] then some bufs
    else
      let buf ← append (bufs b) segment
      appendFrom b data fuel (position + segment.length) (Function.update bufs b buf)

inductive Call
  | append (b : Nat) (data : Bytes)
  | appendBuffer (b data : Nat)
  /-- the copy takes the place of the buffer `c` -/
  | copy (b c : Nat)
  /-- or `data()` -/
  | buffer (b : Nat)
  | clear (b : Nat)

/-- The second field is not in the source. -/
structure World where
  buffers : Option (Nat → SharedBuffer) := some fun _ => {}
  /-- what was appended since the last `clear` -/
  appended : Nat → Bytes := fun _ => []

def World.initial : World := {}

def stepBuffers (bufs : Nat → SharedBuffer) : Call → Option (Nat → SharedBuffer)
  | .append b data => do some (Function.update bufs b (← append (bufs b) (data.map some)))
  | .appendBuffer b data => appendFrom b data ((bufs data).m_size + 1) 0 bufs
  | .copy b c => some (Function.update bufs c (copy (bufs b)))
  | .buffer b => some (Function.update bufs b (buffer (bufs b)))
  | .clear b => some (Function.update bufs b (clear (bufs b)))

def stepAppended (appended : Nat → Bytes) : Call → Nat → Bytes
  | .append b data => Function.update appended b (appended b ++ data)
  | .appendBuffer b data => Function.update appended b (appended b ++ appended data)
  | .copy b c => Function.update appended c (appended b)
  | .buffer _ => appended
  | .clear b => Function.update appended b []

def step (w : World) (a : Call) : World where
  buffers := w.buffers.bind fun bufs => stepBuffers bufs a
  appended := stepAppended w.appended a

/-! ## what is meant -/

/-- A buffer that shows these bytes.  `reallocation` is what `buffer()` does to the capacity. -/
structure IsBytes (s : SharedBuffer) (xs : Bytes) : Prop where
  size : s.m_size = xs.length
  getSomeData : ∀ p, p < s.m_size →
    ∃ piece, getSomeData s p = some piece ∧ piece ≠ [] ∧ piece <+: (xs.drop p).map some
  buffer : (buffer s).m_buffer.cells = xs.map some
  reallocation : needsReallocationToMergeBuffers s =
    if (SharedBuffers.buffer s).m_buffer.m_capacity = s.m_buffer.m_capacity then none
    else some (SharedBuffers.buffer s).m_buffer.m_capacity

/-- all buffers are byte strings, and every call has returned -/
def AllBytes (w : World) : Prop := ∃ bufs, w.buffers = some bufs ∧ ∀ b, IsBytes (bufs b) (w.appended b)

/-- A buffer is copied when its segments are full, and no buffer with bytes is appended to itself. -/
def Whole (w : World) : Call → Prop
  | .copy b _ => ∀ bufs, w.buffers = some bufs → ((bufs b).m_size - (bufs b).m_buffer.size) % segmentSize = 0
  | .appendBuffer b data => b = data → ∀ bufs, w.buffers = some bufs → (bufs b).m_size = 0
  | _ => True

/-! ## how the bytes lie -/

structure Rep (s : SharedBuffer) (xs : Bytes) : Prop where
  size : s.m_size = xs.length
  /-- those in the vector -/
  front : s.m_buffer.cells = (xs.take s.m_buffer.size).map some
  front_le : s.m_buffer.size ≤ xs.length
  back : Holds segmentSize s.m_segments (xs.drop s.m_buffer.size)
  /-- a short buffer has no segments -/
  large : s.m_segments ≠ [] → segmentSize < xs.length
  capacity : s.m_buffer.size ≤ s.m_buffer.m_capacity

theorem segmentSize_pos : 0 < segmentSize := by decide

namespace Vec
variable (v : Vec)

theorem cells_reserve (n : Nat) : (v.reserveCapacity n).cells = v.cells := by
  unfold reserveCapacity
  split <;> rfl

theorem capacity_reserve (n : Nat) : n ≤ (v.reserveCapacity n).m_capacity := by
  unfold reserveCapacity
  split
  · assumption
  · exact Nat.le_refl n

theorem cells_append (data : List Cell) : (v.append data).cells = v.cells ++ data := by
  simp only [append]
  split
  · simp only [expandCapacity, cells_reserve]
  · rfl

theorem size_append (data : List Cell) : (v.append data).size = v.size + data.length := by
  rw [size, cells_append, List.length_append]
  rfl

theorem capacity_expand (n : Nat) : n ≤ (v.expandCapacity n).m_capacity :=
  Nat.le_trans (Nat.le_max_left _ _) (v.capacity_reserve _)

theorem capacity_append (data : List Cell) : (v.append data).size ≤ (v.append data).m_capacity := by
  rw [size_append]
  simp only [append]
  split
  · exact v.capacity_expand _
  · omega

end Vec

theorem copyIntoSegments_nil (segments : List (List Cell)) : copyIntoSegments segments [] = segments := by
  rw [copyIntoSegments, dif_pos rfl]

theorem copyIntoSegments_holds {segments : List (List Cell)} {back : Bytes} (h : Holds segmentSize segments back)
    (hfull : segments.length * segmentSize = back.length) (data : Bytes) :
    Holds segmentSize (copyIntoSegments segments (data.map some)) (back ++ data) := by
  induction hn : data.length using Nat.strong_induction_on generalizing segments back data with
  | _ n ih =>
    by_cases hnil : data = []
    · rw [hnil, List.map_nil, copyIntoSegments_nil, List.append_nil]
      exact h
    · have hpos : 0 < data.length := List.length_pos_iff.mpr hnil
      have hsize := segmentSize_pos
      have hmap : data.map (some : UInt8 → Cell) ≠ [] := by simpa using hnil
      rw [copyIntoSegments, dif_neg hmap, ← List.map_take, ← List.map_drop]
      have hseg : (place allocateSegment 0 ((data.take segmentSize).map some)).length = segmentSize := by
        rw [length_place, allocateSegment, List.length_replicate]
        rw [allocateSegment, List.length_map, List.length_take, List.length_replicate]
        omega
      have htake : (place allocateSegment 0 ((data.take segmentSize).map some)).take (data.take segmentSize).length =
          (data.take segmentSize).map some := by
        have hput : (place allocateSegment 0 ((data.take segmentSize).map some)).take
            (0 + ((data.take segmentSize).map (some : UInt8 → Cell)).length) = _ := take_place (Nat.zero_le _)
        rw [Nat.zero_add, List.length_map, List.take_zero, List.nil_append] at hput
        exact hput
      have hnew := h.append_new hfull hseg htake (by rw [List.length_take]; omega) (List.length_take_le _ _)
      by_cases hlast : data.length ≤ segmentSize
      · have hrest : data.drop segmentSize = [] := List.drop_eq_nil_of_le hlast
        have hall : data.take segmentSize = data := List.take_of_length_le hlast
        rw [hrest, List.map_nil, copyIntoSegments_nil]
        rw [hall] at hnew ⊢
        exact hnew
      · have hnext := ih (data.drop segmentSize).length (by rw [List.length_drop]; omega) hnew (by
          simp only [List.length_append, List.length_singleton, List.length_take, Nat.add_mul, Nat.one_mul]
          omega) (data.drop segmentSize) rfl
        rwa [List.append_assoc, List.take_append_drop] at hnext

theorem Rep.position {s : SharedBuffer} {xs : Bytes} (h : Rep s xs) :
    (((s.m_size : Int) - s.m_buffer.size) % segmentSize).toNat = (xs.drop s.m_buffer.size).length % segmentSize := by
  have hle := h.front_le
  rw [h.size, List.length_drop, ← Nat.cast_sub hle]
  rfl

section
variable {s : SharedBuffer} {xs data : Bytes}

theorem Rep.append_front (h : Rep s xs) (hsmall : xs.length + data.length ≤ segmentSize) :
    Rep { s with m_size := xs.length + data.length, m_buffer := s.m_buffer.append (data.map some) } (xs ++ data) := by
  have hle := h.front_le
  have hnone : s.m_segments = [] := by
    by_contra hsome
    have hlarge := h.large hsome
    omega
  have hend : xs.length ≤ s.m_buffer.size := by
    have henough := h.back.enough
    rw [hnone, List.length_drop, List.length_nil, Nat.zero_mul] at henough
    omega
  have hcells : s.m_buffer.cells = xs.map some := by
    rw [h.front, List.take_of_length_le hend]
  have hsize : (s.m_buffer.append (data.map some)).size = (xs ++ data).length := by
    rw [Vec.size_append, List.length_map, List.length_append]
    omega
  refine ⟨List.length_append.symm, ?_, hsize.le, ?_, ?_, Vec.capacity_append _ _⟩
  · show (s.m_buffer.append (data.map some)).cells = _
    rw [Vec.cells_append, hcells, hsize, List.take_length, List.map_append]
  · show Holds segmentSize s.m_segments ((xs ++ data).drop (s.m_buffer.append (data.map some)).size)
    rw [hnone, hsize, List.drop_length]
    exact Holds.nil segmentSize_pos
  · intro hsome
    exact absurd hnone hsome

theorem Rep.append_back (h : Rep s xs) (hlarge : ¬ xs.length + data.length ≤ segmentSize) {segs : List (List Cell)}
    (hsegs : Holds segmentSize segs (xs.drop s.m_buffer.size ++ data)) :
    Rep { s with m_size := xs.length + data.length, m_segments := segs } (xs ++ data) := by
  have hle := h.front_le
  refine ⟨List.length_append.symm, ?_, ?_, ?_, ?_, h.capacity⟩
  · show s.m_buffer.cells = ((xs ++ data).take s.m_buffer.size).map some
    rw [List.take_append_of_le_length hle]
    exact h.front
  · show s.m_buffer.size ≤ _
    rw [List.length_append]
    omega
  · show Holds segmentSize segs ((xs ++ data).drop s.m_buffer.size)
    rw [List.drop_append_of_le_length hle]
    exact hsegs
  · intro _
    rw [List.length_append]
    omega

theorem fill_last {init : List (List Cell)} {last : List Cell} {back : Bytes}
    (hholds : Holds segmentSize (init ++ [last]) back) (hpos : back.length % segmentSize ≠ 0) (data : Bytes) :
    let bytesToCopy := min data.length (segmentSize - back.length % segmentSize)
    Holds segmentSize (copyIntoSegments
      (init ++ [place last (back.length % segmentSize) ((data.map some).take bytesToCopy)])
      ((data.map some).drop bytesToCopy)) (back ++ data) := by
  intro bytesToCopy
  have hlen := hholds.length_eq hpos
  have hmod := Nat.mod_lt back.length segmentSize_pos
  have hput : Holds segmentSize (init ++ [place last (back.length % segmentSize) ((data.take bytesToCopy).map some)])
      (back ++ data.take bytesToCopy) :=
    hholds.place_last hlen (Nat.pos_of_ne_zero hpos) (by rw [List.length_take]; omega)
  rw [← List.map_take, ← List.map_drop]
  by_cases hroom : data.length ≤ segmentSize - back.length % segmentSize
  · have hall : data.take bytesToCopy = data := List.take_of_length_le (by omega)
    have hrest : data.drop bytesToCopy = [] := List.drop_eq_nil_of_le (by omega)
    rw [hall] at hput ⊢
    rw [hrest, List.map_nil, copyIntoSegments_nil]
    exact hput
  · have hnext := copyIntoSegments_holds hput (by
      simp only [List.length_append, List.length_singleton, List.length_take, Nat.add_mul, Nat.one_mul]
      omega) (data.drop bytesToCopy)
    rwa [List.append_assoc, List.take_append_drop] at hnext

end

theorem append_rep {s : SharedBuffer} {xs : Bytes} (h : Rep s xs) (data : Bytes) :
    ∃ t, append s (data.map some) = some t ∧ Rep t (xs ++ data) := by
  by_cases hnil : data = []
  · refine ⟨s, by simp [append, hnil], ?_⟩
    rw [hnil, List.append_nil]
    exact h
  · have hmap : data.map (some : UInt8 → Cell) ≠ [] := by simpa using hnil
    rw [append, if_neg hmap]
    dsimp only
    rw [h.position, List.length_map, h.size]
    by_cases hsmall : xs.length + data.length ≤ segmentSize
    · rw [if_pos hsmall]
      exact ⟨_, rfl, h.append_front hsmall⟩
    · rw [if_neg hsmall]
      by_cases hpos : (xs.drop s.m_buffer.size).length % segmentSize = 0
      · rw [if_pos hpos]
        exact ⟨_, rfl, h.append_back hsmall (copyIntoSegments_holds h.back (h.back.full hpos) data)⟩
      · rw [if_neg hpos]
        have hsome : s.m_segments ≠ [] := by
          intro hnone
          have henough := h.back.enough
          rw [hnone, List.length_nil, Nat.zero_mul] at henough
          rw [Nat.le_zero.mp henough] at hpos
          exact hpos rfl
        obtain ⟨init, last, hinit⟩ : ∃ init last, s.m_segments = init ++ [last] :=
          ⟨_, _, (List.dropLast_concat_getLast hsome).symm⟩
        have hholds := h.back
        rw [hinit] at hholds
        rw [hinit, List.getLast?_concat, List.dropLast_concat]
        exact ⟨_, rfl, h.append_back hsmall (fill_last hholds hpos data)⟩

/-! ## merging -/

theorem mergeSegments_eq {segments : List (List Cell)} (h : ∀ seg ∈ segments, seg.length = segmentSize) (done : List Cell)
    (left : Nat) (hleft : left ≤ segments.length * segmentSize) :
    mergeSegments segments done.length left (done ++ List.replicate left none) = done ++ segments.flatten.take left := by
  induction segments generalizing done left with
  | nil =>
    rw [List.length_nil, Nat.zero_mul] at hleft
    rw [Nat.le_zero.mp hleft]
    rfl
  | cons seg segments ih =>
    have hseg := h seg List.mem_cons_self
    rw [List.length_cons, Nat.add_mul, Nat.one_mul] at hleft
    have hcopied : (seg.take (min left segmentSize)).length = min left segmentSize := by
      rw [List.length_take, hseg]
      omega
    have hplace : place (done ++ List.replicate left none) done.length (seg.take (min left segmentSize)) =
        (done ++ seg.take (min left segmentSize)) ++ List.replicate (left - min left segmentSize) none := by
      rw [place, List.take_left, hcopied, List.drop_length_add_append, List.drop_replicate]
    have hpos : done.length + min left segmentSize = (done ++ seg.take (min left segmentSize)).length := by
      rw [List.length_append, hcopied]
    have htake : (seg :: segments).flatten.take left =
        seg.take (min left segmentSize) ++ segments.flatten.take (left - min left segmentSize) := by
      rw [List.flatten_cons, List.take_append, hseg]
      by_cases hshort : left ≤ segmentSize
      · rw [Nat.min_eq_left hshort, Nat.sub_eq_zero_of_le hshort, Nat.sub_self]
      · have hall : seg.take left = seg := List.take_of_length_le (by omega)
        have hwhole : seg.take segmentSize = seg := List.take_of_length_le (by omega)
        rw [Nat.min_eq_right (by omega), hall, hwhole]
    rw [mergeSegments, hplace, hpos, ih (fun s hs => h s (List.mem_cons_of_mem seg hs)) _ _ (by omega), htake, List.append_assoc]

theorem Vec.resize_grow {v : Vec} {n : Nat} (h : v.size < n) :
    (v.resize n).cells = v.cells ++ List.replicate (n - v.size) none ∧
    (v.resize n).m_capacity =
      if v.m_capacity < n then max n (max 16 (v.m_capacity + v.m_capacity / 4 + 1)) else v.m_capacity := by
  rw [Vec.resize, if_neg (Nat.not_le.mpr h)]
  dsimp only
  by_cases hcap : v.m_capacity < n
  · have hgrow : ¬ max n (max 16 (v.m_capacity + v.m_capacity / 4 + 1)) ≤ v.m_capacity := by omega
    rw [if_pos hcap, if_pos hcap]
    simp only [Vec.expandCapacity, Vec.reserveCapacity, if_neg hgrow]
    exact ⟨rfl, trivial⟩
  · rw [if_neg hcap, if_neg hcap]
    exact ⟨rfl, rfl⟩

theorem Rep.of_front {s : SharedBuffer} {xs : Bytes} (hsize : s.m_size = xs.length)
    (hcells : s.m_buffer.cells = xs.map some) (hsegs : s.m_segments = [])
    (hcap : s.m_buffer.size ≤ s.m_buffer.m_capacity) : Rep s xs := by
  have hfront : s.m_buffer.size = xs.length := by rw [Vec.size, hcells, List.length_map]
  refine ⟨hsize, ?_, hfront.le, ?_, fun hsome => absurd hsegs hsome, hcap⟩
  · rw [hcells, hfront, List.take_length]
  · rw [hsegs, hfront, List.drop_length]
    exact Holds.nil segmentSize_pos

theorem buffer_rep {s : SharedBuffer} {xs : Bytes} (h : Rep s xs) :
    Rep (buffer s) xs ∧ (buffer s).m_buffer.cells = xs.map some := by
  by_cases hgrow : s.m_buffer.size < s.m_size
  · obtain ⟨hcells, hcap⟩ := Vec.resize_grow hgrow
    have hleft : s.m_size - s.m_buffer.size = (xs.drop s.m_buffer.size).length := by rw [h.size, List.length_drop]
    have hmerged : (buffer s).m_buffer.cells = xs.map some := by
      rw [buffer, if_pos hgrow]
      show mergeSegments _ _ _ (s.m_buffer.resize s.m_size).cells = _
      rw [hcells, Vec.size, mergeSegments_eq h.back.width, ← Vec.size, hleft, h.back.flat, h.front, ← List.map_append,
        List.take_append_drop]
      rw [← Vec.size, hleft]
      exact h.back.enough
    refine ⟨Rep.of_front ?_ hmerged ?_ ?_, hmerged⟩
    · rw [buffer, if_pos hgrow]
      exact h.size
    · rw [buffer, if_pos hgrow]
    · rw [Vec.size, hmerged, List.length_map, ← h.size, buffer, if_pos hgrow]
      show s.m_size ≤ (s.m_buffer.resize s.m_size).m_capacity
      rw [hcap]
      split <;> omega
  · have hcells : s.m_buffer.cells = xs.map some := by
      rw [h.front, List.take_of_length_le (by rw [← h.size]; omega)]
    rw [buffer, if_neg hgrow]
    exact ⟨h, hcells⟩

theorem needsReallocation_iff (s : SharedBuffer) :
    needsReallocationToMergeBuffers s =
      if (buffer s).m_buffer.m_capacity = s.m_buffer.m_capacity then none else some (buffer s).m_buffer.m_capacity := by
  by_cases hgrow : s.m_buffer.size < s.m_size
  · obtain ⟨_, hcap⟩ := Vec.resize_grow hgrow
    have hbuffer : (buffer s).m_buffer.m_capacity = (s.m_buffer.resize s.m_size).m_capacity := by
      rw [buffer, if_pos hgrow]
    rw [needsReallocationToMergeBuffers, hbuffer, hcap]
    by_cases hroom : s.m_buffer.m_capacity < s.m_size
    · rw [if_pos ⟨hgrow, hroom⟩, if_pos hroom, if_neg (by omega)]
    · rw [if_neg (fun hboth => hroom hboth.2), if_neg hroom, if_pos rfl]
  · have hbuffer : buffer s = s := by rw [buffer, if_neg hgrow]
    rw [needsReallocationToMergeBuffers, if_neg (fun hboth => hgrow hboth.1), hbuffer, if_pos rfl]

/-! ## reading -/

theorem getSomeData_rep {s : SharedBuffer} {xs : Bytes} (h : Rep s xs) {p : Nat} (hp : p < xs.length) :
    ∃ ys, getSomeData s p = some (ys.map some) ∧ ys ≠ [] ∧ ys <+: xs.drop p := by
  have hle := h.front_le
  rw [getSomeData, if_neg (by rw [h.size]; omega)]
  dsimp only
  by_cases hfront : p < s.m_buffer.size
  · refine ⟨(xs.take s.m_buffer.size).drop p, ?_, ?_, ?_⟩
    · rw [if_pos hfront, h.front, List.map_drop]
    · apply List.ne_nil_of_length_pos
      rw [List.length_drop, List.length_take]
      omega
    · rw [List.drop_take]
      exact List.take_prefix _ _
  · rw [if_neg hfront]
    have hback := h.back
    have hlen : (xs.drop s.m_buffer.size).length = xs.length - s.m_buffer.size := List.length_drop
    have hdrop : (xs.drop s.m_buffer.size).drop (p - s.m_buffer.size) = xs.drop p := by
      rw [List.drop_drop]
      congr 1
      omega
    generalize xs.drop s.m_buffer.size = back at hback hlen hdrop
    have hq : p - s.m_buffer.size < back.length := by omega
    have hbytes : s.m_size - s.m_buffer.size = back.length := by rw [h.size, hlen]
    have hleast := hback.least
    have henough := hback.enough
    have hwidth := hback.width
    have hpiece {n : Nat} := fun hi hn hend => hback.piece (p := p - s.m_buffer.size) (n := n) hi hn hend
    rw [hbytes, Nat.min_eq_right henough]
    generalize p - s.m_buffer.size = q at *
    generalize s.m_segments = segs at *
    have hsplit := Nat.div_add_mod q segmentSize
    have hmod := Nat.mod_lt q segmentSize_pos
    have hi : q / segmentSize < segs.length := by
      rw [Nat.div_lt_iff_lt_mul segmentSize_pos]
      omega
    have hseg : segs.getD (q / segmentSize) [] = segs[q / segmentSize] := by
      rw [List.getD_eq_getElem?_getD, List.getElem?_eq_getElem hi]
      rfl
    have hcells : (segs[q / segmentSize].drop (q % segmentSize)).length = segmentSize - q % segmentSize := by
      rw [List.length_drop, hwidth _ (List.getElem_mem hi)]
    -- the piece ends where the segment or the bytes end
    have hlength : ∀ n, 0 < n → q % segmentSize + n ≤ segmentSize → q + n ≤ back.length →
        ∃ ys, (if n ≤ (segs[q / segmentSize].drop (q % segmentSize)).length then
          some ((segs[q / segmentSize].drop (q % segmentSize)).take n) else none) = some (ys.map some) ∧
          ys ≠ [] ∧ ys <+: xs.drop p := by
      intro n hpos hn hend
      refine ⟨(back.drop q).take n, ?_, ?_, ?_⟩
      · rw [hcells, if_pos (by omega), hpiece hi hn hend]
      · apply List.ne_nil_of_length_pos
        rw [List.length_take, List.length_drop]
        omega
      · rw [← hdrop]
        exact List.take_prefix _ _
    rw [if_pos hi, hseg]
    have hsegs : (q / segmentSize + 1) * segmentSize = segmentSize * (q / segmentSize) + segmentSize := by ring
    split
    · rename_i hlast
      have hend : (q / segmentSize + 1) * segmentSize = segs.length * segmentSize := by
        rw [hlast, Nat.sub_add_cancel (by omega)]
      exact hlength _ (by omega) (by omega) (by omega)
    · rename_i hlast
      have hend : (q / segmentSize + 1) * segmentSize + segmentSize ≤ segs.length * segmentSize := by
        have hbefore := Nat.lt_of_le_of_ne (Nat.le_sub_one_of_lt hi) hlast
        have hmore : q / segmentSize + 1 + 1 ≤ segs.length := Nat.add_lt_of_lt_sub hbefore
        rw [← Nat.succ_mul]
        exact Nat.mul_le_mul_right segmentSize hmore
      exact hlength _ (by omega) (by omega) (by omega)

/-! ## copying -/

theorem foldl_append (segments : List (List Cell)) (v : Vec) :
    (segments.foldl Vec.append v).cells = v.cells ++ segments.flatten := by
  induction segments generalizing v with
  | nil => simp
  | cons seg segments ih => rw [List.foldl_cons, ih, Vec.cells_append, List.flatten_cons, List.append_assoc]

theorem copy_cells (s : SharedBuffer) : (copy s).m_buffer.cells = s.m_buffer.cells ++ s.m_segments.flatten := by
  show (s.m_segments.foldl Vec.append _).cells = _
  rw [foldl_append, Vec.cells_append, Vec.cells_reserve, List.nil_append]

theorem copy_capacity (s : SharedBuffer) : (copy s).m_buffer.size ≤ (copy s).m_buffer.m_capacity := by
  have hfold : ∀ (segments : List (List Cell)) (v : Vec), v.size ≤ v.m_capacity →
      (segments.foldl Vec.append v).size ≤ (segments.foldl Vec.append v).m_capacity := by
    intro segments
    induction segments with
    | nil => exact fun v hv => hv
    | cons seg segments ih => exact fun v _ => ih _ (v.capacity_append seg)
  exact hfold _ _ (Vec.capacity_append _ _)

theorem copy_rep {s : SharedBuffer} {xs : Bytes} (h : Rep s xs)
    (hfull : (s.m_size - s.m_buffer.size) % segmentSize = 0) : Rep (copy s) xs := by
  rw [h.size, ← List.length_drop] at hfull
  refine Rep.of_front h.size ?_ rfl (copy_capacity s)
  rw [copy_cells, h.back.flatten_eq (h.back.full hfull), h.front, ← List.map_append, List.take_append_drop]

theorem copy_bytes {s : SharedBuffer} {xs : Bytes} (h : Rep s xs) (hcopy : IsBytes (copy s) xs) :
    (s.m_size - s.m_buffer.size) % segmentSize = 0 := by
  have henough := h.back.enough
  have hle := h.front_le
  have hcells := hcopy.buffer
  have hlength : (copy s).m_buffer.size = s.m_buffer.size + s.m_segments.length * segmentSize := by
    rw [Vec.size, copy_cells, List.length_append, length_flatten h.back.width]
    rfl
  rw [List.length_drop] at henough
  have hsize : ¬ (copy s).m_buffer.size < (copy s).m_size := by
    rw [hlength]
    show ¬ _ < s.m_size
    rw [h.size]
    omega
  rw [buffer, if_neg hsize] at hcells
  have hwhole : (copy s).m_buffer.size = xs.length := by rw [Vec.size, hcells, List.length_map]
  have hsegs : s.m_size - s.m_buffer.size = s.m_segments.length * segmentSize := by
    rw [h.size]
    omega
  rw [hsegs, Nat.mul_mod_left]

/-! ## appending a buffer -/

theorem Rep.read {s : SharedBuffer} {xs : Bytes} (h : Rep s xs) (p : Nat) :
    ∃ ys, getSomeData s p = some (ys.map some) ∧ ys <+: xs.drop p ∧ (ys = [] ↔ xs.length ≤ p) := by
  by_cases hp : p < xs.length
  · obtain ⟨ys, hget, hne, hfront⟩ := getSomeData_rep h hp
    exact ⟨ys, hget, hfront, by simp [hne, hp]⟩
  · refine ⟨[], ?_, List.nil_prefix, by simpa using hp⟩
    rw [getSomeData, if_pos (by rw [h.size]; omega)]
    rfl

theorem appendFrom_rep {b data : Nat} (hne : b ≠ data) {xs ys : Bytes} (fuel position : Nat)
    (bufs : Nat → SharedBuffer) (hb : Rep (bufs b) (xs ++ ys.take position)) (hdata : Rep (bufs data) ys)
    (hfuel : ys.length - position < fuel) :
    ∃ t, appendFrom b data fuel position bufs = some (Function.update bufs b t) ∧ Rep t (xs ++ ys) := by
  induction fuel generalizing position bufs with
  | zero => exact absurd hfuel (Nat.not_lt_zero _)
  | succ fuel ih =>
    obtain ⟨piece, hget, ⟨rest, hrest⟩, hend⟩ := hdata.read position
    rw [appendFrom, hget]
    simp only [Option.bind_eq_bind, Option.bind_some]
    by_cases hnil : piece = []
    · refine ⟨bufs b, ?_, ?_⟩
      · rw [hnil, Function.update_eq_self]
        rfl
      · rwa [List.take_of_length_le (hend.mp hnil)] at hb
    · have hmap : piece.map (some : UInt8 → Cell) ≠ [] := by simpa using hnil
      have hpos := List.length_pos_iff.mpr hnil
      obtain ⟨t, happend, ht⟩ := append_rep hb piece
      have hmore : ys.take position ++ piece = ys.take (position + piece.length) := by
        rw [List.take_add, ← hrest, List.take_left]
      rw [List.append_assoc, hmore] at ht
      have hinside : position < ys.length := by
        by_contra hge
        exact hnil (hend.mpr (by omega))
      obtain ⟨u, heq, hu⟩ := ih (position + piece.length) (Function.update bufs b t) (by rwa [Function.update_self])
        (by rwa [Function.update_of_ne (Ne.symm hne)]) (by omega)
      rw [if_neg hmap, happend]
      refine ⟨u, ?_, hu⟩
      rw [List.length_map]
      show appendFrom b data fuel _ _ = _
      rw [heq, Function.update_idem]

theorem appendFrom_self {b : Nat} (fuel position : Nat) (bufs : Nat → SharedBuffer) (xs : Bytes)
    (hb : Rep (bufs b) xs) (hposition : position < xs.length) : appendFrom b b fuel position bufs = none := by
  induction fuel generalizing position bufs xs with
  | zero => rfl
  | succ fuel ih =>
    obtain ⟨piece, hget, hfront, hend⟩ := hb.read position
    have hnil : piece ≠ [] := fun hnil => absurd (hend.mp hnil) (by omega)
    have hmap : piece.map (some : UInt8 → Cell) ≠ [] := by simpa using hnil
    have hle := hfront.length_le
    rw [List.length_drop] at hle
    obtain ⟨t, happend, ht⟩ := append_rep hb piece
    rw [appendFrom, hget]
    simp only [Option.bind_eq_bind, Option.bind_some]
    rw [if_neg hmap, happend]
    simp only [Option.bind_some, List.length_map]
    refine ih _ _ (xs ++ piece) (by rwa [Function.update_self]) ?_
    rw [List.length_append]
    omega

/-! ## all buffers -/

theorem Rep.isBytes {s : SharedBuffer} {xs : Bytes} (h : Rep s xs) : IsBytes s xs := by
  refine ⟨h.size, ?_, (buffer_rep h).2, needsReallocation_iff s⟩
  intro p hp
  rw [h.size] at hp
  obtain ⟨ys, hget, hne, hfront⟩ := getSomeData_rep h hp
  exact ⟨ys.map some, hget, by simpa using hne, hfront.map some⟩

def AllRep (w : World) : Prop := ∃ bufs, w.buffers = some bufs ∧ ∀ b, Rep (bufs b) (w.appended b)

theorem AllRep.allBytes {w : World} (h : AllRep w) : AllBytes w := by
  obtain ⟨bufs, hbufs, hrep⟩ := h
  exact ⟨bufs, hbufs, fun b => (hrep b).isBytes⟩

theorem rep_update {bufs : Nat → SharedBuffer} {appended : Nat → Bytes} (h : ∀ b, Rep (bufs b) (appended b)) {c : Nat}
    {t : SharedBuffer} {xs : Bytes} (ht : Rep t xs) (b : Nat) :
    Rep (Function.update bufs c t b) (Function.update appended c xs b) := by
  by_cases hb : b = c
  · rw [hb, Function.update_self, Function.update_self]
    exact ht
  · rw [Function.update_of_ne hb, Function.update_of_ne hb]
    exact h b

theorem rep_empty : Rep {} [] := Rep.of_front rfl rfl rfl (Nat.le_refl 0)

theorem AllRep.step {w : World} {a : Call} (ha : Whole w a) (h : AllRep w) : AllRep (step w a) := by
  obtain ⟨bufs, hbufs, hrep⟩ := h
  cases a with
  | append b data =>
    obtain ⟨t, heq, ht⟩ := append_rep (hrep b) data
    refine ⟨Function.update bufs b t, ?_, rep_update hrep ht⟩
    simp [SharedBuffers.step, hbufs, stepBuffers, heq]
  | appendBuffer b data =>
    have hdata := hrep data
    by_cases hsame : b = data
    · -- an empty buffer, appended to itself
      have hzero := ha hsame bufs hbufs
      subst hsame
      have hnil : w.appended b = [] := List.length_eq_zero_iff.mp (by rw [← (hrep b).size, hzero])
      refine ⟨bufs, ?_, ?_⟩
      · simp [SharedBuffers.step, hbufs, stepBuffers, appendFrom, getSomeData, hzero]
      · intro c
        simp only [SharedBuffers.step, stepAppended, hnil, List.append_nil]
        rw [← hnil, Function.update_eq_self]
        exact hrep c
    · have hfuel : (w.appended data).length - 0 < (bufs data).m_size + 1 := by
        rw [hdata.size]
        omega
      obtain ⟨t, heq, ht⟩ := appendFrom_rep hsame ((bufs data).m_size + 1) 0 bufs (by simpa using hrep b) hdata hfuel
      refine ⟨Function.update bufs b t, ?_, rep_update hrep ht⟩
      simp [SharedBuffers.step, hbufs, stepBuffers, heq]
  | copy b c =>
    refine ⟨Function.update bufs c (copy (bufs b)), ?_, rep_update hrep (copy_rep (hrep b) (ha bufs hbufs))⟩
    simp [SharedBuffers.step, hbufs, stepBuffers]
  | buffer b =>
    refine ⟨Function.update bufs b (buffer (bufs b)), ?_, ?_⟩
    · simp [SharedBuffers.step, hbufs, stepBuffers]
    · intro c
      have hboth : Rep (Function.update bufs b (buffer (bufs b)) c) (Function.update w.appended b (w.appended b) c) :=
        rep_update hrep (buffer_rep (hrep b)).1 c
      rwa [Function.update_eq_self] at hboth
  | clear b =>
    refine ⟨Function.update bufs b {}, ?_, rep_update hrep rep_empty⟩
    simp [SharedBuffers.step, hbufs, stepBuffers, clear]

theorem AllRep.whole {w : World} {a : Call} (h : AllRep w) (hbytes : AllBytes (SharedBuffers.step w a)) : Whole w a := by
  obtain ⟨bufs, hbufs, hrep⟩ := h
  obtain ⟨after, hafter, hall⟩ := hbytes
  cases a with
  | append b data => trivial
  | appendBuffer b data =>
    intro hsame bufs' hbufs'
    obtain rfl : bufs = bufs' := Option.some.inj (hbufs.symm.trans hbufs')
    subst hsame
    by_contra hsome
    have hnone := appendFrom_self ((bufs b).m_size + 1) 0 bufs _ (hrep b) (by rw [← (hrep b).size]; omega)
    simp [SharedBuffers.step, hbufs, stepBuffers, hnone] at hafter
  | copy b c =>
    intro bufs' hbufs'
    obtain rfl : bufs = bufs' := Option.some.inj (hbufs.symm.trans hbufs')
    have hc := hall c
    have hupdate : after = Function.update bufs c (copy (bufs b)) := by
      simpa [SharedBuffers.step, hbufs, stepBuffers] using hafter.symm
    rw [hupdate, Function.update_self] at hc
    simp only [SharedBuffers.step, stepAppended, Function.update_self] at hc
    exact copy_bytes (hrep b) hc
  | buffer | clear => trivial

theorem AllRep.initial : AllRep World.initial := ⟨fun _ => {}, rfl, fun _ => rep_empty⟩

/-- what was appended is what every buffer shows, exactly in the runs that copy only full segments and append
no buffer with bytes to itself -/
theorem all_bytes_iff (calls : List Call) :
    (∀ pre, pre <+: calls → AllBytes (run step World.initial pre)) ↔ Along step Whole World.initial calls := by
  have hstep : ∀ w a, Whole w a → AllRep w → AllRep (step w a) := fun _ _ ha h => h.step ha
  have hbytes : ∀ w, AllRep w → AllBytes w := fun _ h => h.allBytes
  have hwhole : ∀ w a, AllRep w → AllBytes (step w a) → Whole w a := fun _ _ h hnext => h.whole hnext
  exact prefix_iff_along_inv hstep hbytes hwhole AllRep.initial calls

theorem append_empty {data : List Cell} (h : segmentSize < data.length) :
    append {} data = some { m_size := data.length, m_segments := copyIntoSegments [] data } := by
  have hne : data ≠ [] := List.ne_nil_of_length_pos (Nat.zero_lt_of_lt h)
  simp [append, hne, Vec.size, Nat.not_le.mpr h]

theorem not_copied {data : Bytes} (h : segmentSize < data.length) (hpart : data.length % segmentSize ≠ 0) :
    ¬ AllBytes (run step World.initial [.append 0 data, .copy 0 1]) := by
  intro hcopied
  have hfirst : AllRep (run step World.initial [.append 0 data]) := AllRep.step trivial AllRep.initial
  have hbuf := append_empty (show segmentSize < (data.map (some : UInt8 → Cell)).length by rwa [List.length_map])
  have hbufs : (run step World.initial [.append 0 data]).buffers = some (Function.update (fun _ => {}) 0
      { m_size := (data.map (some : UInt8 → Cell)).length, m_segments := copyIntoSegments [] (data.map some) }) := by
    show (append {} _ >>= _) = _
    rw [hbuf]
    rfl
  have hwhole := hfirst.whole hcopied _ hbufs
  rw [Function.update_self, List.length_map] at hwhole
  exact hpart hwhole

/-- 4097 bytes are one segment and a byte of the next; the copy has 8192 -/
theorem copy_beyond_the_bytes : ¬ ∀ calls : List Call, AllBytes (run step World.initial calls) := by
  intro h
  have hlen : (List.replicate 4097 (0x41 : UInt8)).length = 4097 := List.length_replicate
  exact not_copied (by rw [hlen]; decide) (by rw [hlen]; decide) (h [.append 0 (List.replicate 4097 0x41), .copy 0 1])

end Wkc.SharedBuffers
