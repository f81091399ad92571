import WkcBrowser.Lib.Runs
import Mathlib.Data.List.Nodup
import Mathlib.Data.List.Perm.Basic
import Mathlib.Data.List.Range
import Mathlib.Logic.Function.Basic

/-!
# The offscreen surfaces of a composited layer

* `Surface`, `Layer`      the two slots of `GraphicsLayerPrivate`, and the peer layers made and destroyed so far;
* `ensureOffscreen`, `disposeOffscreen`, `setOpticalZoom`, `destructor`      the functions of the source;
* `Accounted`             every peer layer is in a slot or has been destroyed, once;
* `Kept`                  what is so of the slots after every call;
* `ensureOffscreen_spec`  what a call that does not leave early has done;
* `right_iff`             a run is right exactly as long as an early exit finds the second surface as it should be.
-/

set_option linter.unusedSectionVars false

namespace Wkc
namespace Offscreens
open Runs Function

structure WKCSize where
  fWidth : Int
  fHeight : Int
  deriving DecidableEq

/-- a peer layer, by the number of its creation, and the size it has -/
structure Surface where
  peer : Nat
  size : WKCSize
  deriving DecidableEq

/-- an index of `m_offscreenLayer`; the second one is for 3D images -/
inductive Slot where
  | first
  | second
  deriving DecidableEq

structure Layer (Zoom : Type*) where
  m_offscreenLayer : Slot → Option Surface := fun _ => none
  m_offscreenSize : WKCSize := { fWidth := 0, fHeight := 0 }
  m_opticalzoom : Zoom
  m_isThreeDImageLayer : Bool := false
  /-- the peer layers that have been created -/
  made : Nat := 0
  /-- those that are gone, by `wkcLayerDeletePeer` or by a call that failed -/
  destroyed : List Nat := []
  /-- not in the source: the size that the last `ensureOffscreen` of a 3D image layer gave to the surfaces, as long as no
  surface has been dropped since -/
  asThreeD : Option WKCSize := none

section
variable {Zoom : Type*} [BEq Zoom]

/-! ## the functions of the source -/

def setSlot (s : Layer Zoom) (i : Slot) (surface : Option Surface) : Layer Zoom :=
  { s with m_offscreenLayer := update s.m_offscreenLayer i surface }

def destroyPeer (s : Layer Zoom) (surface : Surface) : Layer Zoom := { s with destroyed := s.destroyed ++ [surface.peer] }

def disposeSlot (s : Layer Zoom) (i : Slot) : Layer Zoom :=
  match s.m_offscreenLayer i with
  | some surface => setSlot (destroyPeer s surface) i none
  | none => s

def disposeOffscreen (s : Layer Zoom) : Layer Zoom :=
  let s := { s with m_offscreenSize := { fWidth := 0, fHeight := 0 }, asThreeD := none }
  disposeSlot (disposeSlot s .first) .second

/-- the peer layers in the slots -/
def held (s : Layer Zoom) : List Nat :=
  ((s.m_offscreenLayer .first).toList ++ (s.m_offscreenLayer .second).toList).map Surface.peer

/-- what has been destroyed when the object is gone -/
def destructor (s : Layer Zoom) : List Nat := s.destroyed ++ held s

/-- one turn of the loop of `ensureOffscreen`; `ok`: the peer resizes the layer, or makes one -/
def ensureSlot (s : Layer Zoom) (wsize : WKCSize) (i : Slot) (ok : Bool) : Layer Zoom × Bool :=
  match s.m_offscreenLayer i with
  | some surface =>
    if ok then (setSlot s i (some { surface with size := wsize }), true)
    else (setSlot (destroyPeer s surface) i none, false)
  | none => if ok then ({ setSlot s i (some { peer := s.made, size := wsize }) with made := s.made + 1 }, true) else (s, false)

def ensureSlots (wsize : WKCSize) (ok : Slot → Bool) : List (Slot) → Layer Zoom → Layer Zoom × Bool
  | [], s => (s, true)
  | i :: rest, s =>
    let turned := ensureSlot s wsize i (ok i)
    if turned.2 then ensureSlots wsize ok rest turned.1 else turned

/-- the test at the beginning of `ensureOffscreen` -/
def isEnsured (s : Layer Zoom) (wsize : WKCSize) : Bool :=
  (s.m_offscreenLayer .first).isSome && (wsize.fWidth == s.m_offscreenSize.fWidth && wsize.fHeight == s.m_offscreenSize.fHeight)

def ensureOffscreen (s : Layer Zoom) (wsize : WKCSize) (ok : Slot → Bool) : Layer Zoom × Bool :=
  if isEnsured s wsize then (s, true)
  else
    let ensured := ensureSlots wsize ok (if s.m_isThreeDImageLayer then [.first, .second] else [.first]) s
    if ensured.2 then
      ({ ensured.1 with
          m_offscreenSize := wsize
          asThreeD := if s.m_isThreeDImageLayer then some wsize else s.asThreeD }, true)
    else (disposeOffscreen ensured.1, false)

/-- `ok`: the peer sets the zoom of the layer; whether all went well is not told to the caller -/
def setOpticalZoom (s : Layer Zoom) (zoom : Zoom) (ok : Slot → Bool) : Layer Zoom × Bool :=
  if s.m_opticalzoom == zoom then (s, true)
  else
    let s := { s with m_opticalzoom := zoom }
    match s.m_offscreenLayer .first with
    | none => (s, true)
    | some first =>
      if !ok .first then (disposeOffscreen (setSlot (destroyPeer s first) .first none), false)
      else
        match s.m_isThreeDImageLayer, s.m_offscreenLayer .second with
        | true, some second =>
          if !ok .second then (disposeOffscreen (setSlot (destroyPeer s second) .second none), false) else (s, true)
        | _, _ => (s, true)

inductive Op (Zoom : Type*) where
  | ensureOffscreen (wsize : WKCSize) (ok : Slot → Bool)
  | disposeOffscreen
  | setOpticalZoom (zoom : Zoom) (ok : Slot → Bool)
  | setThreeDImageLayer (b : Bool)

/-- the layer after a call, and whether the call went well -/
def call (s : Layer Zoom) : Op Zoom → Layer Zoom × Bool
  | .ensureOffscreen wsize ok => ensureOffscreen s wsize ok
  | .disposeOffscreen => (disposeOffscreen s, true)
  | .setOpticalZoom zoom ok => setOpticalZoom s zoom ok
  | .setThreeDImageLayer b => ({ s with m_isThreeDImageLayer := b }, true)

def step (s : Layer Zoom) (op : Op Zoom) : Layer Zoom := (call s op).1

/-! ## what is wanted -/

/-- the slots that a layer needs -/
def Needed (s : Layer Zoom) (i : Slot) : Prop := i = .first ∨ s.m_isThreeDImageLayer = true

/-- A call from `s` is right: what it promises is there, a failure leaves nothing, and no peer layer is lost or destroyed
twice, neither now nor with the object. -/
structure Right (s : Layer Zoom) (op : Op Zoom) : Prop where
  ensured : ∀ wsize ok, op = .ensureOffscreen wsize ok → (call s op).2 = true → ∀ i, Needed (step s op) i →
    ∃ surface, (step s op).m_offscreenLayer i = some surface ∧ surface.size = wsize
  failed : (call s op).2 = false → ∀ i, (step s op).m_offscreenLayer i = none
  once : (step s op).destroyed.Nodup ∧ (∀ peer ∈ (step s op).destroyed, peer < (step s op).made) ∧
    ∀ i surface, (step s op).m_offscreenLayer i = some surface → surface.peer ∉ (step s op).destroyed
  afterwards : ∀ peer, (destructor (step s op)).count peer = if peer < (step s op).made then 1 else 0

/-- An early exit of a 3D image layer is for the size that its surfaces were given when they were last made or resized
together. -/
def Matches (s : Layer Zoom) : Op Zoom → Prop
  | .ensureOffscreen wsize _ => isEnsured s wsize = true → s.m_isThreeDImageLayer = true → s.asThreeD = some wsize
  | _ => True

instance Matches.decidable (s : Layer Zoom) : ∀ op, Decidable (Matches s op)
  | .ensureOffscreen wsize _ =>
    inferInstanceAs (Decidable (isEnsured s wsize = true → s.m_isThreeDImageLayer = true → s.asThreeD = some wsize))
  | .disposeOffscreen | .setOpticalZoom _ _ | .setThreeDImageLayer _ => instDecidableTrue

/-! ## the peer layers -/

/-- Every peer layer that was created is in one slot, or has been destroyed once. -/
def Accounted (s : Layer Zoom) : Prop := (destructor s).Perm (List.range s.made)

variable {s : Layer Zoom} {surface : Surface} {i j : Slot} {wsize : WKCSize} {ok : Slot → Bool}

theorem slots_cases (i : Slot) : i = .first ∨ i = .second := by
  cases i <;> simp

theorem setSlot_self (s : Layer Zoom) (i : Slot) (slot : Option Surface) :
    (setSlot s i slot).m_offscreenLayer i = slot := by
  show update s.m_offscreenLayer i slot i = slot
  rw [update_self]

theorem setSlot_of_ne (hne : j ≠ i) (s : Layer Zoom) (slot : Option Surface) :
    (setSlot s i slot).m_offscreenLayer j = s.m_offscreenLayer j := by
  show update s.m_offscreenLayer i slot j = s.m_offscreenLayer j
  rw [update_of_ne hne]

theorem Accounted.drop (h : Accounted s) (hi : s.m_offscreenLayer i = some surface) :
    Accounted (setSlot (destroyPeer s surface) i none) := by
  refine List.Perm.trans ?_ h
  unfold destructor held setSlot destroyPeer
  rcases slots_cases i with rfl | rfl
  · simp [hi]
  · simp only [hi, update_self, Option.toList_some, Option.toList_none, List.append_nil, List.map_append, List.map_singleton,
      List.append_assoc]
    exact (List.perm_append_comm).append_left s.destroyed

theorem Accounted.resize (h : Accounted s) (hi : s.m_offscreenLayer i = some surface) (wsize : WKCSize) :
    Accounted (setSlot s i (some { surface with size := wsize })) := by
  refine List.Perm.trans (List.Perm.of_eq ?_) h
  unfold destructor held setSlot
  rcases slots_cases i with rfl | rfl <;> simp [hi]

theorem Accounted.make (h : Accounted s) (hi : s.m_offscreenLayer i = none) (wsize : WKCSize) :
    Accounted { setSlot s i (some { peer := s.made, size := wsize }) with made := s.made + 1 } := by
  have hrange : ((destructor s) ++ [s.made]).Perm (List.range (s.made + 1)) := by
    rw [List.range_succ]
    exact h.append_right [s.made]
  refine List.Perm.trans ?_ hrange
  unfold destructor held setSlot
  rcases slots_cases i with rfl | rfl
  · simp only [hi, update_self, Option.toList_some, Option.toList_none, List.nil_append, List.map_append, List.map_singleton,
      List.append_assoc]
    exact (List.perm_append_comm).append_left s.destroyed
  · simp [hi]

theorem Accounted.disposeSlot (h : Accounted s) (i : Slot) : Accounted (disposeSlot s i) := by
  unfold Offscreens.disposeSlot
  split
  · next hi => exact h.drop hi
  · exact h

theorem disposeSlot_self (s : Layer Zoom) (i : Slot) : (disposeSlot s i).m_offscreenLayer i = none := by
  unfold disposeSlot
  split
  · exact setSlot_self _ i none
  · next hi => exact hi

theorem disposeSlot_none (hj : s.m_offscreenLayer j = none) (i : Slot) : (disposeSlot s i).m_offscreenLayer j = none := by
  unfold disposeSlot
  split
  · rcases eq_or_ne j i with rfl | hne
    · exact setSlot_self _ j none
    · rw [setSlot_of_ne hne]
      exact hj
  · exact hj

theorem disposeOffscreen_slots (s : Layer Zoom) (i : Slot) : (disposeOffscreen s).m_offscreenLayer i = none := by
  rcases slots_cases i with rfl | rfl
  · exact disposeSlot_none (disposeSlot_self _ .first) .second
  · exact disposeSlot_self _ .second

theorem Accounted.disposeOffscreen (h : Accounted s) : Accounted (disposeOffscreen s) := by
  have hcleared : Accounted { s with m_offscreenSize := { fWidth := 0, fHeight := 0 }, asThreeD := none } := h
  exact (hcleared.disposeSlot .first).disposeSlot .second

theorem Accounted.ensureSlot (h : Accounted s) (wsize : WKCSize) (i : Slot) (ok : Bool) :
    Accounted (ensureSlot s wsize i ok).1 := by
  unfold Offscreens.ensureSlot
  split
  · next surface hi =>
    split
    · exact h.resize hi wsize
    · exact h.drop hi
  · next hi =>
    split
    · exact h.make hi wsize
    · exact h

theorem Accounted.ensureSlots (h : Accounted s) (wsize : WKCSize) (ok : Slot → Bool) (layers : List (Slot)) :
    Accounted (ensureSlots wsize ok layers s).1 := by
  induction layers generalizing s with
  | nil => exact h
  | cons i rest ih =>
    have hturn := h.ensureSlot wsize i (ok i)
    unfold Offscreens.ensureSlots
    dsimp only
    split
    · exact ih hturn
    · exact hturn

/-! ## the slots -/

/-- what a turn that goes well has done -/
structure Turned (s s' : Layer Zoom) (i : Slot) (wsize : WKCSize) : Prop where
  slot : ∃ surface, s'.m_offscreenLayer i = some surface ∧ surface.size = wsize
  other : ∀ j, j ≠ i → s'.m_offscreenLayer j = s.m_offscreenLayer j
  threeD : s'.m_isThreeDImageLayer = s.m_isThreeDImageLayer

theorem ensureSlot_turned (h : (ensureSlot s wsize i (ok i)).2 = true) :
    Turned s (ensureSlot s wsize i (ok i)).1 i wsize := by
  unfold ensureSlot at h ⊢
  split
  · next surface hi =>
    rw [hi] at h
    split
    · exact ⟨⟨_, setSlot_self s i _, rfl⟩, fun j hne => setSlot_of_ne hne s _, rfl⟩
    · next hok => simp [hok] at h
  · next hi =>
    rw [hi] at h
    split
    · exact ⟨⟨_, setSlot_self s i _, rfl⟩, fun j hne => setSlot_of_ne hne s _, rfl⟩
    · next hok => simp [hok] at h

theorem ensureSlots_cons {rest : List (Slot)} (h : (ensureSlots wsize ok (i :: rest) s).2 = true) :
    (ensureSlot s wsize i (ok i)).2 = true ∧
      ensureSlots wsize ok (i :: rest) s = ensureSlots wsize ok rest (ensureSlot s wsize i (ok i)).1 := by
  unfold ensureSlots at h
  dsimp only at h
  split at h
  · next hturned => exact ⟨hturned, if_pos hturned⟩
  · next hturned => exact absurd h hturned

/-- what the loop has done, where it was not left -/
structure Ensured (s s' : Layer Zoom) (wsize : WKCSize) : Prop where
  first : ∃ surface, s'.m_offscreenLayer .first = some surface ∧ surface.size = wsize
  second : s.m_isThreeDImageLayer = true → ∃ surface, s'.m_offscreenLayer .second = some surface ∧ surface.size = wsize
  unneeded : s.m_isThreeDImageLayer = false → s'.m_offscreenLayer .second = s.m_offscreenLayer .second
  threeD : s'.m_isThreeDImageLayer = s.m_isThreeDImageLayer

theorem ensureSlots_ensured (wsize : WKCSize) (ok : Slot → Bool)
    (h : (ensureSlots wsize ok (if s.m_isThreeDImageLayer then [.first, .second] else [.first]) s).2 = true) :
    Ensured s (ensureSlots wsize ok (if s.m_isThreeDImageLayer then [.first, .second] else [.first]) s).1 wsize := by
  cases hthreeD : s.m_isThreeDImageLayer with
  | false =>
    rw [hthreeD, if_neg (by simp)] at h
    obtain ⟨hfirst, hrest⟩ := ensureSlots_cons h
    have hturned := ensureSlot_turned hfirst
    rw [if_neg (by simp), hrest]
    exact ⟨hturned.slot, fun h => absurd (hthreeD.symm.trans h) (by simp), fun _ => hturned.other .second (by decide),
      hturned.threeD⟩
  | true =>
    rw [hthreeD, if_pos rfl] at h
    obtain ⟨hfirst, hrest⟩ := ensureSlots_cons h
    have hturned := ensureSlot_turned hfirst
    rw [hrest] at h
    rw [if_pos rfl, hrest]
    obtain ⟨hsecond, hend⟩ := ensureSlots_cons h
    have hturned' := ensureSlot_turned hsecond
    rw [hend]
    obtain ⟨surface, hslot, hsize⟩ := hturned.slot
    refine ⟨⟨surface, (hturned'.other .first (by decide)).trans hslot, hsize⟩, fun _ => hturned'.slot,
      fun h => absurd (hthreeD.symm.trans h) (by simp), hturned'.threeD.trans hturned.threeD⟩

/-! ## a run -/

structure Kept (s : Layer Zoom) : Prop where
  accounted : Accounted s
  first : s.m_offscreenLayer .first = none → s.m_offscreenLayer .second = none
  size : ∀ surface, s.m_offscreenLayer .first = some surface → surface.size = s.m_offscreenSize
  asThreeD : (s.m_offscreenLayer .second).map Surface.size = s.asThreeD

theorem kept_new (zoom : Zoom) : Kept ({ m_opticalzoom := zoom } : Layer Zoom) where
  accounted := List.Perm.refl _
  first := fun _ => rfl
  size := fun surface h => absurd h (by simp)
  asThreeD := rfl

theorem disposeSlot_fields (s : Layer Zoom) (i : Slot) :
    (disposeSlot s i).m_offscreenSize = s.m_offscreenSize ∧ (disposeSlot s i).asThreeD = s.asThreeD := by
  unfold disposeSlot
  split <;> exact ⟨rfl, rfl⟩

theorem kept_disposeOffscreen (h : Accounted s) : Kept (disposeOffscreen s) := by
  have hslots := disposeOffscreen_slots s
  refine ⟨h.disposeOffscreen, fun _ => hslots .second, fun surface hfirst => ?_, ?_⟩
  · rw [hslots .first] at hfirst
    exact absurd hfirst (by simp)
  · rw [hslots .second]
    unfold disposeOffscreen
    dsimp only
    rw [(disposeSlot_fields _ .second).2, (disposeSlot_fields _ .first).2]
    rfl

theorem ensureOffscreen_spec (h : Kept s) (hlate : isEnsured s wsize = false) (ok : Slot → Bool) :
    Kept (ensureOffscreen s wsize ok).1 ∧
      (if (ensureOffscreen s wsize ok).2 then
        ∀ i, Needed (ensureOffscreen s wsize ok).1 i →
          ∃ surface, (ensureOffscreen s wsize ok).1.m_offscreenLayer i = some surface ∧ surface.size = wsize
      else ∀ i, (ensureOffscreen s wsize ok).1.m_offscreenLayer i = none) := by
  have haccounted := h.accounted.ensureSlots wsize ok (if s.m_isThreeDImageLayer then [.first, .second] else [.first])
  have hensured := ensureSlots_ensured (s := s) wsize ok
  unfold ensureOffscreen
  rw [if_neg (by rw [hlate]; simp)]
  dsimp only
  set ensured := ensureSlots wsize ok (if s.m_isThreeDImageLayer then [.first, .second] else [.first]) s
  by_cases hwent : ensured.2 = true
  · rw [if_pos hwent, if_pos rfl]
    have hensured := hensured hwent
    obtain ⟨first, hfirst, hsize⟩ := hensured.first
    refine ⟨⟨haccounted, fun hnone => ?_, fun surface hslot => ?_, ?_⟩, ?_⟩
    · exact absurd (hfirst.symm.trans hnone) (by simp)
    · obtain rfl : first = surface := Option.some.inj (hfirst.symm.trans hslot)
      exact hsize
    · show (ensured.1.m_offscreenLayer .second).map Surface.size = if s.m_isThreeDImageLayer then some wsize else s.asThreeD
      cases hthreeD : s.m_isThreeDImageLayer with
      | false =>
        rw [hensured.unneeded hthreeD, h.asThreeD]
        rfl
      | true =>
        obtain ⟨second, hsecond, hsize'⟩ := hensured.second hthreeD
        rw [hsecond, ← hsize']
        rfl
    · intro i hneeded
      rcases slots_cases i with rfl | rfl
      · exact ⟨first, hfirst, hsize⟩
      · refine hensured.second ?_
        rw [← hensured.threeD]
        exact hneeded.resolve_left (by decide)
  · rw [if_neg hwent, if_neg (by simp)]
    exact ⟨kept_disposeOffscreen haccounted, disposeOffscreen_slots ensured.1⟩

/-- An early exit changes nothing: the first surface has the size that is asked for. -/
theorem ensureOffscreen_early (hearly : isEnsured s wsize = true) (ok : Slot → Bool) :
    ensureOffscreen s wsize ok = (s, true) := by
  unfold ensureOffscreen
  rw [if_pos hearly]

theorem isEnsured_first (h : Kept s) (hearly : isEnsured s wsize = true) :
    ∃ surface, s.m_offscreenLayer .first = some surface ∧ surface.size = wsize := by
  unfold isEnsured at hearly
  rw [Bool.and_eq_true, Bool.and_eq_true, beq_iff_eq, beq_iff_eq, Option.isSome_iff_exists] at hearly
  obtain ⟨⟨surface, hfirst⟩, hwidth, hheight⟩ := hearly
  refine ⟨surface, hfirst, (h.size surface hfirst).trans ?_⟩
  cases hsize : s.m_offscreenSize
  rw [hsize] at hwidth hheight
  cases wsize
  exact (congrArg₂ WKCSize.mk hwidth hheight).symm

theorem setOpticalZoom_spec (h : Kept s) (zoom : Zoom) (ok : Slot → Bool) :
    Kept (setOpticalZoom s zoom ok).1 ∧
      ((setOpticalZoom s zoom ok).2 = false → ∀ i, (setOpticalZoom s zoom ok).1.m_offscreenLayer i = none) := by
  have hzoomed : Kept { s with m_opticalzoom := zoom } := ⟨h.accounted, h.first, h.size, h.asThreeD⟩
  have hfails : ∀ {i : Slot} {surface : Surface}, s.m_offscreenLayer i = some surface →
      Kept (disposeOffscreen (setSlot (destroyPeer { s with m_opticalzoom := zoom } surface) i none)) :=
    fun hi => kept_disposeOffscreen (hzoomed.accounted.drop hi)
  unfold setOpticalZoom
  split
  · exact ⟨h, fun hfailed => absurd hfailed (by simp)⟩
  dsimp only
  split
  · exact ⟨hzoomed, fun hfailed => absurd hfailed (by simp)⟩
  · next first hfirst =>
    split
    · exact ⟨hfails hfirst, fun _ => disposeOffscreen_slots _⟩
    · split
      · next second hthreeD hsecond =>
        split
        · exact ⟨hfails hsecond, fun _ => disposeOffscreen_slots _⟩
        · exact ⟨hzoomed, fun hfailed => absurd hfailed (by simp)⟩
      · exact ⟨hzoomed, fun hfailed => absurd hfailed (by simp)⟩

theorem kept_step (s : Layer Zoom) (op : Op Zoom) (h : Kept s) : Kept (step s op) := by
  cases op with
  | ensureOffscreen wsize ok =>
    show Kept (ensureOffscreen s wsize ok).1
    cases hearly : isEnsured s wsize with
    | true =>
      rw [ensureOffscreen_early hearly]
      exact h
    | false => exact (ensureOffscreen_spec h hearly ok).1
  | disposeOffscreen => exact kept_disposeOffscreen h.accounted
  | setOpticalZoom zoom ok => exact (setOpticalZoom_spec h zoom ok).1
  | setThreeDImageLayer b => exact ⟨h.accounted, h.first, h.size, h.asThreeD⟩

theorem failed_slots (h : Kept s) (op : Op Zoom) (hfailed : (call s op).2 = false) (i : Slot) :
    (step s op).m_offscreenLayer i = none := by
  cases op with
  | ensureOffscreen wsize ok =>
    show (ensureOffscreen s wsize ok).1.m_offscreenLayer i = none
    have hresult : (ensureOffscreen s wsize ok).2 = false := hfailed
    cases hearly : isEnsured s wsize with
    | true =>
      rw [ensureOffscreen_early hearly] at hresult
      exact absurd hresult (by simp)
    | false =>
      have hspec := (ensureOffscreen_spec h hearly ok).2
      rw [if_neg (by rw [hresult]; simp)] at hspec
      exact hspec i
  | disposeOffscreen => exact absurd hfailed (by simp [call])
  | setOpticalZoom zoom ok => exact (setOpticalZoom_spec h zoom ok).2 hfailed i
  | setThreeDImageLayer b => exact absurd hfailed (by simp [call])

theorem Accounted.once (h : Accounted s) : s.destroyed.Nodup ∧ (∀ peer ∈ s.destroyed, peer < s.made) ∧
    ∀ i surface, s.m_offscreenLayer i = some surface → surface.peer ∉ s.destroyed := by
  have hnodup : (s.destroyed ++ held s).Nodup := h.nodup_iff.mpr List.nodup_range
  rw [List.nodup_append] at hnodup
  refine ⟨hnodup.1, fun peer hpeer => ?_, fun i surface hi hmem => ?_⟩
  · exact List.mem_range.mp (h.mem_iff.mp (List.mem_append_left _ hpeer))
  · refine hnodup.2.2 surface.peer hmem surface.peer ?_ rfl
    unfold held
    rcases slots_cases i with rfl | rfl <;> simp [hi]

theorem Accounted.count (h : Accounted s) (peer : Nat) : (destructor s).count peer = if peer < s.made then 1 else 0 := by
  rw [h.count_eq, List.count_range]

theorem right_step (s : Layer Zoom) (op : Op Zoom) (h : Kept s) : Right s op ↔ Matches s op := by
  have hkept := kept_step s op h
  have hrest : (∀ wsize ok, op = .ensureOffscreen wsize ok → (call s op).2 = true → ∀ i, Needed (step s op) i →
      ∃ surface, (step s op).m_offscreenLayer i = some surface ∧ surface.size = wsize) → Right s op :=
    fun hensured => ⟨hensured, fun hfailed => failed_slots h op hfailed, hkept.accounted.once, hkept.accounted.count⟩
  cases op with
  | ensureOffscreen wsize ok =>
    have hstep : step s (.ensureOffscreen wsize ok) = (ensureOffscreen s wsize ok).1 := rfl
    cases hearly : isEnsured s wsize with
    | false =>
      refine iff_of_true (hrest fun wsize' ok' hop hresult => ?_) fun h => absurd (hearly.symm.trans h) (by simp)
      obtain ⟨rfl, rfl⟩ := Op.ensureOffscreen.inj hop
      have hspec := (ensureOffscreen_spec h hearly ok).2
      rw [if_pos (show (ensureOffscreen s wsize ok).2 = true from hresult)] at hspec
      exact hspec
    | true =>
      have hsame : step s (.ensureOffscreen wsize ok) = s := by rw [hstep, ensureOffscreen_early hearly]
      have hresult : (call s (.ensureOffscreen wsize ok)).2 = true := by
        show (ensureOffscreen s wsize ok).2 = true
        rw [ensureOffscreen_early hearly]
      constructor
      · intro hright _ hthreeD
        have hneeded : Needed (step s (.ensureOffscreen wsize ok)) .second := Or.inr (by rw [hsame]; exact hthreeD)
        obtain ⟨second, hsecond, hsize⟩ := hright.ensured wsize ok rfl hresult .second hneeded
        rw [hsame] at hsecond
        rw [← h.asThreeD, hsecond, ← hsize]
        rfl
      · intro hmatches
        refine hrest fun wsize' ok' hop _ i hneeded => ?_
        obtain ⟨rfl, rfl⟩ := Op.ensureOffscreen.inj hop
        rw [hsame] at hneeded ⊢
        rcases slots_cases i with rfl | rfl
        · exact isEnsured_first h hearly
        · have hasThreeD := hmatches hearly (hneeded.resolve_left (by decide))
          rw [← h.asThreeD, Option.map_eq_some_iff] at hasThreeD
          exact hasThreeD
  | disposeOffscreen => exact iff_of_true (hrest fun _ _ hop => nomatch hop) trivial
  | setOpticalZoom | setThreeDImageLayer => exact iff_of_true (hrest fun _ _ hop => nomatch hop) trivial

/-- A run of a new layer is right, call by call, exactly as long as the early exits match. -/
theorem right_iff (zoom : Zoom) (ops : List (Op Zoom)) :
    Along step Right { m_opticalzoom := zoom } ops ↔ Along step Matches { m_opticalzoom := zoom } ops :=
  along_iff kept_step right_step (kept_new zoom) ops

end

def allOk : Slot → Bool := fun _ => true

/-- A layer that becomes a 3D image between two calls of one size has no second surface. -/
theorem second_surface_missing :
    let size : WKCSize := { fWidth := 10, fHeight := 10 }
    let ops : List (Op Nat) := [.ensureOffscreen size allOk, .setThreeDImageLayer true]
    let s := run step { m_opticalzoom := 1 } ops
    (call s (.ensureOffscreen size allOk)).2 = true ∧ (step s (.ensureOffscreen size allOk)).m_isThreeDImageLayer = true ∧
      (step s (.ensureOffscreen size allOk)).m_offscreenLayer .second = none ∧ ¬ Right s (.ensureOffscreen size allOk) := by
  intro size ops s
  have hresult : (call s (.ensureOffscreen size allOk)).2 = true := by decide
  have hthreeD : (step s (.ensureOffscreen size allOk)).m_isThreeDImageLayer = true := by decide
  have hmissing : (step s (.ensureOffscreen size allOk)).m_offscreenLayer .second = none := by decide
  refine ⟨hresult, hthreeD, hmissing, fun hright => ?_⟩
  obtain ⟨surface, hslot, -⟩ := hright.ensured size allOk rfl hresult .second (Or.inr hthreeD)
  exact absurd (hmissing.symm.trans hslot) (by simp)

end Offscreens
end Wkc
