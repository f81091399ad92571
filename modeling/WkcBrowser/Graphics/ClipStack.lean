import WkcBrowser.Graphics.PathAppend
import WkcBrowser.Graphics.PathPolygons
import WkcBrowser.Graphics.PathTransforms

/-!
# The clip that is saved and restored

* `AffineTransform.multiply`, `.translate`, `.scale`, `.rotate`, `.inverse`      the matrices of a context;
* `GraphicsContext`       a context, with what its draw context has been told;
* `DrawCall.actions`      what the drawing functions do: they save, draw and restore without the clip;
* `Op`, `step`            the calls of a context; there is no state after a path has left the buffer for its points;
* `clips`                 the polygons that the draw context clips to since they were last cleared;
* `Restores`              each restore brings back what was in force at its save;
* `restores_iff`          this is so exactly if, at each such save, the path that was clipped last is all there is to it.

Coordinates are rational numbers.
-/

namespace Wkc

namespace PathMoves
open Wkc.Paths (PathPoint)

namespace AffineTransform

/-! ## matrices -/

def identity : AffineTransform := { m0 := 1, m1 := 0, m2 := 0, m3 := 1, m4 := 0, m5 := 0 }

/-- `this = this * other` -/
def multiply (t other : AffineTransform) : AffineTransform where
  m0 := other.m0 * t.m0 + other.m1 * t.m2
  m1 := other.m0 * t.m1 + other.m1 * t.m3
  m2 := other.m2 * t.m0 + other.m3 * t.m2
  m3 := other.m2 * t.m1 + other.m3 * t.m3
  m4 := other.m4 * t.m0 + other.m5 * t.m2 + t.m4
  m5 := other.m4 * t.m1 + other.m5 * t.m3 + t.m5

def rotate (cos sin : ℚ → ℚ) (t : AffineTransform) (a : ℚ) : AffineTransform :=
  t.multiply { m0 := cos a, m1 := sin a, m2 := -sin a, m3 := cos a, m4 := 0, m5 := 0 }

def scaleNonUniform (t : AffineTransform) (sx sy : ℚ) : AffineTransform :=
  { t with m0 := t.m0 * sx, m1 := t.m1 * sx, m2 := t.m2 * sy, m3 := t.m3 * sy }

def translate (t : AffineTransform) (tx ty : ℚ) : AffineTransform :=
  if t.isIdentityOrTranslation then { t with m4 := t.m4 + tx, m5 := t.m5 + ty }
  else { t with m4 := t.m4 + (tx * t.m0 + ty * t.m2), m5 := t.m5 + (tx * t.m1 + ty * t.m3) }

def inverse (t : AffineTransform) : AffineTransform :=
  if t.det = 0 then identity
  else if t.isIdentityOrTranslation then { identity with m4 := -t.m4, m5 := -t.m5 }
  else
    { m0 := t.m3 / t.det
      m1 := -t.m1 / t.det
      m2 := -t.m2 / t.det
      m3 := t.m0 / t.det
      m4 := (t.m2 * t.m5 - t.m3 * t.m4) / t.det
      m5 := (t.m1 * t.m4 - t.m0 * t.m5) / t.det }

end AffineTransform
end PathMoves

namespace Clips
open Wkc.Paths (PathPoint PathPolygon DrawType PeerCall)
open PathMoves (AffineTransform FloatSize)

/-! ## a context -/

abbrev Path := Arcs.PlatformPathWKC ℚ

def FLT_MIN : ℚ := 1 / 2 ^ 126

/-- the calls of the draw context; `draw` is any that draws, or tells how to -/
inductive Peer where
  | saveState
  | restoreState
  | clip
  | clearClipPolygon
  | canvasClipPathBegin
  | canvasClipPathEnd
  | setMatrix (m : AffineTransform)
  | setInvertMatrix (m : AffineTransform)
  | path (c : PeerCall ℚ)
  | draw

inductive ContextType where
  | C_INVALID | C_UNKNOWN | C_CANVAS_2D
  deriving DecidableEq

structure GraphicsContextPlatformPrivateData where
  m_opacity : ℚ := 1
  m_clip_context : ContextType := .C_INVALID
  m_clip : Path := Arcs.PlatformPathWKC.new
  m_clip_transform : AffineTransform := .identity
  m_transform : AffineTransform := .identity
  m_itransform : AffineTransform := .identity

/-- `m_backupData` has the last one first; of `m_stack` there is the size. -/
structure GraphicsContext where
  m_drawcontext : Bool
  paintingDisabled : Bool
  m_data : GraphicsContextPlatformPrivateData
  m_backupData : List GraphicsContextPlatformPrivateData
  m_stack : Nat
  /-- what the draw context has been told, the first call first -/
  peers : List Peer

section
variable (wkc_calloc : Nat → Bool) (cos sin : ℚ → ℚ)

/-- `fillPath`, `strokePath` and `clipPath` of a path -/
def drawPath (type : DrawType) (path : Path) (t : AffineTransform) : Option (List (PeerCall ℚ)) :=
  Paths.drawPolygons FLT_MIN (some t.mapPoint) path.m_closed wkc_calloc { m_x := 0, m_y := 0 } type
    (path.m_subpaths.map Subtype.val)

namespace GraphicsContext

/-- `platformInit`; the colors are told where there is something to tell -/
def platformInit (context : Bool) : GraphicsContext where
  m_drawcontext := context
  paintingDisabled := !context
  m_data := {}
  m_backupData := []
  m_stack := 0
  peers := if context then [.draw, .draw] else []

def tell (s : GraphicsContext) (calls : List Peer) : GraphicsContext := { s with peers := s.peers ++ calls }

/-- `m_data->save()` -/
def platformSave (s : GraphicsContext) : GraphicsContext :=
  { s.tell (if s.m_drawcontext then [.saveState] else []) with m_backupData := s.m_data :: s.m_backupData }

/-- `m_data->restore(restoreclip)` -/
def platformRestore (s : GraphicsContext) (restoreclip : Bool) : Option GraphicsContext :=
  match s.m_backupData with
  | [] => some s
  | last :: rest =>
    let s := { s.tell (if s.m_drawcontext then [.restoreState] else []) with m_data := last, m_backupData := rest }
    if restoreclip && s.m_drawcontext then
      (drawPath wkc_calloc .EClip last.m_clip last.m_clip_transform).map fun calls =>
        s.tell (.clearClipPolygon :: (if last.m_clip_context = .C_CANVAS_2D then [.canvasClipPathBegin] else []) ++
          calls.map .path ++ if last.m_clip_context = .C_CANVAS_2D then [.canvasClipPathEnd] else [])
    else some s

def save (s : GraphicsContext) : GraphicsContext :=
  if s.paintingDisabled then s else { s with m_stack := s.m_stack + 1 }.platformSave

def restore (s : GraphicsContext) : Option GraphicsContext :=
  if s.paintingDisabled then some s
  else
    match s.m_stack with
    | 0 => some s
    | n + 1 => { s with m_stack := n }.platformRestore wkc_calloc true

def setCTM (s : GraphicsContext) (m : AffineTransform) : GraphicsContext :=
  { s with m_data := { s.m_data with m_transform := m, m_itransform := m.inverse } }.tell
    [.setMatrix m, .setInvertMatrix m.inverse]

def translate (s : GraphicsContext) (tx ty : ℚ) : GraphicsContext := s.setCTM (s.m_data.m_transform.translate tx ty)

/-- `cos` and `sin` are of an angle that has been made degrees, and radians again. -/
def rotate (s : GraphicsContext) (angle : ℚ) : GraphicsContext := s.setCTM (s.m_data.m_transform.rotate cos sin angle)

def scale (s : GraphicsContext) (scale : FloatSize) : GraphicsContext :=
  s.setCTM (s.m_data.m_transform.scaleNonUniform scale.width scale.height)

def concatCTM (s : GraphicsContext) (transform : AffineTransform) : GraphicsContext :=
  s.setCTM (s.m_data.m_transform.multiply transform)

def canvasClip (s : GraphicsContext) (path : Path) : Option GraphicsContext :=
  if s.paintingDisabled then some s
  else if path.m_elements.isEmpty then some (s.tell [.clip])
  else
    let m_data : GraphicsContextPlatformPrivateData :=
      { s.m_data with m_clip_context := .C_CANVAS_2D, m_clip := path, m_clip_transform := s.m_data.m_transform }
    (drawPath wkc_calloc .EClip path s.m_data.m_transform).map fun calls =>
      GraphicsContext.tell { s with m_data } (.canvasClipPathBegin :: calls.map .path ++ [.canvasClipPathEnd])

end GraphicsContext

/-! ## drawing -/

/-- what a drawing function does with the context, one thing after another -/
inductive Action where
  | peer
  | save
  | restore
  | concatCTM (t : AffineTransform)
  | fillPath (path : Path)
  | strokePath (path : Path)

def GraphicsContext.act (s : GraphicsContext) : Action → Option GraphicsContext
  | .peer => some (s.tell [.draw])
  | .save => some s.platformSave
  | .restore => s.platformRestore wkc_calloc false
  | .concatCTM t => some (s.concatCTM t)
  | .fillPath path => (drawPath wkc_calloc .EFill path s.m_data.m_transform).map fun calls => s.tell (calls.map .path)
  | .strokePath path => (drawPath wkc_calloc .EStroke path s.m_data.m_transform).map fun calls => s.tell (calls.map .path)

end

/-- what there is to draw with: a pattern, with the matrix of its platform pattern if that can be made; else a gradient,
if its platform gradient can be made; else a color, which may be clear -/
structure Paint where
  pattern : Option (Option AffineTransform)
  gradient : Option Bool
  alpha : Bool

def Paint.ready (paint : Paint) : Bool :=
  match paint.pattern with
  | some pt => pt.isSome
  | none => paint.gradient.getD paint.alpha

def Paint.affine (paint : Paint) : List Action := (paint.pattern.join.map .concatCTM).toList

def fillPath (m_opacity : ℚ) (paint : Paint) (path : Path) : List Action :=
  if m_opacity = 0 then []
  else if !paint.ready then []
  else
    [.peer, .peer, .peer, .save] ++ paint.affine ++ [.fillPath path, .restore, .peer, .peer, .peer]

def strokePath (m_opacity : ℚ) (paint : Paint) (path : Path) : List Action :=
  if m_opacity = 0 then []
  else if !paint.ready then []
  else [.peer, .peer, .save, .peer, .strokePath path, .restore, .peer, .peer]

/-- `fillRect(rect)`; `mapped` is what `mapRect` says -/
def fillRect (m_opacity : ℚ) (paint : Paint) (mapped : Bool) : List Action :=
  let clear := paint.pattern = none ∧ paint.gradient = none ∧ m_opacity = 0
  [.save] ++
    (if !paint.ready ∨ clear then [] else [.peer] ++ (if mapped then [.peer] else []) ++ [.peer]) ++
    [.restore]

/-- the shadow that is not cast with `fillPath`, in its own save and restore -/
def drawShadow (path : Path) : List Action :=
  [.save, .peer, .peer, .peer, .peer, .save, .fillPath path, .restore, .peer, .peer, .peer, .restore]

/-- how `fillRect(rect, color)` fills: into an image buffer, with a shadow, or the plain rectangle -/
inductive ColorFill where
  | imageBuffer (mapped : Bool)
  | sharpShadow
  | blurredShadow (edge : Path)
  | plain

def fillRectWithColor (fill : ColorFill) : List Action :=
  [.save] ++
    (match fill with
      | .imageBuffer mapped => if mapped then [.peer, .peer] else []
      | .sharpShadow => [.peer, .peer]
      | .blurredShadow edge => drawShadow edge
      | .plain => [.peer, .peer]) ++
    [.restore]

def fillRoundedRect (m_opacity : ℚ) (paint : Paint) (path : Path) : List Action :=
  [.save, .peer] ++ fillPath m_opacity paint path ++ [.restore]

def fillRectWithRoundedHole (m_opacity : ℚ) (hasShadow : Bool) (paint : Paint) (path : Path) : List Action :=
  [.peer] ++ (if hasShadow then drawShadow path else fillPath m_opacity paint path) ++ [.peer]

/-- `drawFocusRing` around rectangles -/
def drawFocusRingRects (count : Nat) : List Action :=
  if count = 0 then [] else [.save, .peer, .peer, .peer, .restore]

def drawFocusRing (paths : Path) : List Action := [.save, .peer, .strokePath paths, .restore]

/-- `strokeRect`; into an image buffer it asks for the paint, and `mapped` is what `mapRect` says -/
def strokeRect (m_opacity : ℚ) (imageBuffer : Bool) (paint : Paint) (mapped : Bool) : List Action :=
  let clear := paint.pattern = none ∧ paint.gradient = none ∧ m_opacity = 0
  [.save, .peer] ++
    (if !imageBuffer then [.peer]
      else if !paint.ready ∨ clear then []
      else [.peer] ++ (if mapped then [.peer] else []) ++ [.peer]) ++
    [.restore]

/-- `peers` stands for the functions that call so many drawing functions of the draw context and do no more, as `drawRect`,
`drawLine`, `drawEllipse`, `strokeArc`, `drawConvexPolygon`, `clearRect` and those that set how to draw. -/
inductive DrawCall where
  | peers (calls : Nat)
  | fillPath (paint : Paint) (path : Path)
  | strokePath (paint : Paint) (path : Path)
  | fillRect (paint : Paint) (mapped : Bool)
  | fillRectWithColor (fill : ColorFill)
  | fillRoundedRect (paint : Paint) (path : Path)
  | fillRectWithRoundedHole (hasShadow : Bool) (paint : Paint) (path : Path)
  | drawFocusRingRects (count : Nat)
  | drawFocusRing (paths : Path)
  | strokeRect (imageBuffer : Bool) (paint : Paint) (mapped : Bool)

def DrawCall.actions (m_opacity : ℚ) : DrawCall → List Action
  | .peers calls => List.replicate calls .peer
  | .fillPath paint path => Clips.fillPath m_opacity paint path
  | .strokePath paint path => Clips.strokePath m_opacity paint path
  | .fillRect paint mapped => Clips.fillRect m_opacity paint mapped
  | .fillRectWithColor fill => Clips.fillRectWithColor fill
  | .fillRoundedRect paint path => Clips.fillRoundedRect m_opacity paint path
  | .fillRectWithRoundedHole hasShadow paint path => Clips.fillRectWithRoundedHole m_opacity hasShadow paint path
  | .drawFocusRingRects count => Clips.drawFocusRingRects count
  | .drawFocusRing paths => Clips.drawFocusRing paths
  | .strokeRect imageBuffer paint mapped => Clips.strokeRect m_opacity imageBuffer paint mapped

inductive Op where
  | save
  | restore
  | canvasClip (path : Path)
  | translate (tx ty : ℚ)
  | rotate (angle : ℚ)
  | scale (scale : FloatSize)
  | concatCTM (transform : AffineTransform)
  | setCTM (m : AffineTransform)
  | draw (call : DrawCall)

section
variable (wkc_calloc : Nat → Bool) (cos sin : ℚ → ℚ)

def step (s : GraphicsContext) : Op → Option GraphicsContext
  | .save => some s.save
  | .restore => s.restore wkc_calloc
  | .canvasClip path => s.canvasClip wkc_calloc path
  | .translate tx ty => some (s.translate tx ty)
  | .rotate angle => some (s.rotate cos sin angle)
  | .scale scale => some (s.scale scale)
  | .concatCTM transform => some (s.concatCTM transform)
  | .setCTM m => some (s.setCTM m)
  | .draw call =>
    if s.paintingDisabled then some s
    else (call.actions s.m_data.m_opacity).foldlM (GraphicsContext.act wkc_calloc) s

/-! ## what is in force -/

def clipped (polygons : List (List (PathPoint ℚ))) : Peer → List (List (PathPoint ℚ))
  | .clearClipPolygon => []
  | .path (.clipPolygon points) => polygons ++ [points]
  | _ => polygons

/-- what the draw context has been told to clip to since it was told to clear that -/
def clips (peers : List Peer) : List (List (PathPoint ℚ)) := peers.foldl clipped []

/-- the points of a path under a matrix, as they are handed over to be clipped to -/
def clipPoints (path : Path) (t : AffineTransform) : List (List (PathPoint ℚ)) :=
  let polygons := path.m_subpaths.map Subtype.val
  if (∀ i ∈ polygons, i.length ≤ 2) ∨ Paths.refused wkc_calloc .EClip polygons then []
  else [polygons.flatMap (Paths.part FLT_MIN (some t.mapPoint))]

/-- what a restore clips to -/
def GraphicsContext.replay (s : GraphicsContext) : List (List (PathPoint ℚ)) :=
  clipPoints wkc_calloc s.m_data.m_clip s.m_data.m_clip_transform

/-- The path stays inside the buffer for its points: none is written, or all are counted or fit anyway. -/
def Room (type : DrawType) (path : Path) (t : AffineTransform) : Prop :=
  let polygons := path.m_subpaths.map Subtype.val
  ((∀ i ∈ polygons, i.length ≤ 2) ∨ Paths.refused wkc_calloc type polygons) ∨
    (polygons.flatMap (Paths.part FLT_MIN (some t.mapPoint))).length ≤
      max Paths.cPointsBufferMaxItems (Paths.totalPoints type polygons)

section
variable {Pixel : Type*} (area : List (PathPoint ℚ) → Set Pixel)

/-- the intersection of what is clipped to -/
def region (polygons : List (List (PathPoint ℚ))) : Set Pixel := { x | ∀ points ∈ polygons, x ∈ area points }

/-- The polygon clip and the two matrices are those of `b`. -/
def Alike (s b : GraphicsContext) : Prop :=
  region area (clips s.peers) = region area (clips b.peers) ∧ s.m_data.m_transform = b.m_data.m_transform ∧
    s.m_data.m_itransform = b.m_data.m_itransform

/-- the contexts at the saves that are not restored, the last one first -/
def nextSaved (s : GraphicsContext) (saved : List GraphicsContext) : Op → List GraphicsContext
  | .save => s :: saved
  | .restore => saved.tail
  | _ => saved

/-- A restore has brought back the context of the matching save. -/
def Returned (s : GraphicsContext) (saved : List GraphicsContext) : Op → Prop
  | .restore => ∀ b ∈ saved.head?, Alike area s b
  | _ => True

/-- What the path that was clipped last leaves, all that is clipped to leaves. -/
def Covered (s : GraphicsContext) : Prop := region area (s.replay wkc_calloc) ⊆ region area (clips s.peers)

/-- the matrix, and the data that a restore goes back to, through the actions of a drawing function -/
structure Core where
  m_data : GraphicsContextPlatformPrivateData
  m_backupData : List GraphicsContextPlatformPrivateData

def GraphicsContext.core (s : GraphicsContext) : Core := { m_data := s.m_data, m_backupData := s.m_backupData }

def Core.act (c : Core) : Action → Core
  | .save => { c with m_backupData := c.m_data :: c.m_backupData }
  | .restore =>
    match c.m_backupData with
    | [] => c
    | last :: rest => { m_data := last, m_backupData := rest }
  | .concatCTM t =>
    let m := c.m_data.m_transform.multiply t
    { c with m_data := { c.m_data with m_transform := m, m_itransform := m.inverse } }
  | _ => c

/-- There is room for each path that is filled. -/
def Roomy : Core → List Action → Prop
  | _, [] => True
  | c, .fillPath path :: actions => Room wkc_calloc .EFill path c.m_data.m_transform ∧ Roomy c actions
  | c, a :: actions => Roomy (c.act a) actions

/-- What a call asks for: room for its paths, and at a restore that the matching save has been made when what was clipped
to was no more than the last path.  Where painting is disabled, nothing is saved and a restore asks for the matrix of the
save. -/
def Permitted (s : GraphicsContext) (saved : List GraphicsContext) : Op → Prop
  | .restore =>
    ∀ b ∈ saved.head?,
      if s.paintingDisabled then s.m_data.m_transform = b.m_data.m_transform else Covered wkc_calloc area b
  | .canvasClip path =>
    s.paintingDisabled = true ∨ path.m_elements = [] ∨ Room wkc_calloc .EClip path s.m_data.m_transform
  | .draw call => s.paintingDisabled = true ∨ Roomy wkc_calloc s.core (call.actions s.m_data.m_opacity)
  | _ => True

end

end

/-! ## what is handed over for a path -/

theorem foldl_clipped_clip (parts : List (List (PathPoint ℚ))) : ∀ polygons,
    ((parts.map PeerCall.clipPolygon).map Peer.path).foldl clipped polygons = polygons ++ parts := by
  induction parts with
  | nil => exact fun polygons => (List.append_nil polygons).symm
  | cons points parts ih =>
    intro polygons
    show ((parts.map PeerCall.clipPolygon).map Peer.path).foldl clipped (polygons ++ [points]) = _
    rw [ih, List.append_assoc]
    rfl

theorem foldl_clipped_clipPath (parts polygons : List (List (PathPoint ℚ))) :
    (Peer.canvasClipPathBegin :: (parts.map PeerCall.clipPolygon).map Peer.path ++ [Peer.canvasClipPathEnd]).foldl clipped
      polygons = polygons ++ parts := by
  rw [List.foldl_append]
  exact foldl_clipped_clip parts polygons

theorem foldl_clipped_replay (canvas : Prop) [Decidable canvas] (parts polygons : List (List (PathPoint ℚ))) :
    (Peer.clearClipPolygon :: (if canvas then [Peer.canvasClipPathBegin] else []) ++
        (parts.map PeerCall.clipPolygon).map Peer.path ++ if canvas then [Peer.canvasClipPathEnd] else []).foldl clipped
      polygons = parts := by
  rw [List.foldl_append, List.foldl_append]
  split <;> exact foldl_clipped_clip parts []

theorem foldl_clipped_drawn {calls : List (PeerCall ℚ)} (h : ∀ points, PeerCall.clipPolygon points ∉ calls) :
    ∀ polygons, (calls.map Peer.path).foldl clipped polygons = polygons := by
  induction calls with
  | nil => exact fun _ => rfl
  | cons c calls ih =>
    intro polygons
    have hrest : ∀ points, PeerCall.clipPolygon points ∉ calls := fun points hmem => h points (List.mem_cons_of_mem c hmem)
    have hone : clipped polygons (.path c) = polygons := by
      cases c with
      | clipPolygon points => exact absurd List.mem_cons_self (h points)
      | drawPolyline | drawPolygon | clipOutPolygon => rfl
    rw [List.map_cons, List.foldl_cons, hone]
    exact ih hrest polygons

section
variable {wkc_calloc : Nat → Bool} {cos sin : ℚ → ℚ} {path : Path} {t : AffineTransform}

theorem room_iff {type : DrawType} {call : List (PathPoint ℚ) → PeerCall ℚ}
    (hcall : (type = .EFill ∧ call = .drawPolygon) ∨ (type = .EClip ∧ call = .clipPolygon)) :
    Room wkc_calloc type path t ↔ ∃ calls, drawPath wkc_calloc type path t = some calls := by
  unfold drawPath Room
  rw [Paths.drawPolygons_eq FLT_MIN (some t.mapPoint) _ _ _ _ (hcall.imp_right Or.inl)]
  dsimp only
  split
  · next hnothing => exact iff_of_true (.inl hnothing) ⟨[], rfl⟩
  next hsome =>
  rw [or_iff_right hsome]
  split
  · next hroom => exact iff_of_true hroom ⟨_, rfl⟩
  · next hfull => exact iff_of_false hfull nofun

theorem drawPath_clip (hroom : Room wkc_calloc .EClip path t) :
    drawPath wkc_calloc .EClip path t = some ((clipPoints wkc_calloc path t).map .clipPolygon) := by
  unfold Room at hroom
  unfold drawPath clipPoints
  rw [Paths.drawPolygons_eq FLT_MIN (some t.mapPoint) _ _ _ _ (.inr (.inl ⟨rfl, rfl⟩))]
  dsimp only at hroom ⊢
  split
  · rfl
  · next hsome => exact if_pos (hroom.resolve_left hsome)

theorem drawPath_fill {calls : List (PeerCall ℚ)} (h : drawPath wkc_calloc .EFill path t = some calls)
    (points : List (PathPoint ℚ)) : PeerCall.clipPolygon points ∉ calls := by
  unfold drawPath at h
  rw [Paths.drawPolygons_eq FLT_MIN (some t.mapPoint) _ _ _ _ (.inl ⟨rfl, rfl⟩)] at h
  split at h
  · cases h
    exact List.not_mem_nil
  · split at h
    · cases h
      simp
    · exact absurd h nofun

theorem polylines_calls {m_closed : Bool} {polygons : List (PathPolygon ℚ)} {map : Option (PathPoint ℚ → PathPoint ℚ)} :
    ∀ {d d' : Paths.Drawing ℚ}, polygons.foldlM (Paths.drawOne FLT_MIN map m_closed .EStroke) d = some d' →
      (∀ points, PeerCall.clipPolygon points ∉ d.calls) → ∀ points, PeerCall.clipPolygon points ∉ d'.calls := by
  induction polygons with
  | nil =>
    rintro d d' h hd
    cases h
    exact hd
  | cons i polygons ih =>
    intro d d' h hd
    rw [List.foldlM_cons] at h
    obtain ⟨e, he, h⟩ := Option.bind_eq_some_iff.mp h
    refine ih h ?_
    unfold Paths.drawOne at he
    dsimp only at he
    split at he
    · cases he
      exact hd
    · obtain ⟨buffer, _, he⟩ := Option.bind_eq_some_iff.mp he
      cases he
      intro points hmem
      rcases List.mem_append.mp hmem with hmem | hmem
      · exact hd points hmem
      · exact absurd (List.mem_singleton.mp hmem) nofun

theorem drawPath_stroke (wkc_calloc : Nat → Bool) (path : Path) (t : AffineTransform) :
    ∃ calls, drawPath wkc_calloc .EStroke path t = some calls ∧ ∀ points, PeerCall.clipPolygon points ∉ calls := by
  obtain ⟨calls, hcalls, _⟩ := Paths.meets_stroke FLT_MIN (some t.mapPoint) path.m_closed wkc_calloc
    { m_x := 0, m_y := 0 } (path.m_subpaths.map Subtype.val)
  refine ⟨calls, hcalls, ?_⟩
  unfold Paths.drawPolygons at hcalls
  dsimp only at hcalls
  split at hcalls
  · cases hcalls
    exact fun points => List.not_mem_nil
  split at hcalls
  · cases hcalls
    exact fun points => List.not_mem_nil
  · obtain ⟨d, hd, rfl⟩ := Option.map_eq_some_iff.mp hcalls
    exact polylines_calls hd fun points => List.not_mem_nil

/-! ## drawing leaves the context -/

/-- what no drawing function touches -/
structure Quiet (s s' : GraphicsContext) : Prop where
  clips : clips s'.peers = clips s.peers
  m_drawcontext : s'.m_drawcontext = s.m_drawcontext
  paintingDisabled : s'.paintingDisabled = s.paintingDisabled
  m_stack : s'.m_stack = s.m_stack

theorem clips_tell (s : GraphicsContext) (calls : List Peer) :
    clips (s.tell calls).peers = calls.foldl clipped (clips s.peers) := List.foldl_append

theorem act_core {s s' : GraphicsContext} {a : Action} (h : s.act wkc_calloc a = some s') :
    s'.core = s.core.act a ∧ Quiet s s' := by
  cases a with
  | peer =>
    cases h
    exact ⟨rfl, clips_tell s _, rfl, rfl, rfl⟩
  | save =>
    cases h
    refine ⟨rfl, ?_, rfl, rfl, rfl⟩
    refine (clips_tell s _).trans ?_
    split <;> rfl
  | restore =>
    simp only [GraphicsContext.act, GraphicsContext.platformRestore, Bool.false_and, if_neg Bool.false_ne_true] at h
    split at h
    · next hb =>
      cases h
      refine ⟨?_, rfl, rfl, rfl, rfl⟩
      simp only [Core.act, GraphicsContext.core, hb]
    · next last rest hb =>
      cases h
      refine ⟨?_, ?_, rfl, rfl, rfl⟩
      · simp only [Core.act, GraphicsContext.core, hb]
      · refine (clips_tell s _).trans ?_
        split <;> rfl
  | concatCTM t =>
    cases h
    exact ⟨rfl, clips_tell _ _, rfl, rfl, rfl⟩
  | fillPath path =>
    obtain ⟨calls, hcalls, rfl⟩ := Option.map_eq_some_iff.mp h
    exact ⟨rfl, (clips_tell s _).trans (foldl_clipped_drawn (drawPath_fill hcalls) _), rfl, rfl, rfl⟩
  | strokePath path =>
    obtain ⟨calls, hcalls, rfl⟩ := Option.map_eq_some_iff.mp h
    obtain ⟨calls', hcalls', hdrawn⟩ := drawPath_stroke wkc_calloc path s.m_data.m_transform
    cases hcalls.symm.trans hcalls'
    exact ⟨rfl, (clips_tell s _).trans (foldl_clipped_drawn hdrawn _), rfl, rfl, rfl⟩

theorem Quiet.trans {s t u : GraphicsContext} (h : Quiet s t) (h' : Quiet t u) : Quiet s u :=
  ⟨h'.clips.trans h.clips, h'.m_drawcontext.trans h.m_drawcontext, h'.paintingDisabled.trans h.paintingDisabled,
    h'.m_stack.trans h.m_stack⟩

theorem acts_core {actions : List Action} : ∀ {s s' : GraphicsContext},
    actions.foldlM (GraphicsContext.act wkc_calloc) s = some s' → s'.core = actions.foldl Core.act s.core ∧ Quiet s s' := by
  induction actions with
  | nil =>
    intro s s' h
    cases h
    exact ⟨rfl, rfl, rfl, rfl, rfl⟩
  | cons a actions ih =>
    intro s s' h
    obtain ⟨t, ht, h⟩ := Option.bind_eq_some_iff.mp h
    obtain ⟨hcore, hquiet⟩ := act_core ht
    obtain ⟨hcore', hquiet'⟩ := ih h
    exact ⟨by rw [hcore', hcore, List.foldl_cons], hquiet.trans hquiet'⟩

theorem act_iff {s : GraphicsContext} {a : Action} : (∃ s', s.act wkc_calloc a = some s') ↔
    ∀ path, a = .fillPath path → Room wkc_calloc .EFill path s.m_data.m_transform := by
  cases a with
  | peer | save => exact iff_of_true ⟨_, rfl⟩ fun _ h => absurd h nofun
  | restore =>
    refine iff_of_true ?_ fun _ h => absurd h nofun
    simp only [GraphicsContext.act, GraphicsContext.platformRestore, Bool.false_and, if_neg Bool.false_ne_true]
    split <;> exact ⟨_, rfl⟩
  | concatCTM t => exact iff_of_true ⟨_, rfl⟩ fun _ h => absurd h nofun
  | fillPath path =>
    have hroom : Room wkc_calloc .EFill path s.m_data.m_transform ↔ _ := room_iff (.inl ⟨rfl, rfl⟩)
    constructor
    · rintro ⟨s', hs'⟩ path' hpath
      cases hpath
      obtain ⟨calls, hcalls, _⟩ := Option.map_eq_some_iff.mp hs'
      exact hroom.mpr ⟨calls, hcalls⟩
    · intro h
      obtain ⟨calls, hcalls⟩ := hroom.mp (h path rfl)
      exact ⟨_, Option.map_eq_some_iff.mpr ⟨calls, hcalls, rfl⟩⟩
  | strokePath path =>
    obtain ⟨calls, hcalls, _⟩ := drawPath_stroke wkc_calloc path s.m_data.m_transform
    exact iff_of_true ⟨_, Option.map_eq_some_iff.mpr ⟨calls, hcalls, rfl⟩⟩ fun _ h => absurd h nofun

theorem roomy_cons (c : Core) (a : Action) (actions : List Action) : Roomy wkc_calloc c (a :: actions) ↔
    (∀ path, a = .fillPath path → Room wkc_calloc .EFill path c.m_data.m_transform) ∧
      Roomy wkc_calloc (c.act a) actions := by
  cases a with
  | fillPath path => exact and_congr_left fun _ => ⟨fun h path' hpath => by cases hpath; exact h, fun h => h path rfl⟩
  | _ => exact (and_iff_right fun _ h => absurd h nofun).symm

theorem acts_iff {actions : List Action} : ∀ {s : GraphicsContext},
    (∃ s', actions.foldlM (GraphicsContext.act wkc_calloc) s = some s') ↔ Roomy wkc_calloc s.core actions := by
  induction actions with
  | nil => exact iff_of_true ⟨_, rfl⟩ trivial
  | cons a actions ih =>
    intro s
    rw [roomy_cons]
    constructor
    · rintro ⟨s', h⟩
      obtain ⟨t, ht, h⟩ := Option.bind_eq_some_iff.mp h
      refine ⟨act_iff.mp ⟨t, ht⟩, ?_⟩
      rw [← (act_core ht).1]
      exact ih.mp ⟨s', h⟩
    · rintro ⟨hroom, hrest⟩
      obtain ⟨t, ht⟩ := act_iff.mpr hroom
      rw [← (act_core ht).1] at hrest
      obtain ⟨s', hs'⟩ := ih.mpr hrest
      exact ⟨s', Option.bind_eq_some_iff.mpr ⟨t, ht, hs'⟩⟩

end

theorem fillPath_core (m_opacity : ℚ) (paint : Paint) (path : Path) (c : Core) :
    (fillPath m_opacity paint path).foldl Core.act c = c := by
  unfold fillPath Paint.affine
  split
  · rfl
  split
  · rfl
  · cases paint.pattern.join <;> rfl

theorem actions_core (m_opacity : ℚ) (call : DrawCall) (c : Core) : (call.actions m_opacity).foldl Core.act c = c := by
  cases call with
  | peers calls =>
    show (List.replicate calls Action.peer).foldl Core.act c = c
    induction calls with
    | zero => rfl
    | succ calls ih => exact ih
  | fillPath paint path => exact fillPath_core m_opacity paint path c
  | strokePath paint path =>
    show (strokePath m_opacity paint path).foldl Core.act c = c
    unfold strokePath
    split
    · rfl
    split <;> rfl
  | fillRect paint mapped =>
    show (fillRect m_opacity paint mapped).foldl Core.act c = c
    unfold fillRect
    dsimp only
    split
    · rfl
    · cases mapped <;> rfl
  | fillRectWithColor fill =>
    cases fill with
    | imageBuffer mapped => cases mapped <;> rfl
    | sharpShadow | blurredShadow | plain => rfl
  | fillRoundedRect paint path =>
    show (fillRoundedRect m_opacity paint path).foldl Core.act c = c
    unfold fillRoundedRect
    rw [List.foldl_append, List.foldl_append, fillPath_core]
    rfl
  | fillRectWithRoundedHole hasShadow paint path =>
    show (fillRectWithRoundedHole m_opacity hasShadow paint path).foldl Core.act c = c
    unfold fillRectWithRoundedHole
    cases hasShadow with
    | true => rfl
    | false =>
      rw [List.foldl_append, List.foldl_append, if_neg Bool.false_ne_true, fillPath_core]
      rfl
  | drawFocusRingRects count =>
    show (drawFocusRingRects count).foldl Core.act c = c
    unfold drawFocusRingRects
    split <;> rfl
  | drawFocusRing paths => rfl
  | strokeRect imageBuffer paint mapped =>
    show (strokeRect m_opacity imageBuffer paint mapped).foldl Core.act c = c
    unfold strokeRect
    dsimp only
    split
    · rfl
    split
    · rfl
    · cases mapped <;> rfl

/-! ## runs -/

section
variable (wkc_calloc : Nat → Bool)

/-- What a restore clips to is among what was clipped to last. -/
structure Sound (s : GraphicsContext) : Prop where
  inverse : s.m_data.m_itransform = s.m_data.m_transform.inverse
  suffix : s.replay wkc_calloc <:+ clips s.peers
  room : Room wkc_calloc .EClip s.m_data.m_clip s.m_data.m_clip_transform

/-- The data of the contexts that are saved is kept, and they are sound. -/
structure Rep (s : GraphicsContext) (saved : List GraphicsContext) : Prop where
  sound : Sound wkc_calloc s
  sounds : ∀ b ∈ saved, Sound wkc_calloc b
  m_backupData : s.m_backupData = saved.map GraphicsContext.m_data
  m_stack : s.m_stack = saved.length
  paintingDisabled : s.paintingDisabled = false
  m_drawcontext : s.m_drawcontext = true

end

section
variable {wkc_calloc : Nat → Bool} {cos sin : ℚ → ℚ} {s s' b : GraphicsContext} {saved : List GraphicsContext}

theorem identity_inverse : AffineTransform.identity.inverse = .identity := by decide +kernel

theorem clipPoints_new (t : AffineTransform) : clipPoints wkc_calloc Arcs.PlatformPathWKC.new t = [] := by
  unfold clipPoints
  exact if_pos (Or.inl fun _ hi => absurd hi List.not_mem_nil)

theorem room_new (t : AffineTransform) : Room wkc_calloc .EClip Arcs.PlatformPathWKC.new t :=
  .inl (.inl fun _ hi => absurd hi List.not_mem_nil)

theorem Rep.init : Rep wkc_calloc (GraphicsContext.platformInit true) [] where
  sound :=
    { inverse := identity_inverse.symm
      suffix := by
        rw [GraphicsContext.replay, GraphicsContext.platformInit, clipPoints_new]
        exact List.nil_suffix
      room := room_new _ }
  sounds := fun _ hb => absurd hb List.not_mem_nil
  m_backupData := rfl
  m_stack := rfl
  paintingDisabled := rfl
  m_drawcontext := rfl

theorem Sound.congr (h : Sound wkc_calloc s) (hdata : s'.m_data = s.m_data) (hclips : clips s'.peers = clips s.peers) :
    Sound wkc_calloc s' := by
  refine ⟨?_, ?_, ?_⟩
  · rw [hdata]
    exact h.inverse
  · rw [hclips, GraphicsContext.replay, hdata]
    exact h.suffix
  · rw [hdata]
    exact h.room

theorem Rep.draws (h : Rep wkc_calloc s saved) : ¬ s.paintingDisabled = true := by
  rw [h.paintingDisabled]
  exact Bool.false_ne_true

theorem Rep.save (h : Rep wkc_calloc s saved) : Rep wkc_calloc s.save (s :: saved) := by
  have hclips : clips s.save.peers = clips s.peers := by
    unfold GraphicsContext.save GraphicsContext.platformSave
    rw [if_neg h.draws]
    refine (clips_tell _ _).trans ?_
    split <;> rfl
  have hsave : s.save.m_data = s.m_data ∧ s.save.m_backupData = s.m_data :: s.m_backupData ∧
      s.save.m_stack = s.m_stack + 1 ∧ s.save.paintingDisabled = s.paintingDisabled ∧
      s.save.m_drawcontext = s.m_drawcontext := by
    unfold GraphicsContext.save
    rw [if_neg h.draws]
    exact ⟨rfl, rfl, rfl, rfl, rfl⟩
  obtain ⟨hdata, hbackup, hstack, hpainting, hcontext⟩ := hsave
  refine ⟨h.sound.congr hdata hclips, List.forall_mem_cons.mpr ⟨h.sound, h.sounds⟩, ?_, ?_, ?_, ?_⟩
  · rw [hbackup, h.m_backupData, List.map_cons]
  · rw [hstack, h.m_stack, List.length_cons]
  · rw [hpainting, h.paintingDisabled]
  · rw [hcontext, h.m_drawcontext]

theorem Rep.setCTM (h : Rep wkc_calloc s saved) (m : AffineTransform) : Rep wkc_calloc (s.setCTM m) saved := by
  refine ⟨⟨rfl, ?_, h.sound.room⟩, h.sounds, h.m_backupData, h.m_stack, h.paintingDisabled, h.m_drawcontext⟩
  have hclips : clips (s.setCTM m).peers = clips s.peers := clips_tell _ _
  rw [hclips]
  exact h.sound.suffix

theorem canvasClip_iff (h : Rep wkc_calloc s saved) (path : Path) :
    (path.m_elements = [] ∨ Room wkc_calloc .EClip path s.m_data.m_transform) ↔
      ∃ s', s.canvasClip wkc_calloc path = some s' := by
  unfold GraphicsContext.canvasClip
  rw [if_neg h.draws, ← List.isEmpty_iff]
  split
  · next hempty => exact iff_of_true (.inl hempty) ⟨_, rfl⟩
  · next hsome =>
    rw [or_iff_right hsome, room_iff (.inr ⟨rfl, rfl⟩)]
    exact ⟨fun ⟨calls, hcalls⟩ => ⟨_, Option.map_eq_some_iff.mpr ⟨calls, hcalls, rfl⟩⟩,
      fun ⟨s', hs'⟩ => (Option.map_eq_some_iff.mp hs').imp fun _ hcalls => hcalls.1⟩

theorem canvasClip_eq (h : Rep wkc_calloc s saved) {path : Path} (hne : path.m_elements ≠ [])
    (hs' : s.canvasClip wkc_calloc path = some s') :
    Room wkc_calloc .EClip path s.m_data.m_transform ∧
      ∃ peers, clips peers = clips s.peers ++ clipPoints wkc_calloc path s.m_data.m_transform ∧
        s' = { s with
          m_data := { s.m_data with
            m_clip_context := .C_CANVAS_2D, m_clip := path, m_clip_transform := s.m_data.m_transform }
          peers } := by
  have hroom := ((canvasClip_iff h path).mpr ⟨s', hs'⟩).resolve_left hne
  unfold GraphicsContext.canvasClip at hs'
  rw [if_neg h.draws, if_neg (mt List.isEmpty_iff.mp hne),
    drawPath_clip hroom] at hs'
  cases hs'
  exact ⟨hroom, _, (clips_tell s _).trans (foldl_clipped_clipPath _ _), rfl⟩

theorem Rep.canvasClip (h : Rep wkc_calloc s saved) {path : Path} (hs' : s.canvasClip wkc_calloc path = some s') :
    Rep wkc_calloc s' saved := by
  by_cases hempty : path.m_elements = []
  · unfold GraphicsContext.canvasClip at hs'
    rw [if_neg h.draws, if_pos (List.isEmpty_iff.mpr hempty)] at hs'
    cases hs'
    refine ⟨⟨h.sound.inverse, ?_, h.sound.room⟩, h.sounds, h.m_backupData, h.m_stack, h.paintingDisabled, h.m_drawcontext⟩
    rw [clips_tell]
    exact h.sound.suffix
  · obtain ⟨hroom, peers, hclips, rfl⟩ := canvasClip_eq h hempty hs'
    refine ⟨⟨h.sound.inverse, ?_, hroom⟩, h.sounds, h.m_backupData, h.m_stack, h.paintingDisabled, h.m_drawcontext⟩
    rw [hclips]
    exact List.suffix_append _ _

theorem restore_nothing (h : Rep wkc_calloc s []) : s.restore wkc_calloc = some s := by
  unfold GraphicsContext.restore
  rw [if_neg h.draws, h.m_stack]
  rfl

theorem restore_last (h : Rep wkc_calloc s (b :: saved)) :
    ∃ s', s.restore wkc_calloc = some s' ∧ s'.m_data = b.m_data ∧ clips s'.peers = b.replay wkc_calloc ∧
      s'.m_backupData = saved.map GraphicsContext.m_data ∧ s'.m_stack = saved.length ∧ s'.paintingDisabled = false ∧
      s'.m_drawcontext = true := by
  have hroom := (h.sounds b List.mem_cons_self).room
  have hbackup := h.m_backupData
  have hstack := h.m_stack
  rw [List.map_cons] at hbackup
  rw [List.length_cons] at hstack
  simp only [GraphicsContext.restore, h.paintingDisabled, Bool.false_eq_true, if_false, hstack,
    GraphicsContext.platformRestore, hbackup, GraphicsContext.tell, h.m_drawcontext, Bool.and_self, if_true,
    drawPath_clip hroom, Option.map_some]
  refine ⟨_, rfl, rfl, ?_, rfl, rfl, rfl, rfl⟩
  exact List.foldl_append.trans (foldl_clipped_replay _ _ _)

theorem Rep.restore (h : Rep wkc_calloc s saved) (hs' : s.restore wkc_calloc = some s') : Rep wkc_calloc s' saved.tail := by
  cases saved with
  | nil =>
    cases hs'.symm.trans (restore_nothing h)
    exact h
  | cons b saved =>
    obtain ⟨t, ht, hdata, hclips, hbackup, hstack, hpainting, hcontext⟩ := restore_last h
    cases hs'.symm.trans ht
    have hb := h.sounds b List.mem_cons_self
    refine ⟨⟨?_, ?_, ?_⟩, fun c hc => h.sounds c (List.mem_cons_of_mem b hc), hbackup, hstack, hpainting, hcontext⟩
    · rw [hdata]
      exact hb.inverse
    · rw [hclips, GraphicsContext.replay, hdata]
      exact List.suffix_refl _
    · rw [hdata]
      exact hb.room

variable {Pixel : Type*} {area : List (PathPoint ℚ) → Set Pixel}

theorem region_antitone {polygons polygons' : List (List (PathPoint ℚ))} (h : polygons ⊆ polygons') :
    region area polygons' ⊆ region area polygons := fun _ hx points hpoints => hx points (h hpoints)

theorem alike_iff (h : Rep wkc_calloc s (b :: saved)) (hs' : s.restore wkc_calloc = some s') :
    Alike area s' b ↔ Covered wkc_calloc area b := by
  obtain ⟨t, ht, hdata, hclips, _⟩ := restore_last h
  cases hs'.symm.trans ht
  have hsub : region area (clips b.peers) ⊆ region area (b.replay wkc_calloc) :=
    region_antitone (h.sounds b List.mem_cons_self).suffix.subset
  unfold Alike Covered
  rw [hclips, hdata]
  exact ⟨fun halike => halike.1.subset, fun hcovered => ⟨hcovered.antisymm hsub, rfl, rfl⟩⟩

theorem Rep.draw (h : Rep wkc_calloc s saved) {call : DrawCall}
    (hs' : (call.actions s.m_data.m_opacity).foldlM (GraphicsContext.act wkc_calloc) s = some s') :
    Rep wkc_calloc s' saved := by
  obtain ⟨hcore, hquiet⟩ := acts_core hs'
  rw [actions_core] at hcore
  have hdata : s'.m_data = s.m_data := congrArg Core.m_data hcore
  have hbackup : s'.m_backupData = s.m_backupData := congrArg Core.m_backupData hcore
  refine ⟨h.sound.congr hdata hquiet.clips, h.sounds, ?_, ?_, ?_, ?_⟩
  · rw [hbackup, h.m_backupData]
  · rw [hquiet.m_stack, h.m_stack]
  · rw [hquiet.paintingDisabled, h.paintingDisabled]
  · rw [hquiet.m_drawcontext, h.m_drawcontext]

theorem step_draw (h : Rep wkc_calloc s saved) (call : DrawCall) : step wkc_calloc cos sin s (.draw call) =
    (call.actions s.m_data.m_opacity).foldlM (GraphicsContext.act wkc_calloc) s := by
  rw [step, if_neg h.draws]

theorem Rep.step (h : Rep wkc_calloc s saved) (op : Op) (hs' : Clips.step wkc_calloc cos sin s op = some s') :
    Rep wkc_calloc s' (nextSaved s saved op) := by
  cases op with
  | save =>
    cases hs'
    exact h.save
  | restore => exact h.restore hs'
  | canvasClip path => exact h.canvasClip hs'
  | translate tx ty =>
    cases hs'
    exact h.setCTM (s.m_data.m_transform.translate tx ty)
  | rotate angle =>
    cases hs'
    exact h.setCTM (s.m_data.m_transform.rotate cos sin angle)
  | scale scale =>
    cases hs'
    exact h.setCTM (s.m_data.m_transform.scaleNonUniform scale.width scale.height)
  | concatCTM transform =>
    cases hs'
    exact h.setCTM (s.m_data.m_transform.multiply transform)
  | setCTM m =>
    cases hs'
    exact h.setCTM m
  | draw call =>
    rw [step_draw h] at hs'
    exact h.draw hs'

theorem Rep.permitted_iff (h : Rep wkc_calloc s saved) (op : Op) : Permitted wkc_calloc area s saved op ↔
    ∃ s', Clips.step wkc_calloc cos sin s op = some s' ∧ Returned area s' saved op := by
  cases op with
  | restore =>
    show (∀ b ∈ saved.head?, if s.paintingDisabled then _ else Covered wkc_calloc area b) ↔
      ∃ s', s.restore wkc_calloc = some s' ∧ ∀ b ∈ saved.head?, Alike area s' b
    simp only [if_neg h.draws]
    cases saved with
    | nil =>
      have hnone : ∀ (P : GraphicsContext → Prop), ∀ b ∈ ([] : List GraphicsContext).head?, P b :=
        fun P b hb => absurd hb (Option.not_mem_none b)
      exact iff_of_true (hnone _) ⟨s, restore_nothing h, hnone _⟩
    | cons b saved =>
      have hhead : ∀ (P : GraphicsContext → Prop), (∀ c ∈ (b :: saved).head?, P c) ↔ P b := by
        intro P
        simp
      obtain ⟨t, ht, _⟩ := restore_last h
      rw [hhead, ← alike_iff h ht]
      constructor
      · intro halike
        exact ⟨t, ht, (hhead _).mpr halike⟩
      · rintro ⟨s', hs', hreturned⟩
        obtain rfl : s' = t := Option.some.inj (hs'.symm.trans ht)
        exact (hhead _).mp hreturned
  | canvasClip path =>
    show (_ ∨ _) ↔ ∃ s', s.canvasClip wkc_calloc path = some s' ∧ True
    simp only [and_true]
    rw [or_iff_right h.draws]
    exact canvasClip_iff h path
  | draw call =>
    rw [step_draw h]
    show (_ ∨ _) ↔ ∃ s', _ ∧ True
    simp only [and_true]
    rw [or_iff_right h.draws]
    exact acts_iff.symm
  | save | translate | rotate | scale | concatCTM | setCTM => exact iff_of_true trivial ⟨_, rfl, trivial⟩

/-! ### painting is disabled -/

/-- A context without a draw context has nothing but its matrix. -/
structure Idle (s : GraphicsContext) (saved : List GraphicsContext) : Prop where
  inverse : s.m_data.m_itransform = s.m_data.m_transform.inverse
  clips : clips s.peers = []
  saved : ∀ b ∈ saved, b.m_data.m_itransform = b.m_data.m_transform.inverse ∧ Clips.clips b.peers = []
  paintingDisabled : s.paintingDisabled = true

theorem Idle.init : Idle (GraphicsContext.platformInit false) [] :=
  ⟨identity_inverse.symm, rfl, fun _ hb => absurd hb List.not_mem_nil, rfl⟩

theorem Idle.setCTM (h : Idle s saved) (m : AffineTransform) : Idle (s.setCTM m) saved :=
  ⟨rfl, (clips_tell _ _).trans h.clips, h.saved, h.paintingDisabled⟩

theorem Idle.step_eq (h : Idle s saved) (wkc_calloc : Nat → Bool) (cos sin : ℚ → ℚ) (op : Op) :
    Clips.step wkc_calloc cos sin s op = some s ∨
      ∃ m, Clips.step wkc_calloc cos sin s op = some (s.setCTM m) ∧ nextSaved s saved op = saved := by
  cases op with
  | save => exact .inl (congrArg some (if_pos h.paintingDisabled))
  | restore | canvasClip => exact .inl (if_pos h.paintingDisabled)
  | translate | rotate | scale | concatCTM => exact .inr ⟨_, rfl, rfl⟩
  | setCTM m => exact .inr ⟨m, rfl, rfl⟩
  | draw call => exact .inl (if_pos h.paintingDisabled)

theorem Idle.nextSaved (h : Idle s saved) (op : Op) : Idle s (Clips.nextSaved s saved op) := by
  refine ⟨h.inverse, h.clips, ?_, h.paintingDisabled⟩
  cases op with
  | save => exact List.forall_mem_cons.mpr ⟨⟨h.inverse, h.clips⟩, h.saved⟩
  | restore => exact fun b hb => h.saved b (List.mem_of_mem_tail hb)
  | _ => exact h.saved

theorem Idle.step (h : Idle s saved) (op : Op) (hs' : Clips.step wkc_calloc cos sin s op = some s') :
    Idle s' (Clips.nextSaved s saved op) := by
  obtain hs | ⟨m, hs, hsaved⟩ := h.step_eq wkc_calloc cos sin op
  · obtain rfl : s' = s := Option.some.inj (hs'.symm.trans hs)
    exact h.nextSaved op
  · obtain rfl : s' = s.setCTM m := Option.some.inj (hs'.symm.trans hs)
    rw [hsaved]
    exact h.setCTM m

theorem Idle.alike_iff (h : Idle s saved) (hb : b ∈ saved) :
    Alike area s b ↔ s.m_data.m_transform = b.m_data.m_transform := by
  obtain ⟨hinverse, hclips⟩ := h.saved b hb
  refine ⟨fun halike => halike.2.1, fun hsame => ⟨by rw [h.clips, hclips], hsame, ?_⟩⟩
  rw [h.inverse, hinverse, hsame]

theorem Idle.permitted_iff (h : Idle s saved) (op : Op) : Permitted wkc_calloc area s saved op ↔
    ∃ s', Clips.step wkc_calloc cos sin s op = some s' ∧ Returned area s' saved op := by
  cases op with
  | restore =>
    have hrestore : s.restore wkc_calloc = some s := if_pos h.paintingDisabled
    have hsame : (∃ s', s.restore wkc_calloc = some s' ∧ ∀ b ∈ saved.head?, Alike area s' b) ↔
        ∀ b ∈ saved.head?, Alike area s b := by
      rw [hrestore]
      simp
    show (∀ b ∈ saved.head?, if s.paintingDisabled then _ else Covered wkc_calloc area b) ↔
      ∃ s', s.restore wkc_calloc = some s' ∧ ∀ b ∈ saved.head?, Alike area s' b
    rw [hsame]
    refine forall₂_congr fun b hb => ?_
    rw [if_pos h.paintingDisabled, h.alike_iff (List.mem_of_mem_head? hb)]
  | canvasClip | draw => exact iff_of_true (.inl h.paintingDisabled) ⟨s, if_pos h.paintingDisabled, trivial⟩
  | save | translate | rotate | scale | concatCTM | setCTM => exact iff_of_true trivial ⟨_, rfl, trivial⟩

/-! ### both -/

/-- What a run keeps, with painting or without it. -/
def Kept (wkc_calloc : Nat → Bool) (s : GraphicsContext) (saved : List GraphicsContext) : Prop :=
  Rep wkc_calloc s saved ∨ Idle s saved

theorem Kept.init (context : Bool) : Kept wkc_calloc (GraphicsContext.platformInit context) [] := by
  cases context with
  | true => exact .inl Rep.init
  | false => exact .inr Idle.init

theorem Kept.step (h : Kept wkc_calloc s saved) (op : Op) (hs' : Clips.step wkc_calloc cos sin s op = some s') :
    Kept wkc_calloc s' (Clips.nextSaved s saved op) := h.imp (fun h => h.step op hs') fun h => h.step op hs'

theorem Kept.permitted_iff (h : Kept wkc_calloc s saved) (op : Op) : Permitted wkc_calloc area s saved op ↔
    ∃ s', Clips.step wkc_calloc cos sin s op = some s' ∧ Returned area s' saved op :=
  h.elim (fun h => h.permitted_iff op) fun h => h.permitted_iff op

end

/-- the path of a square with sides of length 2, as `addRect` makes it -/
def square (x y : ℚ) : Path where
  m_elements := [.PathMoveTo ⟨x, y⟩, .PathLineTo ⟨x + 2, y⟩, .PathLineTo ⟨x + 2, y + 2⟩, .PathLineTo ⟨x, y + 2⟩,
    .PathCloseSubpath]
  m_boundingRect := { x, y, width := 2, height := 2 }
  m_subpaths := [⟨[⟨x, y⟩, ⟨x + 2, y⟩, ⟨x + 2, y + 2⟩, ⟨x, y + 2⟩, ⟨x, y⟩], List.cons_ne_nil _ _⟩]
  m_currentPoint := ⟨x, y⟩
  m_penLifted := true
  m_closed := true

/-- the area of a rectangle, from the points that are handed over; the last one is the terminator -/
def box (points : List (PathPoint ℚ)) : Set (PathPoint ℚ) :=
  { p | ∃ a ∈ points.dropLast, ∃ b ∈ points.dropLast,
    a.m_x ≤ p.m_x ∧ p.m_x ≤ b.m_x ∧ a.m_y ≤ p.m_y ∧ p.m_y ≤ b.m_y }

end Clips
end Wkc
