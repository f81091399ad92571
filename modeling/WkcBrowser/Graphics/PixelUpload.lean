import WkcBrowser.Graphics.Pixels

/-!
# `ImageBuffer::putByteArray`: pixels into a canvas

* `putRows`                        the loop of both back ends, which differ in how far apart they take the rows of the
                                   source to be;
* `ImageBufferWKC.putByteArray`    the one without Cairo, also for an accelerated offscreen;
* `ImageBufferWKCCairo.putByteArray`  the one with Cairo;
* `Upload`                         sizes and rectangles that go through the `ASSERT`s;
* `Meets`                          what both should do;
* `putByteArray_iff`               without Cairo the rows of the source are taken to be as long as the rectangle, and an
                                   accelerated offscreen is told of a whole source.
-/

namespace Wkc
namespace Canvas
open Buf Loops

/-! ## the code -/

/-- the loop of `putImageData` -/
def putRows (multiplied : Multiply) (source : Bytes) (srcBytesPerRow : Int) (sourceRect : IntRect) (destPoint : IntPoint)
    (bitmap : Bytes) (stride : Int) : Option Bytes :=
  let originx := sourceRect.x
  let destx := destPoint.x + sourceRect.x
  let endx := destPoint.x + sourceRect.maxX
  let numColumns := endx - destx
  let originy := sourceRect.y
  let desty := destPoint.y + sourceRect.y
  let endy := destPoint.y + sourceRect.maxY
  let numRows := endy - desty
  copyPixels numRows numColumns (originy * srcBytesPerRow + originx * 4) srcBytesPerRow (stride * desty + 4 * destx) stride
    (fun bytes => bytesOf (putColor multiplied bytes)) source bitmap

/-- `m_data.m_image`: its bitmap and its rowbytes -/
structure BufferImage where
  bitmap : Bytes
  rowbytes : Int

structure ImageBufferData where
  m_image : Option BufferImage
  m_accelerateRendering : Bool

/-- a call of `wkcOffscreenPutPixelsPeer` -/
structure PutPixels where
  data : Bytes
  rect : IntRect

/-- what `putByteArray` leaves -/
structure Outcome where
  m_image : Option BufferImage
  calls : List PutPixels

/-- `tryFastMalloc`: it fails, or the memory has any contents -/
structure Malloc where
  alloc : Nat → Option Bytes
  length : ∀ size memory, alloc size = some memory → memory.length = size

namespace ImageBufferWKC

def putImageData (multiplied : Multiply) (source : Bytes) (sourceRect : IntRect) (destPoint : IntPoint)
    (data : ImageBufferData) (size : IntSize) : Option (Option BufferImage) :=
  if sourceRect.width = 0 ∨ sourceRect.height = 0 ∨ size.width = 0 ∨ size.height = 0 then some data.m_image
  else match data.m_image with
    | none => some none
    | some image =>
      (putRows multiplied source (4 * sourceRect.width) sourceRect destPoint image.bitmap image.rowbytes).map
        fun bitmap => some { image with bitmap := bitmap }

/-- the pixels that are put together for an accelerated offscreen -/
def packedColor (mult : Multiply) (bytes : Bytes) : UInt32 :=
  match mult with
  | .Premultiplied => colorFromPremultipliedARGB (word bytes)
  | .Unmultiplied => colorOf bytes

def putByteArray (malloc : Malloc) (mult : Multiply) (source : Bytes) (sourceSize : IntSize) (sourceRect : IntRect)
    (destPoint : IntPoint) (data : ImageBufferData) (size : IntSize) : Option Outcome :=
  if data.m_image.isNone ∧ data.m_accelerateRendering = true then
    let wkc_rect : IntRect :=
      { x := destPoint.x, y := destPoint.y, width := sourceSize.width, height := sourceSize.height }
    if sourceRect.x = 0 ∧ sourceRect.y = 0 ∧ sourceRect.width = sourceSize.width ∧
        sourceRect.height = sourceSize.height then
      some { m_image := none, calls := [{ data := source, rect := wkc_rect }] }
    else
      let pixelsNo := sourceRect.width * sourceRect.height
      if pixelsNo ≤ 0 then some { m_image := none, calls := [] }
      else match malloc.alloc (pixelsNo * 4).toNat with
        | none => some { m_image := none, calls := [] }
        | some pixelsToCopy => do
          let srcBytesPerRow := 4 * sourceRect.width
          let stride := 4 * sourceRect.width
          let pixels ← copyPixels sourceRect.height sourceRect.width (sourceRect.y * srcBytesPerRow + sourceRect.x * 4)
            srcBytesPerRow 0 stride (fun bytes => bytesOf (packedColor mult bytes)) source pixelsToCopy
          return { m_image := none, calls := [{ data := pixels, rect := wkc_rect }] }
  else
    (putImageData mult source sourceRect destPoint data size).map fun image => { m_image := image, calls := [] }

end ImageBufferWKC

namespace ImageBufferWKCCairo

/-- on the data and the stride of an image surface -/
def putByteArray (mult : Multiply) (source : Bytes) (sourceSize : IntSize) (sourceRect : IntRect)
    (destPoint : IntPoint) (image : BufferImage) : Option BufferImage :=
  (putRows mult source (4 * sourceSize.width) sourceRect destPoint image.bitmap image.rowbytes).map
    fun bitmap => { image with bitmap := bitmap }

end ImageBufferWKCCairo

/-! ## what goes through the assertions -/

/-- a part of a source that is not empty, and where it goes -/
structure Upload where
  sourceSize : IntSize
  sourceRect : IntRect
  destPoint : IntPoint
  size : IntSize
  nonempty : 0 < sourceRect.width ∧ 0 < sourceRect.height
  inSourceX : 0 ≤ sourceRect.x ∧ sourceRect.maxX ≤ sourceSize.width
  inSourceY : 0 ≤ sourceRect.y ∧ sourceRect.maxY ≤ sourceSize.height
  destX : 0 ≤ destPoint.x + sourceRect.x ∧ destPoint.x + sourceRect.x < size.width ∧
    destPoint.x + sourceRect.maxX ≤ size.width
  destY : 0 ≤ destPoint.y + sourceRect.y ∧ destPoint.y + sourceRect.y < size.height ∧
    destPoint.y + sourceRect.maxY ≤ size.height

namespace Upload
variable (u : Upload)

structure Source where
  bytes : Bytes
  length : (bytes.length : Int) = 4 * u.sourceSize.width * u.sourceSize.height

/-- Each pixel under the rectangle is the converted one of the source, and the others are what they were. -/
def Uploaded (mult : Multiply) (source bitmap : Bytes) (rowbytes : Int) (out : Bytes) : Prop :=
  out.length = bitmap.length ∧ ∀ x y, 0 ≤ x → x < u.size.width → 0 ≤ y → y < u.size.height →
    pixelAt out rowbytes x y =
      if u.sourceRect.Has (x - u.destPoint.x) (y - u.destPoint.y) then
        (bytesAt source u.sourceSize.width (x - u.destPoint.x) (y - u.destPoint.y)).map (putColor mult)
      else pixelAt bitmap rowbytes x y

end Upload

theorem offset_le {p pitch i j h : Int} (hp : p ≤ pitch) (hpitch : 0 ≤ pitch) (hi : i ≤ pitch) (hj : 0 ≤ j)
    (hjh : j + 1 ≤ h) : p * j + i ≤ pitch * h := by
  have h1 : p * j ≤ pitch * j := Int.mul_le_mul_of_nonneg_right hp hj
  have h2 : pitch * (j + 1) ≤ pitch * h := Int.mul_le_mul_of_nonneg_left hjh hpitch
  linarith

namespace Upload
variable (u : Upload)

theorem length_bytesOf (pixel : UInt32) : (bytesOf pixel).length = 4 := toLE_length _ _

theorem read_inside (source : u.Source) {p : Int} (hp : 0 ≤ p) (hle : p ≤ 4 * u.sourceSize.width) (y x : Int)
    (hy : 0 ≤ y) (hy' : y < u.sourceRect.height) (hx : 0 ≤ x) (hx' : x < u.sourceRect.width) :
    ∃ bytes, loadAt source.bytes (u.sourceRect.y * p + u.sourceRect.x * 4 + p * y + 4 * x) 4 = some bytes := by
  obtain ⟨hx0, hxw⟩ := u.inSourceX
  obtain ⟨hy0, hyh⟩ := u.inSourceY
  unfold IntRect.maxX at hxw
  unfold IntRect.maxY at hyh
  have hrow : 0 ≤ p * (u.sourceRect.y + y) := Int.mul_nonneg hp (by omega)
  have hlast : p * (u.sourceRect.y + y) + (4 * (u.sourceRect.x + x) + 4) ≤
      4 * u.sourceSize.width * u.sourceSize.height := offset_le hle (by omega) (by omega) (by omega) (by omega)
  have hoff : 0 ≤ u.sourceRect.y * p + u.sourceRect.x * 4 + p * y + 4 * x := by linarith
  have hin : u.sourceRect.y * p + u.sourceRect.x * 4 + p * y + 4 * x + (4 : Nat) ≤ source.bytes.length := by
    rw [source.length]
    push_cast
    linarith
  obtain ⟨bytes, hbytes, -⟩ := loadAt_inside hoff hin
  exact ⟨bytes, hbytes⟩

variable (mult : Multiply) (source : u.Source) (surface : Surface u.size)

/-- what the loop has done to the bitmap, with the rows of the source `p` bytes apart -/
def Put (p : Int) (out : Bytes) : Prop :=
  Copied u.sourceRect.height u.sourceRect.width (u.sourceRect.y * p + u.sourceRect.x * 4) p
    (surface.rowbytes * (u.destPoint.y + u.sourceRect.y) + 4 * (u.destPoint.x + u.sourceRect.x)) surface.rowbytes
    (fun bytes => bytesOf (putColor mult bytes)) source.bytes surface.bitmap out

theorem putRows_put {p : Int} (hp : 0 ≤ p) (hle : p ≤ 4 * u.sourceSize.width) :
    ∃ out, putRows mult source.bytes p u.sourceRect u.destPoint surface.bitmap surface.rowbytes = some out ∧
      u.Put mult source surface p out := by
  obtain ⟨hw, hh⟩ := u.nonempty
  obtain ⟨hx0, -, hxw⟩ := u.destX
  obtain ⟨hy0, -, hyh⟩ := u.destY
  have hpitch := surface.pitch
  have hinside := surface.inside
  unfold IntRect.maxX at hxw
  unfold IntRect.maxY at hyh
  have hcolumns : u.destPoint.x + u.sourceRect.maxX - (u.destPoint.x + u.sourceRect.x) = u.sourceRect.width := by
    unfold IntRect.maxX
    omega
  have hrows : u.destPoint.y + u.sourceRect.maxY - (u.destPoint.y + u.sourceRect.y) = u.sourceRect.height := by
    unfold IntRect.maxY
    omega
  have hrow : 0 ≤ surface.rowbytes * (u.destPoint.y + u.sourceRect.y) := Int.mul_nonneg (by omega) hy0
  have hlast : surface.rowbytes * (u.destPoint.y + u.sourceRect.y + (u.sourceRect.height - 1)) +
      4 * (u.destPoint.x + u.sourceRect.x + u.sourceRect.width) ≤ surface.rowbytes * u.size.height :=
    offset_le le_rfl (by omega) (by omega) (by omega) (by omega)
  unfold putRows
  dsimp only
  rw [hcolumns, hrows]
  refine copyPixels_spec (fun _ => length_bytesOf _) hh hw (u.read_inside source hp hle) ?_ ?_ ?_
  · linarith
  · omega
  · linarith

theorem Put.pixel {p : Int} {out : Bytes} (h : u.Put mult source surface p out) {x y : Int}
    (hrect : u.sourceRect.Has (x - u.destPoint.x) (y - u.destPoint.y)) :
    pixelAt out surface.rowbytes x y =
      (loadAt source.bytes (p * (y - u.destPoint.y) + 4 * (x - u.destPoint.x)) 4).map (putColor mult) := by
  obtain ⟨hx, hx', hy, hy'⟩ := hrect
  unfold IntRect.maxX at hx'
  unfold IntRect.maxY at hy'
  have hw := h.written (y - u.destPoint.y - u.sourceRect.y) (x - u.destPoint.x - u.sourceRect.x) (by omega) (by omega)
    (by omega) (by omega)
  have hdst : surface.rowbytes * (u.destPoint.y + u.sourceRect.y) + 4 * (u.destPoint.x + u.sourceRect.x) +
      surface.rowbytes * (y - u.destPoint.y - u.sourceRect.y) + 4 * (x - u.destPoint.x - u.sourceRect.x) =
        surface.rowbytes * y + 4 * x := by ring
  have hsrc : u.sourceRect.y * p + u.sourceRect.x * 4 + p * (y - u.destPoint.y - u.sourceRect.y) +
      4 * (x - u.destPoint.x - u.sourceRect.x) = p * (y - u.destPoint.y) + 4 * (x - u.destPoint.x) := by ring
  rw [hdst, hsrc] at hw
  rw [pixelAt, hw, Option.map_map]
  congr 1
  funext bytes
  exact word_bytesOf _

theorem Put.other {p : Int} {out : Bytes} (h : u.Put mult source surface p out) {x y : Int} (hx : 0 ≤ x)
    (hx' : x < u.size.width) (hrect : ¬ u.sourceRect.Has (x - u.destPoint.x) (y - u.destPoint.y)) :
    pixelAt out surface.rowbytes x y = pixelAt surface.bitmap surface.rowbytes x y := by
  obtain ⟨hx0, -, hxw⟩ := u.destX
  unfold IntRect.maxX at hxw
  unfold pixelAt
  rw [h.kept]
  intro i j hi hi' hj hj'
  have hne : x ≠ u.destPoint.x + u.sourceRect.x + j ∨ y ≠ u.destPoint.y + u.sourceRect.y + i := by
    by_contra hboth
    refine hrect ⟨?_, ?_, ?_, ?_⟩
    · omega
    · unfold IntRect.maxX
      omega
    · omega
    · unfold IntRect.maxY
      omega
  have hapart := pixels_apart surface.pitch hx hx' (by omega) (by omega) hne
  have hplace : surface.rowbytes * (u.destPoint.y + u.sourceRect.y) + 4 * (u.destPoint.x + u.sourceRect.x) +
      surface.rowbytes * i + 4 * j =
        surface.rowbytes * (u.destPoint.y + u.sourceRect.y + i) + 4 * (u.destPoint.x + u.sourceRect.x + j) := by ring
  rw [hplace]
  exact hapart

theorem Put.uploaded {out : Bytes} (h : u.Put mult source surface (4 * u.sourceSize.width) out) :
    u.Uploaded mult source.bytes surface.bitmap surface.rowbytes out := by
  refine ⟨h.length, ?_⟩
  intro x y hx hx' _ _
  split
  · next hrect =>
    rw [h.pixel u mult source surface hrect, bytesAt]
    congr 2
    ring
  · next hrect => exact h.other u mult source surface hx hx' hrect

end Upload

/-! ## where the back ends agree -/

/-- the kinds of surfaces of a canvas -/
inductive Offscreen where
  | software | accelerated
  deriving DecidableEq

namespace Upload
variable (u : Upload)

/-- What `putByteArray` should do on a surface: store the pixels, like the other back end, or give the peer as many as the
rectangle has that it names. -/
def Meets (mult : Multiply) : Offscreen → Prop
  | .software => ∀ (malloc : Malloc) (source : u.Source) (surface : Surface u.size), ∃ out,
      ImageBufferWKC.putByteArray malloc mult source.bytes u.sourceSize u.sourceRect u.destPoint
        { m_image := some { bitmap := surface.bitmap, rowbytes := surface.rowbytes }, m_accelerateRendering := false }
        u.size = some { m_image := some { bitmap := out, rowbytes := surface.rowbytes }, calls := [] } ∧
      u.Uploaded mult source.bytes surface.bitmap surface.rowbytes out ∧
      ImageBufferWKCCairo.putByteArray mult source.bytes u.sourceSize u.sourceRect u.destPoint
        { bitmap := surface.bitmap, rowbytes := surface.rowbytes } =
          some { bitmap := out, rowbytes := surface.rowbytes }
  | .accelerated => ∀ (malloc : Malloc) (source : u.Source), ∃ outcome,
      ImageBufferWKC.putByteArray malloc mult source.bytes u.sourceSize u.sourceRect u.destPoint
        { m_image := none, m_accelerateRendering := true } u.size = some outcome ∧
      ∀ call ∈ outcome.calls, 4 * call.rect.width * call.rect.height ≤ call.data.length

/-- when it does -/
def Fits : Offscreen → Prop
  | .software => u.sourceRect.width = u.sourceSize.width ∨ u.sourceRect.y = 0 ∧ u.sourceRect.height = 1
  | .accelerated => u.sourceRect.x = 0 ∧ u.sourceRect.y = 0 ∧ u.sourceRect.width = u.sourceSize.width ∧
      u.sourceRect.height = u.sourceSize.height

/-! ### surfaces in memory -/

theorem software_eq (malloc : Malloc) (mult : Multiply) (source : u.Source) (surface : Surface u.size) :
    ImageBufferWKC.putByteArray malloc mult source.bytes u.sourceSize u.sourceRect u.destPoint
        { m_image := some { bitmap := surface.bitmap, rowbytes := surface.rowbytes }, m_accelerateRendering := false }
        u.size =
      (putRows mult source.bytes (4 * u.sourceRect.width) u.sourceRect u.destPoint surface.bitmap surface.rowbytes).map
        fun out => { m_image := some { bitmap := out, rowbytes := surface.rowbytes }, calls := [] } := by
  obtain ⟨hw, hh⟩ := u.nonempty
  obtain ⟨hx0, hxw, -⟩ := u.destX
  obtain ⟨hy0, hyh, -⟩ := u.destY
  unfold ImageBufferWKC.putByteArray ImageBufferWKC.putImageData
  rw [if_neg (by simp), if_neg (by omega), Option.map_map]
  rfl

theorem putRows_fits (hfits : u.Fits .software) (mult : Multiply) (source bitmap : Bytes) (stride : Int) :
    putRows mult source (4 * u.sourceRect.width) u.sourceRect u.destPoint bitmap stride =
      putRows mult source (4 * u.sourceSize.width) u.sourceRect u.destPoint bitmap stride := by
  rcases hfits with hw | ⟨hy, hh⟩
  · rw [hw]
  · unfold putRows copyPixels
    dsimp only
    refine gridLoop_congr ?_ _
    intro y x buf hrow _
    have hzero : y = 0 := by
      unfold IntRect.maxY at hrow
      omega
    rw [hzero, hy]
    simp only [Nat.cast_zero, Int.mul_zero, Int.zero_mul, Int.add_zero, Int.zero_add]

theorem exists_white (sx sy : Int) (hx : 0 ≤ sx) (hx' : sx < u.sourceSize.width) (hy : 0 ≤ sy)
    (hy' : sy < u.sourceSize.height) : ∃ source : u.Source,
    bytesAt source.bytes u.sourceSize.width sx sy = some [255, 255, 255, 255] ∧
      ∀ off, 0 ≤ off → off + 4 ≤ 4 * (u.sourceSize.width * sy + sx) → loadAt source.bytes off 4 = some [0, 0, 0, 0] := by
  have harea : 0 ≤ 4 * u.sourceSize.width * u.sourceSize.height := Int.mul_nonneg (by omega) (by omega)
  have hsize : ((4 * u.sourceSize.width * u.sourceSize.height).toNat : Int) =
      4 * u.sourceSize.width * u.sourceSize.height := Int.toNat_of_nonneg harea
  have hlast : 4 * u.sourceSize.width * sy + (4 * sx + 4) ≤ 4 * u.sourceSize.width * u.sourceSize.height :=
    offset_le le_rfl (by omega) (by omega) hy (by omega)
  have hrow : 0 ≤ u.sourceSize.width * sy := Int.mul_nonneg (by omega) hy
  have hin : 4 * (u.sourceSize.width * sy + sx) + ([255, 255, 255, 255] : Bytes).length ≤
      (zeros (4 * u.sourceSize.width * u.sourceSize.height).toNat).length := by
    rw [zeros_length, hsize]
    show _ + ((4 : Nat) : Int) ≤ _
    push_cast
    linarith
  obtain ⟨bytes, hbytes⟩ := storeAt_inside (by omega) hin
  have hlength : (bytes.length : Int) = 4 * u.sourceSize.width * u.sourceSize.height := by
    rw [length_storeAt hbytes, zeros_length, hsize]
  refine ⟨⟨bytes, hlength⟩, loadAt_storeAt hbytes rfl, ?_⟩
  intro off hoff hle
  rw [loadAt_storeAt_apart hbytes (Or.inl hle)]
  refine loadAt_zeros hoff ?_
  rw [hsize]
  push_cast
  linarith

theorem putColor_white (mult : Multiply) : putColor mult [255, 255, 255, 255] = 0xFFFFFFFF := by
  cases mult <;> decide

theorem putColor_transparent (mult : Multiply) : putColor mult [0, 0, 0, 0] = 0 := by
  cases mult <;> decide

def blank (size : IntSize) (hw : 0 ≤ size.width) (hh : 0 ≤ size.height) : Surface size where
  bitmap := zeros (4 * size.width * size.height).toNat
  rowbytes := 4 * size.width
  pitch := le_rfl
  inside := by rw [zeros_length, Int.toNat_of_nonneg (Int.mul_nonneg (by omega) hh)]

def zeroed : Malloc where
  alloc size := some (zeros size)
  length size memory h := by
    obtain rfl := Option.some.inj h
    exact zeros_length size

theorem meets_software (mult : Multiply) : u.Meets mult .software ↔ u.Fits .software := by
  obtain ⟨hw, hh⟩ := u.nonempty
  have hsx := u.inSourceX
  have hsy := u.inSourceY
  have hdx := u.destX
  have hdy := u.destY
  unfold IntRect.maxX at hsx hdx
  unfold IntRect.maxY at hsy hdy
  constructor
  · intro hmeets
    by_contra hfits
    have hnarrow : u.sourceRect.width ≠ u.sourceSize.width := fun h => hfits (Or.inl h)
    have hlow : ¬ (u.sourceRect.y = 0 ∧ u.sourceRect.height = 1) := fun h => hfits (Or.inr h)
    -- a row of the rectangle that is not the first one of the source
    obtain ⟨sy, hsy1, hsyrect, hsyrect'⟩ : ∃ sy, 1 ≤ sy ∧ u.sourceRect.y ≤ sy ∧
        sy < u.sourceRect.y + u.sourceRect.height := by
      by_cases h : u.sourceRect.y = 0
      · exact ⟨1, le_rfl, by omega, by omega⟩
      · exact ⟨u.sourceRect.y, by omega, le_rfl, by omega⟩
    obtain ⟨source, hwhite, hzero⟩ := u.exists_white u.sourceRect.x sy (by omega) (by omega) (by omega) (by omega)
    let surface := blank u.size (by omega) (by omega)
    obtain ⟨out, hout, ⟨-, hup⟩, -⟩ := hmeets zeroed source surface
    obtain ⟨out', hout', hput⟩ := u.putRows_put mult source surface (p := 4 * u.sourceRect.width) (by omega) (by omega)
    rw [software_eq, hout', Option.map_some, Option.some.injEq, Outcome.mk.injEq, Option.some.injEq,
      BufferImage.mk.injEq] at hout
    obtain ⟨⟨rfl, -⟩, -⟩ := hout
    have hhas : u.sourceRect.Has (u.destPoint.x + u.sourceRect.x - u.destPoint.x) (u.destPoint.y + sy - u.destPoint.y) := by
      refine ⟨by omega, ?_, by omega, ?_⟩
      · unfold IntRect.maxX
        omega
      · unfold IntRect.maxY
        omega
    have hright := hup (u.destPoint.x + u.sourceRect.x) (u.destPoint.y + sy) (by omega) (by omega) (by omega) (by omega)
    rw [if_pos hhas, hput.pixel u mult source surface hhas, add_sub_cancel_left, add_sub_cancel_left, hwhite,
      Option.map_some, putColor_white] at hright
    have hshort : (u.sourceRect.width + 1) * sy ≤ u.sourceSize.width * sy :=
      Int.mul_le_mul_of_nonneg_right (by omega) (by omega)
    have hnonneg : 0 ≤ u.sourceRect.width * sy := Int.mul_nonneg (by omega) (by omega)
    rw [hzero _ (by linarith) (by linarith), Option.map_some, putColor_transparent] at hright
    exact absurd (Option.some.inj hright) (by decide)
  · intro hfits malloc source surface
    obtain ⟨out, hout, hput⟩ := u.putRows_put mult source surface (p := 4 * u.sourceSize.width) (by omega) le_rfl
    refine ⟨out, ?_, hput.uploaded u mult source surface, ?_⟩
    · rw [software_eq, u.putRows_fits hfits, hout]
      rfl
    · unfold ImageBufferWKCCairo.putByteArray
      rw [hout]
      rfl

/-! ### accelerated ones -/

/-- the rectangle that the peer is told of -/
def named : IntRect :=
  { x := u.destPoint.x, y := u.destPoint.y, width := u.sourceSize.width, height := u.sourceSize.height }

theorem accelerated_whole (hfits : u.Fits .accelerated) (malloc : Malloc) (mult : Multiply) (source : u.Source) :
    ImageBufferWKC.putByteArray malloc mult source.bytes u.sourceSize u.sourceRect u.destPoint
      { m_image := none, m_accelerateRendering := true } u.size =
        some { m_image := none, calls := [{ data := source.bytes, rect := u.named }] } := by
  unfold ImageBufferWKC.putByteArray
  rw [if_pos ⟨rfl, rfl⟩]
  exact if_pos hfits

theorem accelerated_part (hfits : ¬ u.Fits .accelerated) (mult : Multiply) (source : u.Source) : ∃ pixels,
    ImageBufferWKC.putByteArray zeroed mult source.bytes u.sourceSize u.sourceRect u.destPoint
      { m_image := none, m_accelerateRendering := true } u.size =
        some { m_image := none, calls := [{ data := pixels, rect := u.named }] } ∧
    (pixels.length : Int) = 4 * u.sourceRect.width * u.sourceRect.height := by
  obtain ⟨hw, hh⟩ := u.nonempty
  have hsx := u.inSourceX
  unfold IntRect.maxX at hsx
  have hpos : 0 < u.sourceRect.width * u.sourceRect.height := Int.mul_pos hw hh
  have hlength : ((zeros (u.sourceRect.width * u.sourceRect.height * 4).toNat).length : Int) =
      4 * u.sourceRect.width * u.sourceRect.height := by
    rw [zeros_length, Int.toNat_of_nonneg (by omega)]
    ring
  obtain ⟨pixels, hpixels, hcopied⟩ : ∃ pixels, copyPixels u.sourceRect.height u.sourceRect.width
      (u.sourceRect.y * (4 * u.sourceRect.width) + u.sourceRect.x * 4) (4 * u.sourceRect.width) 0 (4 * u.sourceRect.width)
      (fun bytes => bytesOf (ImageBufferWKC.packedColor mult bytes)) source.bytes
      (zeros (u.sourceRect.width * u.sourceRect.height * 4).toNat) = some pixels ∧ Copied _ _ _ _ _ _ _ _ _ pixels := by
    refine copyPixels_spec (fun _ => length_bytesOf _) hh hw (u.read_inside source (by omega) (by omega)) le_rfl le_rfl ?_
    rw [hlength]
    linarith
  refine ⟨pixels, ?_, by rw [hcopied.length, hlength]⟩
  unfold ImageBufferWKC.putByteArray
  rw [if_pos ⟨rfl, rfl⟩]
  dsimp only
  refine (if_neg hfits).trans ((if_neg (by omega)).trans ?_)
  show (copyPixels _ _ _ _ _ _ _ _ _).bind _ = _
  rw [hpixels]
  rfl

theorem meets_accelerated (mult : Multiply) : u.Meets mult .accelerated ↔ u.Fits .accelerated := by
  obtain ⟨hw, hh⟩ := u.nonempty
  have hsx := u.inSourceX
  have hsy := u.inSourceY
  unfold IntRect.maxX at hsx
  unfold IntRect.maxY at hsy
  constructor
  · intro hmeets
    by_contra hfits
    obtain ⟨source, -, -⟩ := u.exists_white 0 0 le_rfl (by omega) le_rfl (by omega)
    obtain ⟨pixels, hpixels, hlength⟩ := u.accelerated_part hfits mult source
    obtain ⟨outcome, houtcome, hcalls⟩ := hmeets zeroed source
    rw [hpixels, Option.some.injEq] at houtcome
    subst houtcome
    have hle : 4 * u.sourceSize.width * u.sourceSize.height ≤ (pixels.length : Int) :=
      hcalls _ List.mem_cons_self
    rw [hlength] at hle
    -- the rectangle is smaller than the source
    have hsmaller : u.sourceRect.width < u.sourceSize.width ∨ u.sourceRect.height < u.sourceSize.height := by
      by_contra h
      exact hfits ⟨by omega, by omega, by omega, by omega⟩
    rcases hsmaller with hlt | hlt
    · have h1 : (u.sourceRect.width + 1) * u.sourceRect.height ≤ u.sourceSize.width * u.sourceRect.height :=
        Int.mul_le_mul_of_nonneg_right (by omega) (by omega)
      have h2 : u.sourceSize.width * u.sourceRect.height ≤ u.sourceSize.width * u.sourceSize.height :=
        Int.mul_le_mul_of_nonneg_left (by omega) (by omega)
      linarith
    · have h1 : u.sourceRect.width * u.sourceRect.height ≤ u.sourceSize.width * u.sourceRect.height :=
        Int.mul_le_mul_of_nonneg_right (by omega) (by omega)
      have h2 : u.sourceSize.width * (u.sourceRect.height + 1) ≤ u.sourceSize.width * u.sourceSize.height :=
        Int.mul_le_mul_of_nonneg_left (by omega) (by omega)
      linarith
  · intro hfits malloc source
    refine ⟨_, u.accelerated_whole hfits malloc mult source, ?_⟩
    intro call hcall
    obtain rfl := List.mem_singleton.mp hcall
    exact source.length.ge

/-- Without Cairo, pixels go where they should if the rectangle is as wide as the source, or its first row; an accelerated
offscreen gets as many as it is told only if it is the whole source. -/
theorem putByteArray_iff (mult : Multiply) (offscreen : Offscreen) : u.Meets mult offscreen ↔ u.Fits offscreen := by
  cases offscreen with
  | software => exact u.meets_software mult
  | accelerated => exact u.meets_accelerated mult

end Upload

def leftColumn : Upload where
  sourceSize := { width := 2, height := 2 }
  sourceRect := { x := 0, y := 0, width := 1, height := 2 }
  destPoint := { x := 0, y := 0 }
  size := { width := 2, height := 2 }
  nonempty := by decide
  inSourceX := by decide
  inSourceY := by decide
  destX := by decide
  destY := by decide

/-- The left column of a source that is white on the right ends up half white, and the peer gets half the bytes of the
rectangle. -/
theorem leftColumn_fails :
    let source : Bytes := [0, 0, 0, 0, 255, 255, 255, 255, 0, 0, 0, 0, 255, 255, 255, 255]
    let u := leftColumn
    (ImageBufferWKC.putByteArray Upload.zeroed .Unmultiplied source u.sourceSize u.sourceRect u.destPoint
        { m_image := some { bitmap := zeros 16, rowbytes := 8 }, m_accelerateRendering := false } u.size).map
          (fun outcome => outcome.m_image.map (fun image => pixelAt image.bitmap 8 0 1)) = some (some (some 0xFFFFFFFF)) ∧
      (ImageBufferWKCCairo.putByteArray .Unmultiplied source u.sourceSize u.sourceRect u.destPoint
        { bitmap := zeros 16, rowbytes := 8 }).map (fun image => pixelAt image.bitmap 8 0 1) = some (some 0) ∧
      (ImageBufferWKC.putByteArray Upload.zeroed .Unmultiplied source u.sourceSize u.sourceRect u.destPoint
        { m_image := none, m_accelerateRendering := true } u.size).map (fun outcome => outcome.calls.map fun call =>
          (call.data.length, call.rect.width * call.rect.height * 4)) = some [(8, 16)] ∧
      ∀ mult offscreen, ¬ u.Meets mult offscreen := by
  refine ⟨by decide, by decide, by decide, ?_⟩
  intro mult offscreen
  cases offscreen with
  | software =>
    rw [Upload.meets_software]
    show ¬ ((1 : Int) = 2 ∨ (0 : Int) = 0 ∧ (2 : Int) = 1)
    decide
  | accelerated =>
    rw [Upload.meets_accelerated]
    show ¬ ((0 : Int) = 0 ∧ (0 : Int) = 0 ∧ (1 : Int) = 2 ∧ (2 : Int) = 2)
    decide

end Canvas
end Wkc
