import WkcBrowser.Graphics.PixelUpload

/-!
# `ImageBuffer::getUnmultipliedImageData`, `getPremultipliedImageData`: pixels out of a canvas

* `Clip`                        the part of a rectangle that is inside, along one axis;
* `readRows`, `getImageData`    the loop of both back ends;
* `getImageData_read`           every pixel of the rectangle is the one of the buffer, or transparent black;
* `GetPixelsPeer`               what is assumed of `wkcOffscreenGetPixelsPeer`;
* `getPremultipliedImageData`   the branch for an accelerated offscreen, which multiplies in place;
* `getPremultipliedImageData_iff`  it moves by the corner of the rectangle twice, and is right where that is no move.
-/

namespace Wkc
namespace Canvas
open Buf Loops

/-! ## the code -/

/-- `originx`, `destx` and `numColumns`, or the same along the other axis -/
structure Clip where
  origin : Int
  dest : Int
  count : Int

def clip (start length bound : Int) : Clip :=
  let origin := if start < 0 then 0 else start
  let dest := if start < 0 then -start else 0
  let stop := if start + length > bound then bound else start + length
  { origin := origin, dest := dest, count := stop - origin }

/-- `Uint8ClampedArray::create`, which zeroes its memory -/
def createArray (rect : IntRect) : Bytes := zeros (rect.width * rect.height * 4).toNat

/-- a rectangle that sticks out is zeroed once more -/
def clearArray (rect : IntRect) (size : IntSize) (result : Bytes) : Bytes :=
  if rect.x < 0 ∨ rect.y < 0 ∨ rect.x + rect.width > size.width ∨ rect.y + rect.height > size.height then
    zeros result.length
  else result

/-- the loop of `getImageData` -/
def readRows (multiplied : Multiply) (rect : IntRect) (bitmap : Bytes) (stride : Int) (size : IntSize) : Option Bytes :=
  let result := clearArray rect size (createArray rect)
  let columns := clip rect.x rect.width size.width
  let rows := clip rect.y rect.height size.height
  let destBytesPerRow := 4 * rect.width
  copyPixels rows.count columns.count (stride * rows.origin + 4 * columns.origin) stride
    (rows.dest * destBytesPerRow + columns.dest * 4) destBytesPerRow (fun bytes => getColor multiplied (word bytes))
    bitmap result

def ImageBufferWKC.getImageData (multiplied : Multiply) (rect : IntRect) (data : ImageBufferData) (size : IntSize) :
    Option Bytes :=
  match data.m_image with
  | none => some (createArray rect)
  | some image => readRows multiplied rect image.bitmap image.rowbytes size

def ImageBufferWKCCairo.getImageData (multiplied : Multiply) (rect : IntRect) (image : BufferImage) (size : IntSize) :
    Option Bytes :=
  readRows multiplied rect image.bitmap image.rowbytes size

/-! ## what is inside -/

theorem clip_bounds (start length bound : Int) : 0 ≤ (clip start length bound).origin ∧ 0 ≤ (clip start length bound).dest ∧
    (clip start length bound).origin = start + (clip start length bound).dest ∧
    (clip start length bound).origin + (clip start length bound).count ≤ bound ∧
    (clip start length bound).dest + (clip start length bound).count ≤ length := by
  unfold clip
  dsimp only
  split <;> split <;> omega

theorem clip_inside {start length bound i : Int} (hi : 0 ≤ i) (hlength : i < length) :
    0 ≤ start + i ∧ start + i < bound ↔
      (clip start length bound).dest ≤ i ∧ i < (clip start length bound).dest + (clip start length bound).count := by
  unfold clip
  dsimp only
  split <;> split <;> omega

/-- the pixel of a buffer, or transparent black beside it -/
def Filled (rect : IntRect) (size : IntSize) (pixel : Int → Int → Option Bytes) (out : Bytes) : Prop :=
  (out.length : Int) = 4 * rect.width * rect.height ∧ ∀ x y, 0 ≤ x → x < rect.width → 0 ≤ y → y < rect.height →
    bytesAt out rect.width x y =
      if (0 ≤ rect.x + x ∧ rect.x + x < size.width) ∧ 0 ≤ rect.y + y ∧ rect.y + y < size.height then
        pixel (rect.x + x) (rect.y + y)
      else some [0, 0, 0, 0]

section
variable {rect : IntRect} {size : IntSize}

theorem length_createArray (harea : 0 ≤ rect.width * rect.height) :
    ((createArray rect).length : Int) = 4 * rect.width * rect.height := by
  rw [createArray, zeros_length, Int.toNat_of_nonneg (by omega)]
  ring

theorem clearArray_eq (rect : IntRect) (size : IntSize) : clearArray rect size (createArray rect) = createArray rect := by
  unfold clearArray createArray
  split
  · rw [zeros_length]
  · rfl

theorem loadAt_createArray (harea : 0 ≤ rect.width * rect.height) {off : Int} (hoff : 0 ≤ off)
    (hin : off + 4 ≤ 4 * rect.width * rect.height) : loadAt (createArray rect) off 4 = some [0, 0, 0, 0] := by
  have hlength := length_createArray harea
  rw [createArray, zeros_length] at hlength
  refine loadAt_zeros hoff ?_
  rw [hlength]
  exact_mod_cast hin

/-- where the rows of the array begin that are filled -/
def arrayStart (rect : IntRect) (size : IntSize) : Int :=
  (clip rect.y rect.height size.height).dest * (4 * rect.width) + (clip rect.x rect.width size.width).dest * 4

theorem filled_of {pixel : Int → Int → Option Bytes} {out : Bytes} (harea : 0 ≤ rect.width * rect.height)
    (hlength : out.length = (createArray rect).length)
    (hwritten : ∀ y x, 0 ≤ y → y < (clip rect.y rect.height size.height).count → 0 ≤ x →
      x < (clip rect.x rect.width size.width).count →
      loadAt out (arrayStart rect size + 4 * rect.width * y + 4 * x) 4 =
        pixel ((clip rect.x rect.width size.width).origin + x) ((clip rect.y rect.height size.height).origin + y))
    (hkept : ∀ off : Int, (∀ y x, 0 ≤ y → y < (clip rect.y rect.height size.height).count → 0 ≤ x →
      x < (clip rect.x rect.width size.width).count →
      off + 4 ≤ arrayStart rect size + 4 * rect.width * y + 4 * x ∨
        arrayStart rect size + 4 * rect.width * y + 4 * x + 4 ≤ off) →
      loadAt out off 4 = loadAt (createArray rect) off 4) : Filled rect size pixel out := by
  refine ⟨by rw [hlength, length_createArray harea], ?_⟩
  intro x y hx hx' hy hy'
  obtain ⟨-, hdx, hox, -, hcx⟩ := clip_bounds rect.x rect.width size.width
  obtain ⟨-, hdy, hoy, -, hcy⟩ := clip_bounds rect.y rect.height size.height
  have hinx : 0 ≤ rect.x + x ∧ rect.x + x < size.width ↔ _ := clip_inside hx hx'
  have hiny : 0 ≤ rect.y + y ∧ rect.y + y < size.height ↔ _ := clip_inside hy hy'
  have hplace : ∀ j i, arrayStart rect size + 4 * rect.width * j + 4 * i =
      4 * rect.width * ((clip rect.y rect.height size.height).dest + j) +
        4 * ((clip rect.x rect.width size.width).dest + i) := by
    intro j i
    unfold arrayStart
    ring
  have hhere : 4 * (rect.width * y + x) = 4 * rect.width * y + 4 * x := by ring
  rw [bytesAt, hhere]
  split
  · next hin =>
    rw [hinx, hiny] at hin
    obtain ⟨⟨hx1, hx2⟩, hy1, hy2⟩ := hin
    have h := hwritten (y - (clip rect.y rect.height size.height).dest) (x - (clip rect.x rect.width size.width).dest)
      (by omega) (by omega) (by omega) (by omega)
    rw [hplace, add_sub_cancel, add_sub_cancel, hox, hoy, add_assoc, add_assoc, add_sub_cancel, add_sub_cancel] at h
    exact h
  · next hout =>
    rw [hinx, hiny] at hout
    have hrow : 0 ≤ rect.width * y := Int.mul_nonneg (by omega) hy
    rw [hkept]
    · refine loadAt_createArray harea (by linarith) ?_
      have hlast : 4 * rect.width * y + (4 * x + 4) ≤ 4 * rect.width * rect.height :=
        offset_le le_rfl (by omega) (by omega) hy (by omega)
      linarith
    · intro j i hj hj' hi hi'
      rw [hplace]
      exact pixels_apart le_rfl hx hx' (by omega) (by omega) (by omega)

theorem arrayStart_inside (harea : 0 ≤ rect.width * rect.height)
    (hcolumns : 0 < (clip rect.x rect.width size.width).count) (hrows : 0 < (clip rect.y rect.height size.height).count) :
    0 ≤ arrayStart rect size ∧ 4 * (clip rect.x rect.width size.width).count ≤ 4 * rect.width ∧
      arrayStart rect size + 4 * rect.width * ((clip rect.y rect.height size.height).count - 1) +
        4 * (clip rect.x rect.width size.width).count ≤ (createArray rect).length := by
  obtain ⟨-, hdx, -, -, hcx⟩ := clip_bounds rect.x rect.width size.width
  obtain ⟨-, hdy, -, -, hcy⟩ := clip_bounds rect.y rect.height size.height
  have hlast : 4 * rect.width * ((clip rect.y rect.height size.height).dest +
      ((clip rect.y rect.height size.height).count - 1)) + 4 * ((clip rect.x rect.width size.width).dest +
        (clip rect.x rect.width size.width).count) ≤ 4 * rect.width * rect.height :=
    offset_le le_rfl (by omega) (by omega) (by omega) (by omega)
  have hrow : 0 ≤ (clip rect.y rect.height size.height).dest * (4 * rect.width) := Int.mul_nonneg hdy (by omega)
  rw [length_createArray harea]
  unfold arrayStart
  refine ⟨by omega, by omega, by linarith⟩

end

/-! ## surfaces in memory -/

theorem readRows_filled (mult : Multiply) {rect : IntRect} {size : IntSize} (harea : 0 ≤ rect.width * rect.height)
    (surface : Surface size) : ∃ out, readRows mult rect surface.bitmap surface.rowbytes size = some out ∧
      Filled rect size (fun x y => (pixelAt surface.bitmap surface.rowbytes x y).map (getColor mult)) out := by
  obtain ⟨hox, -, -, hbx, -⟩ := clip_bounds rect.x rect.width size.width
  obtain ⟨hoy, -, -, hby, -⟩ := clip_bounds rect.y rect.height size.height
  have hpitch := surface.pitch
  have hinside := surface.inside
  unfold readRows
  dsimp only
  rw [clearArray_eq]
  by_cases hempty : (clip rect.y rect.height size.height).count ≤ 0 ∨ (clip rect.x rect.width size.width).count ≤ 0
  · rw [copyPixels_nothing hempty]
    refine ⟨_, rfl, filled_of harea rfl ?_ ?_⟩
    · intro y x hy hy' hx hx'
      omega
    · intro off hoff
      rfl
  · have hrows : 0 < (clip rect.y rect.height size.height).count := by omega
    have hcolumns : 0 < (clip rect.x rect.width size.width).count := by omega
    obtain ⟨hstart, hrow, hend⟩ := arrayStart_inside harea hcolumns hrows
    have hread : ∀ y x, 0 ≤ y → y < (clip rect.y rect.height size.height).count → 0 ≤ x →
        x < (clip rect.x rect.width size.width).count → ∃ bytes, loadAt surface.bitmap
          (surface.rowbytes * (clip rect.y rect.height size.height).origin +
            4 * (clip rect.x rect.width size.width).origin + surface.rowbytes * y + 4 * x) 4 = some bytes := by
      intro y x hy hy' hx hx'
      have hnonneg : 0 ≤ surface.rowbytes * ((clip rect.y rect.height size.height).origin + y) :=
        Int.mul_nonneg (by omega) (by omega)
      have hlast : surface.rowbytes * ((clip rect.y rect.height size.height).origin + y) +
          (4 * ((clip rect.x rect.width size.width).origin + x) + 4) ≤ surface.rowbytes * size.height :=
        offset_le le_rfl (by omega) (by omega) (by omega) (by omega)
      have hoff : 0 ≤ surface.rowbytes * (clip rect.y rect.height size.height).origin +
          4 * (clip rect.x rect.width size.width).origin + surface.rowbytes * y + 4 * x := by linarith
      have hin : surface.rowbytes * (clip rect.y rect.height size.height).origin +
          4 * (clip rect.x rect.width size.width).origin + surface.rowbytes * y + 4 * x + (4 : Nat) ≤
            surface.bitmap.length := by
        push_cast
        linarith
      obtain ⟨bytes, hbytes, -⟩ := loadAt_inside hoff hin
      exact ⟨bytes, hbytes⟩
    have hconvert : ∀ bytes, (getColor mult (word bytes)).length = 4 := fun _ => rfl
    obtain ⟨out, hout, hcopied⟩ := copyPixels_spec hconvert hrows hcolumns hread hstart hrow hend
    refine ⟨out, hout, filled_of harea hcopied.length ?_ hcopied.kept⟩
    intro y x hy hy' hx hx'
    rw [hcopied.written y x hy hy' hx hx', pixelAt, Option.map_map]
    congr 2
    ring

/-- Both back ends return an array with every pixel of the rectangle: the one of the buffer, or transparent black. -/
theorem getImageData_read (mult : Multiply) (rect : IntRect) (size : IntSize) (surface : Surface size)
    (harea : 0 ≤ rect.width * rect.height) : ∃ out,
      ImageBufferWKC.getImageData mult rect
        { m_image := some { bitmap := surface.bitmap, rowbytes := surface.rowbytes }, m_accelerateRendering := false }
        size = some out ∧
      ImageBufferWKCCairo.getImageData mult rect { bitmap := surface.bitmap, rowbytes := surface.rowbytes } size =
        some out ∧
      Filled rect size (fun x y => (pixelAt surface.bitmap surface.rowbytes x y).map (getColor mult)) out := by
  obtain ⟨out, hout, hfilled⟩ := readRows_filled mult harea surface
  exact ⟨out, hout, hout, hfilled⟩

/-- three by two pixels over the lower left corner of a surface of two by two -/
theorem getImageData_read_corner :
    let surface := Upload.blank { width := 2, height := 2 } (by decide) (by decide)
    let rect : IntRect := { x := -1, y := 1, width := 3, height := 2 }
    ∃ out, ImageBufferWKC.getImageData .Unmultiplied rect
        { m_image := some { bitmap := surface.bitmap, rowbytes := surface.rowbytes }, m_accelerateRendering := false }
        { width := 2, height := 2 } = some out ∧
      ImageBufferWKCCairo.getImageData .Unmultiplied rect { bitmap := surface.bitmap, rowbytes := surface.rowbytes }
        { width := 2, height := 2 } = some out ∧
      Filled rect { width := 2, height := 2 }
        (fun x y => (pixelAt surface.bitmap surface.rowbytes x y).map (getColor .Unmultiplied)) out :=
  getImageData_read .Unmultiplied { x := -1, y := 1, width := 3, height := 2 } { width := 2, height := 2 }
    (Upload.blank { width := 2, height := 2 } (by decide) (by decide)) (by decide)

/-! ## accelerated offscreens -/

/-- what `wkcOffscreenGetPixelsPeer` leaves: the pixels of `r` at `d`, in rows that are `rowbytes` apart -/
structure Written (pixels : Int → Int → UInt32) (rowbytes d : Int) (r : IntRect) (result out : Bytes) : Prop where
  length : out.length = result.length
  written : ∀ y x, 0 ≤ y → y < r.height → 0 ≤ x → x < r.width →
    loadAt out (d + rowbytes * y + 4 * x) 4 = some (bytesOf (pixels (r.x + x) (r.y + y)))
  kept : ∀ off : Int, (∀ y x, 0 ≤ y → y < r.height → 0 ≤ x → x < r.width →
    off + 4 ≤ d + rowbytes * y + 4 * x ∨ d + rowbytes * y + 4 * x + 4 ≤ off) → loadAt out off 4 = loadAt result off 4

/-- the peer: it has pixels that are not multiplied, and it writes them if there is room -/
structure GetPixelsPeer where
  pixels : Int → Int → UInt32
  getPixels : Int → Int → IntRect → Bytes → Option Bytes
  nothing : ∀ (rowbytes d : Int) (r : IntRect) (result : Bytes), r.height ≤ 0 ∨ r.width ≤ 0 →
    getPixels rowbytes d r result = some result
  writes : ∀ (rowbytes d : Int) (r : IntRect) (result : Bytes), 0 < r.height → 0 < r.width → 0 ≤ d →
    4 * r.width ≤ rowbytes → d + rowbytes * (r.height - 1) + 4 * r.width ≤ result.length →
    ∃ out, getPixels rowbytes d r result = some out ∧ Written pixels rowbytes d r result out

/-- the branch of `getPremultipliedImageData` for an accelerated offscreen -/
def getPremultipliedImageData (peer : GetPixelsPeer) (rect : IntRect) (size : IntSize) : Option Bytes := do
  let result := clearArray rect size (createArray rect)
  let columns := clip rect.x rect.width size.width
  let rows := clip rect.y rect.height size.height
  let stride := rect.width * 4
  let destBytesPerRow := 4 * rect.width
  let destRows := rows.dest * destBytesPerRow + columns.dest * 4
  let dataDst := rows.dest * destBytesPerRow + columns.dest * 4
  let wkc_rect : IntRect := { x := columns.origin, y := rows.origin, width := columns.count, height := rows.count }
  let result ← peer.getPixels destBytesPerRow dataDst wkc_rect result
  gridLoop rows.count.toNat columns.count.toNat (fun y x result => do
    -- `dataDst` is where the first pixel is, but the row and the column are those of the whole surface
    let pixel ← loadAt result (dataDst + stride * (y + rows.origin) + 4 * (x + columns.origin)) 4
    storeAt result (destRows + destBytesPerRow * y + 4 * x) (bytesOf (premultipliedARGBFromColor (word pixel)))) result

/-- what it should do, whatever the pixels are -/
def ReadsBack (rect : IntRect) (size : IntSize) : Prop := ∀ peer : GetPixelsPeer, ∃ out,
  getPremultipliedImageData peer rect size = some out ∧
    Filled rect size (fun x y => some (bytesOf (premultipliedARGBFromColor (peer.pixels x y)))) out

/-- Nothing of the rectangle is inside, or its corner is not to the right of the origin nor below it. -/
def Unmoved (rect : IntRect) (size : IntSize) : Prop :=
  min rect.maxX size.width ≤ max rect.x 0 ∨ min rect.maxY size.height ≤ max rect.y 0 ∨ rect.x ≤ 0 ∧ rect.y ≤ 0

theorem unmoved_iff (rect : IntRect) (size : IntSize) : Unmoved rect size ↔
    ((clip rect.y rect.height size.height).count ≤ 0 ∨ (clip rect.x rect.width size.width).count ≤ 0) ∨
      (clip rect.x rect.width size.width).origin = 0 ∧ (clip rect.y rect.height size.height).origin = 0 := by
  unfold Unmoved clip IntRect.maxX IntRect.maxY
  dsimp only
  split <;> split <;> split <;> split <;> omega

section
variable {rect : IntRect} {size : IntSize}

/-- what the peer is asked for -/
def insideRect (rect : IntRect) (size : IntSize) : IntRect where
  x := (clip rect.x rect.width size.width).origin
  y := (clip rect.y rect.height size.height).origin
  width := (clip rect.x rect.width size.width).count
  height := (clip rect.y rect.height size.height).count

/-- the turn of the loop that multiplies -/
def multiplyTurn (rect : IntRect) (size : IntSize) (y x : Nat) (result : Bytes) : Option Bytes := do
  let pixel ← loadAt result (arrayStart rect size + rect.width * 4 * (y + (clip rect.y rect.height size.height).origin) +
    4 * (x + (clip rect.x rect.width size.width).origin)) 4
  storeAt result (arrayStart rect size + 4 * rect.width * y + 4 * x) (bytesOf (premultipliedARGBFromColor (word pixel)))

theorem getPremultipliedImageData_nothing (peer : GetPixelsPeer)
    (hempty : (clip rect.y rect.height size.height).count ≤ 0 ∨ (clip rect.x rect.width size.width).count ≤ 0) :
    getPremultipliedImageData peer rect size = some (createArray rect) := by
  unfold getPremultipliedImageData
  dsimp only
  rw [clearArray_eq, peer.nothing _ _ _ _ hempty]
  exact gridLoop_empty (by omega) _ _

theorem getPremultipliedImageData_eq (peer : GetPixelsPeer) (harea : 0 ≤ rect.width * rect.height)
    (hcolumns : 0 < (clip rect.x rect.width size.width).count) (hrows : 0 < (clip rect.y rect.height size.height).count) :
    ∃ result, Written peer.pixels (4 * rect.width) (arrayStart rect size) (insideRect rect size) (createArray rect) result ∧
      getPremultipliedImageData peer rect size = gridLoop (clip rect.y rect.height size.height).count.toNat
        (clip rect.x rect.width size.width).count.toNat (multiplyTurn rect size) result := by
  obtain ⟨hstart, hrow, hend⟩ := arrayStart_inside harea hcolumns hrows
  obtain ⟨result, hresult, hwritten⟩ := peer.writes (4 * rect.width) (arrayStart rect size) (insideRect rect size)
    (createArray rect) hrows hcolumns hstart hrow hend
  refine ⟨result, hwritten, ?_⟩
  unfold getPremultipliedImageData
  dsimp only
  rw [clearArray_eq]
  show (peer.getPixels (4 * rect.width) (arrayStart rect size) (insideRect rect size) _).bind _ = _
  rw [hresult]
  rfl

def filledPlaces (rect : IntRect) (size : IntSize) (harea : 0 ≤ rect.width * rect.height)
    (hcolumns : 0 < (clip rect.x rect.width size.width).count)
    (hrows : 0 < (clip rect.y rect.height size.height).count) :
    Grid 4 (clip rect.y rect.height size.height).count.toNat (clip rect.x rect.width size.width).count.toNat
      (createArray rect).length :=
  have h := arrayStart_inside harea hcolumns hrows
  have hpitch : ((4 : Nat) : Int) * (clip rect.x rect.width size.width).count.toNat ≤ 4 * rect.width := by
    rw [Int.toNat_of_nonneg hcolumns.le]
    exact h.2.1
  Grid.pitched h.1 hpitch (by rw [Int.toNat_of_nonneg hcolumns.le, Int.toNat_of_nonneg hrows.le]; exact h.2.2)

theorem multiplyTurn_of_origin (hx : (clip rect.x rect.width size.width).origin = 0)
    (hy : (clip rect.y rect.height size.height).origin = 0) {y x : Nat} {result : Bytes} {pixel : UInt32}
    (hpixel : loadAt result (arrayStart rect size + 4 * rect.width * y + 4 * x) 4 = some (bytesOf pixel)) :
    multiplyTurn rect size y x result = storeAt result (arrayStart rect size + 4 * rect.width * y + 4 * x)
      (bytesOf (premultipliedARGBFromColor pixel)) := by
  have hplace : arrayStart rect size + rect.width * 4 * (y + (clip rect.y rect.height size.height).origin) +
      4 * (x + (clip rect.x rect.width size.width).origin) = arrayStart rect size + 4 * rect.width * y + 4 * x := by
    rw [hx, hy]
    ring
  unfold multiplyTurn
  rw [hplace, hpixel]
  show storeAt result _ (bytesOf (premultipliedARGBFromColor (word (bytesOf pixel)))) = _
  rw [word_bytesOf]

theorem readsBack_of_origin (harea : 0 ≤ rect.width * rect.height)
    (hcolumns : 0 < (clip rect.x rect.width size.width).count) (hrows : 0 < (clip rect.y rect.height size.height).count)
    (hx : (clip rect.x rect.width size.width).origin = 0) (hy : (clip rect.y rect.height size.height).origin = 0) :
    ReadsBack rect size := by
  intro peer
  obtain ⟨result, hwritten, heq⟩ := getPremultipliedImageData_eq peer harea hcolumns hrows
  let grid := filledPlaces rect size harea hcolumns hrows
  let v (y x : Nat) : Bytes := bytesOf (premultipliedARGBFromColor (peer.pixels x y))
  obtain ⟨out, hout, hstored⟩ : ∃ out, gridLoop (clip rect.y rect.height size.height).count.toNat
      (clip rect.x rect.width size.width).count.toNat (multiplyTurn rect size) result = some out ∧
      grid.Stored result v (clip rect.y rect.height size.height).count.toNat 0 out := by
    refine grid.gridLoop_stores hwritten.length (fun y x _ _ => Upload.length_bytesOf _) ?_
    intro y x buf hy' hx' _ hsame
    have hyc : (y : Int) < (clip rect.y rect.height size.height).count := by omega
    have hxc : (x : Int) < (clip rect.x rect.width size.width).count := by omega
    have hpixel : loadAt result (arrayStart rect size + 4 * rect.width * y + 4 * x) 4 =
        some (bytesOf (peer.pixels ((clip rect.x rect.width size.width).origin + x)
          ((clip rect.y rect.height size.height).origin + y))) := hwritten.written y x (by omega) hyc (by omega) hxc
    rw [hx, hy, zero_add, zero_add] at hpixel
    exact multiplyTurn_of_origin hx hy (hsame.trans hpixel)
  refine ⟨out, heq.trans hout, filled_of harea (hstored.length.trans hwritten.length) ?_ ?_⟩
  · intro y x hy0 hy' hx0 hx'
    obtain ⟨i, rfl⟩ := Int.eq_ofNat_of_zero_le hy0
    obtain ⟨j, rfl⟩ := Int.eq_ofNat_of_zero_le hx0
    rw [hx, hy, zero_add, zero_add]
    exact hstored.written i j ⟨by omega, by omega, by omega⟩
  · intro off hoff
    have hapart : ∀ y x, Grid.Before (clip rect.y rect.height size.height).count.toNat
        (clip rect.x rect.width size.width).count.toNat (clip rect.y rect.height size.height).count.toNat 0 y x →
        off + (4 : Nat) ≤ grid.place y x ∨ grid.place y x + (4 : Nat) ≤ off := by
      intro y x hb
      exact hoff y x (by omega) (by have h := hb.1; omega) (by omega) (by have h := hb.2.1; omega)
    rw [hstored.kept off hapart]
    exact hwritten.kept off hoff

/-- a peer that stores the pixels one by one -/
def storePeer (pixels : Int → Int → UInt32) : GetPixelsPeer where
  pixels := pixels
  getPixels rowbytes d r result := gridLoop r.height.toNat r.width.toNat (fun y x result =>
    storeAt result (d + rowbytes * y + 4 * x) (bytesOf (pixels (r.x + x) (r.y + y)))) result
  nothing rowbytes d r result h := gridLoop_empty (by omega) _ _
  writes rowbytes d r result hh hw hd hpitch hsize := by
    have hpitch' : ((4 : Nat) : Int) * r.width.toNat ≤ rowbytes := by
      rw [Int.toNat_of_nonneg hw.le]
      exact hpitch
    let grid : Grid 4 r.height.toNat r.width.toNat result.length := Grid.pitched hd hpitch' (by
      rw [Int.toNat_of_nonneg hw.le, Int.toNat_of_nonneg hh.le]
      exact hsize)
    obtain ⟨out, hout, hstored⟩ := grid.gridLoop_stores rfl (v := fun y x => bytesOf (pixels (r.x + x) (r.y + y)))
      (fun y x _ _ => Upload.length_bytesOf _) (fun y x buf _ _ _ _ => rfl)
    refine ⟨out, hout, hstored.length, ?_, ?_⟩
    · intro y x hy hy' hx hx'
      obtain ⟨i, rfl⟩ := Int.eq_ofNat_of_zero_le hy
      obtain ⟨j, rfl⟩ := Int.eq_ofNat_of_zero_le hx
      exact hstored.written i j ⟨by omega, by omega, by omega⟩
    · intro off hoff
      refine hstored.kept off ?_
      intro y x hb
      exact hoff y x (by omega) (by have h := hb.1; omega) (by omega) (by have h := hb.2.1; omega)

/-- a surface with one white pixel -/
def oneWhite (cx cy x y : Int) : UInt32 := if x = cx ∧ y = cy then 0xFFFFFFFF else 0

theorem Written.transparent {r : IntRect} {result : Bytes} {d width : Int} (hwidth : r.width ≤ width)
    (hr : 0 < r.width) (hwritten : Written (oneWhite r.x r.y) (4 * width) d r (createArray rect) result) {y x : Int}
    (hy : 0 ≤ y) (hx : 0 ≤ x) (hne : 0 < y ∨ 0 < x) {bytes : Bytes}
    (hload : loadAt result (d + 4 * width * y + 4 * x) 4 = some bytes) : bytes = [0, 0, 0, 0] := by
  have hahead : 0 < width * y + x := by
    have hrow : 0 ≤ width * y := Int.mul_nonneg (by omega) hy
    rcases hne with h | h
    · have hpos : 0 < width * y := Int.mul_pos (by omega) h
      omega
    · omega
  have hoff : d + 4 * width * y + 4 * x = d + 4 * (width * y + x) := by ring
  rw [hoff] at hload
  by_cases hplace : ∃ j i, 0 ≤ j ∧ j < r.height ∧ 0 ≤ i ∧ i < r.width ∧ width * j + i = width * y + x
  · obtain ⟨j, i, hj, hj', hi, hi', heq⟩ := hplace
    have h := hwritten.written j i hj hj' hi hi'
    have hsame : d + 4 * width * j + 4 * i = d + 4 * (width * y + x) := by
      rw [← heq]
      ring
    rw [hsame, hload, Option.some.injEq] at h
    have hother : ¬ (r.x + i = r.x ∧ r.y + j = r.y) := by
      rintro ⟨hi0, hj0⟩
      obtain rfl : i = 0 := by omega
      obtain rfl : j = 0 := by omega
      rw [Int.mul_zero] at heq
      omega
    rw [h, oneWhite, if_neg hother]
    decide
  · obtain ⟨h0, hin⟩ := loadAt_within hload
    rw [hwritten.length] at hin
    have hkept := hwritten.kept (d + 4 * (width * y + x)) (by
      intro j i hj hj' hi hi'
      have hne' : width * j + i ≠ width * y + x := fun h => hplace ⟨j, i, hj, hj', hi, hi', h⟩
      have hthere : d + 4 * width * j + 4 * i = d + 4 * (width * j + i) := by ring
      omega)
    rw [hkept, createArray, loadAt_zeros h0 (by rw [createArray, zeros_length] at hin; exact hin)] at hload
    exact (Option.some.inj hload).symm

/-- A corner to the right of the origin or below it puts a transparent pixel where the first one was. -/
theorem not_readsBack (harea : 0 ≤ rect.width * rect.height)
    (hcolumns : 0 < (clip rect.x rect.width size.width).count) (hrows : 0 < (clip rect.y rect.height size.height).count)
    (hmoved : ¬ ((clip rect.x rect.width size.width).origin = 0 ∧ (clip rect.y rect.height size.height).origin = 0)) :
    ¬ ReadsBack rect size := by
  intro hreads
  obtain ⟨hox, hdx, hxs, hbx, hcx⟩ := clip_bounds rect.x rect.width size.width
  obtain ⟨hoy, hdy, hys, hby, hcy⟩ := clip_bounds rect.y rect.height size.height
  let peer := storePeer (oneWhite (clip rect.x rect.width size.width).origin (clip rect.y rect.height size.height).origin)
  obtain ⟨out, hout, -, hfilled⟩ := hreads peer
  obtain ⟨result, hwritten, heq⟩ : ∃ result, Written (oneWhite (insideRect rect size).x (insideRect rect size).y)
      (4 * rect.width) (arrayStart rect size) (insideRect rect size) (createArray rect) result ∧ _ :=
    getPremultipliedImageData_eq peer harea hcolumns hrows
  have hwide : (insideRect rect size).width ≤ rect.width := by
    show (clip rect.x rect.width size.width).count ≤ rect.width
    omega
  rw [heq] at hout
  let grid := filledPlaces rect size harea hcolumns hrows
  have hfirst : loadAt out (grid.place 0 0) 4 = some [0, 0, 0, 0] := by
    refine grid.gridLoop_first ?_ ?_ rfl (by omega) (by omega) hout
    · intro y x buf buf' _ _ hturn
      obtain ⟨pixel, -, hstore⟩ := Option.bind_eq_some_iff.mp hturn
      exact ⟨_, Upload.length_bytesOf _, hstore⟩
    · intro buf' hturn
      obtain ⟨pixel, hpixel, hstore⟩ := Option.bind_eq_some_iff.mp hturn
      have hoff : arrayStart rect size +
          rect.width * 4 * (((0 : Nat) : Int) + (clip rect.y rect.height size.height).origin) +
          4 * (((0 : Nat) : Int) + (clip rect.x rect.width size.width).origin) =
            arrayStart rect size + 4 * rect.width * (clip rect.y rect.height size.height).origin +
              4 * (clip rect.x rect.width size.width).origin := by
        push_cast
        ring
      rw [hoff] at hpixel
      have hzero : pixel = [0, 0, 0, 0] := Written.transparent hwide hcolumns hwritten hoy hox (by omega) hpixel
      rw [hzero] at hstore
      exact hstore
  have hright := hfilled (clip rect.x rect.width size.width).dest (clip rect.y rect.height size.height).dest hdx (by omega)
    hdy (by omega)
  rw [if_pos (by omega), ← hxs, ← hys] at hright
  have hplace : grid.place 0 0 = 4 * (rect.width * (clip rect.y rect.height size.height).dest +
      (clip rect.x rect.width size.width).dest) := by
    show arrayStart rect size + 4 * rect.width * ((0 : Nat) : Int) + ((4 : Nat) : Int) * ((0 : Nat) : Int) = _
    unfold arrayStart
    push_cast
    ring
  rw [bytesAt, ← hplace, hfirst] at hright
  dsimp only at hright
  have hwhite : peer.pixels (clip rect.x rect.width size.width).origin (clip rect.y rect.height size.height).origin =
      0xFFFFFFFF := if_pos ⟨rfl, rfl⟩
  rw [hwhite] at hright
  exact absurd (Option.some.inj hright) (by decide)

/-- The branch for an accelerated offscreen reads back every surface exactly if nothing of the rectangle is inside or its
corner is not beyond the origin. -/
theorem getPremultipliedImageData_iff (rect : IntRect) (size : IntSize) (harea : 0 ≤ rect.width * rect.height) :
    ReadsBack rect size ↔ Unmoved rect size := by
  rw [unmoved_iff]
  constructor
  · intro hreads
    by_contra hmoved
    rw [not_or, not_or, not_le, not_le] at hmoved
    exact not_readsBack harea hmoved.1.2 hmoved.1.1 hmoved.2 hreads
  · intro hunmoved
    by_cases hempty : (clip rect.y rect.height size.height).count ≤ 0 ∨ (clip rect.x rect.width size.width).count ≤ 0
    · intro peer
      refine ⟨_, getPremultipliedImageData_nothing peer hempty, filled_of harea rfl ?_ (fun _ _ => rfl)⟩
      intro y x hy hy' hx hx'
      omega
    · obtain ⟨hx, hy⟩ := hunmoved.resolve_left hempty
      exact readsBack_of_origin harea (by omega) (by omega) hx hy

end

/-- two by two pixels at the origin of a surface of four by four -/
theorem readsBack_origin : ReadsBack { x := 0, y := 0, width := 2, height := 2 } { width := 4, height := 4 } :=
  (getPremultipliedImageData_iff _ _ (by decide)).mpr (Or.inr (Or.inr (by decide)))

/-- two by two pixels at `(1, 1)`: the second turn of the loop reads behind the array -/
theorem getPremultipliedImageData_moves :
    getPremultipliedImageData (storePeer (oneWhite 1 1)) { x := 1, y := 1, width := 2, height := 2 }
      { width := 4, height := 4 } = none ∧
    ¬ ReadsBack { x := 1, y := 1, width := 2, height := 2 } { width := 4, height := 4 } := by
  have hnone : getPremultipliedImageData (storePeer (oneWhite 1 1)) { x := 1, y := 1, width := 2, height := 2 }
      { width := 4, height := 4 } = none := by decide
  refine ⟨hnone, ?_⟩
  intro h
  obtain ⟨out, hout, -⟩ := h (storePeer (oneWhite 1 1))
  rw [hnone] at hout
  exact absurd hout (by simp)

end Canvas
end Wkc
