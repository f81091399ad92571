import WkcBrowser.Lib.Grids

/-!
# Colours and surfaces of a canvas

* `RGBA32`, `makeRGBA`, ..       the colours of `Color.h`, a pixel of a surface and one of a pixel array;
* `IntSize`, `IntPoint`, `IntRect`;
* `Surface`                      a bitmap of 32 bits a pixel with its rows `rowbytes` apart;
* `copyPixels`                   the two loops that carry pixels from one of them to the other;
* `copyPixels_spec`              what they leave.

The arrays and bitmaps exist, so their offsets are far from the bounds of an `int`.  A read or a write outside is `none`.
-/

namespace Wkc
namespace Canvas
open Buf Loops

/-! ## colours -/

abbrev RGBA32 := UInt32

def redChannel (color : RGBA32) : Nat := (color.toNat >>> 16) &&& 0xFF
def greenChannel (color : RGBA32) : Nat := (color.toNat >>> 8) &&& 0xFF
def blueChannel (color : RGBA32) : Nat := color.toNat &&& 0xFF
def alphaChannel (color : RGBA32) : Nat := (color.toNat >>> 24) &&& 0xFF

def makeRGBA (r g b a : Nat) : RGBA32 :=
  UInt32.ofNat ((min a 255) <<< 24 ||| (min r 255) <<< 16 ||| (min g 255) <<< 8 ||| min b 255)

def colorFromPremultipliedARGB (pixelColor : UInt32) : RGBA32 :=
  let alpha := alphaChannel pixelColor
  if alpha ≠ 0 then
    makeRGBA (redChannel pixelColor * 255 / alpha) (greenChannel pixelColor * 255 / alpha)
      (blueChannel pixelColor * 255 / alpha) alpha
  else pixelColor

def premultipliedARGBFromColor (color : RGBA32) : UInt32 :=
  let alpha := alphaChannel color
  if alpha ≠ 255 then
    UInt32.ofNat (alpha <<< 24 ||| ((redChannel color * alpha + 254) / 255) <<< 16 |||
      ((greenChannel color * alpha + 254) / 255) <<< 8 ||| (blueChannel color * alpha + 254) / 255)
  else color

inductive Multiply where
  | Premultiplied | Unmultiplied
  deriving DecidableEq

/-- a pixel of a surface, as it lies in memory -/
def word (bytes : Bytes) : UInt32 := UInt32.ofNat (ofLE bytes)

def bytesOf (pixel : UInt32) : Bytes := toLE 4 pixel.toNat

theorem word_bytesOf (pixel : UInt32) : word (bytesOf pixel) = pixel := by
  unfold word bytesOf
  rw [ofLE_toLE]
  rw [Nat.mod_eq_of_lt (show pixel.toNat < 256 ^ 4 from pixel.toNat_lt_size)]
  exact UInt32.ofNat_toNat

/-- the colour of four bytes of a pixel array -/
def colorOf (bytes : Bytes) : RGBA32 :=
  makeRGBA (bytes.getD 0 0).toNat (bytes.getD 1 0).toNat (bytes.getD 2 0).toNat (bytes.getD 3 0).toNat

/-- the pixel that four bytes of a pixel array become -/
def putColor (multiplied : Multiply) (bytes : Bytes) : UInt32 :=
  match multiplied with
  | .Unmultiplied => premultipliedARGBFromColor (colorOf bytes)
  | .Premultiplied => colorOf bytes

/-- the bytes of a pixel array that a pixel becomes -/
def getColor (multiplied : Multiply) (pixel : UInt32) : Bytes :=
  let pixelColor := match multiplied with
    | .Unmultiplied => colorFromPremultipliedARGB pixel
    | .Premultiplied => pixel
  [UInt8.ofNat (redChannel pixelColor), UInt8.ofNat (greenChannel pixelColor), UInt8.ofNat (blueChannel pixelColor),
    UInt8.ofNat (alphaChannel pixelColor)]

/-! ## rectangles -/

structure IntSize where
  width : Int
  height : Int
  deriving DecidableEq

structure IntPoint where
  x : Int
  y : Int
  deriving DecidableEq

structure IntRect where
  x : Int
  y : Int
  width : Int
  height : Int
  deriving DecidableEq

def IntRect.maxX (rect : IntRect) : Int := rect.x + rect.width
def IntRect.maxY (rect : IntRect) : Int := rect.y + rect.height

def IntRect.Has (rect : IntRect) (x y : Int) : Prop := rect.x ≤ x ∧ x < rect.maxX ∧ rect.y ≤ y ∧ y < rect.maxY

instance IntRect.Has.decidable (rect : IntRect) (x y : Int) : Decidable (rect.Has x y) :=
  inferInstanceAs (Decidable (_ ∧ _))

/-! ## surfaces -/

/-- the bitmap of a surface of some size -/
structure Surface (size : IntSize) where
  bitmap : Bytes
  rowbytes : Int
  pitch : 4 * size.width ≤ rowbytes
  inside : rowbytes * size.height ≤ bitmap.length

/-- the pixel at `(x, y)` of a bitmap -/
def pixelAt (bitmap : Bytes) (rowbytes x y : Int) : Option UInt32 := (loadAt bitmap (rowbytes * y + 4 * x) 4).map word

/-- the four bytes at `(x, y)` of a pixel array -/
def bytesAt (array : Bytes) (width x y : Int) : Option Bytes := loadAt array (4 * (width * y + x)) 4

theorem pixels_apart {rowbytes width x y x' y' : Int} (hpitch : 4 * width ≤ rowbytes) (hx : 0 ≤ x) (hxw : x < width)
    (hx' : 0 ≤ x') (hxw' : x' < width) (hne : x ≠ x' ∨ y ≠ y') :
    rowbytes * y + 4 * x + 4 ≤ rowbytes * y' + 4 * x' ∨ rowbytes * y' + 4 * x' + 4 ≤ rowbytes * y + 4 * x := by
  rcases lt_trichotomy y y' with hlt | rfl | hlt
  · left
    have h : rowbytes * (y + 1) ≤ rowbytes * y' := Int.mul_le_mul_of_nonneg_left (by omega) (by omega)
    linarith
  · rcases lt_or_gt_of_ne (hne.resolve_right (fun h => h rfl)) with hlt | hlt
    · left
      linarith
    · right
      linarith
  · right
    have h : rowbytes * (y' + 1) ≤ rowbytes * y := Int.mul_le_mul_of_nonneg_left (by omega) (by omega)
    linarith

/-- `numRows` times `numColumns` pixels, from the rows at `src` to those at `dst` -/
def copyPixels (numRows numColumns src srcBytesPerRow dst dstBytesPerRow : Int) (convert : Bytes → Bytes)
    (source dest : Bytes) : Option Bytes :=
  gridLoop numRows.toNat numColumns.toNat (fun y x dest => do
    let bytes ← loadAt source (src + srcBytesPerRow * y + 4 * x) 4
    storeAt dest (dst + dstBytesPerRow * y + 4 * x) (convert bytes)) dest

section
variable {numRows numColumns src srcBytesPerRow dst dstBytesPerRow : Int} {convert : Bytes → Bytes} {source dest : Bytes}

theorem copyPixels_nothing (h : numRows ≤ 0 ∨ numColumns ≤ 0) :
    copyPixels numRows numColumns src srcBytesPerRow dst dstBytesPerRow convert source dest = some dest :=
  gridLoop_empty (by omega) _ _

/-- what the loops have done to `dest` -/
structure Copied (numRows numColumns src srcBytesPerRow dst dstBytesPerRow : Int) (convert : Bytes → Bytes)
    (source dest out : Bytes) : Prop where
  length : out.length = dest.length
  written : ∀ y x, 0 ≤ y → y < numRows → 0 ≤ x → x < numColumns →
    loadAt out (dst + dstBytesPerRow * y + 4 * x) 4 = (loadAt source (src + srcBytesPerRow * y + 4 * x) 4).map convert
  kept : ∀ off : Int, (∀ y x, 0 ≤ y → y < numRows → 0 ≤ x → x < numColumns →
    off + 4 ≤ dst + dstBytesPerRow * y + 4 * x ∨ dst + dstBytesPerRow * y + 4 * x + 4 ≤ off) →
    loadAt out off 4 = loadAt dest off 4

theorem copyPixels_spec (hconvert : ∀ bytes, (convert bytes).length = 4) (hrows : 0 < numRows) (hcolumns : 0 < numColumns)
    (hread : ∀ y x, 0 ≤ y → y < numRows → 0 ≤ x → x < numColumns →
      ∃ bytes, loadAt source (src + srcBytesPerRow * y + 4 * x) 4 = some bytes)
    (hdst : 0 ≤ dst) (hpitch : 4 * numColumns ≤ dstBytesPerRow)
    (hsize : dst + dstBytesPerRow * (numRows - 1) + 4 * numColumns ≤ dest.length) :
    ∃ out, copyPixels numRows numColumns src srcBytesPerRow dst dstBytesPerRow convert source dest = some out ∧
      Copied numRows numColumns src srcBytesPerRow dst dstBytesPerRow convert source dest out := by
  obtain ⟨rows, rfl⟩ := Int.eq_ofNat_of_zero_le hrows.le
  obtain ⟨columns, rfl⟩ := Int.eq_ofNat_of_zero_le hcolumns.le
  let grid : Grid 4 rows columns dest.length := Grid.pitched hdst (by exact_mod_cast hpitch) (by exact_mod_cast hsize)
  let v (y x : Nat) : Bytes := convert ((loadAt source (src + srcBytesPerRow * y + 4 * x) 4).getD [])
  obtain ⟨out, hout, hstored⟩ : ∃ out, copyPixels rows columns src srcBytesPerRow dst dstBytesPerRow convert source dest =
      some out ∧ grid.Stored dest v rows 0 out := by
    refine grid.gridLoop_stores rfl (fun y x _ _ => hconvert _) ?_
    intro y x buf hy hx _ _
    obtain ⟨bytes, hbytes⟩ := hread y x (by omega) (by omega) (by omega) (by omega)
    show (loadAt source _ 4).bind _ = storeAt buf (dst + dstBytesPerRow * y + 4 * x) (v y x)
    simp only [v, hbytes, Option.bind_some, Option.getD_some]
  refine ⟨out, hout, hstored.length, ?_, ?_⟩
  · intro y x hy hy' hx hx'
    obtain ⟨i, rfl⟩ := Int.eq_ofNat_of_zero_le hy
    obtain ⟨j, rfl⟩ := Int.eq_ofNat_of_zero_le hx
    obtain ⟨bytes, hbytes⟩ := hread i j hy hy' hx hx'
    have h := hstored.written i j ⟨by omega, by omega, by omega⟩
    simp only [v, hbytes, Option.getD_some] at h
    rw [hbytes]
    exact h
  · intro off hoff
    refine hstored.kept off ?_
    intro y x hb
    exact hoff y x (by omega) (by have h := hb.1; omega) (by omega) (by have h := hb.2.1; omega)

end

end Canvas
end Wkc
