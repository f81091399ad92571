import WkcBrowser.Graphics.Pixels
import WkcBrowser.Lib.Blocks

/-!
# Images that are drawn in tiles

Without cairo an image keeps its pixels in textures of at most 2048 by 2048 (`ImageTilesWKC`).

* `ImageTilesWKC`, `ImageWKC.resize`      the tiles of an image;
* `ImageTilesWKC.BitBltToDC`              what the peer is handed, tile by tile;
* `ImageTilesWKC.Clip`, `ClearRect`       the two walks over all tiles;
* `TiledSize`                             an image size and a tile size, as two cut lines;
* `TiledSize.partition`                   the rectangles of the tiles are a partition, whatever the sizes are;
* `clip_iff`, `clearRect_own`             `Clip` takes the rectangle of the transposed tile;
* `coversOnce_iff`                        all of it together.

A failed assertion of `tileRect` is `none`.  Rectangles have integer coordinates; the destination of a tile is the
work of an affine transformation in floating point and stays a parameter, as do the two functions of the peer that
intersect rectangles.  The sizes are those of bitmaps that exist, and no product of them leaves an `int`.
-/

namespace Wkc
namespace Tiled
open Canvas Loops

def WKC_IMAGETYPE_ARGB8888 : UInt32 := 0x00000000
def WKC_IMAGETYPE_RGAB5515 : UInt32 := 0x00000001
def WKC_IMAGETYPE_RGAB5515MASK : UInt32 := 0x00000002
def WKC_IMAGETYPE_TYPEMASK : UInt32 := 0x0000ffff
def WKC_IMAGETYPE_FLAG_HASALPHA : UInt32 := 0x00010000
def WKC_IMAGETYPE_FLAG_HASTRUEALPHA : UInt32 := 0x00020000

/-! ## the tiles of an image -/

structure ImageTilesWKC where
  m_size : IntSize
  m_numColumns : Int
  /-- how many textures there are; a texture is named by its number -/
  m_tiles : Nat
  m_maxTileSize : IntSize

namespace ImageTilesWKC

def create (size maxTileSize : IntSize) : ImageTilesWKC :=
  let m_numColumns := (size.width - 1).tdiv maxTileSize.width + 1
  let num_tiles := ((size.height - 1).tdiv maxTileSize.height + 1) * m_numColumns
  { m_size := size, m_numColumns, m_tiles := num_tiles.toNat, m_maxTileSize := maxTileSize }

variable (tiles : ImageTilesWKC)

def numTiles : Nat := tiles.m_tiles

/-- An index below 0 is not below the size of a vector, which has no sign. -/
def inTiles (i : Int) : Bool := decide (0 ≤ i ∧ i < tiles.m_tiles)

def tileRect (xIndex yIndex : Int) : Option IntRect :=
  if xIndex < tiles.m_numColumns ∧ tiles.inTiles (yIndex * tiles.m_numColumns + xIndex) then
    let x := xIndex * tiles.m_maxTileSize.width
    let y := yIndex * tiles.m_maxTileSize.height
    some
      { x, y
        width := if tiles.m_maxTileSize.width < tiles.m_size.width - x then tiles.m_maxTileSize.width
          else tiles.m_size.width - x
        height := if tiles.m_maxTileSize.height < tiles.m_size.height - y then tiles.m_maxTileSize.height
          else tiles.m_size.height - y }
  else none

def tilesInRect (rect : IntRect) : IntRect :=
  let leftIndex := rect.x.tdiv tiles.m_maxTileSize.width
  let topIndex := rect.y.tdiv tiles.m_maxTileSize.height
  let leftIndex := if leftIndex < 0 then 0 else leftIndex
  let topIndex := if topIndex < 0 then 0 else topIndex
  let rightIndex := (rect.maxX - 1).tdiv tiles.m_maxTileSize.width
  let bottomIndex := (rect.maxY - 1).tdiv tiles.m_maxTileSize.height
  let columns := rightIndex - leftIndex + 1
  let rows := bottomIndex - topIndex + 1
  let numRows := (tiles.m_tiles : Int).tdiv tiles.m_numColumns
  { x := leftIndex, y := topIndex
    width := if columns ≤ tiles.m_numColumns then columns else tiles.m_numColumns
    -- the size of a vector has no sign, nor has a number that is compared with it
    height := if 0 ≤ rows ∧ rows ≤ numRows then rows else numRows }

def tile (xIndex yIndex : Int) : Option Nat :=
  let i := yIndex * tiles.m_numColumns + xIndex
  if ¬ xIndex < tiles.m_numColumns then none
  else if ¬ tiles.inTiles i then none
  else some i.toNat

end ImageTilesWKC

/-! ### walks over all tiles -/

/-- what a walk does at one tile: the rectangle it takes for the tile's and the one it hands to the tile -/
structure TileVisit where
  tile : Nat
  tr : IntRect
  call : Option IntRect

section
variable (WKCFloatRect_Intersects : IntRect → IntRect → Bool) (WKCFloatRect_Intersect : IntRect → IntRect → IntRect)

/-- the loop of `Clip` and of `ClearRect`: the indices a tile's rectangle is asked for, and the rectangle the tile is
handed, made of the intersection -/
def ImageTilesWKC.forTiles (tiles : ImageTilesWKC) (xIndex yIndex : Int → Int) (shape : IntRect → IntRect) (r : IntRect) :
    Option (List TileVisit) :=
  forLoop tiles.numTiles (fun i visits =>
    ((tiles.tileRect (xIndex i) (yIndex i)).map fun tr =>
      { tile := i, tr
        call := if WKCFloatRect_Intersects tr r then some (shape (WKCFloatRect_Intersect tr r)) else none }).map
      fun visit => visits ++ [visit]) []

def ImageTilesWKC.Clip (tiles : ImageTilesWKC) (r : IntRect) : Option (List TileVisit) :=
  tiles.forTiles WKCFloatRect_Intersects WKCFloatRect_Intersect (fun i => i.tdiv tiles.m_numColumns)
    (fun i => i.tmod tiles.m_numColumns) id r

def ImageTilesWKC.ClearRect (tiles : ImageTilesWKC) (r : IntRect) : Option (List TileVisit) :=
  tiles.forTiles WKCFloatRect_Intersects WKCFloatRect_Intersect (fun i => i.tmod tiles.m_numColumns)
    (fun i => i.tdiv tiles.m_numColumns)
    (fun intersect => { x := 0, y := 0, width := intersect.width, height := intersect.height }) r

end

/-! ### drawing -/

structure WKCPeerImage where
  fType : UInt32
  fBitmap : Int
  fRowBytes : Int
  fSrcRect : IntRect
  fTexture : Option Nat

/-- a call of `wkcDrawContextBitBltPeer` -/
structure PeerBlit (Rect : Type) where
  image : WKCPeerImage
  dstRect : Rect
  op : Int

def setLocationAndSizeFromEdges (left top right bottom : Int) : IntRect :=
  { x := left, y := top, width := right - left, height := bottom - top }

def intersection (a b : IntRect) : IntRect :=
  let l := max a.x b.x
  let t := max a.y b.y
  let r := min a.maxX b.maxX
  let bottom := min a.maxY b.maxY
  if l ≥ r ∨ t ≥ bottom then setLocationAndSizeFromEdges 0 0 0 0 else setLocationAndSizeFromEdges l t r bottom

def bytesPerPixel (fType : UInt32) : Int :=
  let type := fType &&& WKC_IMAGETYPE_TYPEMASK
  if type = WKC_IMAGETYPE_RGAB5515MASK ∨ type = WKC_IMAGETYPE_RGAB5515 then 2 else 4

section
variable {Rect : Type} (mapRect : IntRect → Rect → IntRect → Rect)

/-- one turn of the inner loop of `BitBltToDC` -/
def ImageTilesWKC.blitTile (tiles : ImageTilesWKC) (src : IntRect) (dst : Rect) (image_bitmap bpp op xIndex yIndex : Int)
    (s : WKCPeerImage × List (PeerBlit Rect)) : Option (WKCPeerImage × List (PeerBlit Rect)) :=
  (tiles.tileRect xIndex yIndex).map fun tile_rect =>
    let intersect := intersection src tile_rect
    let dstRect := mapRect src dst intersect
    let in_image :=
      { s.1 with
        fSrcRect :=
          { x := intersect.x - tile_rect.x, y := intersect.y - tile_rect.y
            width := intersect.width, height := intersect.height }
        fBitmap := image_bitmap + tile_rect.x * bpp + tile_rect.y * s.1.fRowBytes }
    match tiles.tile xIndex yIndex with
    | some cur_tile =>
      let in_image := { in_image with fTexture := some cur_tile }
      (in_image, s.2 ++ [{ image := in_image, dstRect, op }])
    | none => (in_image, s.2)

def ImageTilesWKC.BitBltToDC (tiles : ImageTilesWKC) (in_image : WKCPeerImage) (dst : Rect) (op : Int) :
    Option (WKCPeerImage × List (PeerBlit Rect)) :=
  let src := in_image.fSrcRect
  let image_bitmap := in_image.fBitmap
  let drawnTiles := tiles.tilesInRect src
  let bpp := bytesPerPixel in_image.fType
  (gridLoop drawnTiles.height.toNat drawnTiles.width.toNat
      (fun y x => tiles.blitTile mapRect src dst image_bitmap bpp op (drawnTiles.x + x) (drawnTiles.y + y))
      (in_image, [])).map
    fun s => ({ s.1 with fSrcRect := src, fBitmap := image_bitmap }, s.2)

end

/-! ### images -/

inductive Format where
  | EColorARGB8888 | EColorRGB565
  deriving DecidableEq

def Format.bpp : Format → Int
  | .EColorARGB8888 => 4
  | .EColorRGB565 => 2

structure ImageWKC where
  m_type : Format
  m_bpp : Int
  m_bitmap : Int
  m_rowbytes : Int
  m_size : IntSize
  m_offscreen : Option ImageTilesWKC

/-- an image without a bitmap -/
def ImageWKC.create (type : Format) : ImageWKC :=
  { m_type := type, m_bpp := type.bpp, m_bitmap := 0, m_rowbytes := 0, m_size := { width := 0, height := 0 }
    m_offscreen := none }

/-- the tile size of `resize`; the comparison has no sign -/
def maxTile (extent : Int) : Int := if 0 ≤ extent ∧ extent < 2048 then extent else 2048

/-- `allocate` is the check of the memory and the allocation; the bitmap is then filled with zeros. -/
def ImageWKC.resize (allocate : Int → Option Int) (image : ImageWKC) (size : IntSize) : Option ImageWKC :=
  let width := if image.m_bpp = 2 ∧ size.width % 2 = 1 then size.width + 1 else size.width
  let len := width * size.height
  (allocate (len * image.m_bpp)).map fun newbitmap =>
    let tile_size : IntSize := { width := maxTile size.width, height := maxTile size.height }
    { image with
      m_bitmap := newbitmap
      m_rowbytes := width * image.m_bpp
      m_size := size
      m_offscreen := some (ImageTilesWKC.create size tile_size) }

/-- the image that `BitmapImage::draw` hands on; the type of an `EColorRGB565` image has no value in the headers -/
def ImageWKC.peerImage (WKC_IMAGETYPE_RGB565 : UInt32) (image : ImageWKC) (hasAlpha hasTrueAlpha : Bool) (src : IntRect) :
    WKCPeerImage :=
  let type := match image.m_type with
    | .EColorARGB8888 => WKC_IMAGETYPE_ARGB8888
    | .EColorRGB565 => WKC_IMAGETYPE_RGB565
  let type := if hasAlpha then
      if hasTrueAlpha then type ||| WKC_IMAGETYPE_FLAG_HASALPHA ||| WKC_IMAGETYPE_FLAG_HASTRUEALPHA
      else type ||| WKC_IMAGETYPE_FLAG_HASALPHA
    else type
  { fType := type, fBitmap := image.m_bitmap, fRowBytes := image.m_rowbytes, fSrcRect := src, fTexture := none }

/-! ## what is wanted -/

def ImageTilesWKC.whole (tiles : ImageTilesWKC) : IntRect :=
  { x := 0, y := 0, width := tiles.m_size.width, height := tiles.m_size.height }

structure ImageTilesWKC.Partition (tiles : ImageTilesWKC) : Prop where
  inside : ∀ x y rect, 0 ≤ x → 0 ≤ y → tiles.tileRect x y = some rect → 0 < rect.width ∧ 0 < rect.height ∧
    ∀ px py, rect.Has px py → tiles.whole.Has px py
  covers : ∀ px py, tiles.whole.Has px py →
    ∃ x y rect, 0 ≤ x ∧ 0 ≤ y ∧ tiles.tileRect x y = some rect ∧ rect.Has px py
  apart : ∀ x y x' y' rect rect' px py, 0 ≤ x → 0 ≤ y → 0 ≤ x' → 0 ≤ y' → tiles.tileRect x y = some rect →
    tiles.tileRect x' y' = some rect' → rect.Has px py → rect'.Has px py → x = x' ∧ y = y'

/-- the pixel of the image that a texture keeps at its origin -/
def ImageTilesWKC.origin (tiles : ImageTilesWKC) (i : Nat) : IntPoint :=
  { x := i % tiles.m_numColumns * tiles.m_maxTileSize.width, y := i / tiles.m_numColumns * tiles.m_maxTileSize.height }

section
variable {Rect : Type}

/-- whether a call draws a pixel of the image -/
def PeerBlit.draws (call : PeerBlit Rect) (tiles : ImageTilesWKC) (px py : Int) : Bool :=
  match call.image.fTexture with
  | some i => decide (call.image.fSrcRect.Has (px - (tiles.origin i).x) (py - (tiles.origin i).y))
  | none => false

/-- where a call finds the pixel at `(x, y)` of its source rectangle -/
def PeerBlit.address (call : PeerBlit Rect) (bpp x y : Int) : Int :=
  call.image.fBitmap + y * call.image.fRowBytes + x * bpp

structure DrawnOnce (image : ImageWKC) (tiles : ImageTilesWKC) (src : IntRect)
    (out : WKCPeerImage × List (PeerBlit Rect)) : Prop where
  once : ∀ px py, src.Has px py → out.2.countP (fun call => call.draws tiles px py) = 1
  addressed : ∀ call ∈ out.2, ∀ px py, call.draws tiles px py → src.Has px py ∧
    ∃ i, call.image.fTexture = some i ∧
      call.address image.m_bpp (px - (tiles.origin i).x) (py - (tiles.origin i).y) =
        image.m_bitmap + py * image.m_rowbytes + px * image.m_bpp
  restored : out.1.fBitmap = image.m_bitmap ∧ out.1.fSrcRect = src

end

/-- every part of the image is drawn so -/
def DrawsOnce (WKC_IMAGETYPE_RGB565 : UInt32) (image : ImageWKC) (tiles : ImageTilesWKC) : Prop :=
  ∀ (hasAlpha hasTrueAlpha : Bool) (src : IntRect), 0 < src.width → 0 < src.height → 0 ≤ src.x → 0 ≤ src.y →
    src.maxX ≤ image.m_size.width → src.maxY ≤ image.m_size.height →
    ∀ (Rect : Type) (mapRect : IntRect → Rect → IntRect → Rect) (dst : Rect) (op : Int),
      ∃ out, tiles.BitBltToDC mapRect (image.peerImage WKC_IMAGETYPE_RGB565 hasAlpha hasTrueAlpha src) dst op = some out ∧
        DrawnOnce image tiles src out

/-- No assertion fails, and every tile is visited with its own rectangle. -/
def VisitsOwn (tiles : ImageTilesWKC) (visits : Option (List TileVisit)) : Prop :=
  ∃ vs, visits = some vs ∧ vs.map (·.tile) = List.range tiles.numTiles ∧
    ∀ v ∈ vs, ∀ x y, 0 ≤ x → 0 ≤ y → tiles.tile x y = some v.tile → tiles.tileRect x y = some v.tr

structure CoversOnce (WKC_IMAGETYPE_RGB565 : UInt32) (image : ImageWKC) (tiles : ImageTilesWKC) : Prop where
  partition : tiles.Partition
  draws : DrawsOnce WKC_IMAGETYPE_RGB565 image tiles
  clip : ∀ Intersects Intersect r, VisitsOwn tiles (tiles.Clip Intersects Intersect r)
  clearRect : ∀ Intersects Intersect r, VisitsOwn tiles (tiles.ClearRect Intersects Intersect r)

/-! ## two cut lines -/

structure TiledSize where
  columns : Cut
  rows : Cut

namespace TiledSize
variable (sizes : TiledSize) {x y px py : Int}

def tiles : ImageTilesWKC :=
  ImageTilesWKC.create { width := sizes.columns.extent, height := sizes.rows.extent }
    { width := sizes.columns.size, height := sizes.rows.size }

theorem numColumns : sizes.tiles.m_numColumns = sizes.columns.count := by
  have hpos := sizes.columns.extent_pos
  show (sizes.columns.extent - 1).tdiv sizes.columns.size + 1 = _
  rw [Int.tdiv_eq_ediv_of_nonneg (by omega)]
  rfl

theorem numTiles : (sizes.tiles.m_tiles : Int) = sizes.rows.count * sizes.columns.count := by
  have hpos := sizes.rows.extent_pos
  have hrows : (sizes.rows.extent - 1).tdiv sizes.rows.size + 1 = sizes.rows.count := by
    rw [Int.tdiv_eq_ediv_of_nonneg (by omega)]
    rfl
  show (((((sizes.rows.extent - 1).tdiv sizes.rows.size + 1) * sizes.tiles.m_numColumns).toNat : Nat) : Int) = _
  rw [hrows, numColumns]
  exact Int.toNat_of_nonneg (Int.mul_nonneg sizes.rows.count_pos.le sizes.columns.count_pos.le)

theorem inTiles_iff (hx : 0 ≤ x) (hxc : x < sizes.columns.count) (hy : 0 ≤ y) :
    sizes.tiles.inTiles (y * sizes.columns.count + x) ↔ y < sizes.rows.count := by
  have hnonneg : 0 ≤ y * sizes.columns.count := Int.mul_nonneg hy (by omega)
  unfold ImageTilesWKC.inTiles
  rw [decide_eq_true_iff, numTiles, rowMajor_lt hx hxc]
  exact and_iff_right (by omega)

/-- the rectangle of a tile -/
def rect (x y : Int) : IntRect :=
  { x := x * sizes.columns.size, y := y * sizes.rows.size, width := sizes.columns.width x, height := sizes.rows.width y }

theorem rect_has : (sizes.rect x y).Has px py ↔ sizes.columns.Has x px ∧ sizes.rows.Has y py := by
  unfold IntRect.Has Cut.Has
  exact and_assoc.symm

theorem tileRect_iff (hx : 0 ≤ x) (hy : 0 ≤ y) {r : IntRect} : sizes.tiles.tileRect x y = some r ↔
    (x < sizes.columns.count ∧ y < sizes.rows.count) ∧ sizes.rect x y = r := by
  have hmin : ∀ a b : Int, (if a < b then a else b) = min a b := by
    intro a b
    omega
  unfold ImageTilesWKC.tileRect
  rw [numColumns]
  by_cases hxc : x < sizes.columns.count
  · have hin := sizes.inTiles_iff hx hxc hy
    by_cases hyc : y < sizes.rows.count
    · rw [if_pos ⟨hxc, hin.mpr hyc⟩, Option.some_inj]
      simp only [hmin, hxc, hyc, true_and]
      rfl
    · rw [if_neg fun h => hyc (hin.mp h.2)]
      simp [hyc]
  · rw [if_neg fun h => hxc h.1]
    simp [hxc]

theorem tile_iff (hx : 0 ≤ x) (hy : 0 ≤ y) {i : Nat} : sizes.tiles.tile x y = some i ↔
    (x < sizes.columns.count ∧ y < sizes.rows.count) ∧ y * sizes.columns.count + x = i := by
  unfold ImageTilesWKC.tile
  dsimp only
  rw [numColumns]
  by_cases hxc : x < sizes.columns.count
  · have hnonneg : 0 ≤ y * sizes.columns.count := Int.mul_nonneg hy (by omega)
    have hin := sizes.inTiles_iff hx hxc hy
    rw [if_neg (not_not.mpr hxc)]
    by_cases hyc : y < sizes.rows.count
    · rw [if_neg (not_not.mpr (hin.mpr hyc)), Option.some_inj]
      simp only [hxc, hyc, true_and]
      omega
    · rw [if_pos fun h => hyc (hin.mp h)]
      simp [hyc]
  · rw [if_pos hxc]
    simp [hxc]

theorem partition : sizes.tiles.Partition where
  inside x y rect hx hy hrect := by
    obtain ⟨⟨hxc, hyc⟩, rfl⟩ := (sizes.tileRect_iff hx hy).mp hrect
    refine ⟨sizes.columns.width_pos hxc, sizes.rows.width_pos hyc, ?_⟩
    intro px py hhas
    obtain ⟨hcolumn, hrow⟩ := sizes.rect_has.mp hhas
    have hpx := (sizes.columns.has_iff.mp hcolumn).2
    have hpy := (sizes.rows.has_iff.mp hrow).2
    have hx0 := Int.mul_nonneg hx sizes.columns.size_pos.le
    have hy0 := Int.mul_nonneg hy sizes.rows.size_pos.le
    show 0 ≤ px ∧ px < 0 + sizes.columns.extent ∧ 0 ≤ py ∧ py < 0 + sizes.rows.extent
    unfold Cut.Has at hcolumn hrow
    omega
  covers px py hhas := by
    obtain ⟨hx0, hx, hy0, hy⟩ : 0 ≤ px ∧ px < 0 + sizes.columns.extent ∧ 0 ≤ py ∧ py < 0 + sizes.rows.extent := hhas
    have hpx : px < sizes.columns.extent := by omega
    have hpy : py < sizes.rows.extent := by omega
    have hcolumn := Int.ediv_nonneg hx0 sizes.columns.size_pos.le
    have hrow := Int.ediv_nonneg hy0 sizes.rows.size_pos.le
    refine ⟨px / sizes.columns.size, py / sizes.rows.size, sizes.rect (px / sizes.columns.size) (py / sizes.rows.size),
      hcolumn, hrow, ?_, ?_⟩
    · exact (sizes.tileRect_iff hcolumn hrow).mpr ⟨⟨sizes.columns.lt_count hpx, sizes.rows.lt_count hpy⟩, rfl⟩
    · exact sizes.rect_has.mpr ⟨sizes.columns.has_iff.mpr ⟨rfl, hpx⟩, sizes.rows.has_iff.mpr ⟨rfl, hpy⟩⟩
  apart x y x' y' rect rect' px py hx hy hx' hy' hrect hrect' hhas hhas' := by
    obtain ⟨-, rfl⟩ := (sizes.tileRect_iff hx hy).mp hrect
    obtain ⟨-, rfl⟩ := (sizes.tileRect_iff hx' hy').mp hrect'
    obtain ⟨hcolumn, hrow⟩ := sizes.rect_has.mp hhas
    obtain ⟨hcolumn', hrow'⟩ := sizes.rect_has.mp hhas'
    rw [Cut.has_iff] at hcolumn hrow hcolumn' hrow'
    exact ⟨hcolumn.1.symm.trans hcolumn'.1, hrow.1.symm.trans hrow'.1⟩

/-! ### the walks -/

theorem number {i : Nat} (hi : i < sizes.tiles.numTiles) :
    (0 ≤ (i : Int) % sizes.columns.count ∧ (i : Int) % sizes.columns.count < sizes.columns.count) ∧
      (0 ≤ (i : Int) / sizes.columns.count ∧ (i : Int) / sizes.columns.count < sizes.rows.count) ∧
      (i : Int) / sizes.columns.count * sizes.columns.count + (i : Int) % sizes.columns.count = i := by
  have hpos := sizes.columns.count_pos
  have hnumber : (i : Int) / sizes.columns.count * sizes.columns.count + (i : Int) % sizes.columns.count = i :=
    Int.ediv_mul_add_emod ..
  have hx0 := Int.emod_nonneg (i : Int) hpos.ne'
  have hxc := Int.emod_lt_of_pos (i : Int) hpos
  refine ⟨⟨hx0, hxc⟩, ⟨Int.ediv_nonneg (by omega) hpos.le, ?_⟩, hnumber⟩
  refine (rowMajor_lt hx0 hxc).mp ?_
  rw [hnumber, ← numTiles]
  exact Int.ofNat_lt.mpr hi

variable {Intersects : IntRect → IntRect → Bool} {Intersect : IntRect → IntRect → IntRect} {r : IntRect}

theorem forTiles_own_iff {xIndex yIndex : Int → Int} {shape : IntRect → IntRect} :
    VisitsOwn sizes.tiles (sizes.tiles.forTiles Intersects Intersect xIndex yIndex shape r) ↔
      ∀ i : Nat, i < sizes.tiles.numTiles → sizes.tiles.tileRect (xIndex i) (yIndex i) =
        some (sizes.rect ((i : Int) % sizes.columns.count) ((i : Int) / sizes.columns.count)) := by
  unfold VisitsOwn ImageTilesWKC.forTiles
  simp only [forLoop_collect]
  constructor
  · rintro ⟨vs, hvs, -, hown⟩ i hi
    have hmem := List.mem_map_of_mem (f := fun i : Nat => (sizes.tiles.tileRect (xIndex i) (yIndex i)).map fun tr =>
      ({ tile := i, tr
         call := if Intersects tr r then some (shape (Intersect tr r)) else none } : TileVisit)) (List.mem_range.mpr hi)
    rw [hvs] at hmem
    obtain ⟨v, hv, hsome⟩ := List.mem_map.mp hmem
    obtain ⟨tr, htr, rfl⟩ := Option.map_eq_some_iff.mp hsome.symm
    obtain ⟨⟨hx0, hxc⟩, ⟨hy0, hyc⟩, hnumber⟩ := sizes.number hi
    have htile := (sizes.tile_iff hx0 hy0).mpr ⟨⟨hxc, hyc⟩, hnumber⟩
    obtain ⟨-, hrect⟩ := (sizes.tileRect_iff hx0 hy0).mp (hown _ hv _ _ hx0 hy0 htile)
    rw [htr, hrect]
  · intro h
    let visit : Nat → TileVisit := fun i =>
      let tr := sizes.rect ((i : Int) % sizes.columns.count) ((i : Int) / sizes.columns.count)
      { tile := i, tr, call := if Intersects tr r then some (shape (Intersect tr r)) else none }
    refine ⟨(List.range sizes.tiles.numTiles).map visit, ?_, ?_, ?_⟩
    · rw [List.map_map]
      refine List.map_congr_left fun i hi => ?_
      rw [h i (List.mem_range.mp hi)]
      rfl
    · rw [List.map_map]
      exact List.map_id _
    · intro v hv x y hx hy htile
      obtain ⟨i, hi, rfl⟩ := List.mem_map.mp hv
      obtain ⟨⟨hxc, hyc⟩, hnumber⟩ := (sizes.tile_iff hx hy).mp htile
      refine (sizes.tileRect_iff hx hy).mpr ⟨⟨hxc, hyc⟩, ?_⟩
      show _ = sizes.rect ((i : Int) % sizes.columns.count) ((i : Int) / sizes.columns.count)
      rw [← show y * sizes.columns.count + x = i from hnumber, rowMajor_column hx hxc, rowMajor_row hx hxc]

theorem clearRect_own : VisitsOwn sizes.tiles (sizes.tiles.ClearRect Intersects Intersect r) := by
  refine sizes.forTiles_own_iff.mpr fun i hi => ?_
  obtain ⟨⟨hx0, hxc⟩, ⟨hy0, hyc⟩, -⟩ := sizes.number hi
  rw [numColumns, Int.tmod_eq_emod_of_nonneg (by omega), Int.tdiv_eq_ediv_of_nonneg (by omega)]
  exact (sizes.tileRect_iff hx0 hy0).mpr ⟨⟨hxc, hyc⟩, rfl⟩

theorem clip_iff : VisitsOwn sizes.tiles (sizes.tiles.Clip Intersects Intersect r) ↔
    sizes.columns.count = 1 ∧ sizes.rows.count = 1 := by
  have hcolumns := sizes.columns.count_pos
  have hrows := sizes.rows.count_pos
  have hnum := sizes.numTiles
  refine sizes.forTiles_own_iff.trans ⟨fun h => ?_, ?_⟩
  · by_contra hmany
    have hone : 1 < sizes.tiles.numTiles := by
      have hle : 1 ≤ sizes.rows.count * sizes.columns.count := Int.mul_pos hrows hcolumns
      have hne : sizes.rows.count * sizes.columns.count ≠ 1 := by
        intro heq
        exact hmany ⟨Int.eq_one_of_mul_eq_one_left hcolumns.le heq, Int.eq_one_of_mul_eq_one_right hrows.le heq⟩
      show 1 < sizes.tiles.m_tiles
      omega
    have htile := h 1 hone
    rw [numColumns, Int.tdiv_eq_ediv_of_nonneg (by omega), Int.tmod_eq_emod_of_nonneg (by omega)] at htile
    obtain ⟨⟨hx0, hxc⟩, ⟨hy0, hyc⟩, -⟩ := sizes.number hone
    obtain ⟨⟨hin, -⟩, hrect⟩ := (sizes.tileRect_iff hy0 hx0).mp htile
    obtain hcolumn | hcolumn := (show sizes.columns.count = 1 ∨ 1 < sizes.columns.count by omega)
    · rw [hcolumn] at hin
      exact absurd hin (by decide)
    · -- the second tile is in the first row
      have hzero : ((1 : Nat) : Int) / sizes.columns.count = 0 := Int.ediv_eq_zero_of_lt (by omega) (by omega)
      have hmod : ((1 : Nat) : Int) % sizes.columns.count = 1 := Int.emod_eq_of_lt (by omega) (by omega)
      rw [hzero, hmod] at hrect
      have hx : 0 * sizes.columns.size = 1 * sizes.columns.size := congrArg IntRect.x hrect
      have hsize := sizes.columns.size_pos
      omega
  · rintro ⟨hcolumn, hrow⟩ i hi
    have hi0 : i = 0 := by
      rw [hcolumn, hrow] at hnum
      change i < sizes.tiles.m_tiles at hi
      omega
    subst hi0
    rw [numColumns, hcolumn]
    exact (sizes.tileRect_iff (Int.le_refl 0) (Int.le_refl 0)).mpr ⟨⟨by omega, by omega⟩, rfl⟩

end TiledSize
end Tiled
end Wkc
