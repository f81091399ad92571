import WkcBrowser.Graphics.Tiles

/-!
# What `BitBltToDC` draws

* `tilesInRect_eq`      the tiles that a part of the image touches;
* `partCall`            the call for one of them;
* `bitBltToDC_spec`     `BitBltToDC` makes these calls and restores its image;
* `drawn_once`          every pixel of the part is in one of them;
* `address_iff`         and is found where the image has it, if the bytes of a pixel are right or it is in the first column;
* `drawsOnce_iff`       so an image is drawn right exactly if the bytes are, or there is one column;
* `coversOnce_iff`      with the walks: an image is covered exactly if it is a single tile.
-/

namespace Wkc
namespace Tiled
open Canvas Loops

theorem intersection_has {a b : IntRect} {x y : Int} : (intersection a b).Has x y ↔ a.Has x y ∧ b.Has x y := by
  unfold intersection setLocationAndSizeFromEdges IntRect.Has IntRect.maxX IntRect.maxY
  dsimp only
  split
  all_goals
    dsimp only
    omega

namespace TiledSize
variable (sizes : TiledSize)

/-- a part of the image that is not empty -/
structure Inside (src : IntRect) : Prop where
  width_pos : 0 < src.width
  height_pos : 0 < src.height
  x_nonneg : 0 ≤ src.x
  y_nonneg : 0 ≤ src.y
  right : src.maxX ≤ sizes.columns.extent
  bottom : src.maxY ≤ sizes.rows.extent

theorem touched (cut : Cut) {lower upper : Int} (h0 : 0 ≤ lower) (hlt : lower < upper) (hle : upper ≤ cut.extent) :
    0 ≤ lower / cut.size ∧ lower / cut.size ≤ (upper - 1) / cut.size ∧ (upper - 1) / cut.size < cut.count :=
  ⟨Int.ediv_nonneg h0 cut.size_pos.le, Int.ediv_le_ediv cut.size_pos (by omega), cut.lt_count (by omega)⟩

section
variable {sizes} {src : IntRect} (h : sizes.Inside src)
include h

theorem Inside.columns : 0 ≤ src.x / sizes.columns.size ∧
    src.x / sizes.columns.size ≤ (src.maxX - 1) / sizes.columns.size ∧
    (src.maxX - 1) / sizes.columns.size < sizes.columns.count :=
  touched sizes.columns h.x_nonneg (Int.lt_add_of_pos_right _ h.width_pos) h.right

theorem Inside.rows : 0 ≤ src.y / sizes.rows.size ∧ src.y / sizes.rows.size ≤ (src.maxY - 1) / sizes.rows.size ∧
    (src.maxY - 1) / sizes.rows.size < sizes.rows.count :=
  touched sizes.rows h.y_nonneg (Int.lt_add_of_pos_right _ h.height_pos) h.bottom

end

theorem tilesInRect_eq {src : IntRect} (h : sizes.Inside src) :
    sizes.tiles.tilesInRect src =
      { x := src.x / sizes.columns.size, y := src.y / sizes.rows.size
        width := (src.maxX - 1) / sizes.columns.size - src.x / sizes.columns.size + 1
        height := (src.maxY - 1) / sizes.rows.size - src.y / sizes.rows.size + 1 } := by
  have hx := h.x_nonneg
  have hy := h.y_nonneg
  have hright : src.x < src.maxX := Int.lt_add_of_pos_right _ h.width_pos
  have hbottom : src.y < src.maxY := Int.lt_add_of_pos_right _ h.height_pos
  obtain ⟨hc0, hc1, hc2⟩ := h.columns
  obtain ⟨hr0, hr1, hr2⟩ := h.rows
  have hnumRows : ((sizes.tiles.m_tiles : Int)).tdiv sizes.columns.count = sizes.rows.count := by
    rw [numTiles]
    exact Int.mul_tdiv_cancel _ sizes.columns.count_pos.ne'
  unfold ImageTilesWKC.tilesInRect
  dsimp only
  rw [numColumns, hnumRows, show sizes.tiles.m_maxTileSize.width = sizes.columns.size from rfl,
    show sizes.tiles.m_maxTileSize.height = sizes.rows.size from rfl, Int.tdiv_eq_ediv_of_nonneg hx,
    Int.tdiv_eq_ediv_of_nonneg hy, Int.tdiv_eq_ediv_of_nonneg (a := src.maxX - 1) (by omega), Int.tdiv_eq_ediv_of_nonneg (a := src.maxY - 1) (by omega),
    if_neg (by omega), if_neg (by omega), if_pos (by omega), if_pos (by omega)]

section
variable {Rect : Type} (mapRect : IntRect → Rect → IntRect → Rect) (in_image : WKCPeerImage) (dst : Rect) (op : Int)

/-- what the peer is handed for the tile at `(x, y)` -/
def partCall (x y : Int) : PeerBlit Rect :=
  let intersect := intersection in_image.fSrcRect (sizes.rect x y)
  { image :=
      { fType := in_image.fType
        fBitmap := in_image.fBitmap + x * sizes.columns.size * bytesPerPixel in_image.fType +
          y * sizes.rows.size * in_image.fRowBytes
        fRowBytes := in_image.fRowBytes
        fSrcRect :=
          { x := intersect.x - x * sizes.columns.size, y := intersect.y - y * sizes.rows.size
            width := intersect.width, height := intersect.height }
        fTexture := some (y * sizes.columns.count + x).toNat }
    dstRect := mapRect in_image.fSrcRect dst intersect
    op }

theorem blitTile_eq {x y : Int} (hx : 0 ≤ x) (hy : 0 ≤ y) (hxc : x < sizes.columns.count) (hyc : y < sizes.rows.count)
    (s : WKCPeerImage × List (PeerBlit Rect)) (htype : s.1.fType = in_image.fType)
    (hrow : s.1.fRowBytes = in_image.fRowBytes) :
    sizes.tiles.blitTile mapRect in_image.fSrcRect dst in_image.fBitmap (bytesPerPixel in_image.fType) op x y s =
      some ((sizes.partCall mapRect in_image dst op x y).image, s.2 ++ [sizes.partCall mapRect in_image dst op x y]) := by
  have hnonneg : 0 ≤ y * sizes.columns.count := Int.mul_nonneg hy (by omega)
  have htile : sizes.tiles.tile x y = some (y * sizes.columns.count + x).toNat :=
    (sizes.tile_iff hx hy).mpr ⟨⟨hxc, hyc⟩, by omega⟩
  unfold ImageTilesWKC.blitTile
  rw [(sizes.tileRect_iff hx hy).mpr ⟨⟨hxc, hyc⟩, rfl⟩, Option.map_some, htile, ← htype]
  unfold partCall
  rw [← htype, ← hrow]
  rfl

/-- the calls for a part of the image, row by row -/
def partCalls : List (PeerBlit Rect) :=
  let drawnTiles := sizes.tiles.tilesInRect in_image.fSrcRect
  (places drawnTiles.height.toNat drawnTiles.width.toNat).map fun p =>
    sizes.partCall mapRect in_image dst op (drawnTiles.x + p.2) (drawnTiles.y + p.1)

theorem bitBltToDC_spec (h : sizes.Inside in_image.fSrcRect) :
    ∃ out, sizes.tiles.BitBltToDC mapRect in_image dst op = some out ∧
      out.2 = sizes.partCalls mapRect in_image dst op ∧
      out.1.fBitmap = in_image.fBitmap ∧ out.1.fSrcRect = in_image.fSrcRect := by
  obtain ⟨hc0, -, hc2⟩ := h.columns
  obtain ⟨hr0, -, hr2⟩ := h.rows
  have htiles := sizes.tilesInRect_eq h
  -- what a turn changes of the image is set by the next one
  have hturn : ∀ (y x : Nat) (s : WKCPeerImage × List (PeerBlit Rect)),
      y < (sizes.tiles.tilesInRect in_image.fSrcRect).height.toNat →
      x < (sizes.tiles.tilesInRect in_image.fSrcRect).width.toNat →
      s.1.fType = in_image.fType ∧ s.1.fRowBytes = in_image.fRowBytes →
      ∃ t, sizes.tiles.blitTile mapRect in_image.fSrcRect dst in_image.fBitmap (bytesPerPixel in_image.fType) op
          ((sizes.tiles.tilesInRect in_image.fSrcRect).x + x) ((sizes.tiles.tilesInRect in_image.fSrcRect).y + y) s =
            some t ∧
        (t.1.fType = in_image.fType ∧ t.1.fRowBytes = in_image.fRowBytes) ∧
        t.2 = s.2 ++ [sizes.partCall mapRect in_image dst op ((sizes.tiles.tilesInRect in_image.fSrcRect).x + x)
          ((sizes.tiles.tilesInRect in_image.fSrcRect).y + y)] := by
    rintro y x s hy hx ⟨htype, hrow⟩
    rw [htiles] at hx hy ⊢
    dsimp only at hx hy ⊢
    exact ⟨_, sizes.blitTile_eq mapRect in_image dst op (by omega) (by omega) (by omega) (by omega) s htype hrow,
      ⟨rfl, rfl⟩, rfl⟩
  obtain ⟨out, hout, -, hcalls⟩ := gridLoop_appends hturn (s := (in_image, [])) ⟨rfl, rfl⟩
  refine ⟨({ out.1 with fSrcRect := in_image.fSrcRect, fBitmap := in_image.fBitmap }, out.2), ?_, hcalls, rfl, rfl⟩
  unfold ImageTilesWKC.BitBltToDC
  dsimp only
  rw [hout, Option.map_some]

/-! ### pixels of a call -/

theorem origin_eq {x y : Int} (hx : 0 ≤ x) (hy : 0 ≤ y) (hxc : x < sizes.columns.count) :
    sizes.tiles.origin (y * sizes.columns.count + x).toNat =
      { x := x * sizes.columns.size, y := y * sizes.rows.size } := by
  have hnonneg : 0 ≤ y * sizes.columns.count := Int.mul_nonneg hy (by omega)
  have hnumber : (((y * sizes.columns.count + x).toNat : Nat) : Int) = y * sizes.columns.count + x := by omega
  unfold ImageTilesWKC.origin
  rw [hnumber, numColumns, rowMajor_column hx hxc, rowMajor_row hx hxc]
  rfl

theorem draws_iff {x y px py : Int} (hx : 0 ≤ x) (hy : 0 ≤ y) (hxc : x < sizes.columns.count) :
    (sizes.partCall mapRect in_image dst op x y).draws sizes.tiles px py ↔
      in_image.fSrcRect.Has px py ∧ sizes.columns.Has x px ∧ sizes.rows.Has y py := by
  unfold PeerBlit.draws partCall
  dsimp only
  rw [decide_eq_true_iff, origin_eq sizes hx hy hxc, ← rect_has, ← intersection_has]
  unfold IntRect.Has IntRect.maxX IntRect.maxY
  dsimp only
  omega

theorem mem_partCalls (h : sizes.Inside in_image.fSrcRect) {call : PeerBlit Rect}
    (hcall : call ∈ sizes.partCalls mapRect in_image dst op) :
    ∃ x y, (0 ≤ x ∧ x < sizes.columns.count) ∧ 0 ≤ y ∧ call = sizes.partCall mapRect in_image dst op x y := by
  obtain ⟨hc0, -, hc2⟩ := h.columns
  obtain ⟨hr0, -, hr2⟩ := h.rows
  unfold partCalls at hcall
  rw [sizes.tilesInRect_eq h] at hcall
  dsimp only at hcall
  obtain ⟨⟨y, x⟩, hp, rfl⟩ := List.mem_map.mp hcall
  obtain ⟨hy, hx⟩ : y < _ ∧ x < _ := mem_places.mp hp
  exact ⟨_, _, ⟨by omega, by omega⟩, by omega, rfl⟩

theorem drawn_once (h : sizes.Inside in_image.fSrcRect) {px py : Int} (hsrc : in_image.fSrcRect.Has px py) :
    (sizes.partCalls mapRect in_image dst op).countP (fun call => call.draws sizes.tiles px py) = 1 := by
  obtain ⟨hx0, hx1, hy0, hy1⟩ := hsrc
  have hright := h.right
  have hbottom := h.bottom
  obtain ⟨hc0, -, hc2⟩ := h.columns
  obtain ⟨hr0, -, hr2⟩ := h.rows
  have hcl : in_image.fSrcRect.x / sizes.columns.size ≤ px / sizes.columns.size :=
    Int.ediv_le_ediv sizes.columns.size_pos hx0
  have hcu : px / sizes.columns.size ≤ (in_image.fSrcRect.maxX - 1) / sizes.columns.size :=
    Int.ediv_le_ediv sizes.columns.size_pos (by omega)
  have hrl : in_image.fSrcRect.y / sizes.rows.size ≤ py / sizes.rows.size :=
    Int.ediv_le_ediv sizes.rows.size_pos hy0
  have hru : py / sizes.rows.size ≤ (in_image.fSrcRect.maxY - 1) / sizes.rows.size :=
    Int.ediv_le_ediv sizes.rows.size_pos (by omega)
  unfold partCalls
  rw [sizes.tilesInRect_eq h, List.countP_map]
  dsimp only
  refine countP_places (y := (py / sizes.rows.size - in_image.fSrcRect.y / sizes.rows.size).toNat)
    (x := (px / sizes.columns.size - in_image.fSrcRect.x / sizes.columns.size).toNat) (by omega) (by omega) ?_
  rintro ⟨y, x⟩ hp
  obtain ⟨hy, hx⟩ : y < _ ∧ x < _ := mem_places.mp hp
  show (sizes.partCall mapRect in_image dst op _ _).draws sizes.tiles px py ↔ _
  rw [sizes.draws_iff mapRect in_image dst op (by omega) (by omega) (by omega), Cut.has_iff, Cut.has_iff, Prod.mk.injEq]
  constructor
  · rintro ⟨-, ⟨hcolumn, -⟩, ⟨hrow, -⟩⟩
    omega
  · rintro ⟨rfl, rfl⟩
    exact ⟨⟨hx0, hx1, hy0, hy1⟩, ⟨by omega, by omega⟩, ⟨by omega, by omega⟩⟩

theorem address_iff {x y px py bpp : Int} :
    (sizes.partCall mapRect in_image dst op x y).address bpp (px - x * sizes.columns.size) (py - y * sizes.rows.size) =
        in_image.fBitmap + py * in_image.fRowBytes + px * bpp ↔
      x = 0 ∨ bytesPerPixel in_image.fType = bpp := by
  have hsize := sizes.columns.size_pos
  have hdiff : (sizes.partCall mapRect in_image dst op x y).address bpp (px - x * sizes.columns.size)
      (py - y * sizes.rows.size) = in_image.fBitmap + py * in_image.fRowBytes + px * bpp +
        x * sizes.columns.size * (bytesPerPixel in_image.fType - bpp) := by
    unfold PeerBlit.address partCall
    ring
  rw [hdiff, add_eq_left, mul_eq_zero, mul_eq_zero, sub_eq_zero, or_iff_left (show sizes.columns.size ≠ 0 by omega)]

end

/-! ## images -/

theorem whole_inside : sizes.Inside sizes.tiles.whole where
  width_pos := sizes.columns.extent_pos
  height_pos := sizes.rows.extent_pos
  x_nonneg := Int.le_refl 0
  y_nonneg := Int.le_refl 0
  right := (Int.zero_add _).le
  bottom := (Int.zero_add _).le

variable {image : ImageWKC} (hsize : image.m_size = { width := sizes.columns.extent, height := sizes.rows.extent })
  (WKC_IMAGETYPE_RGB565 : UInt32)
include hsize

theorem drawsOnce_iff : DrawsOnce WKC_IMAGETYPE_RGB565 image sizes.tiles ↔ sizes.columns.count = 1 ∨
    ∀ hasAlpha hasTrueAlpha src,
      bytesPerPixel (image.peerImage WKC_IMAGETYPE_RGB565 hasAlpha hasTrueAlpha src).fType = image.m_bpp := by
  have hwidth : image.m_size.width = sizes.columns.extent := congrArg IntSize.width hsize
  have hheight : image.m_size.height = sizes.rows.extent := congrArg IntSize.height hsize
  constructor
  · intro hdraws
    refine or_iff_not_imp_left.mpr fun hmany hasAlpha hasTrueAlpha src => ?_
    -- the first pixel of the second tile
    have hcolumns : sizes.columns.size < sizes.columns.extent := by
      rw [Cut.count_eq_one] at hmany
      omega
    have hsecond : sizes.tiles.whole.Has sizes.columns.size 0 := by
      have hsize0 := sizes.columns.size_pos
      have hrows0 := sizes.rows.extent_pos
      show 0 ≤ _ ∧ _ < 0 + sizes.columns.extent ∧ 0 ≤ (0 : Int) ∧ 0 < 0 + sizes.rows.extent
      omega
    have hin := sizes.whole_inside
    obtain ⟨out, hout, hdrawn⟩ := hdraws hasAlpha hasTrueAlpha sizes.tiles.whole hin.width_pos hin.height_pos hin.x_nonneg
      hin.y_nonneg (hin.right.trans_eq hwidth.symm) (hin.bottom.trans_eq hheight.symm) Unit (fun _ _ _ => ()) () 0
    obtain ⟨out', hout', hcalls, -⟩ := sizes.bitBltToDC_spec (fun _ _ _ => ())
      (image.peerImage WKC_IMAGETYPE_RGB565 hasAlpha hasTrueAlpha sizes.tiles.whole) () 0 hin
    obtain rfl := Option.some.inj (hout.symm.trans hout')
    have hcount := hdrawn.once _ _ hsecond
    obtain ⟨call, hcall, hdraw⟩ := List.countP_pos_iff.mp (show 0 < _ by rw [hcount]; exact Nat.one_pos)
    obtain ⟨-, i, hi, haddress⟩ := hdrawn.addressed call hcall _ _ hdraw
    rw [hcalls] at hcall
    obtain ⟨x, y, ⟨hx, hxc⟩, hy, rfl⟩ := sizes.mem_partCalls _ _ _ _ hin hcall
    obtain ⟨-, hcolumn, -⟩ := (sizes.draws_iff _ _ _ _ hx hy hxc).mp hdraw
    obtain rfl := Option.some.inj hi
    rw [sizes.origin_eq hx hy hxc] at haddress
    have hone : x = 1 := by
      rw [← (sizes.columns.has_iff.mp hcolumn).1]
      exact Int.ediv_self sizes.columns.size_pos.ne'
    exact ((sizes.address_iff _ _ _ _).mp haddress).resolve_left (by omega)
  · intro hbytes hasAlpha hasTrueAlpha src hw hh hx0 hy0 hright hbottom Rect mapRect dst op
    have hin : sizes.Inside src := ⟨hw, hh, hx0, hy0, hright.trans_eq hwidth, hbottom.trans_eq hheight⟩
    let in_image := image.peerImage WKC_IMAGETYPE_RGB565 hasAlpha hasTrueAlpha src
    obtain ⟨out, hout, hcalls, hbitmap, hsrc⟩ := sizes.bitBltToDC_spec mapRect in_image dst op hin
    refine ⟨out, hout, ?_, ?_, hbitmap, hsrc⟩
    · intro px py hhas
      rw [hcalls]
      exact sizes.drawn_once mapRect in_image dst op hin hhas
    · intro call hcall px py hdraw
      rw [hcalls] at hcall
      obtain ⟨x, y, ⟨hx, hxc⟩, hy, rfl⟩ := sizes.mem_partCalls mapRect in_image dst op hin hcall
      obtain ⟨hhas, -, -⟩ := (sizes.draws_iff _ _ _ _ hx hy hxc).mp hdraw
      refine ⟨hhas, _, rfl, ?_⟩
      rw [sizes.origin_eq hx hy hxc]
      refine (sizes.address_iff mapRect in_image dst op).mpr (hbytes.imp ?_ fun h => h hasAlpha hasTrueAlpha src)
      intro hone
      omega

end TiledSize

theorem maxTile_pos {extent : Int} (h : 1 ≤ extent) : 0 < maxTile extent := by
  unfold maxTile
  split <;> omega

/-- the tiles of an image that has been given a size -/
def TiledSize.ofImage (size : IntSize) (hw : 1 ≤ size.width) (hh : 1 ≤ size.height) : TiledSize where
  columns := { extent := size.width, size := maxTile size.width, extent_pos := hw, size_pos := maxTile_pos hw }
  rows := { extent := size.height, size := maxTile size.height, extent_pos := hh, size_pos := maxTile_pos hh }

theorem le_maxTile_iff {extent : Int} (h : 1 ≤ extent) : extent ≤ maxTile extent ↔ extent ≤ 2048 := by
  unfold maxTile
  split <;> omega

/-- An image that has been given a size is covered once, walked over and drawn right exactly if it is one tile. -/
theorem coversOnce_iff (WKC_IMAGETYPE_RGB565 : UInt32) {allocate : Int → Option Int} {old image : ImageWKC}
    {size : IntSize} (hw : 1 ≤ size.width) (hh : 1 ≤ size.height) (hresize : old.resize allocate size = some image) :
    (∃ tiles, image.m_offscreen = some tiles ∧ CoversOnce WKC_IMAGETYPE_RGB565 image tiles) ↔
      size.width ≤ 2048 ∧ size.height ≤ 2048 := by
  let sizes := TiledSize.ofImage size hw hh
  obtain ⟨newbitmap, -, rfl⟩ := Option.map_eq_some_iff.mp hresize
  have hcounts : sizes.columns.count = 1 ∧ sizes.rows.count = 1 ↔ size.width ≤ 2048 ∧ size.height ≤ 2048 := by
    rw [Cut.count_eq_one, Cut.count_eq_one]
    exact and_congr (le_maxTile_iff hw) (le_maxTile_iff hh)
  rw [← hcounts]
  constructor
  · rintro ⟨tiles, htiles, hcovers⟩
    obtain rfl : sizes.tiles = tiles := Option.some.inj htiles
    exact sizes.clip_iff.mp (hcovers.clip (fun _ _ => false) (fun a _ => a) sizes.tiles.whole)
  · intro hone
    refine ⟨sizes.tiles, rfl, sizes.partition, ?_, ?_, ?_⟩
    · exact (sizes.drawsOnce_iff rfl WKC_IMAGETYPE_RGB565).mpr (Or.inl hone.1)
    · exact fun _ _ _ => sizes.clip_iff.mpr hone
    · exact fun _ _ _ => sizes.clearRect_own

/-- an image of two columns, the last one a pixel wide -/
def banner : ImageWKC where
  m_type := .EColorRGB565
  m_bpp := 2
  m_bitmap := 64
  m_rowbytes := 4100
  m_size := { width := 2049, height := 9 }
  m_offscreen := some (ImageTilesWKC.create { width := 2049, height := 9 } { width := 2048, height := 9 })

theorem coversOnce_banner :
    (∃ tiles, banner.m_offscreen = some tiles ∧ CoversOnce 5 banner tiles) ↔
      banner.m_size.width ≤ 2048 ∧ banner.m_size.height ≤ 2048 :=
  coversOnce_iff 5 (by decide) (by decide)
    (show (ImageWKC.create .EColorRGB565).resize (fun _ => some 64) banner.m_size = some banner from rfl)

/-- an image of four tiles -/
def poster : ImageWKC where
  m_type := .EColorARGB8888
  m_bpp := 4
  m_bitmap := 64
  m_rowbytes := 16384
  m_size := { width := 4096, height := 4096 }
  m_offscreen := some (ImageTilesWKC.create { width := 4096, height := 4096 } { width := 2048, height := 2048 })

/-- `Clip` takes the rectangles of the second and the third tile for each other's; `ClearRect` does not. -/
theorem clip_transposes :
    (ImageWKC.create .EColorARGB8888).resize (fun _ => some 64) poster.m_size = some poster ∧
      (poster.m_offscreen.bind fun tiles => (tiles.Clip (fun _ _ => true) (fun tr _ => tr) tiles.whole).map fun visits =>
        visits.map fun visit => (visit.tile, visit.tr.x, visit.tr.y)) =
          some [(0, 0, 0), (1, 0, 2048), (2, 2048, 0), (3, 2048, 2048)] ∧
      (poster.m_offscreen.bind fun tiles => (tiles.ClearRect (fun _ _ => true) (fun tr _ => tr) tiles.whole).map
        fun visits => visits.map fun visit => (visit.tile, visit.tr.x, visit.tr.y)) =
          some [(0, 0, 0), (1, 2048, 0), (2, 0, 2048), (3, 2048, 2048)] ∧
      ¬ ∃ tiles, poster.m_offscreen = some tiles ∧ CoversOnce 5 poster tiles := by
  refine ⟨rfl, by decide, by decide, ?_⟩
  rintro ⟨tiles, htiles, hcovers⟩
  obtain rfl := Option.some.inj htiles
  let sizes := TiledSize.ofImage poster.m_size (by decide) (by decide)
  have hone := sizes.clip_iff.mp (hcovers.clip (fun _ _ => false) (fun tr _ => tr) sizes.tiles.whole)
  exact absurd hone.1 (by decide)

end Tiled
end Wkc
