import WkcBrowser.Lib.Runs
import Mathlib.Logic.Function.Basic

/-!
# `ImageWKC`: decoded images

An image keeps its geometry, its format and its storage in separate fields.  The operations set them in different
orders, around an allocation that may fail.

* `Block`, `read16`, `read32`, `write16`   an allocation, and its pixels;
* `ImageWKC` and its operations            `resize`, `clear`, `zeroFill`, `notifyStatus`, `copyImage`, `setRGBLine`;
* `Sound`                                  what the fields say of the storage;
* `Meets`                                  what an operation should do;
* `image_operations`                       which runs of operations do it.

The sizes are such that `width * height * 4` is an `int`, so that no product below overflows.
-/

namespace Wkc
namespace Image

/-! ## storage -/

abbrev Memory := Nat → UInt8

/-- an allocation of `size` bytes; `byte` is not looked at beyond it -/
structure Block where
  size : Nat
  byte : Memory

/-- `tryFastMalloc`: it fails, or the memory has any contents -/
def malloc (answer : Option Memory) (size : Nat) : Option Block := answer.map (Block.mk size)

def memset (m : Memory) (len : Nat) : Memory := fun i => if i < len then 0 else m i

def memcpy (m src : Memory) (len : Nat) : Memory := fun i => if i < len then src i else m i

def read16 (m : Memory) (offset : Nat) : Nat := (m offset).toNat + 0x100 * (m (offset + 1)).toNat

def read32 (m : Memory) (offset : Nat) : Nat := read16 m offset + 0x10000 * read16 m (offset + 2)

def write16 (m : Memory) (offset value : Nat) : Memory :=
  Function.update (Function.update m offset (UInt8.ofNat value)) (offset + 1) (UInt8.ofNat (value / 0x100))

def write32 (m : Memory) (offset value : Nat) : Memory :=
  write16 (write16 m offset (value % 0x10000)) (offset + 2) (value / 0x10000)

theorem read16_write16 (m : Memory) (i j : Nat) {value : Nat} (h : value < 0x10000) :
    read16 (write16 m (2 * i) value) (2 * j) = if j = i then value else read16 m (2 * j) := by
  unfold read16 write16
  by_cases hij : j = i
  · subst hij
    rw [if_pos rfl, Function.update_of_ne (by omega), Function.update_self, Function.update_self,
      UInt8.toNat_ofNat', UInt8.toNat_ofNat']
    omega
  · rw [if_neg hij, Function.update_of_ne (by omega), Function.update_of_ne (by omega),
      Function.update_of_ne (by omega), Function.update_of_ne (by omega)]

/-! ## the image -/

inductive ColorType where
  | EColorARGB8888
  | EColorRGB565
  deriving DecidableEq

/-- what the constructor makes `m_bpp` of a type -/
def ColorType.bpp : ColorType → Nat
  | .EColorARGB8888 => 4
  | .EColorRGB565 => 2

/-- the scales are the bits of a `double` -/
structure ImageWKC where
  type : ColorType
  bpp : Nat
  bitmap : Option Block
  rowbytes : Nat
  width : Nat
  height : Nat
  ownbitmap : Bool
  hasAlpha : Bool := false
  scalex : UInt64 := 0x3FF0000000000000
  scaley : UInt64 := 0x3FF0000000000000
  decodedLines : Nat := 0
  allowReduceColor : Bool := false

/-- `if (width & 1) width++` -/
def evenWidth (width : Nat) : Nat := if width % 2 = 1 then width + 1 else width

/-- the bytes of a row: a multiple of four -/
def ColorType.rowBytes (type : ColorType) (width : Nat) : Nat :=
  match type with
  | .EColorARGB8888 => width * 4
  | .EColorRGB565 => evenWidth width * 2

/-- An image that owns its bitmap, without one or with a copy of a surface.  `reduce` is `gReduceTo565IfPossible`. -/
def create (type : ColorType) (width height : Nat) (surface : Option Memory) (reduce : Bool) : ImageWKC where
  type := type
  bpp := type.bpp
  bitmap := malloc surface (type.rowBytes width * height)
  rowbytes := type.rowBytes width
  width := width
  height := height
  ownbitmap := true
  allowReduceColor := reduce && decide (type = .EColorARGB8888)

namespace ImageWKC

def zeroFill (img : ImageWKC) : ImageWKC :=
  { img with bitmap := img.bitmap.map fun b => { b with byte := memset b.byte (img.rowbytes * img.height) } }

def clear (img : ImageWKC) : ImageWKC := if img.ownbitmap = false then img else { img with bitmap := none }

def resize (img : ImageWKC) (width height : Nat) (answer : Option Memory) : Bool × ImageWKC :=
  if img.ownbitmap = false then (false, img)
  else
    let width' := if img.bpp = 2 then evenWidth width else width
    match malloc answer (width' * height * img.bpp) with
    | none => (false, img)
    | some newbitmap =>
      (true, { img with
        bitmap := some newbitmap, rowbytes := width' * img.bpp, width := width, height := height }.zeroFill)

/-- the pixel of 16 bits of a pixel of 32 bits -/
def truncate (v : Nat) : Nat := (v >>> 8 &&& 0xF800) ||| (v >>> 5 &&& 0x07E0) ||| (v >>> 3 &&& 0x1F)

/-- one row of `notifyStatus`; `src` runs through the bitmap without a gap -/
def reduceRow (src : Memory) (width w y : Nat) (dest : Memory) : Memory :=
  (List.range width).foldl
    (fun dest x => write16 dest (2 * (y * w + x)) (truncate (read32 src (4 * (y * width + x))))) dest

def reduceRows (src : Memory) (width height w : Nat) (dest : Memory) : Memory :=
  (List.range height).foldl (fun dest y => reduceRow src width w y dest) dest

/-- the tests of `notifyStatus` -/
def reduces (img : ImageWKC) (complete : Bool) : Bool :=
  img.allowReduceColor && img.ownbitmap && complete && !img.hasAlpha && decide (img.type = .EColorARGB8888)

/-- `none`: a null bitmap is read -/
def notifyStatus (img : ImageWKC) (complete : Bool) (answer : Option Memory) : Option ImageWKC :=
  if img.reduces complete = false then some img
  else
    let w := evenWidth img.width
    match malloc answer (w * img.height * 2) with
    | none => some img
    | some newimg =>
      let reduced (dest : Memory) : ImageWKC :=
        { img with bitmap := some { newimg with byte := dest }, rowbytes := w * 2, bpp := 2, type := .EColorRGB565 }
      match img.bitmap with
      | none => if img.width * img.height = 0 then some (reduced newimg.byte) else none
      | some src => some (reduced (reduceRows src.byte img.width img.height w newimg.byte))

/-- the geometry and the format are those of `other`, before there is a bitmap for them -/
def adopt (img other : ImageWKC) : ImageWKC :=
  { img with rowbytes := other.rowbytes, bpp := other.bpp, type := other.type }

/-- what `copyImage` does after a `resize` -/
def copied (img other : ImageWKC) : ImageWKC :=
  { img with
    hasAlpha := other.hasAlpha
    scalex := other.scalex
    scaley := other.scaley
    allowReduceColor := other.allowReduceColor
    bitmap := img.bitmap.map fun b =>
      match other.bitmap with
      | none => { b with byte := memset b.byte (img.rowbytes * img.height) }
      | some src => { b with byte := memcpy b.byte src.byte (img.rowbytes * img.height) } }

def copyImage (img other : ImageWKC) (answer answer' : Option Memory) : Option (Bool × ImageWKC) :=
  match (img.adopt other).resize other.width other.height answer with
  | (false, img) => some (false, img)
  | (true, img) => ((img.copied other).notifyStatus true answer').map (Prod.mk true)

def pixel565 (r g b : UInt8) : Nat :=
  (r.toNat <<< 8 &&& 0xF800) ||| (g.toNat <<< 3 &&& 0x07E0) ||| (b.toNat >>> 3 &&& 0x001F)

def pixel8888 (r g b : UInt8) : Nat := 0xFF000000 ||| r.toNat <<< 16 ||| g.toNat <<< 8 ||| b.toNat

def setRGBLine (img : ImageWKC) (xStart xEnd y : Nat) (src : Memory) (colorChannels : Nat) : ImageWKC :=
  match img.bitmap with
  | none => img
  | some bitmap =>
    let offset := y * img.rowbytes + xStart * img.bpp
    let write (m : Memory) (i : Nat) : Memory :=
      let r := src (colorChannels * i)
      let g := src (colorChannels * i + 1)
      let b := src (colorChannels * i + 2)
      match img.type with
      | .EColorRGB565 => write16 m (offset + 2 * i) (pixel565 r g b)
      | .EColorARGB8888 => write32 m (offset + 4 * i) (pixel8888 r g b)
    { img with
      decodedLines := if img.decodedLines < y + 1 then y + 1 else img.decodedLines
      bitmap := some { bitmap with byte := (List.range (xEnd - xStart)).foldl write bitmap.byte } }

end ImageWKC

/-! ## what the operations should do -/

/-- the storage holds the rows, the rows the pixels, and the pixels are of their type -/
structure Sound (img : ImageWKC) : Prop where
  fits : ∀ b, img.bitmap = some b → img.rowbytes * img.height ≤ b.size
  row : img.bitmap ≠ none → img.width * img.bpp ≤ img.rowbytes ∧ 4 ∣ img.rowbytes
  bpp : img.bpp = img.type.bpp

/-- type, row bytes, size and pixels are as they were -/
def Same (img img' : ImageWKC) : Prop :=
  img'.type = img.type ∧ img'.rowbytes = img.rowbytes ∧ img'.width = img.width ∧ img'.height = img.height ∧
    img'.bitmap = img.bitmap

/-- every pixel is replaced by its truncation -/
def Reduced (img img' : ImageWKC) : Prop :=
  img'.type = .EColorRGB565 ∧ img'.width = img.width ∧ img'.height = img.height ∧
    ∀ src dest, img.bitmap = some src → img'.bitmap = some dest → ∀ x y, x < img.width → y < img.height →
      read16 dest.byte (y * img'.rowbytes + 2 * x) =
        ImageWKC.truncate (read32 src.byte (y * img.rowbytes + 4 * x))

/-- the images that are copied are sound themselves -/
inductive Op where
  | resize (width height : Nat) (answer : Option Memory)
  | copyImage (other : { img : ImageWKC // Sound img }) (answer answer' : Option Memory)
  | clear
  | zeroFill
  | setRGBLine (xStart xEnd y : Nat) (src : Memory) (colorChannels : Nat)
  | notifyStatus (complete : Bool) (answer : Option Memory)
  | setHasAlpha (flag : Bool)

/-- nothing happens after a null bitmap was read -/
def step : Option ImageWKC → Op → Option ImageWKC
  | none, _ => none
  | some img, .resize width height answer => some (img.resize width height answer).2
  | some img, .copyImage other answer answer' => (img.copyImage other.1 answer answer').map Prod.snd
  | some img, .clear => some img.clear
  | some img, .zeroFill => some img.zeroFill
  | some img, .setRGBLine xStart xEnd y src colorChannels => some (img.setRGBLine xStart xEnd y src colorChannels)
  | some img, .notifyStatus complete answer => img.notifyStatus complete answer
  | some img, .setHasAlpha flag => some { img with hasAlpha := flag }

def Meets : Option ImageWKC → Op → Prop
  | none, _ => True
  | some img, .resize width height answer => Sound (img.resize width height answer).2 ∧
      ((img.resize width height answer).1 = false → Same img (img.resize width height answer).2)
  | some img, .copyImage other answer answer' => ∃ result img',
      img.copyImage other.1 answer answer' = some (result, img') ∧ Sound img' ∧ (result = false → Same img img')
  | some img, .notifyStatus complete answer => ∃ img',
      img.notifyStatus complete answer = some img' ∧ Sound img' ∧ (img' = img ∨ Reduced img img')
  | some img, op => ∃ img', step (some img) op = some img' ∧ Sound img'

/-- A copy that cannot be allocated is of an image with the same type and row bytes; an image that is reduced has a
bitmap, or no pixels. -/
def Fine : Option ImageWKC → Op → Prop
  | none, _ => True
  | some img, .copyImage other none _ => other.1.type = img.type ∧ other.1.rowbytes = img.rowbytes
  | some img, .notifyStatus complete (some _) => img.reduces complete = true →
      img.bitmap ≠ none ∨ img.width * img.height = 0
  | some _, _ => True

/-! ## the loops of `notifyStatus` -/

section
variable {src : Memory} {width w : Nat}

theorem truncate_lt (v : Nat) : ImageWKC.truncate v < 0x10000 := by
  have hred : v >>> 8 &&& 0xF800 < 2 ^ 16 := Nat.lt_of_le_of_lt Nat.and_le_right (by decide)
  have hgreen : v >>> 5 &&& 0x07E0 < 2 ^ 16 := Nat.lt_of_le_of_lt Nat.and_le_right (by decide)
  have hblue : v >>> 3 &&& 0x1F < 2 ^ 16 := Nat.lt_of_le_of_lt Nat.and_le_right (by decide)
  exact Nat.or_lt_two_pow (Nat.or_lt_two_pow hred hgreen) hblue

theorem reduceRow_read (src : Memory) (width w y n : Nat) (dest : Memory) (j : Nat) :
    read16 ((List.range n).foldl
      (fun dest x => write16 dest (2 * (y * w + x)) (ImageWKC.truncate (read32 src (4 * (y * width + x))))) dest)
        (2 * j) =
      if y * w ≤ j ∧ j < y * w + n then ImageWKC.truncate (read32 src (4 * (y * width + (j - y * w))))
      else read16 dest (2 * j) := by
  induction n with
  | zero => rw [if_neg (by omega)]; rfl
  | succ n ih =>
    rw [List.range_succ, List.foldl_append, List.foldl_cons, List.foldl_nil,
      read16_write16 _ _ _ (truncate_lt _), ih]
    by_cases hj : j = y * w + n
    · subst hj
      rw [if_pos rfl, if_pos (by omega), Nat.add_sub_cancel_left]
    · rw [if_neg hj]
      by_cases hin : y * w ≤ j ∧ j < y * w + n
      · rw [if_pos hin, if_pos (by omega)]
      · rw [if_neg hin, if_neg (by omega)]

theorem reduceRows_read (src : Memory) (dest : Memory) (hw : width ≤ w) (n : Nat) :
    ∀ x y, x < width → y < n → read16 (ImageWKC.reduceRows src width n w dest) (2 * (y * w + x)) =
      ImageWKC.truncate (read32 src (4 * (y * width + x))) := by
  unfold ImageWKC.reduceRows
  induction n with
  | zero => intro x y _ hy; exact absurd hy (Nat.not_lt_zero y)
  | succ n ih =>
    intro x y hx hy
    rw [List.range_succ, List.foldl_append, List.foldl_cons, List.foldl_nil]
    unfold ImageWKC.reduceRow
    rw [reduceRow_read]
    rcases Nat.eq_or_lt_of_le (Nat.le_of_lt_succ hy) with rfl | hlt
    · rw [if_pos (by omega), Nat.add_sub_cancel_left]
    · have hrow : (y + 1) * w ≤ n * w := Nat.mul_le_mul_right w hlt
      rw [Nat.succ_mul] at hrow
      rw [if_neg (by omega)]
      exact ih x y hx hlt

end

/-! ## the invariant -/

theorem evenWidth_spec (width : Nat) : width ≤ evenWidth width ∧ evenWidth width % 2 = 0 := by
  unfold evenWidth
  split <;> omega

theorem rowBytes_spec (type : ColorType) (width : Nat) :
    width * type.bpp ≤ type.rowBytes width ∧ 4 ∣ type.rowBytes width := by
  have heven := evenWidth_spec width
  cases type with
  | EColorARGB8888 => exact ⟨Nat.le_refl _, Nat.dvd_mul_left 4 width⟩
  | EColorRGB565 =>
    refine ⟨Nat.mul_le_mul_right 2 heven.1, ?_⟩
    show 4 ∣ evenWidth width * 2
    omega

/-- an image that owns its bitmap, whose rows have no more bytes than they need -/
structure Owned (img : ImageWKC) : Prop where
  own : img.ownbitmap = true
  bpp : img.bpp = img.type.bpp
  stored : ∀ b, img.bitmap = some b →
    img.rowbytes = img.type.rowBytes img.width ∧ img.rowbytes * img.height ≤ b.size

section
variable {img : ImageWKC}

theorem Owned.sound (h : Owned img) : Sound img where
  fits b hb := (h.stored b hb).2
  row hb := by
    obtain ⟨b, hb⟩ := Option.ne_none_iff_exists'.mp hb
    rw [(h.stored b hb).1, h.bpp]
    exact rowBytes_spec _ _
  bpp := h.bpp

theorem create_owned (type : ColorType) (width height : Nat) (surface : Option Memory) (reduce : Bool) :
    Owned (create type width height surface reduce) := by
  refine ⟨rfl, rfl, ?_⟩
  intro b hb
  cases surface with
  | none => cases hb
  | some m =>
    obtain rfl : Block.mk _ m = b := Option.some.inj hb
    exact ⟨rfl, Nat.le_refl _⟩

theorem Owned.rewrite (h : Owned img) {img' : ImageWKC} {f : Memory → Memory}
    (hown : img'.ownbitmap = img.ownbitmap) (hbpp : img'.bpp = img.bpp) (htype : img'.type = img.type)
    (hrow : img'.rowbytes = img.rowbytes) (hwidth : img'.width = img.width) (hheight : img'.height = img.height)
    (hbitmap : img'.bitmap = img.bitmap.map fun b => { b with byte := f b.byte }) : Owned img' := by
  refine ⟨hown.trans h.own, by rw [hbpp, htype, h.bpp], ?_⟩
  intro b' hb'
  rw [hbitmap] at hb'
  obtain ⟨b, hb, rfl⟩ := Option.map_eq_some_iff.mp hb'
  rw [hrow, hwidth, hheight, htype]
  exact h.stored b hb

theorem Owned.zeroFill (h : Owned img) : Owned img.zeroFill :=
  h.rewrite (f := fun m => memset m (img.rowbytes * img.height)) rfl rfl rfl rfl rfl rfl rfl

theorem Owned.clear (h : Owned img) : Owned img.clear := by
  unfold ImageWKC.clear
  rw [h.own, if_neg nofun]
  exact ⟨rfl, h.bpp, fun b hb => by cases hb⟩

theorem Owned.setRGBLine (h : Owned img) (xStart xEnd y : Nat) (src : Memory) (colorChannels : Nat) :
    Owned (img.setRGBLine xStart xEnd y src colorChannels) := by
  unfold ImageWKC.setRGBLine
  cases hb : img.bitmap with
  | none => exact h
  | some b =>
    refine ⟨h.own, h.bpp, ?_⟩
    intro b' hb'
    obtain rfl := Option.some.inj hb'
    exact h.stored b hb

theorem resize_owned (hown : img.ownbitmap = true) (hbpp : img.bpp = img.type.bpp) (width height : Nat) (m : Memory) :
    ∃ img', img.resize width height (some m) = (true, img') ∧ Owned img' ∧ img'.type = img.type ∧
      img'.bitmap ≠ none := by
  have hrow : (if img.bpp = 2 then evenWidth width else width) * img.bpp = img.type.rowBytes width := by
    rw [hbpp]
    cases img.type <;> rfl
  unfold ImageWKC.resize
  rw [hown, if_neg nofun]
  dsimp only [malloc, Option.map]
  refine ⟨_, rfl, Owned.zeroFill ⟨rfl, hbpp, ?_⟩, rfl, nofun⟩
  intro b hb
  obtain rfl := Option.some.inj hb
  refine ⟨hrow, ?_⟩
  show (if img.bpp = 2 then evenWidth width else width) * img.bpp * height ≤
    (if img.bpp = 2 then evenWidth width else width) * height * img.bpp
  rw [Nat.mul_right_comm]

theorem resize_none (img : ImageWKC) (width height : Nat) : img.resize width height none = (false, img) := by
  unfold ImageWKC.resize
  split <;> rfl

theorem same_self (img : ImageWKC) : Same img img := ⟨rfl, rfl, rfl, rfl, rfl⟩

theorem Owned.notifyStatus (h : Owned img) (complete : Bool) (answer : Option Memory)
    (hfine : answer ≠ none → img.reduces complete = true → img.bitmap ≠ none ∨ img.width * img.height = 0) :
    ∃ img', img.notifyStatus complete answer = some img' ∧ Owned img' ∧ (img' = img ∨ Reduced img img') := by
  unfold ImageWKC.notifyStatus
  by_cases hreduces : img.reduces complete = true
  · have htype : img.type = .EColorARGB8888 := by
      unfold ImageWKC.reduces at hreduces
      rw [Bool.and_eq_true] at hreduces
      exact of_decide_eq_true hreduces.2
    rw [if_neg (by rw [hreduces]; nofun)]
    cases answer with
    | none => exact ⟨img, rfl, h, .inl rfl⟩
    | some m =>
      dsimp only [malloc, Option.map]
      have hstored : ∀ dest : Memory, Owned { img with
          bitmap := some ⟨evenWidth img.width * img.height * 2, dest⟩
          rowbytes := evenWidth img.width * 2, bpp := 2, type := .EColorRGB565 } := by
        intro dest
        refine ⟨h.own, rfl, ?_⟩
        intro b hb
        obtain rfl := Option.some.inj hb
        exact ⟨rfl, Nat.le_of_eq (Nat.mul_right_comm ..)⟩
      cases hb : img.bitmap with
      | none =>
        have hempty : img.width * img.height = 0 := (hfine nofun hreduces).resolve_left (fun hb' => hb' hb)
        dsimp only
        rw [if_pos hempty]
        exact ⟨_, rfl, hstored m, .inr ⟨rfl, rfl, rfl, fun src _ hsrc => by rw [hb] at hsrc; cases hsrc⟩⟩
      | some b =>
        refine ⟨_, rfl, hstored _, .inr ⟨rfl, rfl, rfl, ?_⟩⟩
        intro src dest hsrc hdest x y hx hy
        obtain rfl := Option.some.inj (hb.symm.trans hsrc)
        obtain rfl := Option.some.inj hdest
        have hrow : img.rowbytes = img.width * 4 := by
          rw [(h.stored b hb).1, htype]
          rfl
        have hdestAt : y * (evenWidth img.width * 2) + 2 * x = 2 * (y * evenWidth img.width + x) := by
          rw [← Nat.mul_assoc]
          omega
        have hsrcAt : y * img.rowbytes + 4 * x = 4 * (y * img.width + x) := by
          rw [hrow, ← Nat.mul_assoc]
          omega
        show read16 (ImageWKC.reduceRows b.byte img.width img.height (evenWidth img.width) m)
          (y * (evenWidth img.width * 2) + 2 * x) = _
        rw [hdestAt, hsrcAt]
        exact reduceRows_read b.byte m (evenWidth_spec img.width).1 img.height x y hx hy
  · rw [if_pos ((Bool.not_eq_true _).mp hreduces)]
    exact ⟨img, rfl, h, .inl rfl⟩

theorem notifyStatus_null {complete : Bool} {m : Memory} (hreduces : img.reduces complete = true)
    (hb : img.bitmap = none) (hpixels : img.width * img.height ≠ 0) : img.notifyStatus complete (some m) = none := by
  unfold ImageWKC.notifyStatus
  rw [if_neg (by rw [hreduces]; nofun), hb]
  dsimp only [malloc, Option.map]
  rw [if_neg hpixels]

theorem Owned.copyImage (h : Owned img) {other : ImageWKC} (ho : Sound other) (m : Memory)
    (answer' : Option Memory) : ∃ img', img.copyImage other (some m) answer' = some (true, img') ∧ Owned img' := by
  have hadopted : (img.adopt other).ownbitmap = true := h.own
  obtain ⟨resized, hresize, howned, _, hbitmap⟩ := resize_owned hadopted ho.bpp other.width other.height m
  have hcopied : Owned (resized.copied other) := by
    unfold ImageWKC.copied
    cases other.bitmap with
    | none =>
      exact howned.rewrite (f := fun m => memset m (resized.rowbytes * resized.height))
        rfl rfl rfl rfl rfl rfl rfl
    | some src =>
      exact howned.rewrite (f := fun m => memcpy m src.byte (resized.rowbytes * resized.height))
        rfl rfl rfl rfl rfl rfl rfl
  have hsome : (resized.copied other).bitmap ≠ none := by
    obtain ⟨b, hb⟩ := Option.ne_none_iff_exists'.mp hbitmap
    unfold ImageWKC.copied
    rw [hb]
    nofun
  obtain ⟨img', hnotify, howned', _⟩ := hcopied.notifyStatus true answer' fun _ _ => .inl hsome
  refine ⟨img', ?_, howned'⟩
  unfold ImageWKC.copyImage
  rw [hresize]
  dsimp only
  rw [hnotify]
  rfl

theorem copyImage_none (img other : ImageWKC) (answer' : Option Memory) :
    img.copyImage other none answer' = some (false, img.adopt other) := by
  unfold ImageWKC.copyImage
  rw [resize_none]

theorem Owned.adopt (h : Owned img) {other : ImageWKC} (ho : Sound other) (htype : other.type = img.type)
    (hrow : other.rowbytes = img.rowbytes) : img.adopt other = img := by
  unfold ImageWKC.adopt
  rw [htype, hrow, ho.bpp, htype, ← h.bpp]

end

/-- what holds in every state of a run -/
def Kept : Option ImageWKC → Prop
  | none => True
  | some img => Owned img

theorem kept_step (s : Option ImageWKC) (op : Op) (hfine : Fine s op) (h : Kept s) : Kept (step s op) := by
  cases s with
  | none => trivial
  | some img =>
    have howned : Owned img := h
    cases op with
    | resize width height answer =>
      cases answer with
      | none =>
        show Owned (img.resize width height none).2
        rw [resize_none]
        exact howned
      | some m =>
        obtain ⟨img', hresize, howned', _⟩ := resize_owned howned.own howned.bpp width height m
        show Owned (img.resize width height (some m)).2
        rw [hresize]
        exact howned'
    | copyImage other answer answer' =>
      show Kept ((img.copyImage other.1 answer answer').map Prod.snd)
      cases answer with
      | none =>
        rw [copyImage_none, howned.adopt other.2 hfine.1 hfine.2]
        exact howned
      | some m =>
        obtain ⟨img', hcopy, howned'⟩ := howned.copyImage other.2 m answer'
        rw [hcopy]
        exact howned'
    | clear => exact howned.clear
    | zeroFill => exact howned.zeroFill
    | setRGBLine xStart xEnd y src colorChannels => exact howned.setRGBLine xStart xEnd y src colorChannels
    | notifyStatus complete answer =>
      have hread : answer ≠ none → img.reduces complete = true → img.bitmap ≠ none ∨ img.width * img.height = 0 := by
        intro hsome
        obtain ⟨m, rfl⟩ := Option.ne_none_iff_exists'.mp hsome
        exact hfine
      obtain ⟨img', hnotify, howned', _⟩ := howned.notifyStatus complete answer hread
      show Kept (img.notifyStatus complete answer)
      rw [hnotify]
      exact howned'
    | setHasAlpha flag => exact ⟨howned.own, howned.bpp, howned.stored⟩

theorem meets_iff (s : Option ImageWKC) (op : Op) (h : Kept s) : Meets s op ↔ Fine s op := by
  cases s with
  | none => exact Iff.rfl
  | some img =>
    have howned : Owned img := h
    cases op with
    | resize width height answer =>
      refine iff_of_true ?_ trivial
      show Sound (img.resize width height answer).2 ∧ _
      cases answer with
      | none =>
        rw [resize_none]
        exact ⟨howned.sound, fun _ => same_self img⟩
      | some m =>
        obtain ⟨img', hresize, howned', _⟩ := resize_owned howned.own howned.bpp width height m
        rw [hresize]
        exact ⟨howned'.sound, nofun⟩
    | copyImage other answer answer' =>
      cases answer with
      | none =>
        constructor
        · rintro ⟨result, img', hcopy, _, hsame⟩
          rw [copyImage_none] at hcopy
          obtain ⟨rfl, rfl⟩ := Prod.mk.inj (Option.some.inj hcopy)
          exact ⟨(hsame rfl).1, (hsame rfl).2.1⟩
        · intro hfine
          refine ⟨false, img, ?_, howned.sound, fun _ => same_self img⟩
          rw [copyImage_none, howned.adopt other.2 hfine.1 hfine.2]
      | some m =>
        obtain ⟨img', hcopy, howned'⟩ := howned.copyImage other.2 m answer'
        exact iff_of_true ⟨true, img', hcopy, howned'.sound, nofun⟩ trivial
    | clear => exact iff_of_true ⟨_, rfl, howned.clear.sound⟩ trivial
    | zeroFill => exact iff_of_true ⟨_, rfl, howned.zeroFill.sound⟩ trivial
    | setRGBLine xStart xEnd y src colorChannels =>
      exact iff_of_true ⟨_, rfl, (howned.setRGBLine xStart xEnd y src colorChannels).sound⟩ trivial
    | notifyStatus complete answer =>
      cases answer with
      | none =>
        obtain ⟨img', hnotify, howned', hchange⟩ := howned.notifyStatus complete none fun hnone => absurd rfl hnone
        exact iff_of_true ⟨img', hnotify, howned'.sound, hchange⟩ trivial
      | some m =>
        constructor
        · rintro ⟨img', hnotify, _⟩ hreduces
          by_contra hnull
          rw [not_or, not_not] at hnull
          rw [notifyStatus_null hreduces hnull.1 hnull.2] at hnotify
          cases hnotify
        · intro hfine
          obtain ⟨img', hnotify, howned', hchange⟩ := howned.notifyStatus complete (some m) fun _ => hfine
          exact ⟨img', hnotify, howned'.sound, hchange⟩
    | setHasAlpha flag =>
      have hflag : Owned { img with hasAlpha := flag } := ⟨howned.own, howned.bpp, howned.stored⟩
      exact iff_of_true ⟨_, rfl, hflag.sound⟩ trivial

/-- **Decoded images.**  In a run of operations on an image that owns its bitmap every operation does what it
should, exactly if no copy of an image with another type or other row bytes runs out of memory and no image with
pixels is reduced without its bitmap. -/
theorem image_operations (type : ColorType) (width height : Nat) (surface : Option Memory) (reduce : Bool)
    (ops : List Op) :
    Runs.Along step Meets (some (create type width height surface reduce)) ops ↔
      Runs.Along step Fine (some (create type width height surface reduce)) ops :=
  Runs.along_iff_kept kept_step meets_iff
    (show Kept (some (create type width height surface reduce)) from create_owned type width height surface reduce) ops

/-- an image of one pixel that is cleared and then complete -/
def clearedImage : List Op := [.resize 1 1 (some fun _ => 0), .clear, .notifyStatus true (some fun _ => 0)]

/-- the null bitmap is read -/
theorem cleared_read : ¬ Runs.Along step Meets (some (create .EColorARGB8888 0 0 none true)) clearedImage := by
  rintro ⟨_, _, ⟨img', hnotify, _⟩, _⟩
  cases hnotify

end Image
end Wkc
