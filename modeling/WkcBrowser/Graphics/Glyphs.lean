import WkcBrowser.Lib.Filling
import WkcBrowser.Wtf.Text

/-!
# The buffers of a text run

* `fixedGlyphs`             the units that stand for a run in a font;
* `combineCharsInText`      a text without the marks that the font engine cannot place;
* `glyphUnits`              the units of a run, one or two for each unit of the text;
* `combined`                what a turn of `combineCharsInText` makes of the text so far;
* `combineCharsInText_eq`   it never leaves its buffer;
* `held_iff`                `fixedGlyphs` does, for a font with a unit of its own, from a length on.

A buffer is the list of its units; a write outside is `none`.  No text has as many units as an `int` can count
(`maxStringLength`).
-/

namespace Wkc
namespace Glyphs
open Filling

def cGlyphBufMaxLen : Nat := 1024

/-- the static `gGlyphBuf` of either function, with what is in it -/
abbrev GlyphBuf := { buf : WString // buf.length = cGlyphBufMaxLen }

/-- `new UChar[n]`; what is in it is overwritten -/
def newUChars (n : Nat) : WString := List.replicate n 0

/-! ## `fixedGlyphs` -/

def treatAsSpace (c : UInt16) : Bool := c == 0x20 || c == 0x09 || c == 0x0a || c == 0xa0

def treatAsZeroWidthSpaceInComplexScript (c : UInt16) : Bool :=
  decide (c < 0x20) || (decide (c ≥ 0x7f) && decide (c < 0xa0)) || c == 0xad || c == 0x200b ||
    (decide (c ≥ 0x200e) && decide (c ≤ 0x200f)) || (decide (c ≥ 0x202a) && decide (c ≤ 0x202e)) || c == 0xfeff ||
    c == 0xfffc

def treatAsZeroWidthSpace (c : UInt16) : Bool :=
  treatAsZeroWidthSpaceInComplexScript c || c == 0x200c || c == 0x200d

def U_IS_BMP (c : Nat) : Bool := decide (c ≤ 0xffff)
def U_IS_SURROGATE (c : Nat) : Bool := c &&& 0xfffff800 == 0xd800
def U16_LEAD (supplementary : Nat) : UInt16 := UInt16.ofNat ((supplementary >>> 10) + 0xd7c0)
def U16_TRAIL (supplementary : Nat) : UInt16 := UInt16.ofNat ((supplementary &&& 0x3ff) ||| 0xdc00)

/-- the result, with `len` and `needdelete` -/
structure GlyphRun where
  buf : WString
  len : Nat
  needdelete : Bool
  deriving DecidableEq

/-- `sch` is the font's `specificUnicodeChar`. -/
def fixedGlyphs (gGlyphBuf : GlyphBuf) (sch : Nat) (str : WString) : Option GlyphRun :=
  let len := str.length
  let needdelete := sch == 0 && decide (len ≥ cGlyphBufMaxLen - 1)
  let buf := if needdelete then newUChars (len + 1) else gGlyphBuf.1
  let written :=
    if sch = 0 then
      str.foldlM (fun s c =>
        if treatAsSpace c then putNext s 0x20
        else if c == 0x200b || treatAsZeroWidthSpace c || c == 0xfeff then putNext s 0x200b
        else putNext s c) (buf, 0)
    else if U_IS_BMP sch then
      let sch := if U_IS_SURROGATE sch then 0xfffd else sch
      str.foldlM (fun s _ => putNext s (UInt16.ofNat sch)) (buf, 0)
    else str.foldlM (fun s _ => (putNext s (U16_LEAD sch)).bind fun s => putNext s (U16_TRAIL sch)) (buf, 0)
  written.bind fun s => (put s.1 s.2 0).map fun buf => { buf, len := s.2, needdelete }

/-! ## `combineCharsInText` -/

def cU3099 : WString :=
  [0x304b, 0x304c, 0x304d, 0x304e, 0x304f, 0x3050, 0x3051, 0x3052, 0x3053, 0x3054,
    0x3055, 0x3056, 0x3057, 0x3058, 0x3059, 0x305a, 0x305b, 0x305c, 0x305d, 0x305e,
    0x305f, 0x3060, 0x3061, 0x3062, 0x3064, 0x3065, 0x3066, 0x3067, 0x3068, 0x3069,
    0x306f, 0x3070, 0x3072, 0x3073, 0x3075, 0x3076, 0x3078, 0x3079, 0x307b, 0x307c,
    0x30ab, 0x30ac, 0x30ad, 0x30ae, 0x30af, 0x30b0, 0x30b1, 0x30b2, 0x30b3, 0x30b4,
    0x30b5, 0x30b6, 0x30b7, 0x30b8, 0x30b9, 0x30ba, 0x30bb, 0x30bc, 0x30bd, 0x30be,
    0x30bf, 0x30c0, 0x30c1, 0x30c2, 0x30c4, 0x30c5, 0x30c6, 0x30c7, 0x30c8, 0x30c9,
    0x30cf, 0x30d0, 0x30d2, 0x30d3, 0x30d5, 0x30d6, 0x30d8, 0x30d9, 0x30db, 0x30dc,
    0x3046, 0x3094, 0x309d, 0x309e, 0x30a6, 0x30f4, 0x30ef, 0x30f7, 0x30f0, 0x30f8, 0x30f1, 0x30f9, 0x30f2, 0x30fa,
    0x30fd, 0x30fe, 0]

def cU309a : WString :=
  [0x306f, 0x3071, 0x3072, 0x3074, 0x3075, 0x3077, 0x3078, 0x307a, 0x307b, 0x307d,
    0x30cf, 0x30d1, 0x30d2, 0x30d4, 0x30d5, 0x30d7, 0x30d8, 0x30da, 0x30db, 0x30dd, 0]

/-- the loop over a table: the unit behind the first one that is `b`, unless a zero comes before it -/
def search : WString → UInt16 → Option UInt16
  | [], _ => none
  | u :: tbl, b => if u = 0 then none else if u = b then tbl.head? else search tbl b

def tableOf (c : UInt16) : Option WString :=
  if c = 0x3099 then some cU3099 else if c = 0x309a then some cU309a else none

/-- one turn of the second loop; `isMark` says whether the category of a unit is `MARKNONSPACING` -/
def combineTurn (isMark : UInt16 → Bool) (s : WString × Nat) (c : UInt16) : Option (WString × Nat) :=
  (putNext s c).bind fun s =>
    if !isMark c || s.2 == 1 then some s
    else
      match tableOf c with
      | none => some s
      | some tbl =>
        s.1[s.2 - 2]?.bind fun b =>
          match search tbl b with
          | none => some s
          | some v => (put s.1 (s.2 - 2) v).map fun buf => (buf, s.2 - 1)

/-- the text and `needdelete`; `cSupportsMn` is what the font engine answers -/
def combineCharsInText (cSupportsMn : Bool) (isMark : UInt16 → Bool) (gGlyphBuf : GlyphBuf) (inout_str : WString) :
    Option (WString × Bool) :=
  let inout_len := inout_str.length
  if inout_len = 0 then some (inout_str, false)
  else if cSupportsMn then some (inout_str, false)
  else if !(inout_str.drop 1).any isMark then some (inout_str, false)
  else
    let needdelete := decide (inout_len ≥ cGlyphBufMaxLen - 1)
    let buf := if needdelete then newUChars (inout_len + 1) else gGlyphBuf.1
    (inout_str.foldlM (combineTurn isMark) (buf, 0)).map fun s => (s.1.take s.2, needdelete)

/-! ## what is wanted -/

/-- the units of one unit of the text -/
def glyphOf (sch : Nat) (c : UInt16) : WString :=
  if sch = 0 then
    [if treatAsSpace c then 0x20 else if c == 0x200b || treatAsZeroWidthSpace c || c == 0xfeff then 0x200b else c]
  else if U_IS_BMP sch then [UInt16.ofNat (if U_IS_SURROGATE sch then 0xfffd else sch)]
  else [U16_LEAD sch, U16_TRAIL sch]

def glyphUnits (sch : Nat) (str : WString) : WString := str.flatMap (glyphOf sch)

/-- No unit is written outside, and the units of the run are there, with a zero behind them. -/
structure Held (cSupportsMn : Bool) (isMark : UInt16 → Bool) (gGlyphBuf gCombineBuf : GlyphBuf) (sch : Nat)
    (str : WString) : Prop where
  fixed : ∃ g, fixedGlyphs gGlyphBuf sch str = some g ∧ g.len = (glyphUnits sch str).length ∧
    g.buf.take g.len = glyphUnits sch str ∧ g.buf[g.len]? = some 0
  combined : ∀ text, (combineCharsInText cSupportsMn isMark gCombineBuf text).isSome

/-- The text as the font writes it, with the zero, is no longer than the shared buffer. -/
def Fits (sch : Nat) (str : WString) : Prop :=
  sch = 0 ∨ (U_IS_BMP sch = true ∧ str.length ≤ 1023) ∨ str.length ≤ 511

/-! ## `fixedGlyphs` and its buffer -/

section
variable {gGlyphBuf : GlyphBuf} {sch : Nat} {str : WString}

theorem newUChars_length (n : Nat) : (newUChars n).length = n := List.length_replicate

theorem fixedGlyphs_eq (gGlyphBuf : GlyphBuf) (sch : Nat) (str : WString) :
    fixedGlyphs gGlyphBuf sch str =
      let needdelete := sch == 0 && decide (str.length ≥ cGlyphBufMaxLen - 1)
      (putAll (if needdelete then newUChars (str.length + 1) else gGlyphBuf.1) 0 (glyphUnits sch str ++ [0])).map
        fun buf => { buf, len := (glyphUnits sch str).length, needdelete } := by
  unfold fixedGlyphs
  dsimp only
  generalize hbuf : (if (sch == 0 && decide (str.length ≥ cGlyphBufMaxLen - 1)) then newUChars (str.length + 1)
    else gGlyphBuf.1) = buf
  have hloop := putNext_loop (glyphOf sch) str buf 0
  rw [putAll_append, Nat.zero_add]
  rw [Nat.zero_add] at hloop
  have hend : ∀ written, written = str.foldlM (fun s c => (glyphOf sch c).foldlM putNext s) (buf, 0) →
      (written.bind fun s => (put s.1 s.2 0).map fun buf =>
          ({ buf, len := s.2, needdelete := sch == 0 && decide (str.length ≥ cGlyphBufMaxLen - 1) } : GlyphRun)) =
        ((putAll buf 0 (glyphUnits sch str)).bind fun buf => putAll buf (glyphUnits sch str).length [0]).map fun buf =>
          { buf, len := (glyphUnits sch str).length, needdelete := sch == 0 && decide (str.length ≥ cGlyphBufMaxLen - 1) } := by
    rintro written rfl
    rw [hloop, Option.bind_map, Option.map_bind]
    congr 1
    funext out
    rw [Function.comp_apply, Function.comp_apply, putAll_singleton]
    rfl
  apply hend
  by_cases hzero : sch = 0
  · rw [if_pos hzero]
    congr 1
    funext s c
    unfold glyphOf
    rw [if_pos hzero]
    split
    · exact (Option.bind_fun_some _).symm
    · split <;> exact (Option.bind_fun_some _).symm
  · rw [if_neg hzero]
    by_cases hbmp : U_IS_BMP sch = true
    · rw [if_pos hbmp]
      congr 1
      funext s c
      unfold glyphOf
      rw [if_neg hzero, if_pos hbmp]
      exact (Option.bind_fun_some _).symm
    · rw [if_neg hbmp]
      congr 1
      funext s c
      unfold glyphOf
      rw [if_neg hzero, if_neg hbmp]
      show _ = (putNext s (U16_LEAD sch)).bind fun s => (putNext s (U16_TRAIL sch)).bind some
      congr 1
      funext s
      exact (Option.bind_fun_some _).symm

/-- the size of the buffer that is filled -/
def bufSize (sch : Nat) (str : WString) : Nat :=
  if (sch == 0 && decide (str.length ≥ cGlyphBufMaxLen - 1)) = true then str.length + 1 else cGlyphBufMaxLen

theorem filled_start (gGlyphBuf : GlyphBuf) (sch : Nat) (str : WString) :
    Filled (bufSize sch str) [] (if (sch == 0 && decide (str.length ≥ cGlyphBufMaxLen - 1)) = true then
      newUChars (str.length + 1) else gGlyphBuf.1) := by
  apply Filled.nothing
  unfold bufSize
  split
  · exact newUChars_length _
  · exact gGlyphBuf.2

theorem fixedGlyphs_fits (h : (glyphUnits sch str).length < bufSize sch str) :
    ∃ g, fixedGlyphs gGlyphBuf sch str = some g ∧ g.len = (glyphUnits sch str).length ∧
      g.buf.take g.len = glyphUnits sch str ∧ g.buf[g.len]? = some 0 := by
  obtain ⟨out, hall, hout⟩ := (filled_start gGlyphBuf sch str).putAll (glyphUnits sch str ++ [0]) (by simp; omega)
  rw [fixedGlyphs_eq]
  dsimp only
  rw [List.length_nil] at hall
  rw [hall]
  refine ⟨_, rfl, rfl, ?_, ?_⟩
  · exact (hout.of_prefix (List.prefix_append _ [0])).front
  · show out[(glyphUnits sch str).length]? = some 0
    rw [hout.getElem? (by simp), List.nil_append, List.getElem?_append_right (Nat.le_refl _), Nat.sub_self]
    rfl

theorem fixedGlyphs_full (h : bufSize sch str ≤ (glyphUnits sch str).length) :
    fixedGlyphs gGlyphBuf sch str = none := by
  have hnone := (filled_start gGlyphBuf sch str).putAll_full (glyphUnits sch str ++ [0]) (by simp; omega)
  rw [fixedGlyphs_eq]
  dsimp only
  rw [List.length_nil] at hnone
  rw [hnone]
  rfl

theorem length_glyphUnits : (glyphUnits sch str).length =
    if sch = 0 ∨ U_IS_BMP sch = true then str.length else 2 * str.length := by
  have hone : (sch = 0 ∨ U_IS_BMP sch = true) → ∀ c, (glyphOf sch c).length = 1 := by
    intro h c
    unfold glyphOf
    split
    · rfl
    · rename_i hzero
      rw [if_pos (h.resolve_left hzero)]
      rfl
  have htwo : ¬ (sch = 0 ∨ U_IS_BMP sch = true) → ∀ c, (glyphOf sch c).length = 2 := by
    intro h c
    rw [not_or] at h
    unfold glyphOf
    rw [if_neg h.1, if_neg h.2]
    rfl
  unfold glyphUnits
  induction str with
  | nil => simp
  | cons c str ih =>
    rw [List.flatMap_cons, List.length_append, ih, List.length_cons]
    split
    · rename_i h
      rw [hone h]
      omega
    · rename_i h
      rw [htwo h]
      omega

theorem fits_iff : Fits sch str ↔ (glyphUnits sch str).length < bufSize sch str := by
  rw [length_glyphUnits]
  unfold Fits bufSize cGlyphBufMaxLen
  by_cases hzero : sch = 0
  · subst hzero
    simp only [true_or, if_true, beq_self_eq_true, Bool.true_and, decide_eq_true_eq, true_iff]
    split <;> omega
  · have hne : (sch == 0) = false := by simp [hzero]
    simp only [hzero, hne, false_or, Bool.false_and, Bool.false_eq_true, if_false]
    split
    · rename_i hbmp
      simp only [hbmp, true_and]
      omega
    · rename_i hbmp
      simp only [hbmp, Bool.false_eq_true, false_and, false_or]
      omega

end

/-! ## `combineCharsInText` and its buffer -/

/-- the text after one more unit -/
def combined (isMark : UInt16 → Bool) (text : WString) (c : UInt16) : WString :=
  match text.getLast? with
  | none => [c]
  | some b =>
    if isMark c then
      match (tableOf c).bind fun tbl => search tbl b with
      | some v => text.dropLast ++ [v]
      | none => text ++ [c]
    else text ++ [c]

section
variable {isMark : UInt16 → Bool} {size : Nat} {buf text str : WString} {c : UInt16}

theorem length_combined_le (isMark : UInt16 → Bool) (text : WString) (c : UInt16) :
    (combined isMark text c).length ≤ text.length + 1 := by
  unfold combined
  split
  · simp
  · split
    · split <;> simp
    · simp

theorem combineTurn_filled (isMark : UInt16 → Bool) (c : UInt16) (h : Filled size text buf) (hroom : text.length < size) :
    ∃ out, combineTurn isMark (buf, text.length) c = some (out, (combined isMark text c).length) ∧
      Filled size (combined isMark text c) out := by
  obtain ⟨buf', hput, hfilled⟩ := h.put (b := c) hroom
  have hnext : putNext (buf, text.length) c = some (buf', text.length + 1) := by
    rw [putNext, hput]
    rfl
  unfold combineTurn combined
  rw [hnext, Option.bind_some]
  dsimp only
  cases hlast : text.getLast? with
  | none =>
    rw [List.getLast?_eq_none_iff] at hlast
    subst hlast
    exact ⟨buf', by simp, hfilled⟩
  | some b =>
    have hne : text ≠ [] := by
      rintro rfl
      simp at hlast
    have hpos : 0 < text.length := List.length_pos_of_ne_nil hne
    have hone : (text.length + 1 == 1) = false := by
      rw [beq_eq_false_iff_ne]
      omega
    have hkeep : some (buf', text.length + 1) = some (buf', (text ++ [c]).length) := by simp
    dsimp only
    rw [hone, Bool.or_false]
    cases hmark : isMark c with
    | false => exact ⟨buf', hkeep, hfilled⟩
    | true =>
      simp only [Bool.not_true, Bool.false_eq_true, if_false, if_true]
      cases htable : tableOf c with
      | none => exact ⟨buf', hkeep, hfilled⟩
      | some tbl =>
        -- the unit before the mark is the last one of the text
        have hb : buf'[text.length + 1 - 2]? = some b := by
          rw [hfilled.getElem? (by rw [List.length_append]; omega), List.getElem?_append_left (by omega),
            show text.length + 1 - 2 = text.length - 1 by omega, ← List.getLast?_eq_getElem?, hlast]
        dsimp only
        rw [hb, Option.bind_some, Option.bind_some]
        cases hsearch : search tbl b with
        | none => exact ⟨buf', hkeep, hfilled⟩
        | some v =>
          have hback : Filled size text.dropLast buf' :=
            hfilled.of_prefix (text.dropLast_prefix.trans (List.prefix_append text [c]))
          obtain ⟨out, hback', hout⟩ := hback.put (b := v) (by rw [List.length_dropLast]; omega)
          rw [List.length_dropLast] at hback'
          refine ⟨out, ?_, hout⟩
          dsimp only
          rw [show text.length + 1 - 2 = text.length - 1 by omega, hback', Option.map_some, List.length_append,
            List.length_dropLast, List.length_singleton]
          congr 2
          omega

theorem combineLoop_filled (isMark : UInt16 → Bool) (str : WString) (h : Filled size text buf)
    (hroom : text.length + str.length ≤ size) :
    ∃ out, str.foldlM (combineTurn isMark) (buf, text.length) =
        some (out, (str.foldl (combined isMark) text).length) ∧
      Filled size (str.foldl (combined isMark) text) out := by
  induction str generalizing text buf with
  | nil => exact ⟨buf, rfl, h⟩
  | cons c str ih =>
    rw [List.length_cons] at hroom
    obtain ⟨buf', hturn, hfilled⟩ := combineTurn_filled isMark c h (by omega)
    have hle := length_combined_le isMark text c
    obtain ⟨out, hloop, hout⟩ := ih hfilled (by omega)
    refine ⟨out, ?_, hout⟩
    show (combineTurn isMark (buf, text.length) c).bind (fun s => str.foldlM (combineTurn isMark) s) = _
    rw [hturn]
    exact hloop

theorem combineCharsInText_eq (cSupportsMn : Bool) (isMark : UInt16 → Bool) (gGlyphBuf : GlyphBuf) (str : WString) :
    combineCharsInText cSupportsMn isMark gGlyphBuf str =
      if cSupportsMn = false ∧ (str.drop 1).any isMark = true then
        some (str.foldl (combined isMark) [], decide (str.length ≥ cGlyphBufMaxLen - 1))
      else some (str, false) := by
  unfold combineCharsInText
  dsimp only
  by_cases hnil : str.length = 0
  · rw [if_pos hnil, List.length_eq_zero_iff.mp hnil]
    simp
  rw [if_neg hnil]
  cases cSupportsMn with
  | true => simp
  | false =>
    simp only [Bool.false_eq_true, if_false, true_and]
    cases hany : (str.drop 1).any isMark with
    | false => simp
    | true =>
      simp only [Bool.not_true, Bool.false_eq_true, if_false, if_true]
      -- both buffers have room for every unit of the text
      have hbuf : ∃ size, str.length ≤ size ∧ Filled size []
          (if decide (str.length ≥ cGlyphBufMaxLen - 1) = true then newUChars (str.length + 1) else gGlyphBuf.1) := by
        split
        · exact ⟨str.length + 1, by omega, Filled.nothing (newUChars_length _)⟩
        · rename_i hsmall
          rw [decide_eq_true_eq] at hsmall
          exact ⟨cGlyphBufMaxLen, by omega, Filled.nothing gGlyphBuf.2⟩
      obtain ⟨size, hsize, hfilled⟩ := hbuf
      obtain ⟨out, hloop, hout⟩ := combineLoop_filled isMark str hfilled (by simpa using hsize)
      rw [List.length_nil] at hloop
      rw [hloop, Option.map_some, hout.front]

end

/-- Every buffer holds what is written to it exactly if a font with a unit of its own has a run that fits into the
shared one. -/
theorem held_iff (cSupportsMn : Bool) (isMark : UInt16 → Bool) (gGlyphBuf gCombineBuf : GlyphBuf) (sch : Nat)
    (str : WString) : Held cSupportsMn isMark gGlyphBuf gCombineBuf sch str ↔ Fits sch str := by
  rw [fits_iff]
  constructor
  · rintro ⟨⟨g, hg, -⟩, -⟩
    by_contra hfull
    rw [fixedGlyphs_full (by omega)] at hg
    exact absurd hg (by simp)
  · intro h
    refine ⟨fixedGlyphs_fits h, fun text => ?_⟩
    rw [combineCharsInText_eq]
    split <;> rfl

/-- A run of 1024 units in a font whose only unit is a letter, and one of 512 for a supplementary character. -/
theorem fixedGlyphs_overruns :
    (∃ g : GlyphBuf, fixedGlyphs g 0x41 (List.replicate 1024 0x61) = none ∧
      ¬ Held false (fun _ => false) g g 0x41 (List.replicate 1024 0x61)) ∧
    ∃ g : GlyphBuf, fixedGlyphs g 0x1f600 (List.replicate 512 0x61) = none ∧
      ¬ Held false (fun _ => false) g g 0x1f600 (List.replicate 512 0x61) := by
  have hfull : ∀ sch str, bufSize sch str ≤ (glyphUnits sch str).length →
      ∃ g : GlyphBuf, fixedGlyphs g sch str = none ∧ ¬ Held false (fun _ => false) g g sch str := by
    intro sch str h
    refine ⟨⟨newUChars cGlyphBufMaxLen, newUChars_length _⟩, fixedGlyphs_full h, ?_⟩
    rintro ⟨⟨g, hg, -⟩, -⟩
    rw [fixedGlyphs_full h] at hg
    exact absurd hg (by simp)
  constructor
  all_goals
    apply hfull
    rw [length_glyphUnits, List.length_replicate]
    show 1024 ≤ _
    decide

end Glyphs
end Wkc
