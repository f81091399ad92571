import WkcBrowser.Lib.Bytes

/-!
# WTF strings and their UTF-8 form

`WString` is `WTF::String`: the UTF-16 code units.  The null string is `none` where it can arise
and matters (`fromUTF8`), and the empty list where the code stores it.

* `utf8`                   `String::utf8()` (lenient: an unpaired surrogate becomes three bytes);
* `convertUTF8ToUTF16`     the strict decoder, reading a buffer that may be shorter than the
                           length it was told (`Fault.outOfBounds`);
* `fromUTF8`               `String::fromUTF8(const char*, size_t)`; an unrepresentable length ends
                           in `CRASH()`;
* `fromUTF8_utf8`          well-formed UTF-16 survives the round trip;
* `utf8_injective`         well-formed UTF-16 has its UTF-8 form for itself;
* `convertAux_inside`      the decoder never leaves a buffer that holds all the bytes it was told.
-/

namespace Wkc
open Buf

abbrev WString := List UInt16

/-- what can go wrong while reading a buffer -/
inductive Fault where
  | outOfBounds
  | crash
  | noProgress
  deriving DecidableEq, Repr

/-! ## UTF-16 to UTF-8 -/

def isLead (c : UInt16) : Bool := 0xD800 ≤ c.toNat && c.toNat ≤ 0xDBFF
def isTrail (c : UInt16) : Bool := 0xDC00 ≤ c.toNat && c.toNat ≤ 0xDFFF

/-- the character of a surrogate pair -/
def pairChar (c c2 : UInt16) : Nat := (c.toNat - 0xD800) * 0x400 + (c2.toNat - 0xDC00) + 0x10000

/-- the bytes of one character: `firstByteMark` in the first, six bits in each of the others -/
def utf8Char (ch : Nat) : Bytes :=
  if ch < 0x80 then [UInt8.ofNat ch]
  else if ch < 0x800 then [UInt8.ofNat (0xC0 + ch / 0x40), UInt8.ofNat (0x80 + ch % 0x40)]
  else if ch < 0x10000 then
    [UInt8.ofNat (0xE0 + ch / 0x1000), UInt8.ofNat (0x80 + ch / 0x40 % 0x40),
      UInt8.ofNat (0x80 + ch % 0x40)]
  else
    [UInt8.ofNat (0xF0 + ch / 0x40000), UInt8.ofNat (0x80 + ch / 0x1000 % 0x40),
      UInt8.ofNat (0x80 + ch / 0x40 % 0x40), UInt8.ofNat (0x80 + ch % 0x40)]

def utf8 : WString → Bytes
  | [] => []
  -- a final unpaired lead surrogate goes through `putUTF8Triple`, the same three bytes
  | [c] => utf8Char c.toNat
  | c :: c2 :: rest =>
    if isLead c && isTrail c2 then utf8Char (pairChar c c2) ++ utf8 rest
    else utf8Char c.toNat ++ utf8 (c2 :: rest)

/-- no unpaired surrogate -/
def wellFormed : WString → Bool
  | [] => true
  | [c] => !isLead c && !isTrail c
  | c :: c2 :: rest =>
    if isLead c then isTrail c2 && wellFormed rest
    else !isTrail c && wellFormed (c2 :: rest)

/-! ## UTF-8 to UTF-16 -/

def inlineUTF8SequenceLength (b0 : UInt8) : Nat :=
  if b0.toNat < 0x80 then 1
  else if b0.toNat < 0xC0 then 0
  else if b0.toNat < 0xE0 then 2
  else if b0.toNat < 0xF0 then 3
  else if b0.toNat < 0xF8 then 4
  else 0

def isTrailByte (a : UInt8) : Bool := 0x80 ≤ a.toNat && a.toNat ≤ 0xBF

/-- the inner switch of `isLegalUTF8`: no lower bound after `ED` and `F4` -/
def legalSecond (first a : UInt8) : Bool :=
  a.toNat ≤ 0xBF &&
    if first.toNat = 0xE0 then 0xA0 ≤ a.toNat
    else if first.toNat = 0xED then a.toNat ≤ 0x9F
    else if first.toNat = 0xF0 then 0x90 ≤ a.toNat
    else if first.toNat = 0xF4 then a.toNat ≤ 0x8F
    else 0x80 ≤ a.toNat

def legalFirst (first : UInt8) : Bool :=
  !(0x80 ≤ first.toNat && first.toNat < 0xC2) && first.toNat ≤ 0xF4

def isLegalUTF8 : Bytes → Bool
  | [a] => legalFirst a
  | [a, b] => legalSecond a b && legalFirst a
  | [a, b, c] => isTrailByte c && legalSecond a b && legalFirst a
  | [a, b, c, d] => isTrailByte d && isTrailByte c && legalSecond a b && legalFirst a
  | _ => false

def readUTF8Sequence : Bytes → Nat
  | [a] => a.toNat
  | [a, b] => a.toNat * 0x40 + b.toNat - 0x3080
  | [a, b, c] => (a.toNat * 0x40 + b.toNat) * 0x40 + c.toNat - 0xE2080
  | [a, b, c, d] => ((a.toNat * 0x40 + b.toNat) * 0x40 + c.toNat) * 0x40 + d.toNat - 0x3C82080
  | _ => 0

/-- the code units of one character (`U16_LEAD`, `U16_TRAIL` beyond the BMP) -/
def utf16Char (ch : Nat) : WString :=
  if ch < 0x10000 then [UInt16.ofNat ch]
  else [UInt16.ofNat (ch / 0x400 + 0xD7C0), UInt16.ofNat (0xDC00 + ch % 0x400)]

/-- `n = sourceEnd - source`; `src` is what the buffer holds from `source` on.  The target has room
for `n` units, so `targetExhausted` cannot occur. -/
def convertAux : Nat → Nat → Bytes → Except Fault (Option WString)
  | _, 0, _ => .ok (some [])
  | 0, _ + 1, _ => .ok none
  | fuel + 1, n + 1, src =>
    match src with
    | [] => .error .outOfBounds
    | b0 :: _ =>
      let k := inlineUTF8SequenceLength b0
      if n + 1 < k then .ok none
      -- `isLegalUTF8` reads the last byte of the sequence first
      else if src.length < k then .error .outOfBounds
      else if isLegalUTF8 (src.take k) = false then .ok none
      else
        let ch := readUTF8Sequence (src.take k)
        if 0xD800 ≤ ch ∧ ch ≤ 0xDFFF then .ok none
        else (convertAux fuel (n + 1 - k) (src.drop k)).map (Option.map (utf16Char ch ++ ·))

def convertUTF8ToUTF16 (n : Nat) (src : Bytes) : Except Fault (Option WString) := convertAux n n src

/-- `(numeric_limits<unsigned>::max() - sizeof(StringImpl)) / sizeof(UChar)` -/
def maxStringLength : Nat := (2 ^ 32 - 1 - 20) / 2

/-- `String::fromUTF8`: ill-formed bytes give the null string -/
def fromUTF8 (length : Nat) (src : Bytes) : Except Fault (Option WString) :=
  if maxStringLength < length then .error .crash else convertUTF8ToUTF16 length src

/-! ## one character -/

theorem ofNat8 {n : Nat} (h : n < 256) : (UInt8.ofNat n).toNat = n := by
  rw [UInt8.toNat_ofNat']; exact Nat.mod_eq_of_lt h

theorem ofNat16 {n : Nat} (h : n < 65536) : (UInt16.ofNat n).toNat = n := by
  rw [UInt16.toNat_ofNat']; exact Nat.mod_eq_of_lt h

/-- a character that can stand in UTF-8 -/
def Scalar (ch : Nat) : Prop := ch < 0x110000 ∧ (ch < 0xD800 ∨ 0xDFFF < ch)

theorem utf8Char_length_pos (ch : Nat) : 0 < (utf8Char ch).length := by
  unfold utf8Char
  split
  · exact Nat.one_pos
  · split
    · exact Nat.two_pos
    · split <;> exact Nat.succ_pos _

theorem utf8Char_lead (ch : Nat) (h : ch < 0x110000) :
    ∃ b0 bs, utf8Char ch = b0 :: bs ∧ inlineUTF8SequenceLength b0 = (utf8Char ch).length := by
  unfold utf8Char
  split
  · next h1 =>
    refine ⟨_, _, rfl, ?_⟩
    unfold inlineUTF8SequenceLength
    rw [ofNat8 (by omega), if_pos h1]
    rfl
  · split
    · next h1 h2 =>
      refine ⟨_, _, rfl, ?_⟩
      unfold inlineUTF8SequenceLength
      rw [ofNat8 (by omega), if_neg (by omega), if_neg (by omega), if_pos (by omega)]
      rfl
    · split
      · next h1 h2 h3 =>
        refine ⟨_, _, rfl, ?_⟩
        unfold inlineUTF8SequenceLength
        rw [ofNat8 (by omega), if_neg (by omega), if_neg (by omega), if_neg (by omega),
          if_pos (by omega)]
        rfl
      · next h1 h2 h3 =>
        refine ⟨_, _, rfl, ?_⟩
        unfold inlineUTF8SequenceLength
        rw [ofNat8 (by omega), if_neg (by omega), if_neg (by omega), if_neg (by omega),
          if_neg (by omega), if_pos (by omega)]
        rfl

theorem isLegalUTF8_utf8Char (ch : Nat) (h : Scalar ch) : isLegalUTF8 (utf8Char ch) = true := by
  obtain ⟨hlt, hsur⟩ := h
  unfold utf8Char
  split
  · next h1 =>
    simp only [isLegalUTF8, legalFirst, ofNat8 (show ch < 256 by omega)]
    simp
    omega
  · split
    · next h1 h2 =>
      simp only [isLegalUTF8, legalFirst, legalSecond, ofNat8 (show 0xC0 + ch / 0x40 < 256 by omega),
        ofNat8 (show 0x80 + ch % 0x40 < 256 by omega)]
      rw [if_neg (by omega), if_neg (by omega), if_neg (by omega), if_neg (by omega)]
      simp
      omega
    · split
      · next h1 h2 h3 =>
        simp only [isLegalUTF8, legalFirst, legalSecond, isTrailByte,
          ofNat8 (show 0xE0 + ch / 0x1000 < 256 by omega),
          ofNat8 (show 0x80 + ch / 0x40 % 0x40 < 256 by omega),
          ofNat8 (show 0x80 + ch % 0x40 < 256 by omega)]
        rw [if_neg (show ¬ 0xE0 + ch / 0x1000 = 0xF0 by omega),
          if_neg (show ¬ 0xE0 + ch / 0x1000 = 0xF4 by omega)]
        simp
        split <;> omega
      · next h1 h2 h3 =>
        simp only [isLegalUTF8, legalFirst, legalSecond, isTrailByte,
          ofNat8 (show 0xF0 + ch / 0x40000 < 256 by omega),
          ofNat8 (show 0x80 + ch / 0x1000 % 0x40 < 256 by omega),
          ofNat8 (show 0x80 + ch / 0x40 % 0x40 < 256 by omega),
          ofNat8 (show 0x80 + ch % 0x40 < 256 by omega)]
        rw [if_neg (show ¬ 0xF0 + ch / 0x40000 = 0xE0 by omega),
          if_neg (show ¬ 0xF0 + ch / 0x40000 = 0xED by omega)]
        simp
        split <;> omega

theorem readUTF8Sequence_utf8Char (ch : Nat) (h : ch < 0x110000) :
    readUTF8Sequence (utf8Char ch) = ch := by
  unfold utf8Char
  split
  · next h1 => exact ofNat8 (by omega)
  · split
    · next h1 h2 =>
      show (UInt8.ofNat _).toNat * 0x40 + (UInt8.ofNat _).toNat - 0x3080 = ch
      rw [ofNat8 (by omega), ofNat8 (by omega)]
      omega
    · split
      · next h1 h2 h3 =>
        show ((UInt8.ofNat _).toNat * 0x40 + (UInt8.ofNat _).toNat) * 0x40
          + (UInt8.ofNat _).toNat - 0xE2080 = ch
        rw [ofNat8 (by omega), ofNat8 (by omega), ofNat8 (by omega)]
        omega
      · next h1 h2 h3 =>
        show (((UInt8.ofNat _).toNat * 0x40 + (UInt8.ofNat _).toNat) * 0x40
          + (UInt8.ofNat _).toNat) * 0x40 + (UInt8.ofNat _).toNat - 0x3C82080 = ch
        rw [ofNat8 (by omega), ofNat8 (by omega), ofNat8 (by omega), ofNat8 (by omega)]
        omega

theorem convertAux_char (ch : Nat) (h : Scalar ch) (fuel n : Nat) (rest : Bytes) :
    convertAux (fuel + 1) ((utf8Char ch).length + n) (utf8Char ch ++ rest)
      = (convertAux fuel n rest).map (Option.map (utf16Char ch ++ ·)) := by
  obtain ⟨b0, bs, hb, hk⟩ := utf8Char_lead ch h.1
  have hpos := utf8Char_length_pos ch
  obtain ⟨m, hm⟩ : ∃ m, (utf8Char ch).length + n = m + 1 := ⟨(utf8Char ch).length + n - 1, by omega⟩
  have hsrc : utf8Char ch ++ rest = b0 :: (bs ++ rest) := by rw [hb, List.cons_append]
  have htake : (b0 :: (bs ++ rest)).take (utf8Char ch).length = utf8Char ch := by
    rw [← hsrc, List.take_left]
  have hdrop : (b0 :: (bs ++ rest)).drop (utf8Char ch).length = rest := by
    rw [← hsrc, List.drop_left]
  have hlen : (utf8Char ch).length ≤ (b0 :: (bs ++ rest)).length := by
    rw [← hsrc, List.length_append]; omega
  rw [hm, hsrc]
  simp only [convertAux, hk]
  rw [if_neg (by omega), if_neg (by omega), htake, hdrop, isLegalUTF8_utf8Char ch h,
    readUTF8Sequence_utf8Char ch h.1, if_neg (by simp)]
  have hns : ¬ (0xD800 ≤ ch ∧ ch ≤ 0xDFFF) := by have := h.2; omega
  rw [if_neg hns, show m + 1 - (utf8Char ch).length = n by omega]

/-! ## the round trip -/

theorem isLead_iff (c : UInt16) : isLead c = true ↔ 0xD800 ≤ c.toNat ∧ c.toNat ≤ 0xDBFF := by
  simp [isLead]

theorem isTrail_iff (c : UInt16) : isTrail c = true ↔ 0xDC00 ≤ c.toNat ∧ c.toNat ≤ 0xDFFF := by
  simp [isTrail]

theorem scalar_unit (c : UInt16) (h1 : isLead c = false) (h2 : isTrail c = false) :
    Scalar c.toNat := by
  have hc : c.toNat < 65536 := c.toNat_lt_size
  have n1 : ¬ (0xD800 ≤ c.toNat ∧ c.toNat ≤ 0xDBFF) := fun h =>
    absurd ((isLead_iff c).mpr h) (by rw [h1]; exact Bool.false_ne_true)
  have n2 : ¬ (0xDC00 ≤ c.toNat ∧ c.toNat ≤ 0xDFFF) := fun h =>
    absurd ((isTrail_iff c).mpr h) (by rw [h2]; exact Bool.false_ne_true)
  exact ⟨by omega, by omega⟩

theorem utf16Char_unit (c : UInt16) : utf16Char c.toNat = [c] := by
  have hc : c.toNat < 65536 := c.toNat_lt_size
  rw [utf16Char, if_pos hc, UInt16.ofNat_toNat]

theorem scalar_pair (c c2 : UInt16) (h1 : isLead c = true) (h2 : isTrail c2 = true) :
    Scalar (pairChar c c2) := by
  rw [isLead_iff] at h1
  rw [isTrail_iff] at h2
  unfold Scalar pairChar
  omega

theorem utf16Char_pair (c c2 : UInt16) (h1 : isLead c = true) (h2 : isTrail c2 = true) :
    utf16Char (pairChar c c2) = [c, c2] := by
  rw [isLead_iff] at h1
  rw [isTrail_iff] at h2
  have e1 : pairChar c c2 / 0x400 + 0xD7C0 = c.toNat := by unfold pairChar; omega
  have e2 : 0xDC00 + pairChar c c2 % 0x400 = c2.toNat := by unfold pairChar; omega
  rw [utf16Char, if_neg (by unfold pairChar; omega), e1, e2, UInt16.ofNat_toNat, UInt16.ofNat_toNat]

theorem convertAux_utf8 (s : WString) (post : Bytes) :
    ∀ fuel, wellFormed s = true → (utf8 s).length ≤ fuel →
      convertAux fuel (utf8 s).length (utf8 s ++ post) = .ok (some s) := by
  induction s using utf8.induct with
  | case1 =>
    intro fuel _ _
    cases fuel <;> rfl
  | case2 c =>
    intro fuel hwf hfuel
    obtain ⟨h1, h2⟩ : isLead c = false ∧ isTrail c = false := by simpa [wellFormed] using hwf
    have hpos := utf8Char_length_pos c.toNat
    rw [show utf8 [c] = utf8Char c.toNat from rfl] at hfuel ⊢
    obtain ⟨f, rfl⟩ : ∃ f, fuel = f + 1 := ⟨fuel - 1, by omega⟩
    have hstep : convertAux (f + 1) (utf8Char c.toNat).length (utf8Char c.toNat ++ post) = _ :=
      convertAux_char c.toNat (scalar_unit c h1 h2) f 0 post
    rw [hstep, utf16Char_unit]
    cases f <;> rfl
  | case3 c c2 rest hpair ih =>
    intro fuel hwf hfuel
    obtain ⟨h1, h2⟩ : isLead c = true ∧ isTrail c2 = true := by simpa using hpair
    have hrest : wellFormed rest = true := by
      have h := hwf
      rw [wellFormed, if_pos h1, h2] at h
      simpa using h
    have e : utf8 (c :: c2 :: rest) = utf8Char (pairChar c c2) ++ utf8 rest := by
      rw [utf8, if_pos hpair]
    have hpos := utf8Char_length_pos (pairChar c c2)
    rw [e, List.length_append] at hfuel ⊢
    obtain ⟨f, rfl⟩ : ∃ f, fuel = f + 1 := ⟨fuel - 1, by omega⟩
    rw [List.append_assoc, convertAux_char _ (scalar_pair c c2 h1 h2), ih f hrest (by omega),
      utf16Char_pair c c2 h1 h2]
    rfl
  | case4 c c2 rest hpair ih =>
    intro fuel hwf hfuel
    have h1 : isLead c = false := by
      cases hl : isLead c with
      | false => rfl
      | true =>
        have h := hwf
        rw [wellFormed, if_pos hl, Bool.and_eq_true] at h
        exact absurd (by rw [hl, h.1]; rfl) hpair
    obtain ⟨h2, hrest⟩ : isTrail c = false ∧ wellFormed (c2 :: rest) = true := by
      simpa [wellFormed, h1] using hwf
    have e : utf8 (c :: c2 :: rest) = utf8Char c.toNat ++ utf8 (c2 :: rest) := by
      rw [utf8, if_neg hpair]
    have hpos := utf8Char_length_pos c.toNat
    rw [e, List.length_append] at hfuel ⊢
    obtain ⟨f, rfl⟩ : ∃ f, fuel = f + 1 := ⟨fuel - 1, by omega⟩
    rw [List.append_assoc, convertAux_char _ (scalar_unit c h1 h2), ih f hrest (by omega),
      utf16Char_unit]
    rfl

/-- **Well-formed UTF-16 survives the way through UTF-8**, whatever follows it in the buffer. -/
theorem fromUTF8_utf8 (s : WString) (post : Bytes) (hwf : wellFormed s = true)
    (hlen : (utf8 s).length ≤ maxStringLength) :
    fromUTF8 (utf8 s).length (utf8 s ++ post) = .ok (some s) := by
  rw [fromUTF8, if_neg (by omega), convertUTF8ToUTF16, convertAux_utf8 s post _ hwf (le_refl _)]

theorem convertAux_surrogate (c : UInt16) (h : isLead c = true ∨ isTrail c = true) (fuel n : Nat) (rest : Bytes) :
    convertAux (fuel + 1) ((utf8Char c.toNat).length + n) (utf8Char c.toNat ++ rest) = .ok none := by
  rw [isLead_iff, isTrail_iff] at h
  have hbytes : utf8Char c.toNat = [UInt8.ofNat (0xE0 + c.toNat / 0x1000),
      UInt8.ofNat (0x80 + c.toNat / 0x40 % 0x40), UInt8.ofNat (0x80 + c.toNat % 0x40)] := by
    rw [utf8Char, if_neg (by omega), if_neg (by omega), if_pos (by omega)]
  have hfirst : (UInt8.ofNat (0xE0 + c.toNat / 0x1000)).toNat = 0xED := by rw [ofNat8 (by omega)]; omega
  have hsecond : 0xA0 ≤ (UInt8.ofNat (0x80 + c.toNat / 0x40 % 0x40)).toNat := by rw [ofNat8 (by omega)]; omega
  rw [hbytes, List.length_cons, List.length_cons, List.length_cons, List.length_nil,
    show 0 + 1 + 1 + 1 + n = n + 2 + 1 by omega]
  generalize UInt8.ofNat (0xE0 + c.toNat / 0x1000) = b0 at hfirst
  generalize UInt8.ofNat (0x80 + c.toNat / 0x40 % 0x40) = b1 at hsecond
  generalize UInt8.ofNat (0x80 + c.toNat % 0x40) = b2
  have hk : inlineUTF8SequenceLength b0 = 3 := by
    rw [inlineUTF8SequenceLength, hfirst]
    rfl
  have hlegal : isLegalUTF8 [b0, b1, b2] = false := by
    have hb1 : legalSecond b0 b1 = false := by
      rw [legalSecond, hfirst]
      simp
      omega
    rw [isLegalUTF8, hb1, Bool.and_false, Bool.false_and]
  simp only [convertAux, hk, List.cons_append, List.nil_append, List.take_succ_cons, List.take_zero, hlegal, if_pos]
  rw [if_neg (by omega), if_neg (by simp)]

theorem wellFormed_of_convertAux (s : WString) (post : Bytes) :
    ∀ fuel x, (utf8 s).length ≤ fuel → convertAux fuel (utf8 s).length (utf8 s ++ post) = .ok (some x) →
      wellFormed s = true := by
  induction s using utf8.induct with
  | case1 => exact fun _ _ _ _ => rfl
  | case2 c =>
    intro fuel x hfuel h
    have hpos := utf8Char_length_pos c.toNat
    rw [show utf8 [c] = utf8Char c.toNat from rfl] at hfuel h
    obtain ⟨f, rfl⟩ : ∃ f, fuel = f + 1 := ⟨fuel - 1, by omega⟩
    by_cases hs : isLead c = true ∨ isTrail c = true
    · have hnone : convertAux (f + 1) (utf8Char c.toNat).length (utf8Char c.toNat ++ post) = .ok none :=
        convertAux_surrogate c hs f 0 post
      rw [hnone] at h
      exact absurd h (by simp)
    · simpa [wellFormed, not_or] using hs
  | case3 c c2 rest hpair ih =>
    intro fuel x hfuel h
    obtain ⟨h1, h2⟩ : isLead c = true ∧ isTrail c2 = true := by simpa using hpair
    have hpos := utf8Char_length_pos (pairChar c c2)
    have e : utf8 (c :: c2 :: rest) = utf8Char (pairChar c c2) ++ utf8 rest := by
      rw [utf8, if_pos hpair]
    rw [e, List.length_append] at hfuel h
    obtain ⟨f, rfl⟩ : ∃ f, fuel = f + 1 := ⟨fuel - 1, by omega⟩
    rw [List.append_assoc, convertAux_char _ (scalar_pair c c2 h1 h2)] at h
    rw [wellFormed, if_pos h1, h2, Bool.true_and]
    cases hrest : convertAux f (utf8 rest).length (utf8 rest ++ post) with
    | error e =>
      rw [hrest] at h
      exact absurd h (by simp [Except.map])
    | ok r =>
      rw [hrest] at h
      cases r with
      | none => exact absurd h (by simp [Except.map])
      | some y => exact ih f y (by omega) hrest
  | case4 c c2 rest hpair ih =>
    intro fuel x hfuel h
    have hpos := utf8Char_length_pos c.toNat
    have e : utf8 (c :: c2 :: rest) = utf8Char c.toNat ++ utf8 (c2 :: rest) := by
      rw [utf8, if_neg hpair]
    rw [e, List.length_append] at hfuel h
    obtain ⟨f, rfl⟩ : ∃ f, fuel = f + 1 := ⟨fuel - 1, by omega⟩
    rw [List.append_assoc] at h
    by_cases hs : isLead c = true ∨ isTrail c = true
    · rw [convertAux_surrogate c hs] at h
      exact absurd h (by simp)
    · obtain ⟨h1, h2⟩ : isLead c = false ∧ isTrail c = false := by simpa [not_or] using hs
      rw [convertAux_char _ (scalar_unit c h1 h2)] at h
      rw [wellFormed, if_neg (by simp [h1]), h2, Bool.not_false, Bool.true_and]
      cases hrest : convertAux f (utf8 (c2 :: rest)).length (utf8 (c2 :: rest) ++ post) with
      | error e =>
        rw [hrest] at h
        exact absurd h (by simp [Except.map])
      | ok r =>
        rw [hrest] at h
        cases r with
        | none => exact absurd h (by simp [Except.map])
        | some y => exact ih f y (by omega) hrest

theorem utf8_injective {s t : WString} (hs : wellFormed s = true) (h : utf8 s = utf8 t) : s = t := by
  have hdecode := convertAux_utf8 s [] _ hs (le_refl _)
  rw [h] at hdecode
  have ht := wellFormed_of_convertAux t [] _ s (le_refl _) hdecode
  have hdecode' := convertAux_utf8 t [] _ ht (le_refl _)
  rw [hdecode] at hdecode'
  exact Option.some.inj (Except.ok.inj hdecode')

/-! ## well-formed texts in pieces -/

/-- no surrogate -/
def unpaired (c : UInt16) : Bool := !isLead c && !isTrail c

theorem wellFormed_cons {c : UInt16} (hc : unpaired c = true) (s : WString) : wellFormed (c :: s) = wellFormed s := by
  obtain ⟨h1, h2⟩ : isLead c = false ∧ isTrail c = false := by simpa [unpaired] using hc
  cases s with
  | nil | cons => simp [wellFormed, h1, h2]

theorem wellFormed_append {s : WString} (hs : s.all unpaired = true) (t : WString) :
    wellFormed (s ++ t) = wellFormed t := by
  induction s with
  | nil => rfl
  | cons c s ih =>
    rw [List.all_cons, Bool.and_eq_true] at hs
    rw [List.cons_append, wellFormed_cons hs.1, ih hs.2]

theorem wellFormed_between {c : UInt16} (hc : unpaired c = true) (s t : WString) :
    wellFormed (s ++ c :: t) = (wellFormed s && wellFormed t) := by
  obtain ⟨hlead, htrail⟩ : isLead c = false ∧ isTrail c = false := by simpa [unpaired] using hc
  induction s using wellFormed.induct with
  | case1 => simp [wellFormed, wellFormed_cons hc]
  | case2 d =>
    cases hd : isLead d with
    | true => simp [wellFormed, hd, htrail]
    | false => simp [wellFormed, hd, wellFormed_cons hc]
  | case3 d d2 rest hd ih => simp [wellFormed, hd, ih, Bool.and_assoc]
  | case4 d d2 rest hd ih =>
    have hd : isLead d = false := by simpa using hd
    simp only [wellFormed, hd, List.cons_append] at ih ⊢
    simp [ih, Bool.and_assoc]

theorem convertAux_inside (fuel : Nat) : ∀ (n : Nat) (src : Bytes), n ≤ src.length →
    ∃ r, convertAux fuel n src = .ok r := by
  induction fuel with
  | zero =>
    intro n src _
    cases n with
    | zero | succ => exact ⟨_, rfl⟩
  | succ fuel ih =>
    intro n src hlen
    cases n with
    | zero => exact ⟨_, rfl⟩
    | succ n =>
      cases src with
      | nil => exact absurd hlen (by simp)
      | cons b0 bs =>
        simp only [convertAux]
        split
        · exact ⟨_, rfl⟩
        · next hk =>
          rw [if_neg (by omega)]
          split
          · exact ⟨_, rfl⟩
          · split
            · exact ⟨_, rfl⟩
            · obtain ⟨r, hr⟩ := ih (n + 1 - inlineUTF8SequenceLength b0)
                ((b0 :: bs).drop (inlineUTF8SequenceLength b0))
                (by rw [List.length_drop]; omega)
              exact ⟨_, by rw [hr]; rfl⟩

theorem fromUTF8_inside {n : Nat} {src : Bytes} (hlen : n ≤ src.length) (hmax : n ≤ maxStringLength) :
    ∃ s, fromUTF8 n src = .ok s := by
  obtain ⟨r, hr⟩ := convertAux_inside n n src hlen
  exact ⟨_, by rw [fromUTF8, if_neg (by omega), convertUTF8ToUTF16, hr]⟩

end Wkc
