import Mathlib.Data.List.Chain
import WkcBrowser.Platform.Utf8Pieces

/-!
# Well-formed texts in UTF-8

* `first_char`, `char_first`      the first token of some bytes is a character exactly if they begin with its bytes;
* `ofChars_iff`                   a well-formed string is a list of characters;
* `decode_valid`                  what the codec takes without an error is UTF-8, and what it shows is well formed;
* `decode_encode`                 a string, encoded and decoded in any pieces;
* `decode_stops`                  what is shown of some bytes up to the first error.
-/

namespace Wkc.Utf8Codec
open Buf Tokens

/-! ## characters and their bytes -/

theorem byte_iff {a : UInt8} {n : Nat} (hn : n < 256) : a = UInt8.ofNat n ↔ a.toNat = n := by
  rw [← UInt8.toNat_inj, ofNat8 hn]

theorem secondOfThree_iff {a b : UInt8} : secondOfThree a b = true ↔
    0x80 ≤ b.toNat ∧ b.toNat ≤ 0xBF ∧ (a.toNat = 0xE0 → 0xA0 ≤ b.toNat) ∧ (a.toNat = 0xED → b.toNat ≤ 0x9F) := by
  have he0 : a = 0xE0 ↔ a.toNat = 0xE0 := byte_iff (by decide)
  have hed : a = 0xED ↔ a.toNat = 0xED := byte_iff (by decide)
  unfold secondOfThree
  simp only [he0, hed]
  split_ifs
  all_goals
    rw [within_iff]
    omega

theorem secondOfFour_iff {a b : UInt8} : secondOfFour a b = true ↔
    0x80 ≤ b.toNat ∧ b.toNat ≤ 0xBF ∧ (a.toNat = 0xF0 → 0x90 ≤ b.toNat) ∧ (a.toNat = 0xF4 → b.toNat ≤ 0x8F) := by
  have hf0 : a = 0xF0 ↔ a.toNat = 0xF0 := byte_iff (by decide)
  have hf4 : a = 0xF4 ↔ a.toNat = 0xF4 := byte_iff (by decide)
  unfold secondOfFour
  simp only [hf0, hf4]
  split_ifs
  all_goals
    rw [within_iff]
    omega

theorem decode_three {a b c : UInt8} {more : Bytes} {character : Nat} :
    asCharacter (a :: b :: c :: more) 3 = some character ↔
      (0x80 ≤ b.toNat ∧ b.toNat ≤ 0xBF ∧ (a.toNat = 0xE0 → 0xA0 ≤ b.toNat) ∧ (a.toNat = 0xED → b.toNat ≤ 0x9F)) ∧
      (0x80 ≤ c.toNat ∧ c.toNat ≤ 0xBF) ∧ a.toNat * 0x1000 + b.toNat * 0x40 + c.toNat - 0xE2080 = character := by
  simp only [asCharacter, Option.ite_none_left_eq_some, Bool.not_eq_true', Bool.not_eq_false, within_iff,
    secondOfThree_iff, Option.some.injEq]

theorem decode_four {a b c d : UInt8} {more : Bytes} {character : Nat} :
    asCharacter (a :: b :: c :: d :: more) 4 = some character ↔
      (0x80 ≤ b.toNat ∧ b.toNat ≤ 0xBF ∧ (a.toNat = 0xF0 → 0x90 ≤ b.toNat) ∧ (a.toNat = 0xF4 → b.toNat ≤ 0x8F)) ∧
      (0x80 ≤ c.toNat ∧ c.toNat ≤ 0xBF) ∧ (0x80 ≤ d.toNat ∧ d.toNat ≤ 0xBF) ∧
      a.toNat * 0x40000 + b.toNat * 0x1000 + c.toNat * 0x40 + d.toNat - 0x3C82080 = character := by
  simp only [asCharacter, Option.ite_none_left_eq_some, Bool.not_eq_true', Bool.not_eq_false, within_iff,
    secondOfFour_iff, Option.some.injEq]

theorem length_iff {b : UInt8} :
    (isASCII b = true ↔ b.toNat < 0x80) ∧
    (nonASCIISequenceLength b = 2 ↔ 0x80 ≤ b.toNat ∧ b.toNat < 0xE0) ∧
    (nonASCIISequenceLength b = 3 ↔ 0xE0 ≤ b.toNat ∧ b.toNat < 0xF0) ∧
    (nonASCIISequenceLength b = 4 ↔ 0xF0 ≤ b.toNat ∧ b.toNat < 0xF5) := by
  refine ⟨decide_eq_true_iff, ?_⟩
  unfold nonASCIISequenceLength
  split_ifs <;> refine ⟨⟨fun h => ?_, fun h => ?_⟩, ⟨fun h => ?_, fun h => ?_⟩, fun h => ?_, fun h => ?_⟩ <;>
    first | omega | exact h.elim

theorem first_char {xs : Bytes} {character n : Nat} (h : lexer.first xs = some (some character, n)) :
    Scalar character ∧ xs.take n = utf8Char character := by
  cases xs with
  | nil => exact absurd h nofun
  | cons a bs =>
    have h : firstToken (a :: bs) = some (some character, n) := h
    obtain ⟨hascii_iff, h2, h3, h4⟩ := length_iff (b := a)
    rcases first_cases a bs with ⟨hascii, heq⟩ | ⟨-, -, heq⟩ | ⟨-, -, -, heq⟩ | ⟨-, hcount, hlen, ⟨-, heq⟩ | ⟨ch, hdecode, heq⟩⟩
    · rw [heq] at h
      cases h
      have hlt := hascii_iff.mp hascii
      refine ⟨⟨by omega, Or.inl (by omega)⟩, ?_⟩
      unfold utf8Char
      rw [if_pos hlt, UInt8.ofNat_toNat]
      rfl
    · exact absurd (heq.symm.trans h) nofun
    · exact absurd (heq.symm.trans h) nofun
    · exact absurd (heq.symm.trans h) nofun
    · rw [heq] at h
      cases h
      have hle := sequenceLength_le a
      have hge := sequenceLength_ge hcount
      rcases (by omega : nonASCIISequenceLength a = 2 ∨ nonASCIISequenceLength a = 3 ∨ nonASCIISequenceLength a = 4) with
        hk | hk | hk
      · rw [hk] at hdecode hlen ⊢
        match bs, hlen with
        | b :: more, _ =>
          obtain ⟨hlow, hb, hch⟩ := decode_two.mp hdecode
          have ha := h2.mp hk
          refine ⟨⟨by omega, Or.inl (by omega)⟩, ?_⟩
          have ha' : a = UInt8.ofNat (0xC0 + character / 0x40) := (byte_iff (by omega)).mpr (by omega)
          have hb' : b = UInt8.ofNat (0x80 + character % 0x40) := (byte_iff (by omega)).mpr (by omega)
          unfold utf8Char
          rw [if_neg (by omega), if_pos (by omega), ← ha', ← hb']
          rfl
      · rw [hk] at hdecode hlen ⊢
        match bs, hlen with
        | b :: c :: more, _ =>
          obtain ⟨⟨hb1, hb2, hb3, hb4⟩, hc, hch⟩ := decode_three.mp hdecode
          have ha := h3.mp hk
          refine ⟨⟨by omega, by omega⟩, ?_⟩
          have ha' : a = UInt8.ofNat (0xE0 + character / 0x1000) := (byte_iff (by omega)).mpr (by omega)
          have hb' : b = UInt8.ofNat (0x80 + character / 0x40 % 0x40) := (byte_iff (by omega)).mpr (by omega)
          have hc' : c = UInt8.ofNat (0x80 + character % 0x40) := (byte_iff (by omega)).mpr (by omega)
          unfold utf8Char
          rw [if_neg (by omega), if_neg (by omega), if_pos (by omega), ← ha', ← hb', ← hc']
          rfl
      · rw [hk] at hdecode hlen ⊢
        match bs, hlen with
        | b :: c :: d :: more, _ =>
          obtain ⟨⟨hb1, hb2, hb3, hb4⟩, hc, hd, hch⟩ := decode_four.mp hdecode
          have ha := h4.mp hk
          refine ⟨⟨by omega, by omega⟩, ?_⟩
          have ha' : a = UInt8.ofNat (0xF0 + character / 0x40000) := (byte_iff (by omega)).mpr (by omega)
          have hb' : b = UInt8.ofNat (0x80 + character / 0x1000 % 0x40) := (byte_iff (by omega)).mpr (by omega)
          have hc' : c = UInt8.ofNat (0x80 + character / 0x40 % 0x40) := (byte_iff (by omega)).mpr (by omega)
          have hd' : d = UInt8.ofNat (0x80 + character % 0x40) := (byte_iff (by omega)).mpr (by omega)
          unfold utf8Char
          rw [if_neg (by omega), if_neg (by omega), if_neg (by omega), ← ha', ← hb', ← hc', ← hd']
          rfl

theorem first_of {a : UInt8} {bs : Bytes} {n character : Nat} (hn : nonASCIISequenceLength a = n)
    (hdecode : asCharacter (a :: bs) n = some character) :
    firstToken (a :: bs) = some (some character, n) := by
  obtain ⟨htwo, hlen⟩ := decode_length hdecode
  rw [← hn] at hdecode hlen ⊢
  have hascii : ¬ isASCII a = true := by
    intro h
    have hlt := length_iff.1.mp h
    unfold nonASCIISequenceLength at hn
    rw [if_pos hlt] at hn
    omega
  exact first_good hascii (by omega) hlen hdecode

theorem char_first {character : Nat} (h : Scalar character) (rest : Bytes) :
    lexer.first (utf8Char character ++ rest) = some (some character, (utf8Char character).length) := by
  obtain ⟨hlt, hsurrogate⟩ := h
  show firstToken _ = _
  unfold utf8Char
  split_ifs with h1 h2 h3
  · have ha : (UInt8.ofNat character).toNat = character := ofNat8 (by omega)
    have hascii := length_iff.1.mpr (ha.symm ▸ h1)
    rw [List.singleton_append, first_ascii hascii, ha]
    rfl
  · have ha : (UInt8.ofNat (0xC0 + character / 0x40)).toNat = 0xC0 + character / 0x40 := ofNat8 (by omega)
    have hb : (UInt8.ofNat (0x80 + character % 0x40)).toNat = 0x80 + character % 0x40 := ofNat8 (by omega)
    have hlen := length_iff.2.1.mpr (by omega : 0x80 ≤ (UInt8.ofNat (0xC0 + character / 0x40)).toNat ∧ _ < 0xE0)
    exact first_of hlen (decode_two.mpr (by omega))
  · have ha : (UInt8.ofNat (0xE0 + character / 0x1000)).toNat = 0xE0 + character / 0x1000 := ofNat8 (by omega)
    have hb : (UInt8.ofNat (0x80 + character / 0x40 % 0x40)).toNat = 0x80 + character / 0x40 % 0x40 := ofNat8 (by omega)
    have hc : (UInt8.ofNat (0x80 + character % 0x40)).toNat = 0x80 + character % 0x40 := ofNat8 (by omega)
    have hlen := length_iff.2.2.1.mpr (by omega : 0xE0 ≤ (UInt8.ofNat (0xE0 + character / 0x1000)).toNat ∧ _ < 0xF0)
    exact first_of hlen (decode_three.mpr (by omega))
  · have ha : (UInt8.ofNat (0xF0 + character / 0x40000)).toNat = 0xF0 + character / 0x40000 := ofNat8 (by omega)
    have hb : (UInt8.ofNat (0x80 + character / 0x1000 % 0x40)).toNat = 0x80 + character / 0x1000 % 0x40 :=
      ofNat8 (by omega)
    have hc : (UInt8.ofNat (0x80 + character / 0x40 % 0x40)).toNat = 0x80 + character / 0x40 % 0x40 := ofNat8 (by omega)
    have hd : (UInt8.ofNat (0x80 + character % 0x40)).toNat = 0x80 + character % 0x40 := ofNat8 (by omega)
    have hlen := length_iff.2.2.2.mpr (by omega : 0xF0 ≤ (UInt8.ofNat (0xF0 + character / 0x40000)).toNat ∧ _ < 0xF5)
    exact first_of hlen (decode_four.mpr (by omega))

/-! ## strings -/

/-- the string of some characters -/
def ofChars (chs : List Nat) : WString := chs.flatMap utf16Char

theorem utf16Char_cases {character : Nat} (h : Scalar character) :
    (∃ c, utf16Char character = [c] ∧ c.toNat = character ∧ isLead c = false ∧ isTrail c = false) ∨
    ∃ c c2, utf16Char character = [c, c2] ∧ pairChar c c2 = character ∧ isLead c = true ∧ isTrail c2 = true := by
  obtain ⟨hlt, hsurrogate⟩ := h
  unfold utf16Char
  split_ifs with hbmp
  · have hc : (UInt16.ofNat character).toNat = character := ofNat16 (by omega)
    refine Or.inl ⟨_, rfl, hc, ?_, ?_⟩
    · rw [Bool.eq_false_iff, Ne, isLead_iff]
      omega
    · rw [Bool.eq_false_iff, Ne, isTrail_iff]
      omega
  · have hc : (UInt16.ofNat (character / 0x400 + 0xD7C0)).toNat = character / 0x400 + 0xD7C0 := ofNat16 (by omega)
    have hc2 : (UInt16.ofNat (0xDC00 + character % 0x400)).toNat = 0xDC00 + character % 0x400 := ofNat16 (by omega)
    refine Or.inr ⟨_, _, rfl, ?_, ?_, ?_⟩
    · unfold pairChar
      omega
    · rw [isLead_iff]
      omega
    · rw [isTrail_iff]
      omega

theorem wellFormed_char {character : Nat} (h : Scalar character) (s : WString) :
    wellFormed (utf16Char character ++ s) = wellFormed s := by
  rcases utf16Char_cases h with ⟨c, heq, -, hlead, htrail⟩ | ⟨c, c2, heq, -, hlead, htrail⟩
  · rw [heq]
    cases s with
    | nil => simp only [List.append_nil, wellFormed, hlead, htrail, Bool.not_false, Bool.and_self]
    | cons c2 rest =>
      simp only [List.singleton_append, wellFormed, hlead, htrail, Bool.false_eq_true, if_false, Bool.not_false, Bool.true_and]
  · rw [heq]
    simp only [List.cons_append, List.nil_append, wellFormed, hlead, htrail, if_true, Bool.true_and]

theorem utf8_char {character : Nat} (h : Scalar character) (s : WString) :
    utf8 (utf16Char character ++ s) = utf8Char character ++ utf8 s := by
  rcases utf16Char_cases h with ⟨c, heq, hc, hlead, -⟩ | ⟨c, c2, heq, hpair, hlead, htrail⟩
  · rw [heq, ← hc]
    cases s with
    | nil => simp only [List.append_nil, utf8]
    | cons c2 rest => simp only [List.singleton_append, utf8, hlead, Bool.false_and, Bool.false_eq_true, if_false]
  · rw [heq, ← hpair]
    simp only [List.cons_append, List.nil_append, utf8, hlead, htrail, Bool.and_self, if_true]

theorem wellFormed_ofChars {chs : List Nat} (h : ∀ ch, ch ∈ chs → Scalar ch) : wellFormed (ofChars chs) = true := by
  induction chs with
  | nil => rfl
  | cons ch chs ih =>
    obtain ⟨hch, hchs⟩ := List.forall_mem_cons.mp h
    show wellFormed (utf16Char ch ++ ofChars chs) = true
    rw [wellFormed_char hch]
    exact ih hchs

theorem utf8_ofChars {chs : List Nat} (h : ∀ ch, ch ∈ chs → Scalar ch) : utf8 (ofChars chs) = chs.flatMap utf8Char := by
  induction chs with
  | nil => rfl
  | cons ch chs ih =>
    obtain ⟨hch, hchs⟩ := List.forall_mem_cons.mp h
    show utf8 (utf16Char ch ++ ofChars chs) = _
    rw [utf8_char hch, ih hchs]
    rfl

theorem ofChars_exists (s : WString) (h : wellFormed s = true) :
    ∃ chs, (∀ ch, ch ∈ chs → Scalar ch) ∧ ofChars chs = s := by
  induction s using wellFormed.induct with
  | case1 => exact ⟨[], fun _ hmem => absurd hmem List.not_mem_nil, rfl⟩
  | case2 c =>
    simp only [wellFormed, Bool.and_eq_true, Bool.not_eq_true'] at h
    refine ⟨[c.toNat], List.forall_mem_singleton.mpr (scalar_unit c h.1 h.2), ?_⟩
    show utf16Char c.toNat ++ [] = _
    rw [utf16Char_unit]
    rfl
  | case3 c c2 rest hlead ih =>
    simp only [wellFormed, hlead, if_true, Bool.and_eq_true] at h
    obtain ⟨chs, hchs, heq⟩ := ih h.2
    refine ⟨pairChar c c2 :: chs, List.forall_mem_cons.mpr ⟨scalar_pair c c2 hlead h.1, hchs⟩, ?_⟩
    show utf16Char (pairChar c c2) ++ ofChars chs = _
    rw [utf16Char_pair c c2 hlead h.1, heq]
    rfl
  | case4 c c2 rest hlead ih =>
    have hlead := Bool.eq_false_iff.mpr hlead
    simp only [wellFormed, hlead, Bool.false_eq_true, if_false, Bool.and_eq_true, Bool.not_eq_true'] at h
    obtain ⟨chs, hchs, heq⟩ := ih h.2
    refine ⟨c.toNat :: chs, List.forall_mem_cons.mpr ⟨scalar_unit c hlead h.1, hchs⟩, ?_⟩
    show utf16Char c.toNat ++ ofChars chs = _
    rw [utf16Char_unit, heq]
    rfl

/-! ## what the codec takes -/

theorem lex_chars {chs : List Nat} (h : ∀ ch, ch ∈ chs → Scalar ch) (rest : Bytes) :
    lex lexer true (chs.flatMap utf8Char ++ rest) = (chs.map some ++ (lex lexer true rest).1, (lex lexer true rest).2) := by
  induction chs with
  | nil => rfl
  | cons ch chs ih =>
    obtain ⟨hch, hchs⟩ := List.forall_mem_cons.mp h
    rw [List.flatMap_cons, List.append_assoc, lex_some lexer true (char_first hch _), List.drop_left, ih hchs]
    rfl

theorem lex_encoded {chs : List Nat} (h : ∀ ch, ch ∈ chs → Scalar ch) :
    lex lexer true (chs.flatMap utf8Char) = (chs.map some, []) := by
  have hlex := lex_chars h []
  rw [List.append_nil] at hlex
  exact hlex.trans (congrArg (·, []) (List.append_nil _))

theorem lex_front {chs : List Nat} {tail : List (Option Nat)} {xs : Bytes}
    (h : (lex lexer true xs).1 = chs.map some ++ tail) :
    ∃ rest, xs = chs.flatMap utf8Char ++ rest ∧ (lex lexer true rest).1 = tail := by
  induction chs generalizing xs with
  | nil => exact ⟨xs, rfl, h⟩
  | cons ch chs ih =>
    cases hfirst : lexer.first xs with
    | some r =>
      rw [lex_some lexer true hfirst] at h
      obtain ⟨hr, hrest⟩ := List.cons.inj h
      obtain ⟨rest, hdrop, hlex⟩ := ih hrest
      have hbytes := (first_char (hfirst.trans (congrArg (fun t => some (t, r.2)) hr))).2
      refine ⟨rest, ?_, hlex⟩
      rw [List.flatMap_cons, List.append_assoc, ← hdrop, ← hbytes, List.take_append_drop]
    | none =>
      cases xs with
      | nil => exact absurd h nofun
      | cons x xs =>
        rw [lex_stub lexer hfirst] at h
        exact absurd (List.cons.inj h).1 nofun

theorem lex_eq_nil {xs : Bytes} (h : (lex lexer true xs).1 = []) : xs = [] := by
  cases xs with
  | nil => rfl
  | cons x xs =>
    cases hfirst : lexer.first (x :: xs) with
    | some r =>
      rw [lex_some lexer true hfirst] at h
      exact absurd h nofun
    | none =>
      rw [lex_stub lexer hfirst] at h
      exact absurd h nofun

theorem chars_of {ts : List (Option Nat)} (h : none ∉ ts) : ∃ chs : List Nat, ts = chs.map some := by
  induction ts with
  | nil => exact ⟨[], rfl⟩
  | cons t ts ih =>
    obtain ⟨ht, hts⟩ := not_or.mp (mt List.mem_cons.mpr h)
    obtain ⟨chs, rfl⟩ := ih hts
    obtain ⟨ch, rfl⟩ := Option.ne_none_iff_exists'.mp (Ne.symm ht)
    exact ⟨ch :: chs, rfl⟩

theorem prefix_chars {chs chs' : List Nat} {tail tail' : List (Option Nat)} (htail : ∀ ch more, tail ≠ some ch :: more)
    (h : chs.map some ++ tail = chs'.map some ++ tail') : chs' <+: chs := by
  induction chs' generalizing chs with
  | nil => exact List.nil_prefix
  | cons ch' chs' ih =>
    cases chs with
    | nil => exact absurd h (htail ch' _)
    | cons ch chs =>
      obtain ⟨hch, hrest⟩ := List.cons.inj h
      obtain rfl := Option.some.inj hch
      exact (List.prefix_cons_inj ch).mpr (ih hrest)

theorem text_chars (chs : List Nat) : text (chs.map some) = ofChars chs := by
  unfold text ofChars
  rw [List.flatMap_map]
  rfl

theorem chars_none (chs : List Nat) : (chs.map some).any Option.isNone = false := by
  rw [List.any_eq_false]
  intro t ht
  obtain ⟨ch, -, rfl⟩ := List.mem_map.mp ht
  exact Bool.false_ne_true

theorem lex_scalar (xs : Bytes) : ∀ ch, some ch ∈ (lex lexer true xs).1 → Scalar ch := by
  induction xs using lex_induction lexer with
  | hsome xs t n h ih =>
    intro ch hmem
    rw [lex_some lexer true h] at hmem
    rcases List.mem_cons.mp hmem with heq | hmem
    · rw [← heq] at h
      exact (first_char h).1
    · exact ih ch hmem
  | hnil => exact fun ch hmem => absurd hmem List.not_mem_nil
  | hnone x xs h ih =>
    intro ch hmem
    rw [lex_stub lexer h] at hmem
    rcases List.mem_cons.mp hmem with heq | hmem
    · exact absurd heq nofun
    · exact ih ch hmem

theorem lex_valid (xs : Bytes) (h : (lex lexer true xs).1.any Option.isNone = false) :
    ∃ chs : List Nat, (lex lexer true xs).1 = chs.map some ∧ xs = chs.flatMap utf8Char := by
  obtain ⟨chs, hchs⟩ := chars_of fun hmem => List.any_eq_false.mp h _ hmem rfl
  obtain ⟨rest, hbytes, hrest⟩ := lex_front (hchs.trans (List.append_nil _).symm)
  rw [lex_eq_nil hrest, List.append_nil] at hbytes
  exact ⟨chs, hchs, hbytes⟩

theorem shown_scalar {t : Option Nat} (h : ∀ ch, t = some ch → Scalar ch) : ∃ ch, Scalar ch ∧ shown t = utf16Char ch := by
  cases t with
  | none => exact ⟨0xFFFD, ⟨by decide, Or.inr (by decide)⟩, rfl⟩
  | some ch => exact ⟨ch, h ch rfl, rfl⟩

theorem text_wellFormed {ts : List (Option Nat)} (h : ∀ ch, some ch ∈ ts → Scalar ch) : wellFormed (text ts) = true := by
  induction ts with
  | nil => rfl
  | cons t ts ih =>
    obtain ⟨ch, hch, hshown⟩ := shown_scalar (t := t) fun ch heq => h ch (heq ▸ List.mem_cons_self)
    rw [text_cons, hshown, wellFormed_char hch]
    exact ih fun ch hmem => h ch (List.mem_cons_of_mem t hmem)

/-! ## no trap in UTF-8 -/

/-- after the first of four bytes comes no first byte -/
def Follows (a b : UInt8) : Prop := ¬ (0xF0 ≤ a.toNat ∧ 0xC2 ≤ b.toNat)

theorem char_bytes {ch : Nat} (h : ch < 0x110000) :
    ∃ a bs, utf8Char ch = a :: bs ∧ (∀ b, b ∈ bs → b.toNat < 0xC0) ∧ (bs = [] → a.toNat < 0xF0) := by
  have hlow : ∀ n, (UInt8.ofNat (0x80 + n % 0x40)).toNat < 0xC0 := by
    intro n
    rw [ofNat8 (by omega)]
    omega
  unfold utf8Char
  split_ifs with h1 h2 h3
  · refine ⟨_, _, rfl, fun b hb => absurd hb List.not_mem_nil, fun _ => ?_⟩
    rw [ofNat8 (by omega)]
    omega
  · exact ⟨_, _, rfl, List.forall_mem_singleton.mpr (hlow _), nofun⟩
  · exact ⟨_, _, rfl, List.forall_mem_cons.mpr ⟨hlow _, List.forall_mem_singleton.mpr (hlow _)⟩, nofun⟩
  · exact ⟨_, _, rfl, List.forall_mem_cons.mpr ⟨hlow _, List.forall_mem_cons.mpr ⟨hlow _,
      List.forall_mem_singleton.mpr (hlow _)⟩⟩, nofun⟩

theorem follows_append {a : UInt8} {bs rest : Bytes} (hbs : ∀ b, b ∈ bs → b.toNat < 0xC0)
    (ha : bs = [] → a.toNat < 0xF0) (hrest : rest.IsChain Follows) : (a :: bs ++ rest).IsChain Follows := by
  induction bs generalizing a with
  | nil =>
    cases rest with
    | nil => exact List.isChain_singleton a
    | cons r rs => exact List.isChain_cons_cons.mpr ⟨fun hcond => absurd hcond.1 (Nat.not_le.mpr (ha rfl)), hrest⟩
  | cons b bs ih =>
    obtain ⟨hb, hbs⟩ := List.forall_mem_cons.mp hbs
    refine List.isChain_cons_cons.mpr ⟨fun hcond => ?_, ih hbs fun _ => ?_⟩ <;> omega

theorem chars_follow {chs : List Nat} (h : ∀ ch, ch ∈ chs → Scalar ch) : (chs.flatMap utf8Char).IsChain Follows := by
  induction chs with
  | nil => exact List.isChain_nil
  | cons ch chs ih =>
    obtain ⟨hch, hchs⟩ := List.forall_mem_cons.mp h
    obtain ⟨a, bs, heq, hbs, ha⟩ := char_bytes hch.1
    rw [List.flatMap_cons, heq]
    exact follows_append hbs ha (ih hchs)

theorem chars_clear {chs : List Nat} (h : ∀ ch, ch ∈ chs → Scalar ch) : ¬ Trap (chs.flatMap utf8Char) := by
  rintro ⟨a, b, c, d, hin, ha, -, hb, -⟩
  have hchain := List.IsChain.infix (chars_follow h) hin
  exact (List.isChain_cons_cons.mp hchain).1 ⟨ha, hb⟩

/-! ## pages -/

/-- `encode`: an unpaired surrogate becomes three bytes -/
def encode (characters : WString) : Bytes := utf8 characters

/-- **The pieces of a text show what the text does.**  Where the bytes come in and how they are aligned makes no
difference, unless they fall into the trap. -/
theorem decode_pieces (word word' address : Nat) (pieces : List (Nat × Bytes)) (last : Nat × Bytes) (sawError : Bool)
    (h : ¬ Trap (pieceBytes pieces last)) :
    decodeAll word (pieceCalls pieces last) {} sawError =
      decodeAll word' (pieceCalls [] (address, pieceBytes pieces last)) {} sawError := by
  have hone := decodeAll_pieces word' [] (address, pieceBytes pieces last) {} sawError rfl (Or.inl ⟨rfl, rfl⟩)
  rw [decodeAll_pieces word pieces last {} sawError rfl (Or.inr h), hone]
  rfl

theorem decode_pieces_two : decodeAll 4 (pieceCalls [(0, [0x41, 0xE3, 0x81])] (3, [0x82, 0xC3])) {} false =
    decodeAll 8 (pieceCalls [] (1, [0x41, 0xE3, 0x81, 0x82, 0xC3])) {} false := by
  refine decode_pieces 4 8 1 [(0, [0x41, 0xE3, 0x81])] (3, [0x82, 0xC3]) false ?_
  rintro ⟨a, b, c, d, hin, ha, -⟩
  have hmem : a ∈ ([0x41, 0xE3, 0x81, 0x82, 0xC3] : Bytes) := hin.subset List.mem_cons_self
  simp only [List.mem_cons, List.not_mem_nil, or_false] at hmem
  rcases hmem with rfl | rfl | rfl | rfl | rfl <;> exact absurd ha (by decide)

-- the fourth byte is lost when the first stands alone at the end of a piece
example : decodeAll 4 (pieceCalls [(0, [0xF0])] (0, [0xC3, 0xA9, 0x41])) {} false = some ({}, [0xFFFD, 0xE9, 0xFFFD], true) ∧
    decodeAll 4 (pieceCalls [] (0, [0xF0, 0xC3, 0xA9, 0x41])) {} false = some ({}, [0xFFFD, 0xE9, 0x41], true) := by
  decide +kernel

/-- **What the codec takes without an error is UTF-8.**  What it shows is well formed, whatever the bytes are. -/
theorem decode_valid (word address : Nat) (bytes : Bytes) :
    ∃ out saw, decodeAll word (pieceCalls [] (address, bytes)) {} false = some ({}, out, saw) ∧ wellFormed out = true ∧
      (saw = false ↔ ∃ s, wellFormed s = true ∧ encode s = bytes) ∧
      ∀ s, wellFormed s = true → encode s = bytes → out = s := by
  have hone := decodeAll_pieces word [] (address, bytes) {} false rfl (Or.inl ⟨rfl, rfl⟩)
  have hencode : ∀ s, wellFormed s = true → encode s = bytes →
      ∃ chs, ofChars chs = s ∧ (lex lexer true bytes).1 = chs.map some := by
    intro s hs heq
    obtain ⟨chs, hchs, rfl⟩ := ofChars_exists s hs
    refine ⟨chs, rfl, ?_⟩
    unfold encode at heq
    rw [← heq, utf8_ofChars hchs, lex_encoded hchs]
  refine ⟨_, _, hone, text_wellFormed (lex_scalar bytes), ⟨fun hsaw => ?_, ?_⟩, ?_⟩
  · obtain ⟨chs, hlex, hbytes⟩ := lex_valid bytes hsaw
    have hchs : ∀ ch, ch ∈ chs → Scalar ch := fun ch hmem =>
      lex_scalar bytes ch (by rw [hlex]; exact List.mem_map_of_mem hmem)
    exact ⟨ofChars chs, wellFormed_ofChars hchs, (utf8_ofChars hchs).trans hbytes.symm⟩
  · rintro ⟨s, hs, heq⟩
    obtain ⟨chs, -, hlex⟩ := hencode s hs heq
    show (lex lexer true bytes).1.any Option.isNone = false
    rw [hlex]
    exact chars_none chs
  · intro s hs heq
    obtain ⟨chs, hs, hlex⟩ := hencode s hs heq
    show text (lex lexer true bytes).1 = s
    rw [hlex, text_chars, hs]

/-- **A decoder that stops at an error** shows the longest text that the bytes begin with. -/
theorem decode_stops (word address : Nat) (bytes : Bytes) :
    ∃ codec out saw, decode word {} ⟨address, bytes, true, true⟩ false = some (codec, out, saw) ∧ wellFormed out = true ∧
      encode out <+: bytes ∧ (∀ s, wellFormed s = true → encode s <+: bytes → s <+: out) ∧
      (saw = false ↔ encode out = bytes) := by
  have hnew : ({} : TextCodecUTF8).m_partialSequence.length ≤ 4 := Nat.zero_le 4
  obtain ⟨c', heq, -, hdecoded⟩ := decodeRounds_spec word true true (call_fits ⟨address, bytes, true, true⟩ false hnew)
    (Nat.le_add_left bytes.length address)
  have htokens : ∃ chs : List Nat, ∃ tail, (lex lexer true bytes).1 = chs.map some ++ tail ∧ c'.destination = ofChars chs ∧
      (c'.sawError = false ∧ tail = [] ∨ c'.sawError = true ∧ ∃ more, tail = none :: more) := by
    rcases hdecoded ⟨rfl, Or.inl rfl⟩ with ⟨-, ts, more, hlex, hnone, hdest, hsaw⟩ | ⟨⟨ts, hlex, hnone, hdest, hsaw⟩, -, hnil⟩
    · obtain ⟨chs, rfl⟩ := chars_of hnone
      exact ⟨chs, _, hlex, hdest.trans (text_chars chs), Or.inr ⟨hsaw, more, rfl⟩⟩
    · obtain ⟨chs, rfl⟩ := chars_of (hnone rfl)
      rw [hnil rfl] at hlex
      exact ⟨chs, [], congrArg Prod.fst hlex, hdest.trans (text_chars chs), Or.inl ⟨hsaw.trans (chars_none chs), rfl⟩⟩
  obtain ⟨chs, tail, hlex, hdest, hend⟩ := htokens
  have hchs : ∀ ch, ch ∈ chs → Scalar ch := fun ch hmem => lex_scalar bytes ch (by
    rw [hlex]
    exact List.mem_append_left _ (List.mem_map_of_mem hmem))
  obtain ⟨rest, hbytes, hrest⟩ := lex_front hlex
  have hencode : encode (ofChars chs) = chs.flatMap utf8Char := utf8_ofChars hchs
  refine ⟨⟨c'.m_partialSequence⟩, c'.destination, c'.sawError, by rw [decode_eq, heq]; rfl, ?_, ?_, fun s hs hbegins => ?_, ?_⟩
  · rw [hdest]
    exact wellFormed_ofChars hchs
  · rw [hdest, hencode, hbytes]
    exact List.prefix_append _ _
  · obtain ⟨chs', hchs', rfl⟩ := ofChars_exists s hs
    obtain ⟨rest', hbytes'⟩ := hbegins
    have hlex' := congrArg Prod.fst (lex_chars hchs' rest')
    rw [← utf8_ofChars hchs'] at hlex'
    have htail : ∀ ch more, tail ≠ some ch :: more := by
      rcases hend with ⟨-, rfl⟩ | ⟨-, more, rfl⟩ <;> exact nofun
    obtain ⟨more, rfl⟩ := prefix_chars htail (hlex.symm.trans (hbytes' ▸ hlex'))
    rw [hdest]
    exact ⟨ofChars more, List.flatMap_append.symm⟩
  · rw [hdest, hencode]
    rcases hend with ⟨hsaw, rfl⟩ | ⟨hsaw, more, rfl⟩
    · rw [lex_eq_nil hrest, List.append_nil] at hbytes
      exact ⟨fun _ => hbytes.symm, fun _ => hsaw⟩
    · refine ⟨fun h => absurd (h.symm.trans hsaw) nofun, fun h => ?_⟩
      rw [h] at hbytes
      rw [List.self_eq_append_right.mp hbytes] at hrest
      exact absurd hrest nofun

/-- **A string is read as it was written**, in whatever pieces its bytes come. -/
theorem decode_encode (word : Nat) (s : WString) (h : wellFormed s = true) (pieces : List (Nat × Bytes))
    (last : Nat × Bytes) (hbytes : pieceBytes pieces last = encode s) :
    decodeAll word (pieceCalls pieces last) {} false = some ({}, s, false) := by
  obtain ⟨chs, hchs, rfl⟩ := ofChars_exists s h
  unfold encode at hbytes
  rw [utf8_ofChars hchs] at hbytes
  have heq := decodeAll_pieces word pieces last {} false rfl (Or.inr (by
    rw [hbytes]
    exact chars_clear hchs))
  have hlex : lex lexer true (({} : TextCodecUTF8).m_partialSequence ++ chs.flatMap utf8Char) = (chs.map some, []) :=
    lex_encoded hchs
  rw [heq, hbytes, hlex, text_chars, chars_none]
  rfl

theorem decode_encode_two :
    decodeAll 4 (pieceCalls [(0, [0xE3]), (0, [0x81, 0x82, 0xF0, 0x9F])] (0, [0x98, 0x80])) {} false =
      some ({}, [0x3042, 0xD83D, 0xDE00], false) :=
  decode_encode 4 [0x3042, 0xD83D, 0xDE00] (by decide) [(0, [0xE3]), (0, [0x81, 0x82, 0xF0, 0x9F])] (0, [0x98, 0x80])
    (by decide)

end Wkc.Utf8Codec
