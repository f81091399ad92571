import WkcBrowser.Wtf.Url

/-!
# `WTF::String` taken apart

* `split`            the words between separators;
* `Unicode`          what lower case and white space are beyond ASCII;
* `stripWhiteSpace`, `toInt`, `right`   as in `StringImpl.cpp` and `WTFString.cpp`;
* `split_cons`, `split_append`, `split_word`   a separator at an end changes no words; the words of a list of words;
* `collapse`         the words put together again: of separators in a row, one is left;
* `utf8_append`, `le_length_utf8`, `ascii_of_length_utf8`   UTF-8 in pieces, and how many bytes a text has.
-/

namespace Wkc
open Buf

/-- `String(const char*)` -/
def fromLatin1 (bs : Bytes) : WString := bs.map UInt8.toUInt16

def splitAll (separator : UInt16) : WString → List WString
  | [] => [[]]
  | c :: cs =>
    if c = separator then [] :: splitAll separator cs
    else
      match splitAll separator cs with
      | [] => [[c]]
      | word :: words => (c :: word) :: words

/-- `String::split` without empty entries -/
def split (separator : UInt16) (s : WString) : List WString :=
  (splitAll separator s).filter (fun word => !word.isEmpty)

def isASCII (c : UInt16) : Bool := c.toNat < 0x80

def isASCIIDigit (c : UInt16) : Bool := 0x30 ≤ c.toNat && c.toNat ≤ 0x39

def isASCIISpace (c : UInt16) : Bool := c.toNat ≤ 0x20 && (c.toNat == 0x20 || (c.toNat ≤ 0xD && 0x9 ≤ c.toNat))

/-- `String::lower` and `isSpaceOrNewline` -/
structure Unicode where
  lower : WString → WString
  isSpaceOrNewline : UInt16 → Bool
  lower_ascii : ∀ s, s.all isASCII = true → lower s = s.map foldCase
  isSpaceOrNewline_ascii : ∀ c, isASCII c = true → isSpaceOrNewline c = isASCIISpace c

/-- ASCII, and nothing changes beyond -/
def Unicode.latin : Unicode where
  lower s := s.map foldCase
  isSpaceOrNewline := isASCIISpace
  lower_ascii _ _ := rfl
  isSpaceOrNewline_ascii _ _ := rfl

def stripWhiteSpace (u : Unicode) (s : WString) : WString :=
  ((s.dropWhile u.isSpaceOrNewline).reverse.dropWhile u.isSpaceOrNewline).reverse

/-- `String::toInt`: what follows the digits is ignored; `none` if it is not an `int` -/
def toInt (u : Unicode) (s : WString) : Option Int :=
  let s := s.dropWhile u.isSpaceOrNewline
  let isNegative := s.head? = some 0x2D
  let s := if s.head? = some 0x2D ∨ s.head? = some 0x2B then s.tail else s
  let digits := s.takeWhile isASCIIDigit
  let value : Nat := digits.foldl (fun value c => 10 * value + (c.toNat - 0x30)) 0
  if digits = [] then none
  else if isNegative then (if value ≤ 2 ^ 31 then some (-value) else none)
  else if value < 2 ^ 31 then some value else none

/-- a start before the string is taken for one behind it -/
def right (s : WString) (len : Nat) : WString := if len ≤ s.length then s.drop (s.length - len) else []

/-! ## words -/

section
variable {separator : UInt16}

theorem splitAll_ne_nil (s : WString) : splitAll separator s ≠ [] := by
  cases s with
  | nil => simp [splitAll]
  | cons c cs =>
    rw [splitAll]
    split
    · simp
    · split <;> simp

theorem splitAll_cons_ne {c : UInt16} (hc : c ≠ separator) {s word : WString} {words : List WString}
    (h : splitAll separator s = word :: words) : splitAll separator (c :: s) = (c :: word) :: words := by
  rw [splitAll, if_neg hc, h]

theorem splitAll_append (a b : WString) :
    splitAll separator (a ++ separator :: b) = splitAll separator a ++ splitAll separator b := by
  induction a with
  | nil => simp [splitAll]
  | cons c a ih =>
    by_cases hc : c = separator
    · simp [splitAll, hc, ih]
    · obtain ⟨word, words, hwords⟩ := List.exists_cons_of_ne_nil (splitAll_ne_nil a)
      rw [splitAll_cons_ne hc hwords, List.cons_append]
      refine splitAll_cons_ne hc ?_
      rw [ih, hwords]
      rfl

theorem split_append (a b : WString) :
    split separator (a ++ separator :: b) = split separator a ++ split separator b := by
  rw [split, splitAll_append, List.filter_append]
  rfl

theorem split_nil : split separator [] = [] := rfl

theorem split_cons (s : WString) : split separator (separator :: s) = split separator s := split_append [] s

theorem split_snoc (s : WString) : split separator (s ++ [separator]) = split separator s := by
  rw [split_append, split_nil, List.append_nil]

theorem splitAll_not_mem (s : WString) : ∀ word ∈ splitAll separator s, separator ∉ word := by
  induction s with
  | nil => simp [splitAll]
  | cons c cs ih =>
    intro word hword
    rw [splitAll] at hword
    by_cases hc : c = separator
    · rw [if_pos hc] at hword
      rcases List.mem_cons.mp hword with rfl | hword
      · exact List.not_mem_nil
      · exact ih word hword
    · obtain ⟨first, words, hwords⟩ := List.exists_cons_of_ne_nil (splitAll_ne_nil cs)
      rw [if_neg hc, hwords] at hword
      rw [hwords] at ih
      rcases List.mem_cons.mp hword with rfl | hword
      · intro hmem
        rcases List.mem_cons.mp hmem with heq | hmem
        · exact hc heq.symm
        · exact ih first List.mem_cons_self hmem
      · exact ih word (List.mem_cons_of_mem _ hword)

theorem splitAll_word {s : WString} (h : separator ∉ s) : splitAll separator s = [s] := by
  induction s with
  | nil => rfl
  | cons c cs ih =>
    have hc : c ≠ separator := fun heq => h (heq ▸ List.mem_cons_self)
    exact splitAll_cons_ne hc (ih (fun hmem => h (List.mem_cons_of_mem c hmem)))

theorem splitAll_within {a : WString} (h : separator ∉ a) {b word : WString} {words : List WString}
    (hb : splitAll separator b = word :: words) : splitAll separator (a ++ b) = (a ++ word) :: words := by
  induction a with
  | nil => exact hb
  | cons c a ih =>
    have hc : c ≠ separator := fun heq => h (heq ▸ List.mem_cons_self)
    exact splitAll_cons_ne hc (ih (fun hmem => h (List.mem_cons_of_mem c hmem)))

theorem split_word {s : WString} (h : separator ∉ s) (hne : s ≠ []) : split separator s = [s] := by
  simp [split, splitAll_word h, hne]

theorem split_mem {c : UInt16} {s : WString} (h : c ∈ s) (hc : c ≠ separator) : ∃ word ∈ split separator s, c ∈ word := by
  have hall : ∃ word ∈ splitAll separator s, c ∈ word := by
    induction s with
    | nil => cases h
    | cons d s ih =>
      obtain ⟨first, words, hwords⟩ := List.exists_cons_of_ne_nil (splitAll_ne_nil s)
      by_cases hd : d = separator
      · rcases List.mem_cons.mp h with rfl | h
        · exact absurd hd hc
        · obtain ⟨word, hword, hmem⟩ := ih h
          exact ⟨word, by rw [splitAll, if_pos hd]; exact List.mem_cons_of_mem _ hword, hmem⟩
      · rw [splitAll_cons_ne hd hwords]
        rcases List.mem_cons.mp h with rfl | h
        · exact ⟨_, List.mem_cons_self, List.mem_cons_self⟩
        · obtain ⟨word, hword, hmem⟩ := ih h
          rw [hwords] at hword
          rcases List.mem_cons.mp hword with rfl | hword
          · exact ⟨_, List.mem_cons_self, List.mem_cons_of_mem d hmem⟩
          · exact ⟨word, List.mem_cons_of_mem _ hword, hmem⟩
  obtain ⟨word, hword, hmem⟩ := hall
  have hne : word ≠ [] := List.ne_nil_of_mem hmem
  exact ⟨word, List.mem_filter.mpr ⟨hword, by simpa using hne⟩, hmem⟩

theorem split_flatMap (words : List WString) :
    ∀ a : WString, split separator (a ++ words.flatMap (fun word => separator :: word)) =
      split separator a ++ words.flatMap (split separator) := by
  induction words with
  | nil => simp
  | cons word words ih =>
    intro a
    rw [List.flatMap_cons, List.cons_append, split_append, ih, List.flatMap_cons]

end

/-! ## words put together -/

section
variable {separator : UInt16}

def joinWords (separator : UInt16) : List WString → WString
  | [] => []
  | word :: words => word ++ words.flatMap (fun word => separator :: word)

/-- the words with one separator between them -/
def collapse (separator : UInt16) (s : WString) : WString := joinWords separator (split separator s)

theorem joinWords_cons {words : List WString} (word : WString) (h : words ≠ []) :
    joinWords separator (word :: words) = word ++ separator :: joinWords separator words := by
  cases words with
  | nil => exact absurd rfl h
  | cons next words => simp [joinWords]

theorem split_joinWords (words : List WString) :
    split separator (joinWords separator words) = words.flatMap (split separator) := by
  cases words with
  | nil => rfl
  | cons word words => rw [joinWords, split_flatMap, List.flatMap_cons]

theorem sublist_joinWords {word : WString} {words : List WString} (h : word ∈ words) :
    word.Sublist (joinWords separator words) := by
  cases words with
  | nil => cases h
  | cons first words =>
    rcases List.mem_cons.mp h with rfl | h
    · exact List.sublist_append_left _ _
    · have hword : (separator :: word).Sublist (words.flatMap (fun word => separator :: word)) :=
        List.sublist_flatten_of_mem (List.mem_map_of_mem h)
      exact (List.sublist_cons_self separator word).trans (hword.trans (List.sublist_append_right _ _))

theorem joinWords_splitAll (s : WString) : joinWords separator (splitAll separator s) = s := by
  induction s with
  | nil => rfl
  | cons c s ih =>
    obtain ⟨word, words, hwords⟩ := List.exists_cons_of_ne_nil (@splitAll_ne_nil separator s)
    by_cases hc : c = separator
    · rw [splitAll, if_pos hc, joinWords_cons [] (splitAll_ne_nil s), ih, hc]
      rfl
    · rw [splitAll_cons_ne hc hwords]
      rw [hwords] at ih
      exact congrArg (c :: ·) ih

theorem countP_joinWords {p : UInt16 → Bool} (hp : p separator = false) (words : List WString) :
    (joinWords separator words).countP p = (words.map (List.countP p)).sum := by
  induction words with
  | nil => rfl
  | cons word words ih =>
    cases words with
    | nil => simp [joinWords]
    | cons next words =>
      rw [joinWords_cons word (List.cons_ne_nil next words), List.countP_append, List.countP_cons_of_neg (by simp [hp]), ih]
      rfl

theorem countP_collapse {p : UInt16 → Bool} (hp : p separator = false) (s : WString) :
    (collapse separator s).countP p = s.countP p := by
  have hfilter : ∀ words : List WString, ((words.filter (fun word => !word.isEmpty)).map (List.countP p)).sum =
      (words.map (List.countP p)).sum := by
    intro words
    induction words with
    | nil => rfl
    | cons word words ih =>
      cases word with
      | nil => simpa using ih
      | cons c word => simp [ih]
  rw [collapse, countP_joinWords hp, split, hfilter, ← countP_joinWords hp, joinWords_splitAll]

theorem count_joinWords {words : List WString} (hne : words ≠ []) (hwords : ∀ word ∈ words, separator ∉ word) :
    (joinWords separator words).count separator + 1 = words.length := by
  induction words with
  | nil => exact absurd rfl hne
  | cons word words ih =>
    have hword : word.count separator = 0 := List.count_eq_zero.mpr (hwords word List.mem_cons_self)
    cases words with
    | nil => simp [joinWords, hword]
    | cons next words =>
      have hrest := ih (List.cons_ne_nil next words) (fun word h => hwords word (List.mem_cons_of_mem _ h))
      rw [joinWords_cons word (List.cons_ne_nil next words), List.count_append, hword, List.count_cons_self,
        Nat.zero_add, hrest]
      rfl

theorem collapse_eq {s : WString} (h : [] ∉ splitAll separator s) : collapse separator s = s := by
  have hall : split separator s = splitAll separator s := by
    refine List.filter_eq_self.mpr (fun word hword => ?_)
    cases word with
    | nil => exact absurd hword h
    | cons c word => rfl
  rw [collapse, hall, joinWords_splitAll]

theorem count_collapse_lt {s : WString} (h : [] ∈ splitAll separator s) (hne : split separator s ≠ []) :
    (collapse separator s).count separator < s.count separator := by
  have hall := count_joinWords (splitAll_ne_nil s) (@splitAll_not_mem separator s)
  have hsome := count_joinWords hne (fun word hword => splitAll_not_mem s word (List.mem_of_mem_filter hword))
  have hlt : (split separator s).length < (splitAll separator s).length :=
    List.length_filter_lt_length_iff_exists.mpr ⟨[], h, by simp⟩
  rw [joinWords_splitAll] at hall
  rw [collapse]
  omega

theorem splitAll_cons_tail {c : UInt16} (hc : c ≠ separator) (s : WString) :
    (splitAll separator (c :: s)).tail = (splitAll separator s).tail ∧
      ([] ∈ splitAll separator (c :: s) ↔ [] ∈ (splitAll separator s).tail) := by
  obtain ⟨word, words, hwords⟩ := List.exists_cons_of_ne_nil (@splitAll_ne_nil separator s)
  rw [splitAll_cons_ne hc hwords, hwords]
  simp

theorem splitAll_doubled {rest : WString} (hne : rest ≠ []) (hrest : separator ∉ rest) (s : WString) :
    [] ∈ (splitAll separator (s ++ rest)).tail ↔ [separator, separator] <:+: s := by
  induction s with
  | nil => simp [splitAll_word hrest]
  | cons c s ih =>
    rw [List.cons_append, List.infix_cons_iff]
    by_cases hc : c = separator
    · subst hc
      rw [splitAll, if_pos rfl, List.tail_cons]
      cases s with
      | nil =>
        rw [List.nil_append, splitAll_word hrest]
        simp [Ne.symm hne]
      | cons d s =>
        by_cases hd : d = c
        · subst hd
          simp [splitAll]
        · have hpair : ¬ [c, c] <+: c :: d :: s := by simp [Ne.symm hd]
          rw [List.cons_append] at ih ⊢
          rw [(splitAll_cons_tail hd _).2, ← (splitAll_cons_tail hd _).1, ih, or_iff_right hpair]
    · have hpair : ¬ [separator, separator] <+: c :: s := by simp [Ne.symm hc]
      rw [(splitAll_cons_tail hc _).1, ih, or_iff_right hpair]

end

/-! ## ASCII texts -/


theorem utf8_ascii {s : WString} (h : s.all isASCII = true) : utf8 s = s.map UInt16.toUInt8 := by
  have hchar : ∀ c : UInt16, isASCII c = true → utf8Char c.toNat = [c.toUInt8] := by
    intro c hc
    rw [utf8Char, if_pos (of_decide_eq_true hc)]
    rfl
  induction s with
  | nil => rfl
  | cons c s ih =>
    obtain ⟨hc, hs⟩ : isASCII c = true ∧ s.all isASCII = true := by simpa using h
    cases s with
    | nil => exact hchar c hc
    | cons c2 rest =>
      have hlead := (not_surrogate_of_ascii (of_decide_eq_true hc)).1
      rw [utf8, hlead, Bool.false_and, if_neg Bool.false_ne_true, hchar c hc, ih hs]
      rfl

theorem fromLatin1_ascii {s : WString} (h : s.all isASCII = true) : fromLatin1 (s.map UInt16.toUInt8) = s := by
  rw [fromLatin1, List.map_map]
  refine (List.map_congr_left ?_).trans (List.map_id s)
  intro c hc
  have hsmall : c.toNat < 0x80 := of_decide_eq_true (List.all_eq_true.mp h c hc)
  apply UInt16.toNat_inj.mp
  show c.toNat % 2 ^ 8 = c.toNat
  omega

/-! ## UTF-8 in pieces, and its length -/

theorem utf8_append (s : WString) {t : WString} (ht : ∀ c ∈ t.head?, isTrail c = false) :
    utf8 (s ++ t) = utf8 s ++ utf8 t := by
  induction s using utf8.induct with
  | case1 => rfl
  | case2 c =>
    cases t with
    | nil => simp [utf8]
    | cons c2 rest => simp [utf8, ht c2 rfl]
  | case3 c c2 rest hpair ih => simp [utf8, hpair, ih]
  | case4 c c2 rest hpair ih =>
    rw [List.cons_append, List.cons_append, utf8, if_neg hpair, utf8, if_neg hpair, ← List.cons_append, ih,
      List.append_assoc]

theorem utf8_cons {c : UInt16} (hc : isLead c = false) (s : WString) : utf8 (c :: s) = utf8Char c.toNat ++ utf8 s := by
  cases s with
  | nil => simp [utf8]
  | cons c2 rest => simp [utf8, hc]

theorem utf8Char_length (c : UInt16) : (utf8Char c.toNat).length ≤ 3 ∧
    ((utf8Char c.toNat).length = 1 ↔ isASCII c = true) := by
  have hlt : c.toNat < 0x10000 := c.toNat_lt
  unfold utf8Char isASCII
  split
  · next h => simp [h]
  · next h =>
    split <;> simp [h]

theorem utf8_pair_length (c c2 : UInt16) : (utf8Char (pairChar c c2)).length = 4 := by
  have hle : 0x10000 ≤ pairChar c c2 := Nat.le_add_left ..
  unfold utf8Char
  rw [if_neg (by omega), if_neg (by omega), if_neg (by omega)]
  rfl

theorem le_length_utf8 (s : WString) : s.length ≤ (utf8 s).length := by
  induction s using utf8.induct with
  | case1 => exact Nat.le_refl 0
  | case2 c => exact utf8Char_length_pos c.toNat
  | case3 c c2 rest hpair ih =>
    rw [utf8, if_pos hpair, List.length_append, utf8_pair_length]
    simp only [List.length_cons]
    omega
  | case4 c c2 rest hpair ih =>
    have hpos := utf8Char_length_pos c.toNat
    rw [utf8, if_neg hpair, List.length_append]
    simp only [List.length_cons] at ih ⊢
    omega

theorem length_utf8_le (s : WString) : (utf8 s).length ≤ 3 * s.length := by
  induction s using utf8.induct with
  | case1 => exact Nat.le_refl 0
  | case2 c => exact (utf8Char_length c).1
  | case3 c c2 rest hpair ih =>
    rw [utf8, if_pos hpair, List.length_append, utf8_pair_length]
    simp only [List.length_cons]
    omega
  | case4 c c2 rest hpair ih =>
    have hunit := (utf8Char_length c).1
    rw [utf8, if_neg hpair, List.length_append]
    simp only [List.length_cons] at ih ⊢
    omega

theorem length_utf8_lt {s : WString} (h : 0x20 ∈ s) : (utf8 s).length < 3 * s.length := by
  obtain ⟨a, b, rfl⟩ := List.append_of_mem h
  have ha := length_utf8_le a
  have hb := length_utf8_le b
  rw [utf8_append a (by simp [isTrail]), utf8_cons (by decide)]
  simp only [List.length_append, List.length_cons]
  have hone : (utf8Char (0x20 : UInt16).toNat).length = 1 := rfl
  omega

theorem ascii_of_length_utf8 {s : WString} (h : (utf8 s).length = s.length) : s.all isASCII = true := by
  induction s using utf8.induct with
  | case1 => rfl
  | case2 c =>
    have hone := (utf8Char_length c).2.mp h
    simp [hone]
  | case3 c c2 rest hpair ih =>
    have hrest := le_length_utf8 rest
    rw [utf8, if_pos hpair, List.length_append, utf8_pair_length] at h
    simp only [List.length_cons] at h
    omega
  | case4 c c2 rest hpair ih =>
    have hpos := utf8Char_length_pos c.toNat
    have hrest := le_length_utf8 (c2 :: rest)
    rw [utf8, if_neg hpair, List.length_append] at h
    have hone : (utf8Char c.toNat).length = 1 := by
      simp only [List.length_cons] at h hrest
      omega
    have htail : (utf8 (c2 :: rest)).length = (c2 :: rest).length := by
      simp only [List.length_cons] at h ⊢
      omega
    rw [List.all_cons, ih htail, (utf8Char_length c).2.mp hone]
    rfl
end Wkc
