import WkcBrowser.Platform.TextCodecUTF8

/-!
# UTF-8 that comes in pieces

* `lexer`, `text`                    the characters of some bytes, byte by byte where they are no UTF-8, and what is shown;
* `Trap`                             four bytes that are read wrongly when a piece ends among them;
* `Went`, `Stopped`                  what a part of a call has done: it went on to what is left, or stopped at an error;
* `handlePartialSequence_spec`, `decodeLoop_spec`, `decode_spec`    what the parts of a call do;
* `decode_safe`                      no run of calls leaves the buffers;
* `decode_pieces`                    the pieces of a text show what the text does.
-/

namespace Wkc.Utf8Codec
open Buf Tokens

/-! ## characters -/

/-- the character that so many bytes are -/
def asCharacter (sequence : Bytes) (length : Nat) : Option Nat :=
  match length, sequence with
  | 2, a :: b :: _ =>
    if a.toNat < 0xC2 then none
    else if !within 0x80 0xBF b then none
    else some (a.toNat * 0x40 + b.toNat - 0x3080)
  | 3, a :: b :: c :: _ =>
    if !secondOfThree a b then none
    else if !within 0x80 0xBF c then none
    else some (a.toNat * 0x1000 + b.toNat * 0x40 + c.toNat - 0xE2080)
  | 4, a :: b :: c :: d :: _ =>
    if !secondOfFour a b then none
    else if !within 0x80 0xBF c then none
    else if !within 0x80 0xBF d then none
    else some (a.toNat * 0x40000 + b.toNat * 0x1000 + c.toNat * 0x40 + d.toNat - 0x3C82080)
  | _, _ => none

/-- The codec finds it, as long as it does not look behind the bytes that are there. -/
theorem decodeNonASCIISequence_eq {xs : Bytes} {count : Nat} (htwo : 2 ≤ count) (hfour : count ≤ 4)
    (h : count ≤ xs.length) : decodeNonASCIISequence xs count = some (asCharacter xs count) := by
  unfold decodeNonASCIISequence asCharacter
  match count, xs with
  | 2, a :: b :: _ =>
    dsimp
    simp only [List.getElem?_cons_zero, Option.bind_some]
    split_ifs <;> rfl
  | 3, a :: b :: c :: _ =>
    dsimp
    simp only [List.getElem?_cons_zero, Option.bind_some]
    split_ifs <;> rfl
  | 4, a :: b :: c :: d :: _ =>
    dsimp
    simp only [List.getElem?_cons_zero, Option.bind_some]
    split_ifs <;> rfl

def firstToken : Bytes → Option (Option Nat × Nat)
  | [] => none
  | b :: bs =>
    if isASCII b then some (some b.toNat, 1)
    else
      let count := nonASCIISequenceLength b
      if count = 0 then some (none, 1)
      else if (b :: bs).length < count then none
      else
        match asCharacter (b :: bs) count with
        | none => some (none, 1)
        | some character => some (some character, count)

theorem asCharacter_append {xs : Bytes} {count : Nat} (h : count ≤ xs.length) (ys : Bytes) :
    asCharacter (xs ++ ys) count = asCharacter xs count := by
  match count, xs with
  | 0, _ => rfl
  | 1, _ => rfl
  | 2, a :: b :: _ => rfl
  | 3, a :: b :: c :: _ => rfl
  | 4, a :: b :: c :: d :: _ => rfl
  | count + 5, _ => rfl

section
variable {b : UInt8} {bs : Bytes}

theorem first_ascii (h : isASCII b = true) : firstToken (b :: bs) = some (some b.toNat, 1) := by
  simp only [firstToken, h, if_true]

theorem first_zero (h : ¬ isASCII b = true) (hcount : nonASCIISequenceLength b = 0) :
    firstToken (b :: bs) = some (none, 1) := by
  simp only [firstToken, h, hcount, if_true, Bool.false_eq_true, if_false]

theorem first_short (h : ¬ isASCII b = true) (hcount : nonASCIISequenceLength b ≠ 0)
    (hlen : (b :: bs).length < nonASCIISequenceLength b) : firstToken (b :: bs) = none := by
  simp only [firstToken, h, hcount, hlen, if_true, Bool.false_eq_true, if_false]

theorem first_bad (h : ¬ isASCII b = true) (hcount : nonASCIISequenceLength b ≠ 0)
    (hlen : nonASCIISequenceLength b ≤ (b :: bs).length)
    (hdecode : asCharacter (b :: bs) (nonASCIISequenceLength b) = none) :
    firstToken (b :: bs) = some (none, 1) := by
  simp only [firstToken, h, hcount, Nat.not_lt.mpr hlen, hdecode, Bool.false_eq_true, if_false]

theorem first_good (h : ¬ isASCII b = true) (hcount : nonASCIISequenceLength b ≠ 0)
    (hlen : nonASCIISequenceLength b ≤ (b :: bs).length) {character : Nat}
    (hdecode : asCharacter (b :: bs) (nonASCIISequenceLength b) = some character) :
    firstToken (b :: bs) = some (some character, nonASCIISequenceLength b) := by
  simp only [firstToken, h, hcount, Nat.not_lt.mpr hlen, hdecode, Bool.false_eq_true, if_false]

theorem first_cases (b : UInt8) (bs : Bytes) :
    (isASCII b = true ∧ firstToken (b :: bs) = some (some b.toNat, 1)) ∨
    (¬ isASCII b = true ∧ nonASCIISequenceLength b = 0 ∧ firstToken (b :: bs) = some (none, 1)) ∨
    (¬ isASCII b = true ∧ nonASCIISequenceLength b ≠ 0 ∧ (b :: bs).length < nonASCIISequenceLength b ∧
      firstToken (b :: bs) = none) ∨
    (¬ isASCII b = true ∧ nonASCIISequenceLength b ≠ 0 ∧ nonASCIISequenceLength b ≤ (b :: bs).length ∧
      ((asCharacter (b :: bs) (nonASCIISequenceLength b) = none ∧ firstToken (b :: bs) = some (none, 1)) ∨
      ∃ character, asCharacter (b :: bs) (nonASCIISequenceLength b) = some character ∧
        firstToken (b :: bs) = some (some character, nonASCIISequenceLength b))) := by
  by_cases hascii : isASCII b = true
  · exact Or.inl ⟨hascii, first_ascii hascii⟩
  · refine Or.inr ?_
    by_cases hcount : nonASCIISequenceLength b = 0
    · exact Or.inl ⟨hascii, hcount, first_zero hascii hcount⟩
    · refine Or.inr ?_
      rcases Nat.lt_or_ge (b :: bs).length (nonASCIISequenceLength b) with hlen | hlen
      · exact Or.inl ⟨hascii, hcount, hlen, first_short hascii hcount hlen⟩
      · refine Or.inr ⟨hascii, hcount, hlen, ?_⟩
        cases hdecode : asCharacter (b :: bs) (nonASCIISequenceLength b) with
        | none => exact Or.inl ⟨rfl, first_bad hascii hcount hlen hdecode⟩
        | some character => exact Or.inr ⟨character, rfl, first_good hascii hcount hlen hdecode⟩

end

def lexer : Lexer UInt8 (Option Nat) where
  first := firstToken
  stub _ := none
  pos := by
    intro xs t n h
    cases xs with
    | nil => exact absurd h nofun
    | cons b bs =>
      have hlen : (b :: bs).length = bs.length + 1 := List.length_cons
      rcases first_cases b bs with ⟨-, heq⟩ | ⟨-, -, heq⟩ | ⟨-, -, -, heq⟩ | ⟨-, hcount, hle, ⟨-, heq⟩ | ⟨ch, -, heq⟩⟩
      all_goals rw [heq] at h
      · cases h
        omega
      · cases h
        omega
      · exact absurd h nofun
      · cases h
        omega
      · cases h
        exact ⟨Nat.pos_of_ne_zero hcount, hle⟩
  decided := by
    intro xs r ys h
    cases xs with
    | nil => exact absurd h nofun
    | cons b bs =>
      have happ := @List.length_append _ (b :: bs) ys
      rcases first_cases b bs with ⟨hascii, heq⟩ | ⟨hascii, hcount, heq⟩ | ⟨-, -, -, heq⟩ |
        ⟨hascii, hcount, hle, ⟨hdecode, heq⟩ | ⟨ch, hdecode, heq⟩⟩
      all_goals rw [heq] at h
      · exact (first_ascii hascii).trans h
      · exact (first_zero hascii hcount).trans h
      · exact absurd h nofun
      · refine (show firstToken (b :: (bs ++ ys)) = _ from first_bad hascii hcount ?_ ?_).trans h
        · exact hle.trans (happ ▸ Nat.le_add_right _ _)
        · exact (asCharacter_append hle ys).trans hdecode
      · refine (show firstToken (b :: (bs ++ ys)) = _ from first_good hascii hcount ?_ ?_).trans h
        · exact hle.trans (happ ▸ Nat.le_add_right _ _)
        · exact (asCharacter_append hle ys).trans hdecode

def shown : Option Nat → WString
  | some character => utf16Char character
  | none => [replacementCharacter]

def text (ts : List (Option Nat)) : WString := ts.flatMap shown

theorem text_cons (t : Option Nat) (ts : List (Option Nat)) : text (t :: ts) = shown t ++ text ts := List.flatMap_cons

theorem text_append (ts us : List (Option Nat)) : text (ts ++ us) = text ts ++ text us := List.flatMap_append

theorem shown_ascii {b : UInt8} (h : isASCII b = true) : shown (some b.toNat) = [UInt16.ofNat b.toNat] := by
  have hlt : b.toNat < 0x80 := of_decide_eq_true h
  show utf16Char b.toNat = _
  unfold utf16Char
  rw [if_pos (by omega)]

theorem shown_length {xs : Bytes} {t : Option Nat} {n : Nat} (h : lexer.first xs = some (t, n)) :
    (shown t).length ≤ n := by
  cases xs with
  | nil => exact absurd h nofun
  | cons b bs =>
    have h : firstToken (b :: bs) = some (t, n) := h
    rcases first_cases b bs with ⟨hascii, heq⟩ | ⟨-, -, heq⟩ | ⟨-, -, -, heq⟩ | ⟨-, hcount, -, ⟨-, heq⟩ | ⟨ch, -, heq⟩⟩
    all_goals rw [heq] at h
    · cases h
      rw [shown_ascii hascii]
      exact Nat.le_refl 1
    · cases h
      exact Nat.le_refl 1
    · exact absurd h nofun
    · cases h
      exact Nat.le_refl 1
    · cases h
      exact (utf16Char_length ch).trans (sequenceLength_ge hcount)

theorem text_length (ended : Bool) (xs : Bytes) :
    (text (lex lexer ended xs).1).length + (lex lexer ended xs).2.length ≤ xs.length := by
  induction xs using lex_induction lexer with
  | hsome xs t n h ih =>
    have hlen := shown_length h
    have hle := (lexer.pos h).2
    have happ := @List.length_append _ (shown t) (text (lex lexer ended (xs.drop n)).1)
    rw [lex_some lexer ended h, text_cons]
    rw [List.length_drop] at ih
    simp only
    omega
  | hnil => exact Nat.le_refl _
  | hnone x xs h ih =>
    cases ended with
    | false =>
      rw [lex_none lexer h]
      exact Nat.le_of_eq (Nat.zero_add _)
    | true =>
      rw [lex_stub lexer h, text_cons]
      have happ := @List.length_append _ (shown (lexer.stub x)) (text (lex lexer true xs).1)
      have hone : (shown (lexer.stub x)).length = 1 := rfl
      have hcons : (x :: xs).length = xs.length + 1 := List.length_cons
      simp only
      omega

/-! ## the trap -/

/-- the third byte is put where the fourth one was when they were read across the end of a piece -/
def Trap (xs : Bytes) : Prop :=
  ∃ a b c d, [a, b, c, d] <:+: xs ∧ 0xF0 ≤ a.toNat ∧ a.toNat ≤ 0xF4 ∧ 0xC2 ≤ b.toNat ∧ b.toNat ≤ 0xDF ∧
    0x80 ≤ c.toNat ∧ c.toNat ≤ 0xBF ∧ d ≠ b

theorem Trap.mono {xs ys : Bytes} (h : Trap xs) (hys : xs <:+: ys) : Trap ys := by
  obtain ⟨a, b, c, d, hin, hcond⟩ := h
  exact ⟨a, b, c, d, hin.trans hys, hcond⟩

/-- a partial sequence whose front can be taken away by making its size less -/
def Safe (q : Bytes) : Prop :=
  ∀ b bs character, q = b :: bs → asCharacter q (nonASCIISequenceLength b) = some character →
    q.take (q.length - nonASCIISequenceLength b) = q.drop (nonASCIISequenceLength b)

def AllSafe (p : Bytes) : Prop := ∀ q, q <:+ p → Safe q

theorem AllSafe.suffix {p q : Bytes} (h : AllSafe p) (hq : q <:+ p) : AllSafe q := fun r hr => h r (hr.trans hq)

theorem decode_length {xs : Bytes} {n character : Nat} (h : asCharacter xs n = some character) :
    2 ≤ n ∧ n ≤ xs.length := by
  match n, xs with
  | 2, a :: b :: _ => exact ⟨Nat.le_refl 2, Nat.succ_le_succ (Nat.succ_le_succ (Nat.zero_le _))⟩
  | 3, a :: b :: c :: _ =>
    exact ⟨Nat.le_succ 2, Nat.succ_le_succ (Nat.succ_le_succ (Nat.succ_le_succ (Nat.zero_le _)))⟩
  | 4, a :: b :: c :: d :: _ =>
    exact ⟨by decide, Nat.succ_le_succ (Nat.succ_le_succ (Nat.succ_le_succ (Nat.succ_le_succ (Nat.zero_le _))))⟩

theorem within_iff {low high : Nat} {b : UInt8} : within low high b = true ↔ low ≤ b.toNat ∧ b.toNat ≤ high := by
  unfold within
  rw [Bool.and_eq_true, decide_eq_true_eq, decide_eq_true_eq]

theorem decode_two {a b : UInt8} {more : Bytes} {character : Nat} :
    asCharacter (a :: b :: more) 2 = some character ↔
      0xC2 ≤ a.toNat ∧ (0x80 ≤ b.toNat ∧ b.toNat ≤ 0xBF) ∧ a.toNat * 0x40 + b.toNat - 0x3080 = character := by
  simp only [asCharacter, Option.ite_none_left_eq_some, Nat.not_lt, Bool.not_eq_true', Bool.not_eq_false,
    within_iff, Option.some.injEq]

theorem safe_of_le {b : UInt8} {bs : Bytes} (h : (b :: bs).length ≤ nonASCIISequenceLength b) : Safe (b :: bs) := by
  intro b' bs' character heq _
  cases heq
  rw [Nat.sub_eq_zero_of_le h, List.drop_eq_nil_of_le h, List.take_zero]

theorem safe_two {q : Bytes} (h : q.length ≤ 2) : Safe q := by
  intro b bs character heq hdecode
  have hlen := decode_length hdecode
  subst heq
  exact safe_of_le (by omega) b bs character rfl hdecode

theorem filled_safe {first : UInt8} {rest : Bytes} (hlen : nonASCIISequenceLength first ≤ (first :: rest).length)
    (htrap : ¬ Trap (first :: rest)) : AllSafe ((first :: rest).take (nonASCIISequenceLength first)) := by
  have hle := sequenceLength_le first
  have htake := List.length_take_of_le hlen
  intro q hq
  have hqle := hq.length_le
  rcases Nat.lt_or_eq_of_le hqle with hlt | heq
  · rcases Nat.lt_or_ge 2 q.length with h3 | h2
    · -- three of four
      have hcount : nonASCIISequenceLength first = 4 := by omega
      have hfirst : 0xF0 ≤ first.toNat ∧ first.toNat ≤ 0xF4 := by
        unfold nonASCIISequenceLength at hcount
        split_ifs at hcount <;> omega
      rw [hcount] at hlen hq htake hlt
      match rest, hlen with
      | b :: c :: d :: more, _ =>
        obtain ⟨pre, hpre⟩ := hq
        have hprelen : (pre ++ q).length = 4 := by rw [hpre]; rfl
        rw [List.length_append] at hprelen
        match pre, (by omega : pre.length = 1) with
        | [a], _ =>
          have hq : q = [b, c, d] := (List.cons.inj hpre).2
          subst hq
          intro b' bs' character heq hdecode
          cases heq
          by_cases htwo : nonASCIISequenceLength b = 2
          · rw [htwo] at hdecode ⊢
            have hd : d = b := by
              by_contra hne
              have hb : b.toNat < 0xE0 := by
                unfold nonASCIISequenceLength at htwo
                split_ifs at htwo <;> omega
              obtain ⟨hlow, hwithin, -⟩ := decode_two.mp hdecode
              exact htrap ⟨first, b, c, d, ⟨[], more, rfl⟩, hfirst.1, hfirst.2, hlow, by omega, hwithin.1, hwithin.2, hne⟩
            rw [hd]
            rfl
          · have hdlen := decode_length hdecode
            exact safe_of_le (by show 3 ≤ _; omega) b [c, d] character rfl hdecode
    · exact safe_two h2
  · -- all of them
    rw [hq.eq_of_length heq]
    intro b bs character heq' hdecode
    have hb : b = first := by
      cases hk : nonASCIISequenceLength first with
      | zero =>
        rw [hk] at heq'
        exact absurd heq' nofun
      | succ k =>
        rw [hk, List.take_succ_cons] at heq'
        exact (List.cons.inj heq').1.symm
    rw [heq'] at htake ⊢
    exact safe_of_le (by rw [htake, hb]) b bs character rfl (heq' ▸ hdecode)

theorem undecided {p : Bytes} (h : lexer.first p = none) : p = [] ∨ ∃ b bs, p = b :: bs ∧ p.length < nonASCIISequenceLength b := by
  cases p with
  | nil => exact Or.inl rfl
  | cons b bs =>
    have h : firstToken (b :: bs) = none := h
    rcases first_cases b bs with ⟨-, heq⟩ | ⟨-, -, heq⟩ | ⟨-, -, hlen, -⟩ | ⟨-, -, -, ⟨-, heq⟩ | ⟨ch, -, heq⟩⟩
    · exact absurd (heq.symm.trans h) nofun
    · exact absurd (heq.symm.trans h) nofun
    · exact Or.inr ⟨b, bs, rfl, hlen⟩
    · exact absurd (heq.symm.trans h) nofun
    · exact absurd (heq.symm.trans h) nofun

theorem undecided_length {p : Bytes} (h : lexer.first p = none) : p.length < 4 := by
  rcases undecided h with rfl | ⟨b, bs, -, hlen⟩
  · exact Nat.zero_lt_succ 3
  · exact lt_of_lt_of_le hlen (sequenceLength_le b)

theorem undecided_safe {p : Bytes} (h : lexer.first p = none) : AllSafe p := by
  intro q hq
  rcases Nat.lt_or_ge 2 q.length with h3 | h2
  · have hlt := undecided_length h
    have hqle := hq.length_le
    rw [hq.eq_of_length (by omega)]
    rcases undecided h with rfl | ⟨b, bs, rfl, hlen⟩
    · exact safe_two (Nat.zero_le 2)
    · exact safe_of_le hlen.le
  · exact safe_two h2

/-! ## the parts of a call -/

/-- what stands before `rest` in `xs` is shown -/
def Went (flush stopOnError : Bool) (xs rest : Bytes) (c c' : Cursor) : Prop :=
  ∃ ts, lex lexer flush xs = (ts ++ (lex lexer flush rest).1, (lex lexer flush rest).2) ∧
    (stopOnError = true → none ∉ ts) ∧ c'.destination = c.destination ++ text ts ∧
    c'.sawError = (c.sawError || ts.any Option.isNone)

/-- what stands before the first error in `xs` is shown -/
def Stopped (flush : Bool) (xs : Bytes) (c c' : Cursor) : Prop :=
  ∃ ts more, (lex lexer flush xs).1 = ts ++ none :: more ∧ none ∉ ts ∧ c'.destination = c.destination ++ text ts ∧
    c'.sawError = true

section
variable {room : Nat} {flush stopOnError : Bool} {xs xs₁ ys zs : Bytes} {c c₁ c₂ c' : Cursor} {t : Option Nat}

theorem Went.refl : Went flush stopOnError xs xs c c :=
  ⟨[], rfl, fun _ => List.not_mem_nil, (List.append_nil _).symm, (Bool.or_false _).symm⟩

/-- one token more, before the others -/
structure Token (flush : Bool) (xs xs₁ : Bytes) (c c₁ : Cursor) (t : Option Nat) : Prop where
  lexes : lex lexer flush xs = (t :: (lex lexer flush xs₁).1, (lex lexer flush xs₁).2)
  destination : c₁.destination = c.destination ++ shown t
  sawError : c₁.sawError = (c.sawError || t.isNone)

theorem Went.trans (h : Went flush stopOnError xs ys c c₁) (h' : Went flush stopOnError ys zs c₁ c₂) :
    Went flush stopOnError xs zs c c₂ := by
  obtain ⟨ts, hlex, hnone, hdest, hsaw⟩ := h
  obtain ⟨us, hlex', hnone', hdest', hsaw'⟩ := h'
  refine ⟨ts ++ us, ?_, fun hstop hmem => ?_, ?_, ?_⟩
  · rw [hlex, hlex', List.append_assoc]
  · exact (List.mem_append.mp hmem).elim (hnone hstop) (hnone' hstop)
  · rw [hdest', hdest, text_append, List.append_assoc]
  · rw [hsaw', hsaw, List.any_append, Bool.or_assoc]

theorem Went.stopped (h : Went flush stopOnError xs ys c c₁) (hstop : stopOnError = true) (h' : Stopped flush ys c₁ c₂) :
    Stopped flush xs c c₂ := by
  obtain ⟨ts, hlex, hnone, hdest, -⟩ := h
  obtain ⟨us, more, hlex', hnone', hdest', hsaw'⟩ := h'
  refine ⟨ts ++ us, more, ?_, fun hmem => ?_, ?_, hsaw'⟩
  · rw [hlex, hlex', List.append_assoc]
  · exact (List.mem_append.mp hmem).elim (hnone hstop) hnone'
  · rw [hdest', hdest, text_append, List.append_assoc]

theorem Token.went (ht : Token flush xs ys c c₁ t) (hok : stopOnError = true → t ≠ none) :
    Went flush stopOnError xs ys c c₁ := by
  refine ⟨[t], ht.lexes, fun hstop hmem => hok hstop (List.mem_singleton.mp hmem).symm, ?_, ?_⟩
  · rw [ht.destination, text_cons]
    exact congrArg _ (List.append_nil _).symm
  · rw [ht.sawError, List.any_cons, List.any_nil, Bool.or_false]

/-- the ways in which `handlePartialSequence` ends -/
def Handled (flush stopOnError : Bool) (xs : Bytes) (c c' : Cursor) : Prop :=
  (stopOnError = true ∧ c'.m_partialSequence ≠ [] ∧ Stopped flush xs c c') ∨
  (c'.m_partialSequence = [] ∧ Went flush stopOnError xs c'.source c c') ∨
  (flush = false ∧ lexer.first c'.m_partialSequence = none ∧ c'.m_partialSequence ≠ [] ∧
    Went flush stopOnError xs c'.m_partialSequence c c')

theorem Handled.cons (ht : Token flush xs xs₁ c c₁ t) (hok : stopOnError = true → t ≠ none)
    (h : Handled flush stopOnError xs₁ c₁ c') : Handled flush stopOnError xs c c' := by
  rcases h with ⟨hstop, hne, h⟩ | ⟨hnil, h⟩ | ⟨hflush, hfirst, hne, h⟩
  · exact Or.inl ⟨hstop, hne, (ht.went hok).stopped hstop h⟩
  · exact Or.inr (Or.inl ⟨hnil, (ht.went hok).trans h⟩)
  · exact Or.inr (Or.inr ⟨hflush, hfirst, hne, (ht.went hok).trans h⟩)

theorem stopped_first (hlex : lex lexer flush xs = (none :: (lex lexer flush xs₁).1, (lex lexer flush xs₁).2)) :
    Stopped flush xs c { c with sawError := true } :=
  ⟨[], _, by rw [hlex]; rfl, List.not_mem_nil, (List.append_nil _).symm, rfl⟩

/-- the bytes that are not read yet -/
def unread (c : Cursor) : Bytes := c.m_partialSequence ++ c.source

/-- a turn that ends the loop -/
structure Ends (room : Nat) (flush stopOnError : Bool) (c c' : Cursor) : Prop where
  leaves : Leaves room c c'
  handled : AllSafe c.m_partialSequence → ¬ Trap (unread c) → Handled flush stopOnError (unread c) c c'

/-- a turn that goes on behind a token -/
structure Goes (room : Nat) (flush stopOnError : Bool) (c c₁ : Cursor) (t : Option Nat) : Prop where
  fits : Fits room c₁
  source : c₁.source.length ≤ c.source.length
  less : (unread c₁).length < (unread c).length
  ok : stopOnError = true → t ≠ none
  safe : AllSafe c.m_partialSequence → ¬ Trap (unread c) →
    AllSafe c₁.m_partialSequence ∧ unread c₁ <:+ unread c ∧ Token flush (unread c) (unread c₁) c c₁ t

def Turned (room : Nat) (flush stopOnError : Bool) (go : Cursor → Option Cursor) (c : Cursor) (r : Option Cursor) : Prop :=
  (∃ c', r = some c' ∧ Ends room flush stopOnError c c') ∨ ∃ c₁ t, r = go c₁ ∧ Goes room flush stopOnError c c₁ t

section
variable {p src : Bytes} {n : Nat} {go : Cursor → Option Cursor} {first : UInt8} {more : Bytes}

theorem unread_length (c : Cursor) : (unread c).length = c.m_partialSequence.length + c.source.length :=
  List.length_append

theorem goes_of (hfits : Fits room c) (hp : p ++ c₁.source = unread c) (hbuffer : p.length ≤ 4)
    (hsource : c₁.source.length ≤ c.source.length) (hn : 0 < n) (hnp : n ≤ p.length)
    (hlen : c₁.m_partialSequence.length = p.length - n)
    (hsafe : AllSafe c.m_partialSequence → ¬ Trap (unread c) → AllSafe p ∧ c₁.m_partialSequence = p.drop n)
    (hshown : (shown t).length ≤ n) (hdest : c₁.destination = c.destination ++ shown t)
    (hsaw : c₁.sawError = (c.sawError || t.isNone)) (hok : stopOnError = true → t ≠ none)
    (hlex : lex lexer flush (unread c) =
      (t :: (lex lexer flush ((unread c).drop n)).1, (lex lexer flush ((unread c).drop n)).2)) :
    Goes room flush stopOnError c c₁ t := by
  have hall := hfits.all
  have hsum : p.length + c₁.source.length = (unread c).length := by rw [← hp, List.length_append]
  have hunread := unread_length c
  have hunread₁ := unread_length c₁
  refine ⟨⟨?_, ?_⟩, hsource, by omega, hok, fun hs htrap => ?_⟩
  · rw [hdest, List.length_append]
    omega
  · unfold U8_MAX_LENGTH
    omega
  · obtain ⟨hsafe, hdrop⟩ := hsafe hs htrap
    have hrest : unread c₁ = (unread c).drop n := by
      rw [← hp, List.drop_append_of_le_length hnp, ← hdrop]
      rfl
    rw [hrest, hdrop]
    exact ⟨hsafe.suffix (List.drop_suffix n p), List.drop_suffix n _, hlex, hdest, hsaw⟩

theorem error_turned (hfits : Fits room c) (hp : p ++ src = unread c) (hne : p ≠ []) (hbuffer : p.length ≤ 4)
    (hsource : src.length ≤ c.source.length) (hsafe : AllSafe c.m_partialSequence → ¬ Trap (unread c) → AllSafe p)
    (hlex : lex lexer flush (unread c) =
      (none :: (lex lexer flush ((unread c).drop 1)).1, (lex lexer flush ((unread c).drop 1)).2)) :
    Turned room flush stopOnError go c (afterError room stopOnError go { c with m_partialSequence := p, source := src }) := by
  have hall := hfits.all
  have hpos := List.length_pos_iff.mpr hne
  have hsum : p.length + src.length = (unread c).length := by rw [← hp, List.length_append]
  have hunread := unread_length c
  rw [afterError_eq (by show c.destination.length + 1 ≤ room; omega)]
  cases stopOnError with
  | true =>
    exact Or.inl ⟨_, rfl, ⟨hbuffer, fun h => absurd h hne⟩, fun _ _ => Or.inl ⟨rfl, hne, stopped_first hlex⟩⟩
  | false =>
    exact Or.inr ⟨_, none, rfl, goes_of hfits hp hbuffer hsource Nat.one_pos hpos List.length_drop
      (fun hs htrap => ⟨hsafe hs htrap, rfl⟩) (Nat.le_refl 1) rfl (Bool.or_true _).symm nofun hlex⟩

theorem complete_turned (hfits : Fits room c) (hc : c.m_partialSequence = first :: more) (hascii : ¬ isASCII first = true)
    (hcount : nonASCIISequenceLength first ≠ 0)
    (hmany : nonASCIISequenceLength first - c.m_partialSequence.length ≤ c.source.length) :
    Turned room flush stopOnError go c ((complete (nonASCIISequenceLength first) c).bind fun c =>
      (decodeNonASCIISequence c.m_partialSequence (nonASCIISequenceLength first)).bind fun
        | none => afterError room stopOnError go c
        | some character =>
          (write room (utf16Char character) { c with
            m_partialSequence :=
              c.m_partialSequence.take (c.m_partialSequence.length - nonASCIISequenceLength first) }).bind go) := by
  have hall := hfits.all
  have hbuffer := hfits.buffer
  unfold U8_MAX_LENGTH at hbuffer
  have hle := sequenceLength_le first
  rw [complete_eq hle hmany]
  obtain ⟨p, hp⟩ : ∃ p, p = c.m_partialSequence ++
    c.source.take (nonASCIISequenceLength first - c.m_partialSequence.length) := ⟨_, rfl⟩
  obtain ⟨src, hsrc⟩ : ∃ src, src = c.source.drop (nonASCIISequenceLength first - c.m_partialSequence.length) := ⟨_, rfl⟩
  rw [← hp, ← hsrc]
  simp only [Option.bind_some]
  have htake := List.length_take_of_le hmany
  have hplen : p.length = c.m_partialSequence.length + (nonASCIISequenceLength first - c.m_partialSequence.length) := by
    rw [hp, List.length_append, htake]
  have hsource : src.length ≤ c.source.length := by
    rw [hsrc, List.length_drop]
    omega
  have hunread : p ++ src = unread c := by
    rw [hp, hsrc, List.append_assoc, List.take_append_drop]
    rfl
  have hpcons : p = first :: p.drop 1 := by rw [hp, hc]; rfl
  have hcons : unread c = first :: (p.drop 1 ++ src) := by
    rw [← hunread]
    exact congrArg (· ++ src) hpcons
  have hsafe : AllSafe c.m_partialSequence → ¬ Trap (unread c) → AllSafe p := by
    intro hs htrap
    rcases Nat.eq_zero_or_pos (nonASCIISequenceLength first - c.m_partialSequence.length) with hzero | hpos
    · rw [hp, hzero, List.take_zero, List.append_nil]
      exact hs
    · have hpeq : p = (unread c).take (nonASCIISequenceLength first) := by
        rw [← hunread, List.take_append_of_le_length (by omega), List.take_of_length_le (by omega)]
      have hlen : nonASCIISequenceLength first ≤ (unread c).length := by
        rw [← hunread, List.length_append]
        omega
      rw [hcons] at hlen htrap hpeq
      rw [hpeq]
      exact filled_safe hlen htrap
  have hdecode : asCharacter (unread c) (nonASCIISequenceLength first) =
      asCharacter p (nonASCIISequenceLength first) := by
    rw [← hunread, asCharacter_append (by omega)]
  have hlen : nonASCIISequenceLength first ≤ (unread c).length := by
    rw [← hunread, List.length_append]
    omega
  rw [hcons] at hdecode hlen
  rw [decodeNonASCIISequence_eq (sequenceLength_ge hcount) hle (by omega)]
  simp only [Option.bind_some]
  split
  · rename_i hbad
    have hfirst : lexer.first (unread c) = some (none, 1) := by
      rw [hcons]
      exact first_bad hascii hcount hlen (hdecode.trans hbad)
    refine error_turned hfits hunread ?_ (by omega) hsource hsafe (lex_some lexer flush hfirst)
    rw [hpcons]
    exact List.cons_ne_nil _ _
  · rename_i character hgood
    have hfirst : lexer.first (unread c) = some (some character, nonASCIISequenceLength first) := by
      rw [hcons]
      exact first_good hascii hcount hlen (hdecode.trans hgood)
    have htwo := utf16Char_length character
    have hge := sequenceLength_ge hcount
    have hsum : p.length + src.length = (unread c).length := by rw [← hunread, List.length_append]
    rw [unread_length] at hsum
    rw [write_some (by show c.destination.length + _ ≤ room; omega)]
    refine Or.inr ⟨_, some character, rfl, goes_of hfits hunread (by omega) hsource (by omega) (by omega)
      (List.length_take_of_le (Nat.sub_le _ _)) (fun hs htrap => ⟨hsafe hs htrap, ?_⟩) (htwo.trans hge) rfl
      (Bool.or_false _).symm (fun _ => nofun) (lex_some lexer flush hfirst)⟩
    -- out of the trap, the bytes are where they should be
    exact hsafe hs htrap p (List.suffix_refl p) first (p.drop 1) character hpcons hgood

variable (flush stopOnError) in
theorem turn_spec (fuel : Nat) (hfits : Fits room c) (hc : c.m_partialSequence = first :: more) :
    Turned room flush stopOnError (handlePartialSequence room flush stopOnError fuel) c
      (handlePartialSequence room flush stopOnError (fuel + 1) c) := by
  have hall := hfits.all
  have hbuffer := hfits.buffer
  have hcons : unread c = first :: (more ++ c.source) := by
    unfold unread
    rw [hc]
    rfl
  have hne : c.m_partialSequence ≠ [] := by
    rw [hc]
    exact List.cons_ne_nil _ _
  have hpos := List.length_pos_iff.mpr hne
  have hunread := unread_length c
  unfold handlePartialSequence
  split
  · rename_i hnil
    exact absurd hnil hne
  rename_i first' more' hc'
  obtain ⟨rfl, rfl⟩ := List.cons.inj (hc.symm.trans hc')
  dsimp only
  split
  · rename_i hascii
    have hfirst : lexer.first (unread c) = some (some first.toNat, 1) := by rw [hcons]; exact first_ascii hascii
    have hshown := shown_ascii hascii
    rw [write_some (by show _ + 1 ≤ room; omega)]
    exact Or.inr ⟨_, some first.toNat, rfl, goes_of hfits rfl hbuffer (Nat.le_refl _) Nat.one_pos hpos List.length_drop
      (fun hs _ => ⟨hs, rfl⟩) (hshown ▸ Nat.le_refl 1) (by rw [hshown]; rfl) (Bool.or_false _).symm (fun _ => nofun)
      (lex_some lexer flush hfirst)⟩
  · rename_i hascii
    have hstay : _ → Turned room flush stopOnError (handlePartialSequence room flush stopOnError fuel) c _ :=
      error_turned hfits rfl hne hbuffer (Nat.le_refl _) fun hs _ => hs
    split
    · rename_i hcount
      exact hstay (lex_some lexer flush (by rw [hcons]; exact first_zero hascii hcount))
    · rename_i hcount
      split
      · rename_i hfew
        have hfirst : lexer.first (unread c) = none := by
          rw [hcons]
          exact first_short hascii hcount (by rw [← hcons]; omega)
        cases flush with
        | true =>
          refine hstay ?_
          rw [hcons] at hfirst ⊢
          exact lex_stub lexer hfirst
        | false =>
          have hle := sequenceLength_le first
          have hsome : fill c.source c = some { c with m_partialSequence := unread c } :=
            if_pos (by unfold U8_MAX_LENGTH; omega)
          have hwne : unread c ≠ [] := by rw [hcons]; exact List.cons_ne_nil _ _
          refine Or.inl ⟨_, hsome, ⟨?_, fun h => absurd h hwne⟩, fun _ _ => Or.inr (Or.inr ⟨rfl, hfirst, hwne, Went.refl⟩)⟩
          show (unread c).length ≤ 4
          omega
      · rename_i hmany
        exact complete_turned hfits hc hascii hcount (Nat.not_lt.mp hmany)

end

variable (flush stopOnError) in
/-- it stays inside the buffers; and what it shows across the end of a piece is what the text says, unless that falls
into the trap -/
theorem handlePartialSequence_spec (fuel : Nat) (hfuel : c.m_partialSequence.length + c.source.length < fuel)
    (hfits : Fits room c) :
    ∃ c', handlePartialSequence room flush stopOnError fuel c = some c' ∧ Leaves room c c' ∧
      (AllSafe c.m_partialSequence → c.m_partialSequence = [] ∨ ¬ Trap (c.m_partialSequence ++ c.source) →
        Handled flush stopOnError (c.m_partialSequence ++ c.source) c c') := by
  induction fuel generalizing c with
  | zero => omega
  | succ fuel ih =>
    cases hc : c.m_partialSequence with
    | nil =>
      refine ⟨c, by rw [handlePartialSequence, hc], ⟨hfits.buffer, fun _ => ⟨hfits, Nat.le_refl _⟩⟩, fun _ _ => ?_⟩
      exact Or.inr (Or.inl ⟨hc, Went.refl⟩)
    | cons first more =>
      have hclear : c.m_partialSequence = [] ∨ ¬ Trap (unread c) ↔ ¬ Trap (unread c) := or_iff_right (hc ▸ List.cons_ne_nil _ _)
      rw [← hc]
      show ∃ c', _ ∧ _ ∧ (AllSafe c.m_partialSequence → c.m_partialSequence = [] ∨ ¬ Trap (unread c) → _)
      rw [hclear]
      rcases turn_spec flush stopOnError fuel hfits hc with ⟨c', heq, hends⟩ | ⟨c₁, t, heq, hgoes⟩
      · exact ⟨c', heq, hends.leaves, hends.handled⟩
      · have hless := hgoes.less
        rw [unread_length, unread_length] at hless
        obtain ⟨c', heq', ⟨hbuffer, hfits'⟩, hhandled⟩ := ih (by omega) hgoes.fits
        refine ⟨c', heq.trans heq', ⟨hbuffer, fun h => ⟨(hfits' h).1, (hfits' h).2.trans hgoes.source⟩⟩, fun hs htrap => ?_⟩
        obtain ⟨hs₁, hsuffix, htoken⟩ := hgoes.safe hs htrap
        exact (hhandled hs₁ (Or.inr fun h => htrap (h.mono hsuffix.isInfix))).cons htoken hgoes.ok

end

/-! ## the loop of a call -/

section
variable {room word endAddress : Nat} {stopOnError : Bool} {xs xs₁ : Bytes} {c c₁ c' : Cursor} {t : Option Nat}

/-- `c` when `k` bytes of ASCII are copied -/
def copied (k : Nat) (c : Cursor) : Cursor :=
  { c with
    destination := c.destination ++ (c.source.take k).map fun b => UInt16.ofNat b.toNat
    source := c.source.drop k }

theorem copied_zero (c : Cursor) : copied 0 c = c := by
  unfold copied
  rw [List.take_zero, List.map_nil, List.append_nil, List.drop_zero]

theorem copied_copied (j k : Nat) (c : Cursor) : copied k (copied j c) = copied (j + k) c := by
  unfold copied
  simp only [List.append_assoc, ← List.map_append, List.drop_drop, List.take_add]

theorem aligned_word {a e w : Nat} (haligned : a % w = 0) (hlt : a < e / w * w) : 0 < w ∧ a + w ≤ e := by
  have hw : 0 < w := by
    rcases Nat.eq_zero_or_pos w with rfl | hpos
    · omega
    · exact hpos
  have hmul : a / w * w = a := Nat.div_mul_cancel (Nat.dvd_of_mod_eq_zero haligned)
  have hlt' : a / w < e / w := Nat.lt_of_mul_lt_mul_right (hmul.symm ▸ hlt)
  have hle : (a / w + 1) * w ≤ e / w * w := Nat.mul_le_mul_right w hlt'
  rw [Nat.add_mul, hmul, Nat.one_mul] at hle
  exact ⟨hw, hle.trans (Nat.div_mul_le_self e w)⟩

theorem asciiWords_eq (fuel : Nat) (hfuel : c.source.length < fuel) (hend : c.source.length ≤ endAddress)
    (haligned : (endAddress - c.source.length) % word = 0) (hroom : c.destination.length + c.source.length ≤ room) :
    ∃ k, k ≤ c.source.length ∧ (c.source.take k).all isASCII = true ∧
      asciiWords room word endAddress fuel c = some (copied k c) := by
  induction fuel generalizing c with
  | zero => omega
  | succ fuel ih =>
    have hstay : ∃ k, k ≤ c.source.length ∧ (c.source.take k).all isASCII = true ∧ some c = some (copied k c) :=
      ⟨0, Nat.zero_le _, rfl, by rw [copied_zero]⟩
    unfold asciiWords
    split
    · rename_i hlt
      obtain ⟨hw, hle⟩ := aligned_word haligned hlt
      have htake : (c.source.take word).length = word := List.length_take_of_le (by omega)
      simp only [htake, Nat.lt_irrefl, if_false]
      split
      · rename_i hascii
        have hmap : ((c.source.take word).map fun b => UInt16.ofNat b.toNat).length = word := by
          rw [List.length_map, htake]
        have hdest := @List.length_append _ c.destination ((c.source.take word).map fun b => UInt16.ofNat b.toNat)
        have hdrop : (c.source.drop word).length = c.source.length - word := List.length_drop
        rw [write_some (by omega)]
        simp only [Option.bind_eq_bind, Option.bind_some]
        have haddress : endAddress - (c.source.length - word) = endAddress - c.source.length + word := by omega
        obtain ⟨k, hk, hall, heq⟩ := ih (c := copied word c) (by show (c.source.drop word).length < fuel; omega)
          (by show (c.source.drop word).length ≤ _; omega)
          (by
            show (endAddress - (c.source.drop word).length) % word = 0
            rw [hdrop, haddress, Nat.add_mod_right]
            exact haligned)
          (by show (c.destination ++ _).length + (c.source.drop word).length ≤ room; omega)
        have hk : k ≤ (c.source.drop word).length := hk
        refine ⟨word + k, by omega, ?_, ?_⟩
        · rw [List.take_add, List.all_append, hascii]
          exact hall
        · rw [← copied_copied]
          exact heq
      · exact hstay
    · exact hstay

variable (word) in
theorem asciiTurn_eq {first : UInt8} {rest : Bytes} (hsource : c.source = first :: rest) (hascii : isASCII first = true)
    (hend : c.source.length ≤ endAddress) (hroom : c.destination.length + c.source.length ≤ room) :
    ∃ k, 0 < k ∧ k ≤ c.source.length ∧ (c.source.take k).all isASCII = true ∧
      asciiTurn room word endAddress c = some (copied k c) := by
  -- a byte behind what the words have copied
  have hbyte : ∀ k, k ≤ c.source.length → (c.source.take k).all isASCII = true →
      ∃ j, 0 < j ∧ j ≤ c.source.length ∧ (c.source.take j).all isASCII = true ∧
        copyASCII room (copied k c) = some (copied j c) := by
    intro k hk hall
    have hlen : (c.source.drop k).length = c.source.length - k := List.length_drop
    have hsrc : (copied k c).source = c.source.drop k := rfl
    unfold copyASCII
    rw [hsrc]
    cases hdrop : c.source.drop k with
    | nil =>
      rw [hdrop] at hlen
      have hzero : c.source.length ≤ k := by
        have h0 : ([] : Bytes).length = 0 := rfl
        omega
      refine ⟨k, ?_, hk, hall, rfl⟩
      rw [hsource, List.length_cons] at hzero
      omega
    | cons b bs =>
      rw [hdrop, List.length_cons] at hlen
      simp only
      split
      · rename_i hb
        have hmap : ((c.source.take k).map fun b => UInt16.ofNat b.toNat).length = k := by
          rw [List.length_map, List.length_take_of_le hk]
        have hdest := @List.length_append _ c.destination ((c.source.take k).map fun b => UInt16.ofNat b.toNat)
        have htake : c.source.take (k + 1) = c.source.take k ++ [b] := by
          rw [List.take_add, hdrop, List.take_succ_cons, List.take_zero]
        refine ⟨k + 1, Nat.succ_pos k, by omega, ?_, ?_⟩
        · rw [htake, List.all_append, hall, List.all_cons, hb]
          rfl
        · rw [write_some (by show (c.destination ++ _).length + 1 ≤ room; omega), ← copied_copied]
          show some _ = some { copied k c with
            destination := (copied k c).destination ++ ((c.source.drop k).take 1).map fun b : UInt8 => UInt16.ofNat b.toNat
            source := (c.source.drop k).drop 1 }
          rw [hdrop]
          rfl
      · rename_i hb
        refine ⟨k, Nat.pos_of_ne_zero ?_, hk, hall, rfl⟩
        rintro rfl
        rw [List.drop_zero, hsource] at hdrop
        exact hb ((List.cons.inj hdrop).1 ▸ hascii)
  unfold asciiTurn
  split
  · rename_i haligned
    obtain ⟨k, hk, hall, heq⟩ := asciiWords_eq (c := c) _ (Nat.lt_succ_self _) hend haligned hroom
    rw [heq]
    exact hbyte k hk hall
  · have hzero := hbyte 0 (Nat.zero_le _) rfl
    rw [copied_zero] at hzero
    exact hzero

/-- the ways in which the loop ends -/
def Looped (stopOnError : Bool) (xs : Bytes) (c c' : Cursor) : Prop :=
  (stopOnError = true ∧ c'.m_partialSequence = [] ∧ Stopped false xs c c') ∨
  (lexer.first c'.m_partialSequence = none ∧ c'.source = [] ∧ Went false stopOnError xs c'.m_partialSequence c c')

theorem Looped.cons (ht : Token false xs xs₁ c c₁ t) (hok : stopOnError = true → t ≠ none)
    (h : Looped stopOnError xs₁ c₁ c') : Looped stopOnError xs c c' := by
  rcases h with ⟨hstop, hnil, h⟩ | ⟨hfirst, hnil, h⟩
  · exact Or.inl ⟨hstop, hnil, (ht.went hok).stopped hstop h⟩
  · exact Or.inr ⟨hfirst, hnil, (ht.went hok).trans h⟩

theorem token_of {n : Nat} (hfirst : lexer.first xs = some (t, n)) (hdest : c₁.destination = c.destination ++ shown t)
    (hsaw : c₁.sawError = (c.sawError || t.isNone)) : Token false xs (xs.drop n) c c₁ t :=
  ⟨lex_some lexer false hfirst, hdest, hsaw⟩

theorem Looped.copied (k : Nat) (hk : k ≤ c.source.length) (hall : (c.source.take k).all isASCII = true)
    (h : Looped stopOnError (c.source.drop k) (copied k c) c') : Looped stopOnError c.source c c' := by
  induction k generalizing c with
  | zero =>
    rw [copied_zero] at h
    exact h
  | succ k ih =>
    cases hsource : c.source with
    | nil =>
      rw [hsource] at hk
      exact absurd hk (Nat.not_succ_le_zero k)
    | cons b bs =>
      rw [hsource, List.length_cons] at hk
      rw [hsource, List.take_succ_cons, List.all_cons, Bool.and_eq_true] at hall
      have hfirst : lexer.first (b :: bs) = some (some b.toNat, 1) := first_ascii hall.1
      have hone : (Utf8Codec.copied 1 c).source = bs := by
        show c.source.drop 1 = bs
        rw [hsource]
        rfl
      have hrec := ih (c := Utf8Codec.copied 1 c) (by rw [hone]; omega) (by rw [hone]; exact hall.2)
        (by
          rw [copied_copied, Nat.add_comm 1 k, hone]
          rw [hsource] at h
          exact h)
      rw [hone] at hrec
      refine Looped.cons (t := some b.toNat) ?_ (fun _ => nofun) hrec
      refine token_of hfirst ?_ (Bool.or_false _).symm
      show c.destination ++ (c.source.take 1).map _ = _
      rw [hsource, shown_ascii hall.1]
      rfl

variable (word stopOnError) in
theorem decodeLoop_spec (fuel : Nat) (hfuel : c.source.length < fuel) (hend : c.source.length ≤ endAddress)
    (hnil : c.m_partialSequence = []) (hroom : c.destination.length + c.source.length ≤ room) :
    ∃ c', decodeLoop room stopOnError word endAddress fuel c = some c' ∧ Looped stopOnError c.source c c' := by
  induction fuel generalizing c with
  | zero => omega
  | succ fuel ih =>
    unfold decodeLoop
    cases hsource : c.source with
    | nil => exact ⟨c, rfl, Or.inr ⟨by rw [hnil]; rfl, hsource, by rw [hnil]; exact Went.refl⟩⟩
    | cons first rest =>
      -- the loop goes on behind `n` bytes
      have hgo : ∀ (c₁ : Cursor) (n : Nat), 0 < n → n ≤ c.source.length → c₁.source = c.source.drop n →
          c₁.m_partialSequence = [] → c₁.destination.length ≤ c.destination.length + n →
          (∀ c', Looped stopOnError c₁.source c₁ c' → Looped stopOnError c.source c c') →
          ∃ c', decodeLoop room stopOnError word endAddress fuel c₁ = some c' ∧ Looped stopOnError c.source c c' := by
        intro c₁ n hn hle hsource₁ hnil₁ hdest hback
        have hdrop : c₁.source.length = c.source.length - n := by rw [hsource₁, List.length_drop]
        obtain ⟨c', heq, hlooped⟩ := ih (by omega) (by omega) hnil₁ (by omega)
        exact ⟨c', heq, hback c' hlooped⟩
      have hpos : 0 < c.source.length := by
        rw [hsource]
        exact Nat.succ_pos _
      simp only
      split
      · rename_i hascii
        obtain ⟨k, hk0, hk, hall, heq⟩ := asciiTurn_eq word hsource hascii hend hroom
        rw [heq, ← hsource]
        refine hgo (copied k c) k hk0 hk rfl hnil ?_ fun c' => Looped.copied k hk hall
        show (c.destination ++ _).length ≤ _
        rw [List.length_append, List.length_map, List.length_take_of_le hk]
      · rename_i hascii
        rw [← hsource]
        -- one byte that is wrong
        have hwrong : lexer.first c.source = some (none, 1) → ∃ c', (if stopOnError then some { c with sawError := true }
            else (write room [replacementCharacter] { c with source := rest, sawError := true }).bind
              (decodeLoop room stopOnError word endAddress fuel)) = some c' ∧ Looped stopOnError c.source c c' := by
          intro hfirst
          cases stopOnError with
          | true =>
            refine ⟨_, rfl, Or.inl ⟨rfl, hnil, [], _, congrArg Prod.fst (lex_some lexer false hfirst), List.not_mem_nil,
              (List.append_nil _).symm, rfl⟩⟩
          | false =>
            have hrest : rest = c.source.drop 1 := by rw [hsource]; rfl
            simp only [Bool.false_eq_true, if_false]
            rw [write_some (by show c.destination.length + 1 ≤ room; omega), hrest]
            exact hgo _ 1 Nat.one_pos hpos rfl hnil List.length_append.le fun c' =>
              Looped.cons (token_of hfirst rfl (Bool.or_true _).symm) nofun
        split
        · rename_i hshort
          have hcount : nonASCIISequenceLength first ≠ 0 := by omega
          have hle := sequenceLength_le first
          have hfirst : lexer.first c.source = none := by
            rw [hsource]
            exact first_short hascii hcount (by rw [← hsource]; exact hshort)
          refine ⟨{ c with m_partialSequence := c.source, source := [] }, ?_, Or.inr ⟨hfirst, rfl, Went.refl⟩⟩
          exact if_pos (by show 0 + c.source.length ≤ 4; omega)
        · rename_i hlong
          have hlong := Nat.not_lt.mp hlong
          by_cases hcount : nonASCIISequenceLength first = 0
          · rw [characterAt, if_pos hcount]
            exact hwrong (by rw [hsource]; exact first_zero hascii hcount)
          · rw [characterAt, if_neg hcount,
              decodeNonASCIISequence_eq (sequenceLength_ge hcount) (sequenceLength_le first) hlong]
            simp only [Option.bind_eq_bind, Option.bind_some]
            cases hdecode : asCharacter c.source (nonASCIISequenceLength first) with
            | none =>
              refine hwrong ?_
              rw [hsource] at hlong hdecode ⊢
              exact first_bad hascii hcount hlong hdecode
            | some character =>
              have hfirst : lexer.first c.source = some (some character, nonASCIISequenceLength first) := by
                rw [hsource] at hlong hdecode ⊢
                exact first_good hascii hcount hlong hdecode
              have htwo := (utf16Char_length character).trans (sequenceLength_ge hcount)
              simp only
              rw [write_some (by show c.destination.length + _ ≤ room; omega)]
              refine hgo _ _ (Nat.pos_of_ne_zero hcount) hlong rfl hnil ?_ fun c' =>
                Looped.cons (token_of hfirst rfl (Bool.or_false _).symm) fun _ => nofun
              show (c.destination ++ _).length ≤ _
              rw [List.length_append]
              exact Nat.add_le_add_left htwo _

end

/-! ## calls -/

section
variable {room word endAddress : Nat} {flush stopOnError : Bool} {xs ys zs : Bytes} {c c₁ c₂ c' : Cursor}

theorem lex_flush (flush : Bool) (xs : Bytes) :
    lex lexer flush xs = ((lex lexer false xs).1 ++ (lex lexer flush (lex lexer false xs).2).1,
      (lex lexer flush (lex lexer false xs).2).2) := by
  have happ := lex_append lexer flush xs []
  rw [List.append_nil, List.append_nil] at happ
  exact happ

theorem Went.unflushed (h : Went false stopOnError xs ys c c₁) (hfirst : lexer.first ys = none) (flush : Bool) :
    Went flush stopOnError xs ys c c₁ := by
  obtain ⟨ts, hlex, hrest⟩ := h
  rw [lex_none lexer hfirst, List.append_nil] at hlex
  refine ⟨ts, ?_, hrest⟩
  rw [lex_flush, hlex]

theorem Stopped.unflushed (h : Stopped false xs c c₁) (flush : Bool) : Stopped flush xs c c₁ := by
  obtain ⟨ts, more, hlex, hrest⟩ := h
  refine ⟨ts, more ++ (lex lexer flush (lex lexer false xs).2).1, ?_, hrest⟩
  rw [lex_flush, hlex, List.append_assoc]
  rfl

theorem not_trap_of_length (h : xs.length < 4) : ¬ Trap xs := by
  rintro ⟨a, b, c, d, hin, -⟩
  have hle : 4 ≤ xs.length := hin.length_le
  omega

/-- what a call has to do with a partial sequence is what it says in the text -/
structure Ready (p bytes : Bytes) : Prop where
  first : lexer.first p = none
  clear : p = [] ∨ ¬ Trap (p ++ bytes)

/-- what a call ends with -/
def Decoded (flush stopOnError : Bool) (xs : Bytes) (c c' : Cursor) : Prop :=
  (stopOnError = true ∧ Stopped flush xs c c') ∨ Went flush stopOnError xs c'.m_partialSequence c c' ∧
    lexer.first c'.m_partialSequence = none ∧ (flush = true → c'.m_partialSequence = [])

theorem went_fits (h : Went false stopOnError xs c'.m_partialSequence c c') (hfirst : lexer.first c'.m_partialSequence = none)
    (hsource : c'.source = []) (hroom : c.destination.length + xs.length ≤ room) : Fits room c' := by
  obtain ⟨ts, hlex, -, hdest, -⟩ := h
  rw [lex_none lexer hfirst, List.append_nil] at hlex
  have hlen := text_length false xs
  rw [hlex] at hlen
  have happ := @List.length_append _ c.destination (text ts)
  have hundecided := undecided_length hfirst
  refine ⟨?_, ?_⟩
  · rw [hdest, hsource]
    show _ + 0 ≤ room
    simp only at hlen
    omega
  · unfold U8_MAX_LENGTH
    omega

theorem round_eq (fuel : Nat) (c : Cursor) :
    decodeRounds room flush stopOnError word endAddress (fuel + 1) c =
      (handlePartialSequence room flush stopOnError (c.m_partialSequence.length + c.source.length + 1) c).bind fun c =>
        if c.m_partialSequence ≠ [] then some c
        else (decodeLoop room stopOnError word endAddress (c.source.length + 1) c).bind fun c =>
          if flush ∧ c.m_partialSequence ≠ [] then decodeRounds room flush stopOnError word endAddress fuel c else some c := rfl

variable (flush stopOnError word endAddress) in
theorem last_round (hfits : Fits room c) (hsource : c.source = []) :
    ∃ c', decodeRounds room flush stopOnError word endAddress 1 c = some c' ∧ c'.m_partialSequence.length ≤ 4 ∧
      (c'.m_partialSequence = [] → c'.source = []) ∧
      (lexer.first c.m_partialSequence = none → Handled flush stopOnError c.m_partialSequence c c') := by
  obtain ⟨c', heq, ⟨hbuffer, hleaves⟩, hhandled⟩ := handlePartialSequence_spec flush stopOnError _
    (Nat.lt_succ_self _) hfits
  have hnil : c'.m_partialSequence = [] → c'.source = [] := by
    intro hnil
    have hle := (hleaves hnil).2
    rw [hsource] at hle
    exact List.length_eq_zero_iff.mp (Nat.le_zero.mp hle)
  refine ⟨c', ?_, hbuffer, hnil, fun hfirst => ?_⟩
  · rw [round_eq, heq]
    simp only [Option.bind_some]
    split
    · rfl
    · rename_i hread
      have hread := not_not.mp hread
      have hloop : decodeLoop room stopOnError word endAddress (c'.source.length + 1) c' = some c' := by
        unfold decodeLoop
        rw [hnil hread]
      rw [hloop]
      exact if_neg fun h => h.2 hread
  · rw [hsource, List.append_nil] at hhandled
    exact hhandled (undecided_safe hfirst) (Or.inr (not_trap_of_length (undecided_length hfirst)))

variable (flush stopOnError word) in
theorem decodeRounds_spec (hfits : Fits room c) (hend : c.source.length ≤ endAddress) :
    ∃ c', decodeRounds room flush stopOnError word endAddress 2 c = some c' ∧ c'.m_partialSequence.length ≤ 4 ∧
      (Ready c.m_partialSequence c.source → Decoded flush stopOnError (c.m_partialSequence ++ c.source) c c') := by
  obtain ⟨c₁, heq₁, ⟨hbuffer₁, hleaves⟩, hhandled⟩ := handlePartialSequence_spec flush stopOnError _
    (Nat.lt_succ_self _) hfits
  have hhandled : Ready c.m_partialSequence c.source →
      Handled flush stopOnError (c.m_partialSequence ++ c.source) c c₁ :=
    fun hready => hhandled (undecided_safe hready.first) hready.clear
  rw [round_eq, heq₁]
  simp only [Option.bind_some]
  split
  · rename_i hne
    refine ⟨c₁, rfl, hbuffer₁, fun hready => ?_⟩
    rcases hhandled hready with ⟨hstop, -, hstopped⟩ | ⟨hnil, -⟩ | ⟨rfl, hfirst, -, hwent⟩
    · exact Or.inl ⟨hstop, hstopped⟩
    · exact absurd hnil hne
    · exact Or.inr ⟨hwent, hfirst, nofun⟩
  · rename_i hread
    have hread := not_not.mp hread
    have hhandled : Ready c.m_partialSequence c.source →
        Went flush stopOnError (c.m_partialSequence ++ c.source) c₁.source c c₁ := by
      intro hready
      rcases hhandled hready with ⟨-, hne, -⟩ | ⟨-, hwent⟩ | ⟨-, -, hne, -⟩
      · exact absurd hread hne
      · exact hwent
      · exact absurd hread hne
    obtain ⟨hfits₁, hle⟩ := hleaves hread
    have hall := hfits₁.all
    rw [hread, List.length_nil] at hall
    obtain ⟨c₂, heq₂, hlooped⟩ := decodeLoop_spec word stopOnError _ (Nat.lt_succ_self _) (hle.trans hend)
      hread hall
    rw [heq₂]
    simp only [Option.bind_some]
    rcases hlooped with ⟨hstop, hnil, hstopped⟩ | ⟨hfirst, hsource, hwent₂⟩
    · rw [if_neg fun h => h.2 hnil]
      exact ⟨c₂, rfl, by rw [hnil]; exact Nat.zero_le 4, fun hready =>
        Or.inl ⟨hstop, (hhandled hready).stopped hstop (hstopped.unflushed flush)⟩⟩
    · have hwent : Ready c.m_partialSequence c.source →
          Went flush stopOnError (c.m_partialSequence ++ c.source) c₂.m_partialSequence c c₂ :=
        fun hready => (hhandled hready).trans (hwent₂.unflushed hfirst flush)
      split
      · rename_i hcond
        obtain ⟨hflush, -⟩ := hcond
        subst hflush
        obtain ⟨c₃, heq₃, hbuffer₃, hnil, hhandled₃⟩ := last_round word endAddress true stopOnError
          (went_fits hwent₂ hfirst hsource hall) hsource
        refine ⟨c₃, heq₃, hbuffer₃, fun hready => ?_⟩
        rcases hhandled₃ hfirst with ⟨hstop, -, hstopped⟩ | ⟨hread₃, hwent₃⟩ | ⟨hflush, -⟩
        · exact Or.inl ⟨hstop, (hwent hready).stopped hstop hstopped⟩
        · rw [hnil hread₃] at hwent₃
          refine Or.inr ⟨?_, ?_, fun _ => hread₃⟩
          · rw [hread₃]
            exact (hwent hready).trans hwent₃
          · rw [hread₃]
            rfl
        · exact absurd hflush nofun
      · rename_i hcond
        refine ⟨c₂, rfl, (undecided_length hfirst).le, fun hready => Or.inr ⟨hwent hready, hfirst, fun hflush => ?_⟩⟩
        by_contra hne
        exact hcond ⟨hflush, hne⟩

end

/-! ## runs of calls -/

/-- the texts of the calls one after the other -/
def decodeAll (word : Nat) : List Call → TextCodecUTF8 → Bool → Option (TextCodecUTF8 × WString × Bool)
  | [], codec, sawError => some (codec, [], sawError)
  | call :: calls, codec, sawError => do
    let (codec, out, sawError) ← decode word codec call sawError
    let (codec, more, sawError) ← decodeAll word calls codec sawError
    return (codec, out ++ more, sawError)

section
variable {word : Nat} {codec : TextCodecUTF8} {call : Call} {sawError : Bool}

theorem decode_eq : decode word codec call sawError =
    (decodeRounds (codec.m_partialSequence.length + call.bytes.length) call.flush call.stopOnError word
      (call.address + call.bytes.length) 2 { m_partialSequence := codec.m_partialSequence, source := call.bytes, sawError }).map
      fun c => (⟨c.m_partialSequence⟩, c.destination, c.sawError) := by
  rw [Option.map_eq_bind]
  rfl

variable (call sawError) in
theorem call_fits (h : codec.m_partialSequence.length ≤ 4) :
    Fits (codec.m_partialSequence.length + call.bytes.length)
      { m_partialSequence := codec.m_partialSequence, source := call.bytes, sawError } := by
  refine ⟨?_, h⟩
  show 0 + codec.m_partialSequence.length + call.bytes.length ≤ _
  omega

variable (word call sawError) in
theorem decode_fits (h : codec.m_partialSequence.length ≤ 4) :
    ∃ codec' out saw, decode word codec call sawError = some (codec', out, saw) ∧ codec'.m_partialSequence.length ≤ 4 := by
  obtain ⟨c', heq, hbuffer, -⟩ := decodeRounds_spec word call.flush call.stopOnError (call_fits call sawError h)
    (Nat.le_add_left call.bytes.length call.address)
  exact ⟨⟨c'.m_partialSequence⟩, c'.destination, c'.sawError, by rw [decode_eq, heq]; rfl, hbuffer⟩

variable (word sawError) in
theorem decode_spec (hready : Ready codec.m_partialSequence call.bytes) (hstop : call.stopOnError = false) :
    ∃ codec', decode word codec call sawError =
        some (codec', text (lex lexer call.flush (codec.m_partialSequence ++ call.bytes)).1,
          sawError || (lex lexer call.flush (codec.m_partialSequence ++ call.bytes)).1.any Option.isNone) ∧
      codec'.m_partialSequence = (lex lexer call.flush (codec.m_partialSequence ++ call.bytes)).2 := by
  have hfits := call_fits call sawError (undecided_length hready.first).le
  obtain ⟨c', heq, -, hdecoded⟩ := decodeRounds_spec word call.flush call.stopOnError hfits (Nat.le_add_left call.bytes.length call.address)
  rcases hdecoded hready with ⟨htrue, -⟩ | ⟨⟨ts, hlex, -, hdest, hsaw⟩, hfirst, hflush⟩
  · rw [hstop] at htrue
    exact absurd htrue nofun
  · have hrest : lex lexer call.flush c'.m_partialSequence = ([], c'.m_partialSequence) := by
      cases hf : call.flush with
      | false => exact lex_none lexer hfirst
      | true =>
        rw [hflush hf]
        rfl
    rw [hrest, List.append_nil] at hlex
    refine ⟨⟨c'.m_partialSequence⟩, ?_, by rw [hlex]⟩
    rw [decode_eq, heq, hlex, Option.map_some, hdest, hsaw]
    rfl

end

/-- no run of calls leaves the buffers, whatever the bytes and however they are aligned, and every loop ends -/
theorem decode_safe (word : Nat) (calls : List Call) (sawError : Bool) :
    ∃ codec out saw, decodeAll word calls {} sawError = some (codec, out, saw) ∧ codec.m_partialSequence.length ≤ 4 := by
  have hall : ∀ (codec : TextCodecUTF8) sawError, codec.m_partialSequence.length ≤ 4 →
      ∃ codec' out saw, decodeAll word calls codec sawError = some (codec', out, saw) ∧
        codec'.m_partialSequence.length ≤ 4 := by
    induction calls with
    | nil => exact fun codec sawError h => ⟨codec, [], sawError, rfl, h⟩
    | cons call calls ih =>
      intro codec sawError h
      obtain ⟨codec₁, out₁, saw₁, heq₁, h₁⟩ := decode_fits word call sawError h
      obtain ⟨codec₂, out₂, saw₂, heq₂, h₂⟩ := ih codec₁ saw₁ h₁
      refine ⟨codec₂, out₁ ++ out₂, saw₂, ?_, h₂⟩
      unfold decodeAll
      rw [heq₁]
      simp only [Option.bind_eq_bind, Option.bind_some]
      rw [heq₂]
      rfl
  exact hall {} sawError (Nat.zero_le 4)

/-- the calls for a text in pieces -/
def pieceCalls (pieces : List (Nat × Bytes)) (last : Nat × Bytes) : List Call :=
  pieces.map (fun p => ⟨p.1, p.2, false, false⟩) ++ [⟨last.1, last.2, true, false⟩]

def pieceBytes (pieces : List (Nat × Bytes)) (last : Nat × Bytes) : Bytes := (pieces.map Prod.snd).flatten ++ last.2

theorem decodeAll_pieces (word : Nat) (pieces : List (Nat × Bytes)) (last : Nat × Bytes) (codec : TextCodecUTF8)
    (sawError : Bool) (hfirst : lexer.first codec.m_partialSequence = none)
    (htrap : codec.m_partialSequence = [] ∧ pieces = [] ∨ ¬ Trap (codec.m_partialSequence ++ pieceBytes pieces last)) :
    decodeAll word (pieceCalls pieces last) codec sawError =
      some ({}, text (lex lexer true (codec.m_partialSequence ++ pieceBytes pieces last)).1,
        sawError || (lex lexer true (codec.m_partialSequence ++ pieceBytes pieces last)).1.any Option.isNone) := by
  induction pieces generalizing codec sawError with
  | nil =>
    obtain ⟨codec', heq, hread⟩ := (decode_spec word sawError ⟨hfirst, htrap.imp And.left id⟩ rfl :
      ∃ codec', decode word codec ⟨last.1, last.2, true, false⟩ sawError = _ ∧ _)
    rw [lex_ended] at hread
    obtain ⟨p⟩ := codec'
    subst hread
    show decodeAll word [⟨last.1, last.2, true, false⟩] codec sawError = _
    unfold decodeAll
    rw [heq]
    simp only [Option.bind_eq_bind, Option.bind_some]
    unfold decodeAll
    simp only [Option.bind_some, List.append_nil]
    rfl
  | cons piece pieces ih =>
    have htrap : ¬ Trap (codec.m_partialSequence ++ (piece.2 ++ pieceBytes pieces last)) := by
      rcases htrap with ⟨-, hnil⟩ | htrap
      · exact absurd hnil nofun
      · unfold pieceBytes at htrap ⊢
        rw [List.map_cons, List.flatten_cons, List.append_assoc] at htrap
        exact htrap
    have hbytes : pieceBytes (piece :: pieces) last = piece.2 ++ pieceBytes pieces last := by
      unfold pieceBytes
      rw [List.map_cons, List.flatten_cons, List.append_assoc]
    have hready : Ready codec.m_partialSequence piece.2 := by
      refine ⟨hfirst, Or.inr fun ht => htrap (ht.mono ?_)⟩
      rw [← List.append_assoc]
      exact (List.prefix_append _ _).isInfix
    obtain ⟨codec', heq, hread⟩ := (decode_spec word sawError hready rfl :
      ∃ codec', decode word codec ⟨piece.1, piece.2, false, false⟩ sawError = _ ∧ _)
    -- what is left is at the end of what was read
    have hsuffix : codec'.m_partialSequence <:+ codec.m_partialSequence ++ piece.2 := by
      rw [hread]
      exact lex_suffix lexer false _
    have hrec := ih codec' (sawError || (lex lexer false (codec.m_partialSequence ++ piece.2)).1.any Option.isNone)
      (by rw [hread]; exact lex_rest lexer _) (Or.inr fun ht => htrap (ht.mono (by
        obtain ⟨pre, hpre⟩ := hsuffix
        rw [← List.append_assoc, ← hpre, List.append_assoc]
        exact (List.suffix_append _ _).isInfix)))
    have happ := lex_append lexer true (codec.m_partialSequence ++ piece.2) (pieceBytes pieces last)
    rw [List.append_assoc] at happ
    rw [hread] at hrec
    show decodeAll word (⟨piece.1, piece.2, false, false⟩ :: pieceCalls pieces last) codec sawError = _
    unfold decodeAll
    rw [heq, hbytes, happ]
    simp only [Option.bind_eq_bind, Option.bind_some]
    rw [hrec, text_append, List.any_append, ← Bool.or_assoc]
    rfl

end Wkc.Utf8Codec
