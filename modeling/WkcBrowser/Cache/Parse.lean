import WkcBrowser.Cache.Fat

/-!
# When the FAT parser stays inside its buffer

`deserialize` trusts the lengths in the file.  `Area` is the grammar of the record areas on which it
never leaves the buffer: records of sixty bytes and seven padded strings.  Only the very last string
may go without its padding, or even claim bytes that are not there, if the decoder gives up before
it misses them.

* `Fields k bs rest`         `k` padded strings in front of `rest`;
* `readStrings_iff`          the string reader succeeds exactly on such bytes;
* `deserialize_iff`          so does `deserialize`;
* `fat_parse_safe_iff`       `deserializeFATData` reads inside the buffer, always advances and ends,
                             exactly if the record area is an `Area`.
-/

namespace Wkc
open Buf

/-! ## words -/

/-- the length that the four bytes at the front claim -/
def fieldLength (bs : Bytes) : Nat := ofLE (bs.take 4)

theorem readWord_ok_iff {data : Bytes} {off w n : Nat} (hw : 0 < w) :
    readWord data off w = .ok n ↔ w ≤ (data.drop off).length ∧ n = ofLE ((data.drop off).take w) := by
  unfold readWord load
  rw [List.length_drop]
  by_cases h : off + w ≤ data.length
  · rw [if_pos h]
    constructor
    · intro he
      exact ⟨by omega, (Except.ok.inj he).symm⟩
    · rintro ⟨_, rfl⟩
      rfl
  · rw [if_neg h]
    constructor
    · intro he
      cases he
    · rintro ⟨hle, _⟩
      omega

/-! ## the decoder at the end of the buffer -/

theorem convertAux_some (fuel : Nat) : ∀ (n : Nat) (src : Bytes) (s : WString),
    convertAux fuel n src = .ok (some s) → n ≤ src.length := by
  induction fuel with
  | zero =>
    intro n src s h
    cases n with
    | zero => exact Nat.zero_le _
    | succ n => cases h
  | succ fuel ih =>
    intro n src s h
    cases n with
    | zero => exact Nat.zero_le _
    | succ n =>
      cases src with
      | nil => cases h
      | cons b0 bs =>
        simp only [convertAux] at h
        split at h
        · cases h
        · split at h
          · cases h
          · split at h
            · cases h
            · split at h
              · cases h
              · next hk hlen _ _ =>
                cases hrest : convertAux fuel (n + 1 - inlineUTF8SequenceLength b0)
                    ((b0 :: bs).drop (inlineUTF8SequenceLength b0)) with
                | error e => rw [hrest] at h; cases h
                | ok o =>
                  cases o with
                  | none => rw [hrest] at h; cases h
                  | some s' =>
                    have hle := ih _ _ _ hrest
                    rw [List.length_drop] at hle
                    omega

/-- the decoder can be let loose on `n` bytes of `src` -/
def Decodes (n : Nat) (src : Bytes) : Prop :=
  n ≤ src.length ∨ convertUTF8ToUTF16 n src = .ok none

theorem decodes_iff {n : Nat} {src : Bytes} :
    Decodes n src ↔ ∃ o, convertUTF8ToUTF16 n src = .ok o := by
  constructor
  · rintro (h | h)
    · exact convertAux_inside n n src h
    · exact ⟨none, h⟩
  · rintro ⟨o, h⟩
    cases o with
    | none => exact .inr h
    | some s => exact .inl (convertAux_some n n src s h)

/-! ## strings -/

theorem readString_iff {data : Bytes} {off p : Nat} {o : Option WString} :
    readString data off = .ok (o, p) ↔ 4 ≤ (data.drop off).length ∧
      fieldLength (data.drop off) ≤ maxStringLength ∧
      convertUTF8ToUTF16 (fieldLength (data.drop off)) ((data.drop off).drop 4) = .ok o ∧
      p = off + 4 + roundUp (fieldLength (data.drop off)) 4 := by
  constructor
  · intro h
    obtain ⟨n, hn, h⟩ := bind_ok h
    obtain ⟨hlen, rfl⟩ := (readWord_ok_iff (by omega)).mp hn
    obtain ⟨s, hs, h⟩ := bind_ok h
    obtain ⟨rfl, rfl⟩ := Prod.mk.inj (Except.ok.inj h)
    unfold fromUTF8 at hs
    split at hs
    · cases hs
    · next hmax =>
      rw [List.drop_drop]
      refine ⟨hlen, Nat.le_of_not_lt hmax, hs, ?_⟩
      rw [roundUp_four_add]
      show off + (roundUp (fieldLength (data.drop off)) 4 + 4) = _
      omega
  · rintro ⟨hlen, hmax, hconv, rfl⟩
    have hword := (readWord_ok_iff (n := fieldLength (data.drop off)) (w := 4) (by omega)).mpr
      ⟨hlen, rfl⟩
    rw [List.drop_drop] at hconv
    rw [readString, hword]
    show (do
      let str ← fromUTF8 (fieldLength (data.drop off)) (data.drop (off + 4))
      return (str, off + roundUp (fieldLength (data.drop off) + 4) 4)) = _
    rw [fromUTF8, if_neg (Nat.not_lt.mpr hmax), hconv, roundUp_four_add]
    show Except.ok (o, _) = _
    congr 2
    omega

/-- `k` padded strings in front of `rest` -/
inductive Fields : Nat → Bytes → Bytes → Prop
  | nil {rest : Bytes} : Fields 0 rest rest
  | cons {k n : Nat} {body pad bs rest : Bytes} : body.length = n → n < 2 ^ 32 →
      pad.length = roundUp n 4 - n → Fields k bs rest →
      Fields (k + 1) (toLE 4 n ++ (body ++ (pad ++ bs))) rest

theorem fieldLength_toLE {n : Nat} (h : n < 2 ^ 32) (bs : Bytes) : fieldLength (toLE 4 n ++ bs) = n := by
  rw [fieldLength, List.take_left' (toLE_length 4 n), ofLE_toLE]
  exact Nat.mod_eq_of_lt (by omega)

theorem Fields.length_le {k : Nat} {bs rest : Bytes} (h : Fields k bs rest) :
    rest.length + 4 * k ≤ bs.length := by
  induction h with
  | nil => omega
  | cons hbody hn hpad _ ih =>
    rw [List.length_append, toLE_length, List.length_append, List.length_append]
    omega

theorem split_field (bs : Bytes) (hlen : 4 + roundUp (fieldLength bs) 4 ≤ bs.length) :
    ∃ body pad, body.length = fieldLength bs ∧ fieldLength bs < 2 ^ 32 ∧
      pad.length = roundUp (fieldLength bs) 4 - fieldLength bs ∧
      bs = toLE 4 (fieldLength bs) ++ (body ++ (pad ++ bs.drop (4 + roundUp (fieldLength bs) 4))) := by
  have hround := le_roundUp_four (fieldLength bs)
  have htake : (bs.take 4).length = 4 := List.length_take_of_le (by omega)
  have hword : toLE 4 (fieldLength bs) = bs.take 4 := by
    have h := toLE_ofLE (bs.take 4)
    rw [htake] at h
    exact h
  have hlt : fieldLength bs < 2 ^ 32 := by
    have h := ofLE_lt (bs.take 4)
    rw [htake] at h
    unfold fieldLength
    omega
  refine ⟨(bs.drop 4).take (fieldLength bs),
    ((bs.drop 4).drop (fieldLength bs)).take (roundUp (fieldLength bs) 4 - fieldLength bs),
    ?_, hlt, ?_, ?_⟩
  · rw [List.length_take, List.length_drop]; omega
  · rw [List.length_take, List.length_drop, List.length_drop]; omega
  · have hsum : 4 + roundUp (fieldLength bs) 4
        = 4 + (fieldLength bs + (roundUp (fieldLength bs) 4 - fieldLength bs)) := by omega
    rw [hword, hsum, ← List.drop_drop, ← List.drop_drop, List.take_append_drop,
      List.take_append_drop, List.take_append_drop]

/-- what the last of several strings must look like -/
structure Tail (tail : Bytes) : Prop where
  word : 4 ≤ tail.length
  representable : fieldLength tail ≤ maxStringLength
  decodes : Decodes (fieldLength tail) (tail.drop 4)

def readStrings (data : Bytes) : Nat → Nat → Except Fault (List (Option WString) × Nat)
  | 0, off => .ok ([], off)
  | k + 1, off => do
    let (s, p) ← readString data off
    let (ss, q) ← readStrings data k p
    return (s :: ss, q)

theorem fields_of_readStrings {data : Bytes} (k : Nat) : ∀ {off p : Nat},
    (data.drop off).length + 60 < 2 ^ 31 → (∃ ss, readStrings data (k + 1) off = .ok (ss, p)) →
    ∃ tail, Fields k (data.drop off) tail ∧ Tail tail ∧
      p = off + ((data.drop off).length - tail.length) + 4 + roundUp (fieldLength tail) 4 := by
  induction k with
  | zero =>
    rintro off p _ ⟨ss, h⟩
    obtain ⟨⟨s, p1⟩, hs, h⟩ := bind_ok h
    obtain ⟨-, rfl⟩ := Prod.mk.inj (Except.ok.inj h)
    obtain ⟨hlen, hmax, hconv, hp⟩ := readString_iff.mp hs
    refine ⟨_, .nil, ⟨hlen, hmax, decodes_iff.mpr ⟨s, hconv⟩⟩, ?_⟩
    rw [hp]; omega
  | succ k ih =>
    rintro off p hsize ⟨ss, h⟩
    have hsmall : ∀ m, (data.drop (off + m)).length + 60 < 2 ^ 31 := by
      intro m
      rw [List.length_drop] at hsize ⊢
      omega
    obtain ⟨⟨s, p1⟩, hs, h⟩ := bind_ok h
    obtain ⟨⟨ss', q⟩, hrest, h⟩ := bind_ok h
    obtain ⟨-, rfl⟩ := Prod.mk.inj (Except.ok.inj h)
    obtain ⟨hlen, hmax, hconv, rfl⟩ := readString_iff.mp hs
    rw [Nat.add_assoc] at hrest
    obtain ⟨tail, hf, ht, hp⟩ := ih (hsmall _) ⟨ss', hrest⟩
    have hroom := hf.length_le
    have hword := ht.word
    rw [← List.drop_drop] at hf hroom hp
    rw [List.length_drop] at hroom hp
    obtain ⟨body, pad, hbody, hlt, hpad, hsplit⟩ := split_field (data.drop off) (by omega)
    refine ⟨tail, ?_, ht, ?_⟩
    · rw [hsplit]
      exact .cons hbody hlt hpad hf
    · rw [hp]; omega

theorem readStrings_of_fields {data : Bytes} (k : Nat) : ∀ {off : Nat} {tail : Bytes},
    (data.drop off).length + 60 < 2 ^ 31 → Fields k (data.drop off) tail → Tail tail →
    ∃ ss, readStrings data (k + 1) off =
      .ok (ss, off + ((data.drop off).length - tail.length) + 4 + roundUp (fieldLength tail) 4) := by
  induction k with
  | zero =>
    intro off tail _ hf ht
    cases hf
    obtain ⟨o, ho⟩ := decodes_iff.mp ht.decodes
    have hs := readString_iff.mpr ⟨ht.word, ht.representable, ho, rfl⟩
    refine ⟨[o], ?_⟩
    rw [readStrings, hs]
    show Except.ok ([o], _) = _
    congr 2
    omega
  | succ k ih =>
    intro off tail hsize hf ht
    generalize hbs : data.drop off = bs at hf
    cases hf with
    | @cons k' n body pad bs' rest hbody hn hpad hf' =>
      have hround := le_roundUp_four n
      have hlen : (data.drop off).length = 4 + roundUp n 4 + bs'.length := by
        rw [hbs, List.length_append, toLE_length, List.length_append, List.length_append]
        omega
      have hfield : fieldLength (data.drop off) = n := by rw [hbs]; exact fieldLength_toLE hn _
      have hle := hf'.length_le
      have hword := ht.word
      have hnext : data.drop (off + 4 + roundUp n 4) = bs' := by
        have hpre : (toLE 4 n ++ (body ++ pad)).length = 4 + roundUp n 4 := by
          rw [List.length_append, toLE_length, List.length_append]; omega
        rw [Nat.add_assoc, ← List.drop_drop, hbs,
          show toLE 4 n ++ (body ++ (pad ++ bs')) = (toLE 4 n ++ (body ++ pad)) ++ bs' by
            simp only [List.append_assoc], List.drop_left' hpre]
      have hin : n ≤ ((data.drop off).drop 4).length := by rw [List.length_drop]; omega
      obtain ⟨o, ho⟩ := convertAux_inside n n _ hin
      have hs : readString data off = .ok (o, off + 4 + roundUp n 4) := by
        refine readString_iff.mpr ⟨by omega, ?_, ?_, ?_⟩
        · rw [hfield]; unfold maxStringLength; omega
        · rw [hfield]; exact ho
        · rw [hfield]
      obtain ⟨ss, hss⟩ := ih (by rw [hnext]; omega) (by rw [hnext]; exact hf') ht
      refine ⟨o :: ss, ?_⟩
      rw [readStrings, hs]
      show (do
        let (ss, q) ← readStrings data (k + 1) (off + 4 + roundUp n 4)
        return (o :: ss, q)) = _
      rw [hss]
      show Except.ok (o :: ss, _) = _
      rw [hnext, ← hbs, hlen]
      congr 2
      omega

/-- **`k + 1` strings can be read exactly if `k` padded ones are followed by a last one.** -/
theorem readStrings_iff {data : Bytes} (k : Nat) {off p : Nat} (hsize : (data.drop off).length + 60 < 2 ^ 31) :
    (∃ ss, readStrings data (k + 1) off = .ok (ss, p)) ↔
    ∃ tail, Fields k (data.drop off) tail ∧ Tail tail ∧
      p = off + ((data.drop off).length - tail.length) + 4 + roundUp (fieldLength tail) 4 := by
  constructor
  · exact fields_of_readStrings k hsize
  · rintro ⟨tail, hf, ht, rfl⟩
    exact readStrings_of_fields k hsize hf ht

/-! ## one record -/

theorem readWord_inside {data : Bytes} {off w : Nat} (hw : 0 < w) (h : off + w ≤ data.length) :
    ∃ n, readWord data off w = .ok n :=
  ⟨_, (readWord_ok_iff hw).mpr ⟨by rw [List.length_drop]; omega, rfl⟩⟩

theorem readStrings_word {data : Bytes} {k off p : Nat} {ss : List (Option WString)}
    (h : readStrings data (k + 1) off = .ok (ss, p)) : off + 4 ≤ data.length := by
  obtain ⟨⟨s, p1⟩, hs, _⟩ := bind_ok h
  obtain ⟨hlen, _⟩ := readString_iff.mp hs
  rw [List.length_drop] at hlen
  omega

namespace HTTPCachedResource

theorem deserialize_strings {data : Bytes} {off : Nat} {r : HTTPCachedResource} {b : Bool} {n : Int}
    (h : deserialize data off = .ok (r, b, n)) :
    ∃ ss p, readStrings data 7 (off + 60) = .ok (ss, p) ∧ b = (ss.head? == some none)
      ∧ n = toInt32 (roundUp (p - off) 4) := by
  unfold deserialize at h
  obtain ⟨_, _, h⟩ := bind_ok h
  obtain ⟨_, _, h⟩ := bind_ok h
  obtain ⟨_, _, h⟩ := bind_ok h
  obtain ⟨_, _, h⟩ := bind_ok h
  obtain ⟨_, _, h⟩ := bind_ok h
  obtain ⟨_, _, h⟩ := bind_ok h
  obtain ⟨_, _, h⟩ := bind_ok h
  obtain ⟨_, _, h⟩ := bind_ok h
  obtain ⟨_, _, h⟩ := bind_ok h
  obtain ⟨⟨o1, p1⟩, h1, h⟩ := bind_ok h
  obtain ⟨⟨o2, p2⟩, h2, h⟩ := bind_ok h
  obtain ⟨⟨o3, p3⟩, h3, h⟩ := bind_ok h
  obtain ⟨⟨o4, p4⟩, h4, h⟩ := bind_ok h
  obtain ⟨⟨o5, p5⟩, h5, h⟩ := bind_ok h
  obtain ⟨⟨o6, p6⟩, h6, h⟩ := bind_ok h
  obtain ⟨⟨o7, p7⟩, h7, h⟩ := bind_ok h
  obtain ⟨_, h⟩ := Prod.mk.inj (Except.ok.inj h)
  obtain ⟨hb, hn⟩ := Prod.mk.inj h
  refine ⟨[o1, o2, o3, o4, o5, o6, o7], p7, ?_, ?_, hn.symm⟩
  · simp only [readStrings, h1, h2, h3, h4, h5, h6, h7, bind, Except.bind, pure, Except.pure]
  · rw [← hb]
    cases o1 with
    | none | some => rfl

theorem deserialize_of_strings {data : Bytes} {off p : Nat} {ss : List (Option WString)}
    (h : readStrings data 7 (off + 60) = .ok (ss, p)) :
    ∃ r, deserialize data off = .ok (r, ss.head? == some none, toInt32 (roundUp (p - off) 4)) := by
  have hin := readStrings_word h
  obtain ⟨_, n1⟩ : ∃ n, readWord data off 8 = .ok n := readWord_inside (by omega) (by omega)
  obtain ⟨_, n2⟩ : ∃ n, readWord data (off + 8) 8 = .ok n := readWord_inside (by omega) (by omega)
  obtain ⟨_, n3⟩ : ∃ n, readWord data (off + 16) 4 = .ok n := readWord_inside (by omega) (by omega)
  obtain ⟨_, n4⟩ : ∃ n, readWord data (off + 20) 4 = .ok n := readWord_inside (by omega) (by omega)
  obtain ⟨_, n5⟩ : ∃ n, readWord data (off + 24) 4 = .ok n := readWord_inside (by omega) (by omega)
  obtain ⟨_, n6⟩ : ∃ n, readWord data (off + 28) 8 = .ok n := readWord_inside (by omega) (by omega)
  obtain ⟨_, n7⟩ : ∃ n, readWord data (off + 36) 8 = .ok n := readWord_inside (by omega) (by omega)
  obtain ⟨_, n8⟩ : ∃ n, readWord data (off + 44) 8 = .ok n := readWord_inside (by omega) (by omega)
  obtain ⟨_, n9⟩ : ∃ n, readWord data (off + 52) 8 = .ok n := readWord_inside (by omega) (by omega)
  obtain ⟨⟨o1, p1⟩, s1, h⟩ := bind_ok h
  obtain ⟨⟨ss1, q1⟩, h1, h⟩ := bind_ok h
  obtain ⟨rfl, rfl⟩ := Prod.mk.inj (Except.ok.inj h)
  obtain ⟨⟨o2, p2⟩, s2, h⟩ := bind_ok h1
  obtain ⟨⟨ss2, q2⟩, h2, h⟩ := bind_ok h
  obtain ⟨rfl, rfl⟩ := Prod.mk.inj (Except.ok.inj h)
  obtain ⟨⟨o3, p3⟩, s3, h⟩ := bind_ok h2
  obtain ⟨⟨ss3, q3⟩, h3, h⟩ := bind_ok h
  obtain ⟨rfl, rfl⟩ := Prod.mk.inj (Except.ok.inj h)
  obtain ⟨⟨o4, p4⟩, s4, h⟩ := bind_ok h3
  obtain ⟨⟨ss4, q4⟩, h4, h⟩ := bind_ok h
  obtain ⟨rfl, rfl⟩ := Prod.mk.inj (Except.ok.inj h)
  obtain ⟨⟨o5, p5⟩, s5, h⟩ := bind_ok h4
  obtain ⟨⟨ss5, q5⟩, h5, h⟩ := bind_ok h
  obtain ⟨rfl, rfl⟩ := Prod.mk.inj (Except.ok.inj h)
  obtain ⟨⟨o6, p6⟩, s6, h⟩ := bind_ok h5
  obtain ⟨⟨ss6, q6⟩, h6, h⟩ := bind_ok h
  obtain ⟨rfl, rfl⟩ := Prod.mk.inj (Except.ok.inj h)
  obtain ⟨⟨o7, p7⟩, s7, h⟩ := bind_ok h6
  obtain ⟨⟨ss7, q7⟩, h7, h⟩ := bind_ok h
  obtain ⟨rfl, rfl⟩ := Prod.mk.inj (Except.ok.inj h)
  obtain ⟨rfl, rfl⟩ := Prod.mk.inj (Except.ok.inj h7)
  have hnull : ((o1 :: [o2, o3, o4, o5, o6, o7]).head? == some none) = o1.isNone := by
    cases o1 with
    | none | some => rfl
  rw [hnull]
  simp only [deserialize, int64At, int32At, boolAt, doubleAt, n1, n2, n3, n4, n5, n6, n7, n8, n9, s1,
    s2, s3, s4, s5, s6, s7, bind, Except.bind, pure, Except.pure]
  exact ⟨_, rfl⟩

end HTTPCachedResource

/-! ## the record area -/

theorem Fields.length_mod {k : Nat} {bs rest : Bytes} (h : Fields k bs rest) :
    (bs.length - rest.length) % 4 = 0 := by
  induction h with
  | nil => omega
  | @cons k n body pad bs rest hbody hn hpad hf ih =>
    have hmod := roundUp_four_mod n
    have hround := le_roundUp_four n
    have hle := hf.length_le
    rw [List.length_append, toLE_length, List.length_append, List.length_append]
    omega

theorem Fields.snoc {k n : Nat} {bs tail body pad rest : Bytes} (h : Fields k bs tail)
    (ht : tail = toLE 4 n ++ (body ++ (pad ++ rest))) (hbody : body.length = n) (hn : n < 2 ^ 32)
    (hpad : pad.length = roundUp n 4 - n) : Fields (k + 1) bs rest := by
  induction h with
  | nil => rw [ht]; exact .cons hbody hn hpad .nil
  | cons hb hm hp _ ih => exact .cons hb hm hp (ih ht)

theorem Fields.split_last {k : Nat} {bs rest : Bytes} : Fields (k + 1) bs rest →
    ∃ tail, Fields k bs tail ∧ tail.length = 4 + roundUp (fieldLength tail) 4 + rest.length
      ∧ tail.drop (4 + roundUp (fieldLength tail) 4) = rest := by
  induction k generalizing bs with
  | zero =>
    intro h
    cases h with
    | @cons _ n body pad bs' _ hbody hn hpad hf =>
      cases hf
      have hfield := fieldLength_toLE hn (body ++ (pad ++ rest))
      have hround := le_roundUp_four n
      have hpre : (toLE 4 n ++ (body ++ pad)).length = 4 + roundUp n 4 := by
        rw [List.length_append, toLE_length, List.length_append]; omega
      refine ⟨_, .nil, ?_, ?_⟩
      · rw [hfield, List.length_append, toLE_length, List.length_append, List.length_append]
        omega
      · rw [hfield, show toLE 4 n ++ (body ++ (pad ++ rest)) = (toLE 4 n ++ (body ++ pad)) ++ rest by
          simp only [List.append_assoc], List.drop_left' hpre]
  | succ k ih =>
    intro h
    cases h with
    | cons hbody hn hpad hf =>
      obtain ⟨tail, hf', hlen, hdrop⟩ := ih hf
      exact ⟨tail, .cons hbody hn hpad hf', hlen, hdrop⟩

theorem Fields.eq_drop {k : Nat} {bs rest : Bytes} (h : Fields k bs rest) :
    bs.drop (bs.length - rest.length) = rest := by
  induction h with
  | nil => rw [Nat.sub_self]; rfl
  | @cons k n body pad bs rest hbody hn hpad hf ih =>
    have hround := le_roundUp_four n
    have hle := hf.length_le
    have hpre : (toLE 4 n ++ (body ++ pad)).length = 4 + roundUp n 4 := by
      rw [List.length_append, toLE_length, List.length_append]; omega
    have happ : toLE 4 n ++ (body ++ (pad ++ bs)) = (toLE 4 n ++ (body ++ pad)) ++ bs := by
      simp only [List.append_assoc]
    rw [happ, List.length_append, hpre]
    rw [show 4 + roundUp n 4 + bs.length - rest.length
      = 4 + roundUp n 4 + (bs.length - rest.length) by omega, ← List.drop_drop,
      List.drop_left' hpre, ih]

/-- the URL of the record is not null, or an index that is switched off does not see it -/
def UrlOk (disabled : Bool) (bs : Bytes) : Prop :=
  disabled = true ∨ convertUTF8ToUTF16 (fieldLength bs) (bs.drop 4) ≠ .ok none

/-- the record areas that the parser survives -/
inductive Area (disabled : Bool) : Bytes → Prop
  /-- the last record reaches the end of the file -/
  | last {nums bs tail : Bytes} : nums.length = 60 → Fields 6 bs tail → Tail tail →
      tail.length ≤ 4 + roundUp (fieldLength tail) 4 →
      60 + (bs.length - tail.length) + 4 + roundUp (fieldLength tail) 4 < 2 ^ 31 →
      UrlOk disabled bs → Area disabled (nums ++ bs)
  /-- a record of sixty bytes and seven padded strings, and more -/
  | more {nums bs rest : Bytes} : nums.length = 60 → Fields 7 bs rest → rest ≠ [] →
      UrlOk disabled bs → Area disabled rest → Area disabled (nums ++ bs)

theorem readStrings_head {data : Bytes} {k off p : Nat} {ss : List (Option WString)}
    (h : readStrings data (k + 1) off = .ok (ss, p)) :
    (ss.head? == some none) = true ↔
      convertUTF8ToUTF16 (fieldLength (data.drop off)) ((data.drop off).drop 4) = .ok none := by
  obtain ⟨⟨o, p1⟩, hs, h⟩ := bind_ok h
  obtain ⟨⟨ss', q⟩, _, h⟩ := bind_ok h
  obtain ⟨rfl, -⟩ := Prod.mk.inj (Except.ok.inj h)
  obtain ⟨_, _, hconv, _⟩ := readString_iff.mp hs
  rw [hconv]
  cases o with
  | none | some => simp

/-- the bytes that one call of `deserialize` steps over -/
def advance (bs tail : Bytes) : Nat :=
  60 + (bs.length - tail.length) + 4 + roundUp (fieldLength tail) 4

/-- **`deserialize` succeeds exactly on sixty bytes, six padded strings and a last one.** -/
theorem deserialize_iff {data : Bytes} {off : Nat} {b : Bool} {n : Int}
    (hsize : (data.drop off).length < 2 ^ 31) :
    (∃ r, HTTPCachedResource.deserialize data off = .ok (r, b, n)) ↔
    ∃ nums bs tail, data.drop off = nums ++ bs ∧ nums.length = 60 ∧ Fields 6 bs tail ∧ Tail tail ∧
      n = toInt32 (advance bs tail) ∧
      (b = true ↔ convertUTF8ToUTF16 (fieldLength bs) (bs.drop 4) = .ok none) := by
  have hsmall : (data.drop (off + 60)).length + 60 < 2 ^ 31 := by
    rw [List.length_drop] at hsize ⊢
    omega
  constructor
  · rintro ⟨r, h⟩
    obtain ⟨ss, p, hss, rfl, rfl⟩ := HTTPCachedResource.deserialize_strings h
    obtain ⟨tail, hf, ht, hp⟩ := (readStrings_iff 6 hsmall).mp ⟨ss, hss⟩
    have hword := readStrings_word hss
    have hmod := hf.length_mod
    have hround := roundUp_four_mod (fieldLength tail)
    refine ⟨(data.drop off).take 60, data.drop (off + 60), tail, ?_, ?_, hf, ht, ?_,
      readStrings_head hss⟩
    · rw [← List.drop_drop, List.take_append_drop]
    · rw [List.length_take, List.length_drop]; omega
    · have hadv : p - off = advance (data.drop (off + 60)) tail := by rw [hp, advance]; omega
      rw [hadv, roundUp_four_eq (by unfold advance; omega)]
  · rintro ⟨nums, bs, tail, hdata, hnums, hf, ht, rfl, hb⟩
    have hbs : data.drop (off + 60) = bs := by
      rw [← List.drop_drop, hdata, List.drop_left' hnums]
    rw [← hbs] at hf
    obtain ⟨ss, hss⟩ := (readStrings_iff 6 hsmall).mpr ⟨tail, hf, ht, rfl⟩
    have hmod := hf.length_mod
    have hround := roundUp_four_mod (fieldLength tail)
    obtain ⟨r, hr⟩ := HTTPCachedResource.deserialize_of_strings hss
    have hhead := readStrings_head hss
    rw [hbs] at hhead
    have hnull : (ss.head? == some none) = b := Bool.eq_iff_iff.mpr (hhead.trans hb.symm)
    refine ⟨r, ?_⟩
    rw [hr, hnull, hbs]
    rw [hbs] at hmod
    have hadv : off + 60 + (bs.length - tail.length) + 4 + roundUp (fieldLength tail) 4 - off
        = advance bs tail := by rw [advance]; omega
    rw [hadv, roundUp_four_eq (by unfold advance; omega)]

theorem toInt32_pos_iff {n : Nat} (h0 : 0 < n) (h : n < 2 ^ 32) : 0 < toInt32 n ↔ n < 2 ^ 31 := by
  unfold toInt32
  rw [Int.bmod_def]
  split <;> omega

namespace HTTPCache

theorem deserializeFATData_done (data : Bytes) (fuel off : Nat) {len : Int} (h : len ≤ 0) (c : HTTPCache) :
    deserializeFATData data fuel off len c = .ok c := by
  cases fuel with
  | zero => rw [deserializeFATData, if_neg (by omega)]
  | succ fuel => rw [deserializeFATData, if_pos h]

theorem add_disabled (c : HTTPCache) (r : HTTPCachedResource) :
    ((c.alloc r).2.addCachedResource (c.alloc r).1).disabled = c.disabled := by
  unfold addCachedResource
  split <;> rfl

theorem drop_advance {data nums bs tail : Bytes} {off k : Nat} (hdata : data.drop off = nums ++ bs)
    (hnums : nums.length = 60) (hf : Fields k bs tail) :
    data.drop (off + advance bs tail) = tail.drop (4 + roundUp (fieldLength tail) 4) := by
  have hadv : off + advance bs tail
      = off + 60 + (bs.length - tail.length) + (4 + roundUp (fieldLength tail) 4) := by
    unfold advance; omega
  have hbs : data.drop (off + 60) = bs := by rw [← List.drop_drop, hdata, List.drop_left' hnums]
  have htail : data.drop (off + 60 + (bs.length - tail.length)) = tail := by
    rw [← List.drop_drop, hbs, hf.eq_drop]
  rw [hadv, ← List.drop_drop, htail]

theorem advance_lt {bs tail : Bytes} (ht : Tail tail) (hle : tail.length ≤ bs.length)
    (hsize : 60 + bs.length < 2 ^ 31) : advance bs tail < 2 ^ 32 := by
  have hmax := ht.representable
  have hword := ht.word
  have hround := roundUp_four_lt (fieldLength tail)
  unfold maxStringLength at hmax
  unfold advance
  omega

theorem turn_iff {data : Bytes} {fuel off : Nat} {len : Int} {c c' : HTTPCache} {r : HTTPCachedResource}
    {b : Bool} {n : Nat} (hn : 0 < n) (hlt : n < 2 ^ 32)
    (hr : HTTPCachedResource.deserialize data off = .ok (r, b, toInt32 n)) (hlen : 0 < len) :
    deserializeFATData data (fuel + 1) off len c = .ok c' ↔
      (c.disabled = true ∨ b = false) ∧ n < 2 ^ 31 ∧
      deserializeFATData data fuel (off + n) (len - n)
        ((c.alloc r).2.addCachedResource (c.alloc r).1) = .ok c' := by
  rw [deserializeFATData, if_neg (by omega), hr]
  show (if c.disabled = false ∧ b = true then Except.error Fault.crash
    else if toInt32 n ≤ 0 then Except.error Fault.noProgress
    else deserializeFATData data fuel (off + (toInt32 n).toNat) (len - toInt32 n) _) = _ ↔ _
  by_cases hnull : c.disabled = false ∧ b = true
  · rw [if_pos hnull]
    constructor
    · intro h; cases h
    · rintro ⟨h | h, _⟩
      · rw [hnull.1] at h; cases h
      · rw [hnull.2] at h; cases h
  · rw [if_neg hnull]
    have hurl : c.disabled = true ∨ b = false := by
      cases hd : c.disabled with
      | true => exact .inl rfl
      | false =>
        cases hb : b with
        | true => exact absurd ⟨hd, hb⟩ hnull
        | false => exact .inr rfl
    by_cases hsmall : n < 2 ^ 31
    · have hpos := (toInt32_pos_iff hn hlt).mpr hsmall
      rw [if_neg (by omega), toInt32_of_lt hsmall, Int.toNat_natCast]
      constructor
      · exact fun h => ⟨hurl, hsmall, h⟩
      · exact fun h => h.2.2
    · have hneg : ¬ 0 < toInt32 n := fun h => hsmall ((toInt32_pos_iff hn hlt).mp h)
      rw [if_pos (by omega)]
      constructor
      · intro h; cases h
      · exact fun h => absurd h.2.1 hsmall

theorem exists_bool (P : Prop) : ∃ b : Bool, b = true ↔ P := by
  by_cases h : P
  · exact ⟨true, by simp [h]⟩
  · exact ⟨false, by simp [h]⟩

theorem area_of_parse (data : Bytes) (fuel : Nat) : ∀ (off : Nat) (c : HTTPCache),
    (data.drop off).length ≤ fuel → (data.drop off).length < 2 ^ 31 → data.drop off ≠ [] →
    (∃ c', deserializeFATData data fuel off (data.drop off).length c = .ok c') → Area c.disabled (data.drop off) := by
  induction fuel with
  | zero =>
    intro off c hfuel _ hne
    exact absurd (List.length_eq_zero_iff.mp (by omega)) hne
  | succ fuel ih =>
    rintro off c hfuel hsize hne ⟨c', h⟩
    have hpos : (0 : Int) < (data.drop off).length := by
      exact_mod_cast List.length_pos_iff.mpr hne
    have hparse := h
    rw [deserializeFATData, if_neg (by omega)] at hparse
    obtain ⟨⟨r, b, n⟩, hr, _⟩ := bind_ok hparse
    obtain ⟨nums, bs, tail, hdata, hnums, hf, ht, hn, hnull⟩ := (deserialize_iff hsize).mp ⟨r, hr⟩
    rw [hn] at hr
    have hlen : (data.drop off).length = 60 + bs.length := by
      rw [hdata, List.length_append, hnums]
    have hle := hf.length_le
    have hadv : advance bs tail < 2 ^ 32 := advance_lt ht (by omega) (by omega)
    have hrest := drop_advance hdata hnums hf
    obtain ⟨hurl, hsmall, hnext⟩ := (turn_iff (by unfold advance; omega) hadv hr hpos).mp h
    have hok : UrlOk c.disabled bs := hurl.imp id (fun hb hc => by rw [hnull.mpr hc] at hb; cases hb)
    rw [hdata]
    by_cases hend : tail.length ≤ 4 + roundUp (fieldLength tail) 4
    · exact .last hnums hf ht hend hsmall hok
    · obtain ⟨body, pad, hbody, hlt, hpad, hsplit⟩ := split_field tail (by omega)
      have hrlen : (data.drop (off + advance bs tail)).length
          = tail.length - (4 + roundUp (fieldLength tail) 4) := by rw [hrest, List.length_drop]
      have hne' : data.drop (off + advance bs tail) ≠ [] := by
        intro he
        rw [he, List.length_nil] at hrlen
        omega
      have hleft : ((data.drop off).length : Int) - advance bs tail
          = (data.drop (off + advance bs tail)).length := by
        rw [hrlen, hlen]; unfold advance; omega
      rw [hleft] at hnext
      have hless : (data.drop (off + advance bs tail)).length ≤ fuel := by
        rw [hrlen]; unfold advance at hleft; omega
      have harea := ih _ _ hless (by omega) hne' ⟨c', hnext⟩
      rw [add_disabled, hrest] at harea
      rw [hrest] at hne'
      exact .more hnums (hf.snoc hsplit hbody hlt hpad) hne' hok harea

theorem parse_of_area (data : Bytes) (fuel : Nat) : ∀ (off : Nat) (c : HTTPCache),
    (data.drop off).length ≤ fuel → (data.drop off).length < 2 ^ 31 → data.drop off ≠ [] →
    Area c.disabled (data.drop off) → ∃ c', deserializeFATData data fuel off (data.drop off).length c = .ok c' := by
  induction fuel with
  | zero =>
    intro off c hfuel _ hne
    exact absurd (List.length_eq_zero_iff.mp (by omega)) hne
  | succ fuel ih =>
    intro off c hfuel hsize hne harea
    have hpos : (0 : Int) < (data.drop off).length := by
      exact_mod_cast List.length_pos_iff.mpr hne
    generalize hdata : data.drop off = area at harea
    cases harea with
    | @last nums bs tail hnums hf ht hend hsmall hok =>
      have hlen : (data.drop off).length = 60 + bs.length := by
        rw [hdata, List.length_append, hnums]
      have hle := hf.length_le
      have hadv : advance bs tail < 2 ^ 32 := advance_lt ht (by omega) (by omega)
      obtain ⟨b, hb⟩ := exists_bool (convertUTF8ToUTF16 (fieldLength bs) (bs.drop 4) = .ok none)
      obtain ⟨r, hr⟩ := (deserialize_iff hsize).mpr
        ⟨nums, bs, tail, hdata, hnums, hf, ht, rfl, hb⟩
      rw [← hdata]
      refine ⟨(c.alloc r).2.addCachedResource (c.alloc r).1,
        (turn_iff (by unfold advance; omega) hadv hr hpos).mpr ⟨hok.imp id
          (fun h => Bool.eq_false_iff.mpr (fun e => h (hb.mp e))), hsmall, ?_⟩⟩
      refine deserializeFATData_done data fuel _ ?_ _
      unfold advance
      omega
    | @more nums bs rest hnums hf7 hne' hok harea =>
      obtain ⟨tail, hf, htlen, hdrop⟩ := hf7.split_last
      have hlen : (data.drop off).length = 60 + bs.length := by
        rw [hdata, List.length_append, hnums]
      have hle := hf.length_le
      have hround := le_roundUp_four (fieldLength tail)
      have ht : Tail tail := by
        refine ⟨by omega, ?_, .inl ?_⟩
        · unfold maxStringLength; omega
        · rw [List.length_drop]; omega
      have hadv : advance bs tail < 2 ^ 32 := advance_lt ht (by omega) (by omega)
      have hrest := (drop_advance hdata hnums hf).trans hdrop
      obtain ⟨b, hb⟩ := exists_bool (convertUTF8ToUTF16 (fieldLength bs) (bs.drop 4) = .ok none)
      obtain ⟨r, hr⟩ := (deserialize_iff hsize).mpr
        ⟨nums, bs, tail, hdata, hnums, hf, ht, rfl, hb⟩
      have hleft : ((data.drop off).length : Int) - advance bs tail
          = (data.drop (off + advance bs tail)).length := by
        rw [hrest, hlen]; unfold advance; omega
      obtain ⟨c', hc'⟩ := ih (off + advance bs tail)
        ((c.alloc r).2.addCachedResource (c.alloc r).1) (by rw [hrest]; omega) (by rw [hrest]; omega)
        (by rw [hrest]; exact hne') (by rw [add_disabled, hrest]; exact harea)
      rw [← hdata]
      refine ⟨c', (turn_iff (by unfold advance; omega) hadv hr hpos).mpr
        ⟨hok.imp id (fun h => Bool.eq_false_iff.mpr (fun e => h (hb.mp e))), ?_, ?_⟩⟩
      · unfold advance; omega
      · rw [hleft]; exact hc'

theorem parse_iff (data : Bytes) (fuel off : Nat) (c : HTTPCache) (hfuel : (data.drop off).length ≤ fuel)
    (hsize : (data.drop off).length < 2 ^ 31) (hne : data.drop off ≠ []) :
    (∃ c', deserializeFATData data fuel off (data.drop off).length c = .ok c') ↔ Area c.disabled (data.drop off) :=
  ⟨area_of_parse data fuel off c hfuel hsize hne, parse_of_area data fuel off c hfuel hsize hne⟩

/-- the files that `readFATFile` hands to `deserializeFATData`; a read count is an `int` -/
structure Accepted (data : Bytes) : Prop where
  size : headerSize < data.length
  int : data.length < 2 ^ 31
  digest : verifyDigest data = true
  version : load data MD5_DIGESTSIZE 4 = some (toLE 4 CACHEFAT_FORMAT_VERSION)

/-- **When the FAT parser stays inside its buffer.**  On an accepted file `deserializeFATData` makes
no read outside the bytes of the file, always advances and comes to its end, exactly if the record
area is an `Area`. -/
theorem fat_parse_safe_iff {data : Bytes} (h : Accepted data) (c : HTTPCache) :
    (∃ c', deserializeFATData data data.length headerSize (data.length - headerSize) c = .ok c') ↔
      Area c.disabled (data.drop headerSize) := by
  have hsize := h.size
  have hint := h.int
  have hlen : (data.drop headerSize).length = data.length - headerSize := List.length_drop
  have hcast : ((data.drop headerSize).length : Int) = data.length - headerSize := by
    rw [hlen]; omega
  have hne : data.drop headerSize ≠ [] := by
    intro he
    rw [he, List.length_nil] at hlen
    omega
  have hmain := parse_iff data data.length headerSize c (by omega) (by omega) hne
  rw [hcast] at hmain
  exact hmain

/-- a file that carries the digest of the rest of it -/
def sealed (records : Bytes) : Bytes :=
  MD5.checksum (toLE 4 CACHEFAT_FORMAT_VERSION ++ toLE 4 0 ++ records)
    ++ (toLE 4 CACHEFAT_FORMAT_VERSION ++ toLE 4 0 ++ records)

theorem sealed_accepted {records : Bytes} (hne : records ≠ []) (hsize : records.length < 2 ^ 30) :
    Accepted (sealed records) := by
  have hpos : 0 < records.length := List.length_pos_iff.mpr hne
  have hlen : (sealed records).length = headerSize + records.length := by
    rw [sealed, List.length_append, MD5.checksum_length, List.length_append, List.length_append,
      toLE_length, toLE_length, headerSize, MD5_DIGESTSIZE]
    omega
  have hdrop : (sealed records).drop MD5_DIGESTSIZE
      = toLE 4 CACHEFAT_FORMAT_VERSION ++ toLE 4 0 ++ records :=
    List.drop_left' (MD5.checksum_length _)
  have htake : (sealed records).take MD5_DIGESTSIZE
      = MD5.checksum (toLE 4 CACHEFAT_FORMAT_VERSION ++ toLE 4 0 ++ records) :=
    List.take_left' (MD5.checksum_length _)
  refine ⟨by omega, by unfold headerSize MD5_DIGESTSIZE at hlen; omega, ?_, ?_⟩
  · rw [verifyDigest, htake, hdrop, Bool.and_eq_true]
    exact ⟨decide_eq_true (by rw [hlen, headerSize]; omega), beq_self_eq_true _⟩
  · rw [load, if_pos (by rw [hlen, headerSize]; omega), hdrop, List.append_assoc,
      List.take_left' (toLE_length _ _)]

/-- a record of empty strings -/
def blank : Bytes := zeros 88

theorem fat_parse_safe_iff_blank : ∃ c', deserializeFATData (sealed blank) (sealed blank).length
    headerSize ((sealed blank).length - headerSize) {} = .ok c' := by
  refine (fat_parse_safe_iff (sealed_accepted (by decide) (by decide)) {}).mpr ?_
  have hdrop : (sealed blank).drop headerSize = zeros 60 ++ zeros 28 := by
    rw [sealed, ← List.append_assoc, ← List.append_assoc]
    exact List.drop_left' (by
      rw [List.length_append, List.length_append, MD5.checksum_length, toLE_length, toLE_length]; rfl)
  rw [hdrop]
  have hfield : ∀ bs : Bytes, Fields 6 (zeros 24 ++ bs) bs := by
    intro bs
    have h0 : ∀ k bs rest, Fields k bs rest → Fields (k + 1) (toLE 4 0 ++ ([] ++ ([] ++ bs))) rest :=
      fun k bs rest h => .cons rfl (by decide) rfl h
    exact h0 _ _ _ (h0 _ _ _ (h0 _ _ _ (h0 _ _ _ (h0 _ _ _ (h0 _ _ _ .nil)))))
  refine .last (zeros_length 60) (hfield (zeros 4)) ⟨by decide, by decide, .inl (by decide)⟩
    (by decide) (by decide) (.inr (by decide))

/-- sixty bytes and a string of sixteen bytes that are not there -/
def truncated : Bytes := zeros 60 ++ toLE 4 16

theorem fat_parse_overruns : Accepted (sealed truncated) ∧
    HTTPCachedResource.deserialize (sealed truncated) headerSize = .error .outOfBounds ∧
    ∀ c', deserializeFATData (sealed truncated) (sealed truncated).length headerSize
      ((sealed truncated).length - headerSize) {} ≠ .ok c' := by
  have hrec : HTTPCachedResource.deserialize (sealed truncated) headerSize = .error .outOfBounds := by
    decide +kernel
  have hlen : (sealed truncated).length = 87 + 1 := by decide +kernel
  refine ⟨sealed_accepted (by decide) (by decide), hrec, ?_⟩
  intro c' h
  rw [hlen, deserializeFATData, if_neg (by decide), hrec] at h
  cases h

end HTTPCache

end Wkc
