import Mathlib.Data.List.Basic
import Mathlib.Algebra.Group.Nat.Defs

/-!
# JSON texts

A reader of JSON in UTF-16 code units.

* `Value`                            what a text can say; a number is kept as it is written;
* `string`, `number`                 the two kinds of words;
* `value`, `elements`, `members`     the reader, with a bound on how often the three call each other;
* `Reads`                            a value stands at the beginning of a text, and what is left;
* `value_le`                         a larger bound changes nothing that has been read;
* `clean`, `string_clean`            text that stands for itself between two quotes;
* `string_pasted`                    pasted between quotes, a text is read back only if it is clean.
-/

namespace Json

abbrev Text := List UInt16

/-- `number`: the digits without the point, and the power of ten they are multiplied with -/
inductive Value where
  | null
  | bool (b : Bool)
  | number (mantissa : Int) (exponent : Int)
  | string (s : Text)
  | array (elements : List Value)
  | object (members : List (Text × Value))

def quote : UInt16 := 0x22
def backslash : UInt16 := 0x5C
def comma : UInt16 := 0x2C
def colon : UInt16 := 0x3A
def space : UInt16 := 0x20

def isSpace (c : UInt16) : Bool := c == 0x20 || c == 0x09 || c == 0x0A || c == 0x0D

def skip (text : Text) : Text := text.dropWhile isSpace

/-- what follows `c`, and white space before it -/
def expect (c : UInt16) (text : Text) : Option Text :=
  match skip text with
  | [] => none
  | d :: rest => if d = c then some rest else none

/-- what follows a keyword -/
def keyword (word text : Text) : Option Text := if word <+: text then some (text.drop word.length) else none

/-! ## strings -/

def hexValue (c : UInt16) : Option Nat :=
  let n := c.toNat
  if 0x30 ≤ n ∧ n ≤ 0x39 then some (n - 0x30)
  else if 0x41 ≤ n ∧ n ≤ 0x46 then some (n - 0x37)
  else if 0x61 ≤ n ∧ n ≤ 0x66 then some (n - 0x57)
  else none

def hex4 (a b c d : UInt16) : Option UInt16 := do
  let a ← hexValue a
  let b ← hexValue b
  let c ← hexValue c
  let d ← hexValue d
  some (UInt16.ofNat (((a * 16 + b) * 16 + c) * 16 + d))

/-- `\"`, `\\`, `\/`, `\b`, `\f`, `\n`, `\r`, `\t` -/
def escape (c : UInt16) : Option UInt16 :=
  if c = 0x22 ∨ c = 0x5C ∨ c = 0x2F then some c
  else if c = 0x62 then some 0x08
  else if c = 0x66 then some 0x0C
  else if c = 0x6E then some 0x0A
  else if c = 0x72 then some 0x0D
  else if c = 0x74 then some 0x09
  else none

def prepend (c : UInt16) (r : Text × Text) : Text × Text := (c :: r.1, r.2)

/-- a string whose quote has been read: what it says, and what follows it -/
def string : Text → Option (Text × Text)
  | [] => none
  | c :: rest =>
    if c = quote then some ([], rest)
    else if c = backslash then
      match rest with
      | [] => none
      | e :: rest =>
        if e = 0x75 then
          match rest with
          | a :: b :: c :: d :: rest => do
            let unit ← hex4 a b c d
            (string rest).map (prepend unit)
          | _ => none
        else do
          let unit ← escape e
          (string rest).map (prepend unit)
    else if c.toNat < 0x20 then none
    else (string rest).map (prepend c)

/-! ## numbers -/

def isDigit (c : UInt16) : Bool := 0x30 ≤ c.toNat && c.toNat ≤ 0x39

def ofDigits (digits : Text) : Nat := digits.foldl (fun n c => 10 * n + (c.toNat - 0x30)) 0

/-- no digit follows a zero at the beginning -/
def intDigits (text : Text) : Text := if text.head? = some 0x30 then [0x30] else text.takeWhile isDigit

/-- the digits after the point -/
def fraction (text : Text) : Option (Text × Text) :=
  match text with
  | [] => some ([], [])
  | c :: rest =>
    if c ≠ 0x2E then some ([], text)
    else if rest.takeWhile isDigit = [] then none
    else some (rest.takeWhile isDigit, rest.dropWhile isDigit)

def exponent (text : Text) : Option (Int × Text) :=
  match text with
  | [] => some (0, [])
  | c :: rest =>
    if c ≠ 0x65 ∧ c ≠ 0x45 then some (0, text)
    else
      let negative := rest.head? = some 0x2D
      let rest := if rest.head? = some 0x2D ∨ rest.head? = some 0x2B then rest.tail else rest
      let digits := rest.takeWhile isDigit
      if digits = [] then none
      else some (if negative then -(ofDigits digits) else ofDigits digits, rest.dropWhile isDigit)

def number (text : Text) : Option (Value × Text) := do
  let negative := text.head? = some 0x2D
  let text := if negative then text.tail else text
  let digits := intDigits text
  if digits = [] then none
  let (decimals, text) ← fraction (text.drop digits.length)
  let (power, text) ← exponent text
  let mantissa : Int := ofDigits (digits ++ decimals)
  some (.number (if negative then -mantissa else mantissa) (power - decimals.length), text)

/-! ## values -/

def word (text : Text) : Option (Value × Text) :=
  match keyword [0x6E, 0x75, 0x6C, 0x6C] text with
  | some rest => some (.null, rest)
  | none =>
    match keyword [0x74, 0x72, 0x75, 0x65] text with
    | some rest => some (.bool true, rest)
    | none =>
      match keyword [0x66, 0x61, 0x6C, 0x73, 0x65] text with
      | some rest => some (.bool false, rest)
      | none => number text

/-- what stands behind an item: a comma and more of them, or the end -/
def more {β : Type} (next : Text → Option (List β × Text)) (close : UInt16) (item : β) (text : Text) :
    Option (List β × Text) :=
  match expect comma text with
  | some rest => (next rest).map fun r => (item :: r.1, r.2)
  | none => (expect close text).map fun rest => ([item], rest)

mutual

/-- the value at the beginning of a text, and what follows it -/
def value : Nat → Text → Option (Value × Text)
  | 0, _ => none
  | fuel + 1, text =>
    match skip text with
    | [] => none
    | c :: rest =>
      if c = quote then (string rest).map fun r => (.string r.1, r.2)
      else if c = 0x5B then
        match expect 0x5D rest with
        | some rest => some (.array [], rest)
        | none => (elements fuel rest).map fun r => (.array r.1, r.2)
      else if c = 0x7B then
        match expect 0x7D rest with
        | some rest => some (.object [], rest)
        | none => (members fuel rest).map fun r => (.object r.1, r.2)
      else word (c :: rest)

def elements : Nat → Text → Option (List Value × Text)
  | 0, _ => none
  | fuel + 1, text => do
    let (v, text) ← value fuel text
    more (elements fuel) 0x5D v text

def members : Nat → Text → Option (List (Text × Value) × Text)
  | 0, _ => none
  | fuel + 1, text => do
    let text ← expect quote text
    let (key, text) ← string text
    let text ← expect colon text
    let (v, text) ← value fuel text
    more (members fuel) 0x7D (key, v) text

end

/-- `v` stands at the beginning of the text, and `rest` is left -/
def Reads (text : Text) (v : Value) (rest : Text) : Prop := ∃ fuel, value fuel text = some (v, rest)

/-! ## the bound -/

/-- `g` reads whatever `f` reads -/
def Extends {β : Type} (f g : Text → Option β) : Prop := ∀ text r, f text = some r → g text = some r

theorem more_extends {β : Type} {f g : Text → Option (List β × Text)} (h : Extends f g) (close : UInt16) (item : β) :
    Extends (more f close item) (more g close item) := by
  intro text r hr
  rw [more] at hr ⊢
  cases hcomma : expect comma text with
  | none =>
    rw [hcomma] at hr
    exact hr
  | some rest =>
    rw [hcomma] at hr
    obtain ⟨r', hr', rfl⟩ := Option.map_eq_some_iff.mp hr
    exact Option.map_eq_some_iff.mpr ⟨r', h _ _ hr', rfl⟩

theorem succ_extends (fuel : Nat) : Extends (value fuel) (value (fuel + 1)) ∧
    Extends (elements fuel) (elements (fuel + 1)) ∧ Extends (members fuel) (members (fuel + 1)) := by
  induction fuel with
  | zero =>
    refine ⟨?_, ?_, ?_⟩
    · intro text r h
      simp [value] at h
    · intro text r h
      simp [elements] at h
    · intro text r h
      simp [members] at h
  | succ fuel ih =>
    obtain ⟨ihv, ihe, ihm⟩ := ih
    refine ⟨?_, ?_, ?_⟩
    · intro text r h
      rw [value] at h ⊢
      cases hskip : skip text with
      | nil =>
        rw [hskip] at h
        exact h
      | cons c rest =>
        rw [hskip] at h
        simp only at h ⊢
        split at h
        · next hc => rw [if_pos hc, h]
        · next hc =>
          rw [if_neg hc]
          split at h
          · next hc =>
            rw [if_pos hc]
            cases hclose : expect 0x5D rest with
            | some _ =>
              rw [hclose] at h
              exact h
            | none =>
              rw [hclose] at h
              obtain ⟨r', hr', rfl⟩ := Option.map_eq_some_iff.mp h
              exact Option.map_eq_some_iff.mpr ⟨r', ihe _ _ hr', rfl⟩
          · next hc =>
            rw [if_neg hc]
            split at h
            · next hc =>
              rw [if_pos hc]
              cases hclose : expect 0x7D rest with
              | some _ =>
                rw [hclose] at h
                exact h
              | none =>
                rw [hclose] at h
                obtain ⟨r', hr', rfl⟩ := Option.map_eq_some_iff.mp h
                exact Option.map_eq_some_iff.mpr ⟨r', ihm _ _ hr', rfl⟩
            · next hc => rw [if_neg hc, h]
    · intro text r h
      rw [elements] at h ⊢
      obtain ⟨⟨v, rest⟩, hv, h⟩ := Option.bind_eq_some_iff.mp h
      exact Option.bind_eq_some_iff.mpr ⟨(v, rest), ihv _ _ hv, more_extends ihe _ _ _ _ h⟩
    · intro text r h
      rw [members] at h ⊢
      obtain ⟨text, htext, h⟩ := Option.bind_eq_some_iff.mp h
      obtain ⟨⟨key, rest⟩, hkey, h⟩ := Option.bind_eq_some_iff.mp h
      obtain ⟨text', htext', h⟩ := Option.bind_eq_some_iff.mp h
      obtain ⟨⟨v, rest'⟩, hv, h⟩ := Option.bind_eq_some_iff.mp h
      refine Option.bind_eq_some_iff.mpr ⟨text, htext, Option.bind_eq_some_iff.mpr ⟨(key, rest), hkey, ?_⟩⟩
      refine Option.bind_eq_some_iff.mpr ⟨text', htext', Option.bind_eq_some_iff.mpr ⟨(v, rest'), ihv _ _ hv, ?_⟩⟩
      exact more_extends ihm _ _ _ _ h

theorem value_le {fuel fuel' : Nat} (h : fuel ≤ fuel') : Extends (value fuel) (value fuel') := by
  induction h with
  | refl => exact fun _ _ h => h
  | step _ ih => exact fun text r h => (succ_extends _).1 _ _ (ih text r h)

/-! ## strings without escapes -/

/-- stands for itself in a string -/
def plain (c : UInt16) : Bool := c != quote && c != backslash && 0x20 ≤ c.toNat

def clean (s : Text) : Bool := s.all plain

theorem plain_iff {c : UInt16} : plain c = true ↔ c ≠ quote ∧ c ≠ backslash ∧ 0x20 ≤ c.toNat := by
  simp [plain, and_assoc]

theorem string_plain {c : UInt16} (h : plain c = true) (text : Text) :
    string (c :: text) = (string text).map (prepend c) := by
  obtain ⟨hq, hb, hc⟩ := plain_iff.mp h
  rw [string.eq_def]
  show (if c = quote then _ else _) = _
  rw [if_neg hq, if_neg hb, if_neg (by omega)]

theorem string_quote (text : Text) : string (quote :: text) = some ([], text) := by
  rw [string.eq_def]
  exact if_pos rfl

theorem string_clean {s : Text} (h : clean s = true) (text : Text) : string (s ++ quote :: text) = some (s, text) := by
  induction s with
  | nil => exact string_quote text
  | cons c s ih =>
    rw [clean, List.all_cons, Bool.and_eq_true] at h
    rw [List.cons_append, string_plain h.1, ih h.2]
    rfl

theorem string_control {c : UInt16} (h : c.toNat < 0x20) (text : Text) : string (c :: text) = none := by
  have hq : c ≠ quote := fun e => by rw [e] at h; exact absurd h (by decide)
  have hb : c ≠ backslash := fun e => by rw [e] at h; exact absurd h (by decide)
  rw [string.eq_def]
  show (if c = quote then _ else _) = _
  rw [if_neg hq, if_neg hb, if_pos h]

theorem string_escape {e : UInt16} (he : e ≠ 0x75) (text : Text) :
    string (backslash :: e :: text) = (escape e).bind fun unit => (string text).map (prepend unit) := by
  rw [string.eq_def]
  show (if e = 0x75 then _ else _) = _
  rw [if_neg he]
  rfl

theorem string_unicode {text s rest : Text} (h : string (backslash :: 0x75 :: text) = some (s, rest)) :
    ∃ a b c d tail unit s', text = a :: b :: c :: d :: tail ∧ hex4 a b c d = some unit ∧
      string tail = some (s', rest) ∧ s = unit :: s' := by
  rw [string.eq_def] at h
  match text with
  | [] => exact absurd h (by simp [quote, backslash])
  | [a] => exact absurd h (by simp [quote, backslash])
  | [a, b] => exact absurd h (by simp [quote, backslash])
  | [a, b, c] => exact absurd h (by simp [quote, backslash])
  | a :: b :: c :: d :: tail =>
    obtain ⟨unit, hunit, h⟩ := Option.bind_eq_some_iff.mp h
    obtain ⟨⟨s', rest'⟩, hs', hs⟩ := Option.map_eq_some_iff.mp h
    obtain ⟨rfl, rfl⟩ := Prod.mk.inj hs
    exact ⟨a, b, c, d, tail, unit, s', rfl, hunit, hs', rfl⟩

theorem hex4_quote {a b c d unit : UInt16} (h : hex4 a b c d = some unit) :
    a ≠ quote ∧ b ≠ quote ∧ c ≠ quote ∧ d ≠ quote := by
  obtain ⟨a', ha, h⟩ := Option.bind_eq_some_iff.mp h
  obtain ⟨b', hb, h⟩ := Option.bind_eq_some_iff.mp h
  obtain ⟨c', hc, h⟩ := Option.bind_eq_some_iff.mp h
  obtain ⟨d', hd, h⟩ := Option.bind_eq_some_iff.mp h
  have hne : ∀ e n, hexValue e = some n → e ≠ quote := by
    intro e n he hq
    rw [hq, show hexValue quote = none from rfl] at he
    exact absurd he (by simp)
  exact ⟨hne a a' ha, hne b b' hb, hne c c' hc, hne d d' hd⟩

theorem digits_before {t r tail : Text} {a b c d unit : UInt16} (h : t ++ quote :: r = a :: b :: c :: d :: tail)
    (hunit : hex4 a b c d = some unit) : ∃ t', t = a :: b :: c :: d :: t' ∧ t' ++ quote :: r = tail := by
  obtain ⟨ha, hb, hc, hd⟩ := hex4_quote hunit
  match t with
  | [] => exact absurd (List.cons.inj h).1.symm ha
  | [_] => exact absurd (List.cons.inj (List.cons.inj h).2).1.symm hb
  | [_, _] => exact absurd (List.cons.inj (List.cons.inj (List.cons.inj h).2).2).1.symm hc
  | [_, _, _] => exact absurd (List.cons.inj (List.cons.inj (List.cons.inj (List.cons.inj h).2).2).2).1.symm hd
  | _ :: _ :: _ :: _ :: t' =>
    simp only [List.cons_append, List.cons.injEq] at h
    obtain ⟨rfl, rfl, rfl, rfl, h⟩ := h
    exact ⟨t', rfl, h⟩

/-! ## pasted between quotes -/

/-- What is read of a text `t` and the quote behind it: the text itself; less than it; or the text has swallowed the
quote, and the string goes on. -/
def Outcome (t r s rest : Text) : Prop :=
  clean t = true ∧ s = t ∧ rest = r ∨ s.length < t.length ∨
    t.getLast? = some backslash ∧ ∃ s0 s1, s = s0 ++ quote :: s1 ∧ string r = some (s1, rest)

theorem Outcome.escaped {t r s rest : Text} {unit : UInt16} (h : Outcome t r s rest) (sequence : Text)
    (hlen : 1 < sequence.length) : Outcome (sequence ++ t) r (unit :: s) rest := by
  obtain ⟨-, rfl, -⟩ | hlt | ⟨hlast, s0, s1, rfl, hr⟩ := h
  · refine Or.inr (Or.inl ?_)
    rw [List.length_cons, List.length_append]
    omega
  · refine Or.inr (Or.inl ?_)
    rw [List.length_cons, List.length_append]
    omega
  · refine Or.inr (Or.inr ⟨?_, unit :: s0, s1, rfl, hr⟩)
    rw [List.getLast?_append, hlast]
    rfl

theorem Outcome.plain {t r s rest : Text} {c : UInt16} (h : Outcome t r s rest) (hc : plain c = true) :
    Outcome (c :: t) r (c :: s) rest := by
  obtain ⟨ht, rfl, rfl⟩ | hlt | ⟨hlast, s0, s1, rfl, hr⟩ := h
  · refine Or.inl ⟨?_, rfl, rfl⟩
    rw [clean, List.all_cons, hc, Bool.true_and]
    exact ht
  · refine Or.inr (Or.inl ?_)
    rw [List.length_cons, List.length_cons]
    omega
  · refine Or.inr (Or.inr ⟨?_, c :: s0, s1, rfl, hr⟩)
    rw [List.getLast?_cons, hlast]
    rfl

theorem string_outcome (n : Nat) : ∀ t : Text, t.length ≤ n → ∀ r s rest,
    string (t ++ quote :: r) = some (s, rest) → Outcome t r s rest := by
  induction n with
  | zero =>
    intro t ht r s rest h
    obtain rfl : t = [] := List.length_eq_zero_iff.mp (by omega)
    rw [List.nil_append, string_quote] at h
    obtain ⟨rfl, rfl⟩ := Prod.mk.inj (Option.some.inj h)
    exact Or.inl ⟨rfl, rfl, rfl⟩
  | succ n ih =>
    intro t ht r s rest h
    cases t with
    | nil => exact ih [] (Nat.zero_le n) r s rest h
    | cons c t =>
      rw [List.length_cons] at ht
      rw [List.cons_append] at h
      by_cases hq : c = quote
      · rw [hq, string_quote] at h
        obtain ⟨rfl, rfl⟩ := Prod.mk.inj (Option.some.inj h)
        exact Or.inr (Or.inl (Nat.succ_pos _))
      by_cases hb : c = backslash
      · subst hb
        cases t with
        | nil =>
          rw [List.nil_append, string_escape (by decide)] at h
          obtain ⟨⟨s1, rest'⟩, hr, hs⟩ := Option.map_eq_some_iff.mp h
          obtain ⟨rfl, rfl⟩ := Prod.mk.inj hs
          exact Or.inr (Or.inr ⟨rfl, [], s1, rfl, hr⟩)
        | cons e t =>
          rw [List.length_cons] at ht
          rw [List.cons_append] at h
          by_cases he : e = 0x75
          · subst he
            obtain ⟨a, b, c, d, tail, unit, s', htext, hunit, hs', rfl⟩ := string_unicode h
            obtain ⟨t', rfl, rfl⟩ := digits_before htext hunit
            simp only [List.length_cons] at ht
            have hrest := ih t' (by omega) r s' rest hs'
            exact hrest.escaped [backslash, 0x75, a, b, c, d] (Nat.lt_of_sub_eq_succ rfl)
          · rw [string_escape he] at h
            obtain ⟨unit, -, h⟩ := Option.bind_eq_some_iff.mp h
            obtain ⟨⟨s', rest'⟩, hs', hs⟩ := Option.map_eq_some_iff.mp h
            obtain ⟨rfl, rfl⟩ := Prod.mk.inj hs
            have hrest := ih t (by omega) r s' rest' hs'
            exact hrest.escaped [backslash, e] (Nat.lt_succ_self 1)
      by_cases hc : c.toNat < 0x20
      · rw [string_control hc] at h
        exact absurd h (by simp)
      · have hplain : Json.plain c = true := plain_iff.mpr ⟨hq, hb, by omega⟩
        rw [string_plain hplain] at h
        obtain ⟨⟨s', rest'⟩, hs', hs⟩ := Option.map_eq_some_iff.mp h
        obtain ⟨rfl, rfl⟩ := Prod.mk.inj hs
        exact (ih t (by omega) r s' rest' hs').plain hplain

/-- **A text pasted between quotes** is read back, with the quote as its end, exactly if it is clean. -/
theorem string_pasted {r : Text} (hr : ∀ s rest, string r = some (s, rest) → s.getLast? ≠ some backslash)
    (t rest : Text) : string (t ++ quote :: r) = some (t, rest) ↔ clean t = true ∧ rest = r := by
  constructor
  · intro h
    obtain ⟨ht, -, hrest⟩ | hlt | ⟨hlast, s0, s1, ht, hs1⟩ := string_outcome t.length t (Nat.le_refl _) r t rest h
    · exact ⟨ht, hrest⟩
    · exact absurd hlt (Nat.lt_irrefl _)
    · refine absurd ?_ (hr s1 rest hs1)
      rw [ht, List.getLast?_append, List.getLast?_cons] at hlast
      cases hs : s1.getLast? with
      | none =>
        rw [hs] at hlast
        exact absurd (Option.some.inj hlast) (by decide)
      | some c =>
        rw [hs] at hlast
        exact hlast
  · rintro ⟨ht, rfl⟩
    exact string_clean ht rest

/-! ## numbers in digits -/

/-- the digits of a number, without zeros in front -/
structure Decimal (ds : Text) : Prop where
  digits : ds.all isDigit = true
  nonempty : ds ≠ []
  noZero : ds.head? = some 0x30 → ds = [0x30]

def endsNumber (c : UInt16) : Bool := !isDigit c && c != 0x2E && c != 0x65 && c != 0x45

theorem intDigits_decimal {ds : Text} (h : Decimal ds) {c : UInt16} (hc : isDigit c = false) (rest : Text) :
    intDigits (ds ++ c :: rest) = ds := by
  have hhead : (ds ++ c :: rest).head? = ds.head? := by
    rw [List.head?_append, Option.or_of_isSome (List.isSome_head?.mpr h.nonempty)]
  rw [intDigits, hhead]
  split
  · next hzero => exact (h.noZero hzero).symm
  · rw [List.takeWhile_append_of_pos (List.all_eq_true.mp h.digits), List.takeWhile_cons_of_neg (by simp [hc]),
      List.append_nil]

theorem number_decimal {ds : Text} (h : Decimal ds) {c : UInt16} (hc : endsNumber c = true) (rest : Text) :
    number (ds ++ c :: rest) = some (.number (ofDigits ds) 0, c :: rest) := by
  obtain ⟨⟨⟨hdigit, hpoint⟩, he⟩, hE⟩ : ((isDigit c = false ∧ c ≠ 0x2E) ∧ c ≠ 0x65) ∧ c ≠ 0x45 := by
    simpa [endsNumber] using hc
  have hminus : (ds ++ c :: rest).head? ≠ some 0x2D := by
    intro hhead
    cases ds with
    | nil => exact h.nonempty rfl
    | cons d ds =>
      have hd := List.all_eq_true.mp h.digits d List.mem_cons_self
      rw [Option.some.inj hhead] at hd
      exact absurd hd (by decide)
  have hfraction : fraction (c :: rest) = some ([], c :: rest) := by
    rw [fraction, if_pos hpoint]
  have hexponent : exponent (c :: rest) = some (0, c :: rest) := by
    rw [exponent, if_pos ⟨he, hE⟩]
  unfold number
  simp only [hminus, if_false]
  rw [intDigits_decimal h hdigit, if_neg h.nonempty, List.drop_left, hfraction, Option.bind_eq_bind,
    Option.bind_some, hexponent, Option.bind_eq_bind, Option.bind_some, List.append_nil]
  rfl

/-! ## the reader, step by step -/

section
variable {c d : UInt16} {text : Text} {fuel : Nat}

theorem skip_space : skip (space :: text) = skip text := rfl

theorem skip_cons (hc : isSpace c = false) : skip (c :: text) = c :: text :=
  List.dropWhile_cons_of_neg (by simp [hc])

theorem expect_space : expect c (space :: text) = expect c text := rfl

theorem expect_self (hc : isSpace c = false) : expect c (c :: text) = some text := by
  rw [expect, skip_cons hc]
  exact if_pos rfl

theorem expect_other (hd : isSpace d = false) (h : d ≠ c) : expect c (d :: text) = none := by
  rw [expect, skip_cons hd]
  exact if_neg h

theorem value_space : value fuel (space :: text) = value fuel text := by
  cases fuel with
  | zero => rfl
  | succ fuel => rw [value, value, skip_space]

theorem members_space : members fuel (space :: text) = members fuel text := by
  cases fuel with
  | zero => rfl
  | succ fuel => rw [members, members, expect_space]

theorem elements_space : elements fuel (space :: text) = elements fuel text := by
  cases fuel with
  | zero => rfl
  | succ fuel => rw [elements, elements, value_space]

theorem elements_succ :
    elements (fuel + 1) text = (value fuel text).bind fun r => more (elements fuel) 0x5D r.1 r.2 := by
  rw [elements]
  rfl

theorem value_string : value (fuel + 1) (quote :: text) = (string text).map fun r => (.string r.1, r.2) := by
  rw [value, skip_cons rfl]
  exact if_pos rfl

theorem value_object : value (fuel + 1) (0x7B :: space :: quote :: text)
    = (members fuel (quote :: text)).map fun r => (.object r.1, r.2) := by
  have hclose : expect 0x7D (space :: quote :: text) = none :=
    expect_space.trans (expect_other rfl (by decide))
  rw [value, skip_cons rfl]
  simp only [hclose, members_space]
  rfl

theorem value_array : value (fuel + 1) (0x5B :: space :: 0x7B :: text)
    = (elements fuel (0x7B :: text)).map fun r => (.array r.1, r.2) := by
  have hclose : expect 0x5D (space :: 0x7B :: text) = none :=
    expect_space.trans (expect_other rfl (by decide))
  rw [value, skip_cons rfl]
  simp only [hclose, elements_space]
  rfl

theorem value_decimal {ds : Text} (h : Decimal ds) (hc : endsNumber c = true) :
    value (fuel + 1) (ds ++ c :: text) = some (.number (ofDigits ds) 0, c :: text) := by
  have hnumber := number_decimal h hc text
  cases ds with
  | nil => exact absurd rfl h.nonempty
  | cons d ds =>
    have hd : 0x30 ≤ d.toNat ∧ d.toNat ≤ 0x39 := by
      have hdigit := List.all_eq_true.mp h.digits d List.mem_cons_self
      simpa [isDigit] using hdigit
    have hne : ∀ e : UInt16, ¬ (0x30 ≤ e.toNat ∧ e.toNat ≤ 0x39) → d ≠ e := by
      rintro e he rfl
      exact he hd
    have hspace : isSpace d = false := by
      simp only [isSpace, Bool.or_eq_false_iff, beq_eq_false_iff_ne]
      exact ⟨⟨⟨hne _ (by decide), hne _ (by decide)⟩, hne _ (by decide)⟩, hne _ (by decide)⟩
    have hkeyword : ∀ e word, ¬ (0x30 ≤ e.toNat ∧ e.toNat ≤ 0x39) → keyword (e :: word) (d :: (ds ++ c :: text)) = none := by
      intro e word he
      refine if_neg fun hprefix => ?_
      exact hne e he (List.cons_prefix_cons.mp hprefix).1.symm
    rw [List.cons_append] at hnumber ⊢
    rw [value, skip_cons hspace]
    show (if d = quote then _ else _) = _
    rw [if_neg (hne _ (by decide)), if_neg (hne _ (by decide)), if_neg (hne _ (by decide)), word,
      hkeyword _ _ (by decide), hkeyword _ _ (by decide), hkeyword _ _ (by decide)]
    exact hnumber

theorem members_key {key : Text} (hkey : clean key = true) : members (fuel + 1) (quote :: (key ++ quote :: colon :: text))
    = (value fuel text).bind fun r => more (members fuel) 0x7D (key, r.1) r.2 := by
  rw [members, expect_self rfl, Option.bind_eq_bind, Option.bind_some, string_clean hkey, Option.bind_eq_bind,
    Option.bind_some]
  show (expect colon (colon :: text)).bind _ = _
  rw [expect_self rfl]
  rfl

section
variable {β : Type} {next : Text → Option (List β × Text)} {item : β} {items : List β} {rest : Text}

theorem more_comma : more next d item (comma :: text) = (next text).map fun r => (item :: r.1, r.2) := by
  rw [more, expect_self rfl]

theorem more_close (hd : isSpace d = false) (h : d ≠ comma) :
    more next d item (space :: d :: text) = some ([item], text) := by
  rw [more, expect_space, expect_other hd h, expect_space, expect_self hd]
  rfl

theorem more_first (h : more next d item text = some (items, rest)) : ∃ items', items = item :: items' := by
  rw [more] at h
  split at h
  · obtain ⟨r, -, hr⟩ := Option.map_eq_some_iff.mp h
    exact ⟨r.1, (Prod.mk.inj hr).1.symm⟩
  · obtain ⟨r, -, hr⟩ := Option.map_eq_some_iff.mp h
    exact ⟨[], (Prod.mk.inj hr).1.symm⟩

end

/-- **A member whose text is pasted between quotes**, with another member behind it. -/
theorem members_pasted {key : Text} (hkey : clean key = true) (t : Text) (ms : List (Text × Value)) (rest : Text) :
    members (fuel + 2) (quote :: (key ++ quote :: colon :: space :: quote :: (t ++ quote :: comma :: space :: quote :: text)))
        = some ((key, .string t) :: ms, rest)
      ↔ clean t = true ∧ members (fuel + 1) (quote :: text) = some (ms, rest) := by
  have hend : ∀ s rest, string (comma :: space :: quote :: text) = some (s, rest) → s.getLast? ≠ some backslash := by
    intro s rest h
    have hstring : string (comma :: space :: quote :: text) = some ([comma, space], text) := @string_clean [comma, space] rfl text
    rw [hstring] at h
    obtain ⟨rfl, rfl⟩ := Prod.mk.inj (Option.some.inj h)
    decide
  rw [members_key hkey, value_space, value_string]
  constructor
  · intro h
    obtain ⟨⟨v, tail⟩, hv, hmore⟩ := Option.bind_eq_some_iff.mp h
    obtain ⟨⟨s, tail'⟩, hs, hst⟩ := Option.map_eq_some_iff.mp hv
    obtain ⟨rfl, rfl⟩ := Prod.mk.inj hst
    obtain ⟨ms', hms'⟩ := more_first hmore
    have hst : s = t := by
      have hpair := (List.cons.inj hms').1
      exact (Value.string.inj (Prod.mk.inj hpair).2).symm
    rw [hst] at hs hmore
    obtain ⟨ht, rfl⟩ := (string_pasted hend t tail').mp hs
    rw [more_comma, members_space] at hmore
    obtain ⟨⟨ms'', rest'⟩, hms, hr⟩ := Option.map_eq_some_iff.mp hmore
    obtain ⟨hms'', rfl⟩ := Prod.mk.inj hr
    have htail : ms'' = ms := (List.cons.inj hms'').2
    rw [htail] at hms
    exact ⟨ht, hms⟩
  · rintro ⟨ht, hms⟩
    rw [string_clean ht, Option.map_some, Option.bind_some, more_comma, members_space, hms]
    rfl

end

end Json
