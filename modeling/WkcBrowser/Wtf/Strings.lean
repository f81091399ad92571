import WkcBrowser.Wtf.CaseConversion
import WkcBrowser.Wtf.Words

/-!
# `WTF::String` as a value

A string is null (`none`), or it has an impl, which holds its characters in bytes or in 16-bit units.  The functions
are those of `WTFString.cpp` and `StringImpl.cpp`; the checks for lengths that no string has, which end in `CRASH()`,
are left out.

* `Text`            a text that a string is made from, by a pointer;
* `append`, `insert`, `truncate`, `remove`, `replace`, `lower`, `upper`      the functions that change a string;
* `find`, `reverseFind`, `equal`, `utf8`, `latin1`    those that read it;
* `units_append` and the like      the characters of the result are told by the characters alone;
* `lower_iff`, `upper_iff`      for small and capital letters it may matter how they are held.
-/

namespace Wkc
open Buf

namespace Strings

/-! ## strings from texts -/

inductive StringImpl
  | data8 (m_data8 : Bytes)
  | data16 (m_data16 : WString)
  deriving DecidableEq

def StringImpl.is8Bit : StringImpl → Bool
  | .data8 _ => true
  | .data16 _ => false

def StringImpl.characters : StringImpl → WString
  | .data8 m_data8 => fromLatin1 m_data8
  | .data16 m_data16 => m_data16

/-- `createUninitialized`, filled with units; the empty string is of bytes -/
def StringImpl.create16 (data16 : WString) : StringImpl := if data16.isEmpty then .data8 [] else .data16 data16

abbrev WTFString := Option StringImpl

/-- a pointer to characters that end with a NUL, or to as many as are told -/
inductive Text
  | chars (str : Option Bytes)
  | charsLen (str : Option Bytes)
  | units (str : Option WString)
  | unitsLen (str : Option WString)
  deriving DecidableEq

def Text.isNull : Text → Bool
  | .chars str => str.isNone
  | .charsLen str => str.isNone
  | .units str => str.isNone
  | .unitsLen str => str.isNone

/-- `StringImpl::create`: the empty string for the null pointer -/
def StringImpl.create : Text → StringImpl
  | .chars str => .data8 ((str.getD []).takeWhile (· != 0))
  | .charsLen str => .data8 (str.getD [])
  | .units str => create16 ((str.getD []).takeWhile (· != 0))
  | .unitsLen str => create16 (str.getD [])

namespace WTFString

/-- The constructors make the null string of the null pointer. -/
def ofText (t : Text) : WTFString := if t.isNull then none else some (StringImpl.create t)

/-- the value: null, empty or a sequence of characters -/
def units (a : WTFString) : Option WString := a.map StringImpl.characters

def length (a : WTFString) : Nat := ((units a).getD []).length

def isEmpty (a : WTFString) : Bool := ((units a).getD []).isEmpty

/-! ## changes -/

def append (a str : WTFString) : WTFString :=
  if isEmpty str then a
  else
    match a with
    | some m_impl => some (.create16 (m_impl.characters ++ (units str).getD []))
    | none => str

/-- `append(const UChar*, unsigned)` -/
def appendUnits (a : WTFString) (charactersToAppend : Option WString) : WTFString :=
  match a with
  | none => charactersToAppend.map .create16
  | some m_impl =>
    if (charactersToAppend.getD []).isEmpty then some m_impl
    else some (.create16 (m_impl.characters ++ charactersToAppend.getD []))

/-- `insert(const UChar*, unsigned, unsigned)` -/
def insert (a : WTFString) (charactersToInsert : Option WString) (position : Nat) : WTFString :=
  if position ≥ length a then appendUnits a charactersToInsert
  else if (charactersToInsert.getD []).isEmpty then a
  else
    a.map fun m_impl =>
      .create16 (m_impl.characters.take position ++ charactersToInsert.getD [] ++ m_impl.characters.drop position)

def truncate (a : WTFString) (position : Nat) : WTFString :=
  if position ≥ length a then a else a.map fun m_impl => .create16 (m_impl.characters.take position)

/-- The length is an `int` here. -/
def remove (a : WTFString) (position lengthToRemove : Nat) : WTFString :=
  if asInt32 lengthToRemove ≤ 0 then a
  else if position ≥ length a then a
  else
    let lengthToRemove := min (asInt32 lengthToRemove).toNat (length a - position)
    a.map fun m_impl =>
      .create16 (m_impl.characters.take position ++ m_impl.characters.drop (position + lengthToRemove))

end WTFString

/-- the first place from `start` on where the pattern stands -/
def findFrom (this matchString : WString) (start : Nat) : Option Nat :=
  ((List.range (this.length + 1)).drop start).find? fun i => matchString.isPrefixOf (this.drop i)

/-- the loop of `replace`, from `srcSegmentStart` on, at most `n` times; `next` finds the pattern -/
def replaceFrom {α : Type} (next : Nat → Option Nat) (patternLength : Nat) (this replacement : List α) :
    Nat → Nat → List α
  | 0, srcSegmentStart => this.drop srcSegmentStart
  | n + 1, srcSegmentStart =>
    match next srcSegmentStart with
    | none => this.drop srcSegmentStart
    | some srcSegmentEnd =>
      (this.drop srcSegmentStart).take (srcSegmentEnd - srcSegmentStart) ++ replacement ++
        replaceFrom next patternLength this replacement n (srcSegmentEnd + patternLength)

namespace StringImpl

/-- A pattern has at least one character, so it is found at most as often as the string has some. -/
def replace (this pattern replacement : StringImpl) : StringImpl :=
  let next := findFrom this.characters pattern.characters
  let patternLength := pattern.characters.length
  let n := this.characters.length
  if patternLength = 0 then this
  else if next 0 = none then this
  else
    match this, replacement with
    | .data8 this, .data8 replacement => .data8 (replaceFrom next patternLength this replacement n 0)
    | this, replacement => .create16 (replaceFrom next patternLength this.characters replacement.characters n 0)

/-- `replace(unsigned, unsigned, StringImpl*)` -/
def replaceAt (this : StringImpl) (position lengthToReplace : Nat) (str : WTFString) : StringImpl :=
  let position := min position this.characters.length
  let lengthToReplace := min lengthToReplace (this.characters.length - position)
  if lengthToReplace = 0 ∧ str.length = 0 then this
  else
    match this, str with
    | .data8 this, none => .data8 (this.take position ++ this.drop (position + lengthToReplace))
    | .data8 this, some (.data8 str) => .data8 (this.take position ++ str ++ this.drop (position + lengthToReplace))
    | this, str =>
      .create16 (this.characters.take position ++ str.units.getD [] ++ this.characters.drop (position + lengthToReplace))

def substring (this : StringImpl) (start length : Nat) : StringImpl :=
  if start ≥ this.characters.length then .data8 []
  else
    let maxLength := this.characters.length - start
    if length ≥ maxLength ∧ start = 0 then this
    else
      let length := min length maxLength
      match this with
      | .data8 this => .data8 ((this.drop start).take length)
      | .data16 this => .create16 ((this.drop start).take length)

open CaseConversion

def smallLetterSharpS : UInt8 := 0xDF

/-- The bytes have units with the same table.  No conversion of units fails (`lower_complete`). -/
def lower (wkcUnicodeToLowerPeer : UInt16 → UInt16) : StringImpl → StringImpl
  | .data8 m_data8 =>
    if isAscii (fromLatin1 m_data8) then .data8 (m_data8.map fun c => (toASCIILower c.toUInt16).toUInt8)
    else .data8 (m_data8.map fun c => (wkcUnicodeToLowerPeer c.toUInt16).toUInt8)
  | .data16 m_data16 => .create16 ((CaseConversion.StringImpl.lower wkcUnicodeToLowerPeer m_data16).getD m_data16)

def upper (wkcUnicodeToUpperPeer : UInt16 → UInt16) : StringImpl → StringImpl
  | .data8 m_data8 =>
    if isAscii (fromLatin1 m_data8) then .data8 (m_data8.map fun c => (toASCIIUpper c.toUInt16).toUInt8)
    else if m_data8.any fun c => wkcUnicodeToUpperPeer c.toUInt16 > 0xFF then
      -- `upconvert`
      .create16 ((CaseConversion.StringImpl.upper wkcUnicodeToUpperPeer (fromLatin1 m_data8)).getD (fromLatin1 m_data8))
    else
      .data8 (m_data8.flatMap fun c =>
        if c = smallLetterSharpS then [0x53, 0x53] else [(wkcUnicodeToUpperPeer c.toUInt16).toUInt8])
  | .data16 m_data16 => .create16 ((CaseConversion.StringImpl.upper wkcUnicodeToUpperPeer m_data16).getD m_data16)

end StringImpl

namespace WTFString

def replace (a pattern replacement : WTFString) : WTFString :=
  match a, pattern, replacement with
  | some m_impl, some pattern, some replacement => some (m_impl.replace pattern replacement)
  | a, _, _ => a

def replaceAt (a : WTFString) (index len : Nat) (b : WTFString) : WTFString := a.map fun m_impl => m_impl.replaceAt index len b

def substring (a : WTFString) (pos len : Nat) : WTFString := a.map fun m_impl => m_impl.substring pos len

def lower (wkcUnicodeToLowerPeer : UInt16 → UInt16) (a : WTFString) : WTFString :=
  a.map (StringImpl.lower wkcUnicodeToLowerPeer)

def upper (wkcUnicodeToUpperPeer : UInt16 → UInt16) (a : WTFString) : WTFString :=
  a.map (StringImpl.upper wkcUnicodeToUpperPeer)

/-! ## what is read -/

def find (a str : WTFString) : Option Nat :=
  match units a, units str with
  | some this, some matchString => findFrom this matchString 0
  | _, _ => none

def findUnit (a : WTFString) (c : UInt16) (start : Nat) : Option Nat := (units a).bind fun this => findFrom this [c] start

def reverseFind (a : WTFString) (c : UInt16) : Option Nat :=
  (units a).bind fun this => (List.range this.length).reverse.find? fun i => this[i]? = some c

/-- `operator==(const String&, const char*)` -/
def equal (a : WTFString) (b : Option Bytes) : Bool := decide (units a = units (ofText (.chars b)))

/-- the null string has the bytes of the empty one; a text that might get too long has none -/
def utf8 (a : WTFString) : Option Bytes :=
  if length a > (2 ^ 32 - 1) / 3 then none else some (Wkc.utf8 ((units a).getD []))

def latin1 (a : WTFString) : Bytes := ((units a).getD []).map fun ch => if ch > 0xFF then 0x3F else ch.toUInt8

end WTFString

/-! ## what the characters tell -/

theorem fromLatin1_injective : Function.Injective fromLatin1 :=
  List.map_injective_iff.mpr fun a b h => by simpa using congrArg UInt16.toUInt8 h

@[simp] theorem characters_create16 (data16 : WString) : (StringImpl.create16 data16).characters = data16 := by
  unfold StringImpl.create16
  split
  · next h => exact (List.isEmpty_iff.mp h).symm
  · rfl

theorem replaceFrom_map {α β : Type} (f : α → β) (next : Nat → Option Nat) (patternLength : Nat)
    (this replacement : List α) (n : Nat) : ∀ srcSegmentStart,
    (replaceFrom next patternLength this replacement n srcSegmentStart).map f =
      replaceFrom next patternLength (this.map f) (replacement.map f) n srcSegmentStart := by
  induction n with
  | zero => exact fun _ => List.map_drop
  | succ n ih =>
    intro srcSegmentStart
    rw [replaceFrom, replaceFrom]
    split
    · exact List.map_drop
    · rw [List.map_append, List.map_append, List.map_take, List.map_drop, ih]

section
variable (this this' : StringImpl)

theorem characters_replace (pattern replacement : StringImpl) :
    (this.replace pattern replacement).characters =
      if pattern.characters.length = 0 ∨ findFrom this.characters pattern.characters 0 = none then this.characters
      else
        replaceFrom (findFrom this.characters pattern.characters) pattern.characters.length this.characters
          replacement.characters this.characters.length 0 := by
  unfold StringImpl.replace
  dsimp only
  by_cases hlength : pattern.characters.length = 0
  · rw [if_pos hlength, if_pos (.inl hlength)]
  by_cases hnone : findFrom this.characters pattern.characters 0 = none
  · rw [if_neg hlength, if_pos hnone, if_pos (.inr hnone)]
  rw [if_neg hlength, if_neg hnone, if_neg (not_or.mpr ⟨hlength, hnone⟩)]
  split
  · exact replaceFrom_map UInt8.toUInt16 ..
  · exact characters_create16 _

theorem characters_replaceAt (position lengthToReplace : Nat) (str : WTFString) :
    (this.replaceAt position lengthToReplace str).characters =
      this.characters.take (min position this.characters.length) ++ str.units.getD [] ++
        this.characters.drop (min position this.characters.length +
          min lengthToReplace (this.characters.length - min position this.characters.length)) := by
  unfold StringImpl.replaceAt
  dsimp only
  split
  · next h =>
    rw [h.1, List.eq_nil_of_length_eq_zero h.2, Nat.add_zero, List.append_nil, List.take_append_drop]
  · split
    · simp [StringImpl.characters, fromLatin1, WTFString.units]
    · simp [StringImpl.characters, fromLatin1, WTFString.units]
    · exact characters_create16 _

theorem characters_substring (start length : Nat) :
    (this.substring start length).characters = (this.characters.drop start).take length := by
  unfold StringImpl.substring
  dsimp only
  split
  · next h =>
    rw [List.drop_eq_nil_of_le h, List.take_nil]
    rfl
  · split
    · next h => rw [h.2, List.drop_zero, List.take_of_length_le (by omega)]
    · have hmin : ∀ {α : Type} (l : List α), l.length = this.characters.length →
          (l.drop start).take (min length (this.characters.length - start)) = (l.drop start).take length := by
        intro α l hl
        rw [← List.take_take, ← hl, ← List.length_drop, List.take_length]
      cases this with
      | data8 this =>
        dsimp only
        rw [hmin this (by simp [StringImpl.characters, fromLatin1])]
        simp [StringImpl.characters, fromLatin1]
      | data16 this =>
        dsimp only
        rw [characters_create16, hmin this rfl]
        rfl

end

/-! ## strings of the same characters -/

namespace WTFString
section
variable {a a' b b' : WTFString}

theorem units_eq (h : units a = units a') :
    (a = none ∧ a' = none) ∨ ∃ i i', a = some i ∧ a' = some i' ∧ i.characters = i'.characters := by
  cases a with
  | none =>
    cases a' with
    | none => exact .inl ⟨rfl, rfl⟩
    | some i' => exact absurd h nofun
  | some i =>
    cases a' with
    | none => exact absurd h nofun
    | some i' => exact .inr ⟨i, i', rfl, rfl, Option.some.inj h⟩

theorem units_some (i : StringImpl) : units (some i) = some i.characters := rfl

theorem units_none_iff : units a = none ↔ a = none := Option.map_eq_none_iff

theorem units_append (ha : units a = units a') (hb : units b = units b') : units (append a b) = units (append a' b') := by
  unfold append isEmpty
  rw [hb]
  split
  · exact ha
  · obtain ⟨rfl, rfl⟩ | ⟨i, i', rfl, rfl, hi⟩ := units_eq ha
    · exact hb
    · simp only [units_some, characters_create16, hi]

theorem units_appendUnits (ha : units a = units a') (charactersToAppend : Option WString) :
    units (appendUnits a charactersToAppend) = units (appendUnits a' charactersToAppend) := by
  obtain ⟨rfl, rfl⟩ | ⟨i, i', rfl, rfl, hi⟩ := units_eq ha
  · rfl
  · unfold appendUnits
    dsimp only
    split
    · exact ha
    · simp only [units_some, characters_create16, hi]

theorem units_map {f g : StringImpl → StringImpl} (ha : units a = units a')
    (hfg : ∀ i i', i.characters = i'.characters → (f i).characters = (g i').characters) :
    units (a.map f) = units (a'.map g) := by
  obtain ⟨rfl, rfl⟩ | ⟨i, i', rfl, rfl, hi⟩ := units_eq ha
  · rfl
  · exact congrArg some (hfg i i' hi)

theorem units_insert (ha : units a = units a') (charactersToInsert : Option WString) (position : Nat) :
    units (insert a charactersToInsert position) = units (insert a' charactersToInsert position) := by
  unfold insert length
  rw [ha]
  split
  · exact units_appendUnits ha charactersToInsert
  · split
    · exact ha
    · exact units_map ha fun i i' hi => by rw [characters_create16, characters_create16, hi]

theorem units_truncate (ha : units a = units a') (position : Nat) :
    units (truncate a position) = units (truncate a' position) := by
  unfold truncate length
  rw [ha]
  split
  · exact ha
  · exact units_map ha fun i i' hi => by rw [characters_create16, characters_create16, hi]

theorem units_remove (ha : units a = units a') (position lengthToRemove : Nat) :
    units (remove a position lengthToRemove) = units (remove a' position lengthToRemove) := by
  unfold remove length
  rw [ha]
  split
  · exact ha
  · split
    · exact ha
    · exact units_map ha fun i i' hi => by rw [characters_create16, characters_create16, hi]

theorem units_replace {c c' : WTFString} (ha : units a = units a') (hb : units b = units b') (hc : units c = units c') :
    units (replace a b c) = units (replace a' b' c') := by
  obtain ⟨rfl, rfl⟩ | ⟨i, i', rfl, rfl, hi⟩ := units_eq ha
  · rfl
  obtain ⟨rfl, rfl⟩ | ⟨p, p', rfl, rfl, hp⟩ := units_eq hb
  · exact ha
  obtain ⟨rfl, rfl⟩ | ⟨r, r', rfl, rfl, hr⟩ := units_eq hc
  · exact ha
  show some (i.replace p r).characters = some (i'.replace p' r').characters
  rw [characters_replace, characters_replace, hi, hp, hr]

theorem units_replaceAt (ha : units a = units a') (hb : units b = units b') (index len : Nat) :
    units (replaceAt a index len b) = units (replaceAt a' index len b') :=
  units_map ha fun i i' hi => by rw [characters_replaceAt, characters_replaceAt, hi, hb]

end

/-! ## a string does not get null -/

section
variable (i : StringImpl)

theorem append_some (str : WTFString) : append (some i) str ≠ none := by
  unfold append
  split <;> exact Option.some_ne_none _

theorem appendUnits_some (charactersToAppend : Option WString) : appendUnits (some i) charactersToAppend ≠ none := by
  unfold appendUnits
  dsimp only
  split <;> exact Option.some_ne_none _

theorem insert_some (charactersToInsert : Option WString) (position : Nat) :
    insert (some i) charactersToInsert position ≠ none := by
  unfold insert
  split
  · exact appendUnits_some i charactersToInsert
  · split <;> exact Option.some_ne_none _

theorem truncate_some (position : Nat) : truncate (some i) position ≠ none := by
  unfold truncate
  split <;> exact Option.some_ne_none _

theorem remove_some (position lengthToRemove : Nat) : remove (some i) position lengthToRemove ≠ none := by
  unfold remove
  split
  · exact Option.some_ne_none _
  · split <;> exact Option.some_ne_none _

theorem replace_some (pattern replacement : WTFString) : replace (some i) pattern replacement ≠ none := by
  unfold replace
  split <;> exact Option.some_ne_none _

end

end WTFString

/-! ## small and capital letters -/

open CaseConversion

theorem toUInt8_toUInt16_iff (c : UInt16) : c.toUInt8.toUInt16 = c ↔ c ≤ 0xFF := by
  rw [← UInt16.toNat_inj, UInt16.le_iff_toNat_le, UInt8.toNat_toUInt16, UInt16.toNat_toUInt8]
  have := UInt16.toNat_lt c
  have h255 : (0xFF : UInt16).toNat = 255 := rfl
  omega

theorem toASCIILower_latin1 (c : UInt8) : (toASCIILower c.toUInt16).toUInt8.toUInt16 = toASCIILower c.toUInt16 := by
  have hall : ∀ n : Fin 256, (toASCIILower (UInt8.ofNat n).toUInt16).toUInt8.toUInt16 =
      toASCIILower (UInt8.ofNat n).toUInt16 := by decide +kernel
  have hc := hall ⟨c.toNat, UInt8.toNat_lt c⟩
  rwa [UInt8.ofNat_toNat] at hc

theorem toASCIIUpper_latin1 (c : UInt8) : (toASCIIUpper c.toUInt16).toUInt8.toUInt16 = toASCIIUpper c.toUInt16 := by
  have hall : ∀ n : Fin 256, (toASCIIUpper (UInt8.ofNat n).toUInt16).toUInt8.toUInt16 =
      toASCIIUpper (UInt8.ofNat n).toUInt16 := by decide +kernel
  have hc := hall ⟨c.toNat, UInt8.toNat_lt c⟩
  rwa [UInt8.ofNat_toNat] at hc

section
variable (peer : UInt16 → UInt16)

/-- Small letters are the same however the characters are held: the bytes take no letter that is more than a byte. -/
def SameLower (a b : StringImpl) : Prop :=
  a.is8Bit = b.is8Bit ∨ isAscii a.characters = true ∨ ∀ c ∈ a.characters, peer c ≤ 0xFF

/-- The bytes make two letters of a sharp s, unless they are made units for another letter. -/
def SameUpper (a b : StringImpl) : Prop :=
  a.is8Bit = b.is8Bit ∨ isAscii a.characters = true ∨ StringImpl.smallLetterSharpS.toUInt16 ∉ a.characters ∨
    ∃ c ∈ a.characters, peer c > 0xFF

theorem characters_lower16 (s : WString) :
    (StringImpl.lower peer (.data16 s)).characters = complete toASCIILower (s.map peer) s := by
  rw [StringImpl.lower, characters_create16, lower_complete, Option.getD_some]

theorem characters_upper16 (s : WString) :
    (StringImpl.upper peer (.data16 s)).characters = complete toASCIIUpper (s.map peer) s := by
  rw [StringImpl.upper, characters_create16, upper_complete, Option.getD_some]

theorem fromLatin1_map {f : UInt16 → UInt16} {m_data8 : Bytes}
    (hf : ∀ c ∈ m_data8, (f c.toUInt16).toUInt8.toUInt16 = f c.toUInt16) :
    fromLatin1 (m_data8.map fun c => (f c.toUInt16).toUInt8) = (fromLatin1 m_data8).map f := by
  unfold fromLatin1
  rw [List.map_map, List.map_map]
  exact List.map_congr_left hf

theorem lower8_iff (m_data8 : Bytes) :
    (StringImpl.lower peer (.data8 m_data8)).characters =
        (StringImpl.lower peer (.data16 (fromLatin1 m_data8))).characters ↔
      isAscii (fromLatin1 m_data8) = true ∨ ∀ c ∈ fromLatin1 m_data8, peer c ≤ 0xFF := by
  rw [characters_lower16, StringImpl.lower, complete]
  split
  · next hascii =>
    exact iff_of_true (fromLatin1_map fun c _ => toASCIILower_latin1 c) (.inl hascii)
  · next hascii =>
    rw [or_iff_right hascii]
    show List.map _ (List.map _ m_data8) = List.map _ (List.map _ m_data8) ↔ ∀ c ∈ List.map _ m_data8, _
    rw [List.map_map, List.map_map, List.map_inj_left, List.forall_mem_map]
    exact forall₂_congr fun c _ => toUInt8_toUInt16_iff (peer c.toUInt16)

theorem sameWidth_iff {f : StringImpl → WString} {P : WString → Prop}
    (hf : ∀ m_data8, f (.data8 m_data8) = f (.data16 (fromLatin1 m_data8)) ↔ P (fromLatin1 m_data8))
    {a b : StringImpl} (h : a.characters = b.characters) : f a = f b ↔ a.is8Bit = b.is8Bit ∨ P a.characters := by
  cases a with
  | data8 m_data8 =>
    cases b with
    | data8 m_data8' =>
      rw [fromLatin1_injective h]
      exact iff_of_true rfl (.inl rfl)
    | data16 m_data16 =>
      rw [show m_data16 = fromLatin1 m_data8 from h.symm, hf]
      exact (or_iff_right Bool.true_eq_false.mp).symm
  | data16 m_data16 =>
    cases b with
    | data8 m_data8 =>
      rw [show m_data16 = fromLatin1 m_data8 from h, eq_comm, hf]
      exact (or_iff_right Bool.false_ne_true).symm
    | data16 m_data16' =>
      rw [show m_data16 = m_data16' from h]
      exact iff_of_true rfl (.inl rfl)

theorem lower_iff {a b : StringImpl} (h : a.characters = b.characters) :
    (StringImpl.lower peer a).characters = (StringImpl.lower peer b).characters ↔ SameLower peer a b :=
  sameWidth_iff (f := fun i => (StringImpl.lower peer i).characters)
    (P := fun s => isAscii s = true ∨ ∀ c ∈ s, peer c ≤ 0xFF) (lower8_iff peer) h

theorem length_lt_sharpS {m_data8 : Bytes} (h : StringImpl.smallLetterSharpS ∈ m_data8) :
    m_data8.length < (m_data8.flatMap fun c =>
      if c = StringImpl.smallLetterSharpS then [0x53, 0x53] else [(peer c.toUInt16).toUInt8]).length := by
  have hle : ∀ rest : Bytes, rest.length ≤ (rest.flatMap fun c =>
      if c = StringImpl.smallLetterSharpS then [0x53, 0x53] else [(peer c.toUInt16).toUInt8]).length := by
    intro rest
    induction rest with
    | nil => exact Nat.le_refl 0
    | cons c rest ih =>
      rw [List.flatMap_cons, List.length_append, List.length_cons]
      split
      all_goals
        simp only [List.length_cons, List.length_nil]
        omega
  obtain ⟨before, rest, rfl⟩ := List.mem_iff_append.mp h
  rw [List.flatMap_append, List.flatMap_cons, List.length_append, List.length_append, List.length_append, if_pos rfl]
  have hbefore := hle before
  have hrest := hle rest
  simp only [List.length_cons, List.length_nil]
  omega

theorem flatMap_no_sharpS {m_data8 : Bytes} (h : StringImpl.smallLetterSharpS ∉ m_data8) :
    (m_data8.flatMap fun c =>
      if c = StringImpl.smallLetterSharpS then [0x53, 0x53] else [(peer c.toUInt16).toUInt8]) =
      m_data8.map fun c => (peer c.toUInt16).toUInt8 := by
  rw [List.map_eq_flatMap]
  refine List.flatMap_congr fun c hc => if_neg ?_
  rintro rfl
  exact h hc

theorem mem_fromLatin1 {c : UInt8} {m_data8 : Bytes} : c.toUInt16 ∈ fromLatin1 m_data8 ↔ c ∈ m_data8 :=
  List.mem_map_of_injective fun a b hab => by simpa using congrArg UInt16.toUInt8 hab

theorem upper8_iff (m_data8 : Bytes) :
    (StringImpl.upper peer (.data8 m_data8)).characters =
        (StringImpl.upper peer (.data16 (fromLatin1 m_data8))).characters ↔
      isAscii (fromLatin1 m_data8) = true ∨ StringImpl.smallLetterSharpS.toUInt16 ∉ fromLatin1 m_data8 ∨
        ∃ c ∈ fromLatin1 m_data8, peer c > 0xFF := by
  rw [characters_upper16, StringImpl.upper]
  split
  · next hascii =>
    rw [complete, if_pos hascii]
    exact iff_of_true (fromLatin1_map fun c _ => toASCIIUpper_latin1 c) (.inl hascii)
  next hascii =>
  rw [or_iff_right hascii]
  split
  · next hwide =>
    obtain ⟨c, hc, hpeer⟩ := List.any_eq_true.mp hwide
    rw [characters_create16, upper_complete, Option.getD_some]
    exact iff_of_true rfl (.inr ⟨c.toUInt16, mem_fromLatin1.mpr hc, of_decide_eq_true hpeer⟩)
  next hnarrow =>
  have hbytes : ∀ c ∈ m_data8, peer c.toUInt16 ≤ 0xFF := by
    intro c hc
    by_contra hgt
    exact hnarrow (List.any_eq_true.mpr ⟨c, hc, decide_eq_true (UInt16.not_le.mp hgt)⟩)
  have hnone : ¬ ∃ c ∈ fromLatin1 m_data8, peer c > 0xFF := by
    rintro ⟨c, hc, hgt⟩
    obtain ⟨byte, hbyte, rfl⟩ := List.mem_map.mp hc
    exact UInt16.not_le.mpr hgt (hbytes byte hbyte)
  rw [or_iff_left hnone, mem_fromLatin1, complete, if_neg hascii]
  by_cases hsharp : StringImpl.smallLetterSharpS ∈ m_data8
  · refine iff_of_false (fun heq => ?_) (not_not.mpr hsharp)
    have hlength := congrArg List.length heq
    rw [List.length_map] at hlength
    have hmore := length_lt_sharpS peer hsharp
    simp only [StringImpl.characters, fromLatin1, List.length_map] at hlength
    omega
  · refine iff_of_true ?_ hsharp
    rw [flatMap_no_sharpS peer hsharp]
    exact fromLatin1_map fun c hc => (toUInt8_toUInt16_iff _).mpr (hbytes c hc)

theorem upper_iff {a b : StringImpl} (h : a.characters = b.characters) :
    (StringImpl.upper peer a).characters = (StringImpl.upper peer b).characters ↔ SameUpper peer a b :=
  sameWidth_iff (f := fun i => (StringImpl.upper peer i).characters)
    (P := fun s => isAscii s = true ∨ StringImpl.smallLetterSharpS.toUInt16 ∉ s ∨ ∃ c ∈ s, peer c > 0xFF)
    (upper8_iff peer) h

end

end Strings

end Wkc
