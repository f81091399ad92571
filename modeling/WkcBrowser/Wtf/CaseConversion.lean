import WkcBrowser.Lib.Filling
import WkcBrowser.Wtf.Text

/-!
# Case conversion

* `foldCase`, `toLower`, `toUpper`      the functions of `WTF::Unicode`, which are told how long the result may be;
* `StringImpl.foldCase`, `.lower`, `.upper`      they are called with the length of the source, and once more where that
  was not enough; here for strings of 16-bit units;
* `putUnit_loop`         the three loops write to the end, and past it;
* `respects_iff`         a buffer is respected exactly if nothing is left over;
* `case_conversion`      what this means for the functions and for the strings.
-/

namespace Wkc
namespace CaseConversion
open Filling

/-! ## the functions of the source -/

/-- the variables of the loops; `i` and `len` are one -/
structure Conversion where
  result : Option WString
  resultLength : Int
  len : Nat := 0
  error : Bool := false
  deriving DecidableEq

/-- the body of the loops; there is no state after a write outside of `result` -/
def putUnit (s : Conversion) (ch : UInt16) : Option Conversion :=
  match s.result with
  | some result =>
    if s.resultLength ≥ 0 then
      (put result s.len ch).map fun result =>
        { s with result := some result, resultLength := s.resultLength - 1, len := s.len + 1 }
    else some { s with error := true, len := s.len + 1 }
  | none => some { s with error := true, len := s.len + 1 }

section
variable (wkcUnicodeFoldCaseFullPeer : UInt16 → List UInt32)

/-- A `UChar` gets each of the characters. -/
def foldCase (result : Option WString) (resultLength : Int) (src : WString) : Option Conversion :=
  src.foldlM (fun s c => (wkcUnicodeFoldCaseFullPeer c).foldlM (fun s ch => putUnit s ch.toUInt16) s)
    { result, resultLength }

/-- `toLower` and `toUpper`, which return `srcLength` -/
def convertEach (convert : UInt16 → UInt16) (result : Option WString) (resultLength : Int) (src : WString) :
    Option Conversion :=
  src.foldlM (fun s c => putUnit s (convert c)) { result, resultLength }

variable (wkcUnicodeToLowerPeer wkcUnicodeToUpperPeer : UInt16 → UInt16)

def toLower (result : Option WString) (resultLength : Int) (src : WString) : Option Conversion :=
  convertEach wkcUnicodeToLowerPeer result resultLength src

def toUpper (result : Option WString) (resultLength : Int) (src : WString) : Option Conversion :=
  convertEach wkcUnicodeToUpperPeer result resultLength src

def isASCIIUpper (c : UInt16) : Bool := 0x41 ≤ c && c ≤ 0x5A
def toASCIILower (c : UInt16) : UInt16 := if 0x41 ≤ c && c ≤ 0x5A then c ||| 0x20 else c
def toASCIIUpper (c : UInt16) : UInt16 := if 0x61 ≤ c && c ≤ 0x7A then c &&& ~~~0x20 else c

/-- `!(ored & ~0x7F)` -/
def isAscii (s : WString) : Bool := s.foldl (fun ored c => ored ||| c) 0 &&& ~~~0x7F == 0

/-- a new string; what it holds is written over -/
def createUninitialized (length : Nat) : WString := List.replicate length 0

/-- the slower implementation at the end of the three: a second string where the first was not right -/
def convertTwice (convert : Option WString → Int → WString → Option Conversion) (this data : WString) : Option WString :=
  (convert (some data) this.length this).bind fun first =>
    if !first.error && first.len == this.length then first.result
    else (convert (some (createUninitialized first.len)) first.len this).bind fun second =>
      if second.error then some this else second.result

namespace StringImpl

def foldCase (this : WString) : Option WString :=
  if isAscii this then some (this.map toASCIILower)
  -- the fast loop has been over the string
  else convertTwice (CaseConversion.foldCase wkcUnicodeFoldCaseFullPeer) this (this.map toASCIILower)

def lower (this : WString) : Option WString :=
  let noUpper := !this.any isASCIIUpper
  if noUpper && isAscii this then some this
  else if isAscii this then some (this.map toASCIILower)
  else convertTwice (toLower wkcUnicodeToLowerPeer) this (createUninitialized this.length)

/-- from `upconvert` on -/
def upper (this : WString) : Option WString :=
  if isAscii this then some (this.map toASCIIUpper)
  else convertTwice (toUpper wkcUnicodeToUpperPeer) this (createUninitialized this.length)

end StringImpl

/-! ## what is wanted -/

def folded (s : WString) : WString := s.flatMap fun c => (wkcUnicodeFoldCaseFullPeer c).map UInt32.toUInt16

/-- the whole conversion of a string -/
def complete (ascii : UInt16 → UInt16) (converted s : WString) : WString := if isAscii s then s.map ascii else converted

end

/-- what a call may do to a buffer, which is as long as it is told -/
def Respects (call : Option Conversion) (converted : WString) (resultLength : Nat) : Prop :=
  ∃ s out, call = some s ∧ s.result = some out ∧ out.length = resultLength ∧
    out.take converted.length = converted.take resultLength ∧ s.len = converted.length ∧
    (s.error = true ↔ resultLength < converted.length)

/-! ## the loops -/

section
variable {size : Nat} {done buf units data this : WString} {u : UInt16}

/-- the loop when the units `done` have been written to a buffer of `size` units -/
def progress (size : Nat) (done buf : WString) : Conversion :=
  { result := some buf, resultLength := size - done.length, len := done.length }

theorem putUnit_room (h : Filled size done buf) (hroom : done.length < size) (u : UInt16) :
    ∃ out, putUnit (progress size done buf) u = some (progress size (done ++ [u]) out) ∧ Filled size (done ++ [u]) out := by
  obtain ⟨out, hput, hout⟩ := h.put (b := u) hroom
  refine ⟨out, ?_, hout⟩
  have hleft : (size : Int) - done.length ≥ 0 := by omega
  unfold putUnit progress
  dsimp only
  rw [if_pos hleft, hput, Option.map_some, List.length_append, List.length_singleton]
  congr 2
  omega

theorem putUnit_full (h : Filled size done buf) (hfull : done.length = size) (u : UInt16) :
    putUnit (progress size done buf) u = none := by
  unfold putUnit progress
  dsimp only
  rw [if_pos (by omega), h.put_full (by omega)]
  rfl

theorem putUnit_loop (h : Filled size done buf) (hroom : done.length + units.length ≤ size) :
    ∃ out, units.foldlM putUnit (progress size done buf) = some (progress size (done ++ units) out) ∧
      Filled size (done ++ units) out := by
  induction units generalizing done buf with
  | nil => exact ⟨buf, by rw [List.append_nil]; rfl, by rwa [List.append_nil]⟩
  | cons u units ih =>
    rw [List.length_cons] at hroom
    obtain ⟨next, hput, hnext⟩ := putUnit_room h (by omega) u
    obtain ⟨out, hloop, hout⟩ := ih hnext (by rw [List.length_append, List.length_singleton]; omega)
    rw [List.append_assoc] at hloop hout
    refine ⟨out, ?_, hout⟩
    rw [List.foldlM_cons, hput]
    exact hloop

theorem putUnit_loop_full (h : Filled size done buf) (hfull : size < done.length + units.length) :
    units.foldlM putUnit (progress size done buf) = none := by
  induction units generalizing done buf with
  | nil =>
    have hroom := h.room
    rw [List.length_nil] at hfull
    omega
  | cons u units ih =>
    rw [List.foldlM_cons]
    by_cases hlast : done.length < size
    · obtain ⟨next, hput, hnext⟩ := putUnit_room h hlast u
      rw [hput]
      refine ih hnext ?_
      rw [List.length_cons] at hfull
      rw [List.length_append, List.length_singleton]
      omega
    · rw [putUnit_full h (by have := h.room; omega)]
      rfl

/-- a conversion that writes one unit after the other -/
def Writes (convert : Option WString → Int → WString → Option Conversion) (units : WString → WString) : Prop :=
  ∀ result resultLength src, convert result resultLength src = (units src).foldlM putUnit { result, resultLength }

theorem writes_foldCase (fold : UInt16 → List UInt32) : Writes (foldCase fold) (folded fold) := by
  intro result resultLength src
  unfold foldCase folded
  generalize ({ result, resultLength } : Conversion) = s
  induction src generalizing s with
  | nil => rfl
  | cons c src ih =>
    rw [List.foldlM_cons, List.flatMap_cons, List.foldlM_append, List.foldlM_map]
    congr 1
    funext s
    exact ih s

theorem writes_convertEach (convert : UInt16 → UInt16) : Writes (convertEach convert) (List.map convert) := by
  intro result resultLength src
  rw [List.foldlM_map]
  rfl

variable {convert : Option WString → Int → WString → Option Conversion} {written : WString → WString}

theorem Writes.room (h : Writes convert written) (src : WString) (hroom : (written src).length ≤ buf.length) :
    ∃ out, convert (some buf) buf.length src = some (progress buf.length (written src) out) ∧
      Filled buf.length (written src) out := by
  have hfits : ([] : WString).length + (written src).length ≤ buf.length := by simpa using hroom
  obtain ⟨out, hloop, hout⟩ := putUnit_loop (Filled.nothing rfl) hfits
  refine ⟨out, ?_, hout⟩
  rw [h]
  exact hloop

theorem Writes.full (h : Writes convert written) (src : WString) (hfull : buf.length < (written src).length) :
    convert (some buf) buf.length src = none := by
  have hover : buf.length < ([] : WString).length + (written src).length := by simpa using hfull
  rw [h]
  exact putUnit_loop_full (Filled.nothing rfl) hover

theorem respects_iff (h : Writes convert written) (buf src : WString) :
    Respects (convert (some buf) buf.length src) (written src) buf.length ↔ (written src).length ≤ buf.length := by
  constructor
  · rintro ⟨s, out, hcall, -⟩
    by_contra hfull
    rw [h.full src (Nat.lt_of_not_le hfull)] at hcall
    exact absurd hcall nofun
  · intro hroom
    obtain ⟨out, hcall, hout⟩ := h.room src hroom
    refine ⟨_, out, hcall, rfl, hout.length, ?_, rfl, ?_⟩
    · rw [hout.front, List.take_of_length_le hroom]
    · exact iff_of_false nofun (Nat.not_lt.mpr hroom)

theorem eq_of_filled (h : Filled size done buf) (hfull : done.length = size) : buf = done := by
  have hfront := h.front
  rwa [hfull, ← h.length, List.take_length] at hfront

theorem createUninitialized_length (n : Nat) : (createUninitialized n).length = n := List.length_replicate

theorem convertTwice_eq (h : Writes convert written) (hdata : data.length = this.length) :
    convertTwice convert this data = if (written this).length ≤ this.length then some (written this) else none := by
  unfold convertTwice
  rw [← hdata]
  split
  · next hroom =>
    obtain ⟨out, hcall, hout⟩ := h.room this hroom
    rw [hcall, Option.bind_some]
    by_cases hexact : (written this).length = data.length
    · rw [if_pos (by simpa [progress] using hexact)]
      exact congrArg some (eq_of_filled hout hexact)
    · rw [if_neg (by simpa [progress] using hexact)]
      have hlength := createUninitialized_length (written this).length
      obtain ⟨second, hcall', hout'⟩ := h.room this (Nat.le_of_eq hlength.symm)
      rw [hlength] at hcall' hout'
      show (convert (some (createUninitialized (written this).length)) ((written this).length : Int) this).bind _ = _
      rw [hcall', Option.bind_some]
      exact congrArg some (eq_of_filled hout' rfl)
  · next hfull =>
    rw [h.full this (Nat.lt_of_not_le hfull)]
    rfl

end

/-! ## strings -/

section
variable (fold : UInt16 → List UInt32) (peer : UInt16 → UInt16) (s : WString)

theorem foldCase_complete : StringImpl.foldCase fold s = some (complete toASCIILower (folded fold s) s) ↔
    isAscii s = true ∨ (folded fold s).length ≤ s.length := by
  unfold StringImpl.foldCase complete
  cases hascii : isAscii s with
  | true => simp
  | false =>
    rw [if_neg Bool.false_ne_true, if_neg Bool.false_ne_true,
      convertTwice_eq (writes_foldCase fold) (List.length_map toASCIILower)]
    split
    · next hroom => exact iff_of_true rfl (.inr hroom)
    · next hfull => exact iff_of_false nofun (by simpa using hfull)

theorem convertEach_complete (this data : WString) (hdata : data.length = this.length) :
    convertTwice (convertEach peer) this data = some (this.map peer) := by
  rw [convertTwice_eq (writes_convertEach peer) hdata, if_pos (Nat.le_of_eq (List.length_map peer))]

theorem map_toASCIILower (h : s.any isASCIIUpper = false) : s.map toASCIILower = s := by
  rw [List.any_eq_false] at h
  have hsame : ∀ c ∈ s, toASCIILower c = c := fun c hc => if_neg (h c hc)
  rw [List.map_congr_left hsame, List.map_id']

theorem lower_complete : StringImpl.lower peer s = some (complete toASCIILower (s.map peer) s) := by
  unfold StringImpl.lower complete
  cases hascii : isAscii s with
  | true =>
    dsimp only
    cases hupper : s.any isASCIIUpper with
    | true => rfl
    | false => exact congrArg some (map_toASCIILower s hupper).symm
  | false =>
    dsimp only
    rw [Bool.and_false, if_neg Bool.false_ne_true, if_neg Bool.false_ne_true, if_neg Bool.false_ne_true]
    exact convertEach_complete peer s _ (createUninitialized_length s.length)

theorem upper_complete : StringImpl.upper peer s = some (complete toASCIIUpper (s.map peer) s) := by
  unfold StringImpl.upper complete
  split
  · rfl
  · exact convertEach_complete peer s _ (createUninitialized_length s.length)

end

/-- what the functions and the strings do: only a conversion that makes the text longer goes wrong, in `foldCase` -/
theorem case_conversion (fold : UInt16 → List UInt32) (lower upper : UInt16 → UInt16) :
    (∀ buf src, Respects (foldCase fold (some buf) buf.length src) (folded fold src) buf.length ↔
        (folded fold src).length ≤ buf.length) ∧
      (∀ buf src, Respects (toLower lower (some buf) buf.length src) (src.map lower) buf.length ↔
        src.length ≤ buf.length) ∧
      (∀ buf src, Respects (toUpper upper (some buf) buf.length src) (src.map upper) buf.length ↔
        src.length ≤ buf.length) ∧
      (∀ s, StringImpl.foldCase fold s = some (complete toASCIILower (folded fold s) s) ↔
        isAscii s = true ∨ (folded fold s).length ≤ s.length) ∧
      (∀ s, StringImpl.lower lower s = some (complete toASCIILower (s.map lower) s)) ∧
      ∀ s, StringImpl.upper upper s = some (complete toASCIIUpper (s.map upper) s) := by
  refine ⟨respects_iff (writes_foldCase fold), fun buf src => ?_, fun buf src => ?_, foldCase_complete fold,
    lower_complete lower, upper_complete upper⟩
  · have h := respects_iff (writes_convertEach lower) buf src
    rwa [List.length_map] at h
  · have h := respects_iff (writes_convertEach upper) buf src
    rwa [List.length_map] at h

/-- one letter that folds to two -/
def foldN (c : UInt16) : List UInt32 := if c = 0x149 then [0x2BC, 0x6E] else [c.toUInt32]

/-- The first call is told that there is room for one unit and writes two. -/
theorem fold_past_the_end :
    ¬ Respects (foldCase foldN (some [0]) 1 [0x149]) (folded foldN [0x149]) 1 ∧
      StringImpl.foldCase foldN [0x149] ≠ some (complete toASCIILower (folded foldN [0x149]) [0x149]) := by
  have hoverrun : foldCase foldN (some [0]) 1 [0x149] = none := by decide
  refine ⟨fun ⟨s, out, hcall, _⟩ => ?_, by decide⟩
  rw [hoverrun] at hcall
  exact absurd hcall nofun

end CaseConversion
end Wkc
