import WkcBrowser.Lib.Bytes
import Mathlib.Logic.Relation

/-!
# `MPOImageDecoder`: two JPEG images in one file

* `findMPF`               the loop over the markers, up to the segment with the MP index;
* `matchesMPOSignature`, `create`   which decoder an image gets;
* `MPOImageDecoder`, `setData`      the decoder and its two JPEG decoders, as the calls that they get;
* `Leads`                 the positions that the lengths of the segments lead to;
* `setData_inside_iff`    when all reads lie inside, and the right decoder gets a part of the data.

A read outside the bytes is `none`.
-/

namespace Wkc
namespace Mpo
open Buf

/-- what `getSomeData` gives from the start, and what comes behind -/
structure SharedBuffer where
  buffer : Bytes
  segments : Bytes
  bound : (buffer ++ segments).length < 2 ^ 32

namespace SharedBuffer
def data (s : SharedBuffer) : Bytes := s.buffer ++ s.segments
def size (s : SharedBuffer) : Nat := s.data.length
end SharedBuffer

def SOI : Bytes := [0xFF, 0xD8, 0xFF]
def MPF : Bytes := [0x4D, 0x50, 0x46, 0]

/-! ## the markers -/

/-- `p[pos+3] + (p[pos+2]<<8)` -/
def segmentLength (p : Bytes) (pos : Nat) : Option Nat := (load p (pos + 2) 2).map fun bs => ofLE bs.reverse

/-- the index is in this segment -/
def isMPF (p : Bytes) (len : Int) (pos : Nat) : Option Bool := do
  let kind ← p[pos + 1]?
  if kind = 0xE2 ∧ (pos : Int) + 8 < len then
    let name ← load p (pos + 4) 4
    return name == MPF
  else return false

/-- The loop of `matchesMPOSignature` and of `setData`, from a position on: the segment with the MP index. -/
def findMPF (p : Bytes) (len : Int) (pos : Nat) : Option (Option Nat) := do
  let marker ← p[pos]?
  if hpos : marker = 0xFF ∧ (pos : Int) + 4 < len then
    let mpo ← isMPF p len pos
    if mpo then return some pos
    else
      let next ← segmentLength p pos
      findMPF p len (pos + next + 2)
  else return none
termination_by (len - pos).toNat

def matchesMPOSignature (data : Bytes) : Option Bool := do
  let front ← load data 0 3
  if front ≠ SOI then return false
  else
    let found ← findMPF data (asInt32 data.length) 2
    return found.isSome

/-! ## which decoder -/

inductive Kind where
  | GIF | PNG | BMP | ICO | MPO | JPEG
  deriving DecidableEq

def lengthOfLongestSignature : Nat := 14

/-- WebP is off, MPO is on -/
def create (data : SharedBuffer) (allDataReceived : Bool) : Option (Option Kind) :=
  let contents := data.data.take lengthOfLongestSignature
  let starts (signature : Bytes) : Bool := signature.isPrefixOf contents
  if contents.length < lengthOfLongestSignature then some none
  else if starts [0x47, 0x49, 0x46, 0x38, 0x37, 0x61] || starts [0x47, 0x49, 0x46, 0x38, 0x39, 0x61] then
    some (some .GIF)
  else if starts [0x89, 0x50, 0x4E, 0x47, 0x0D, 0x0A, 0x1A, 0x0A] then some (some .PNG)
  else if starts [0x42, 0x4D] then some (some .BMP)
  else if starts [0, 0, 1, 0] || starts [0, 0, 2, 0] then some (some .ICO)
  else if data.size < 16384 && !allDataReceived then some none
  else do
    let mpo ← matchesMPOSignature data.data
    return if mpo then some .MPO else if starts SOI then some .JPEG else none

/-! ## the decoder -/

/-- a call of `setData` on a JPEG decoder -/
structure Call where
  data : Bytes
  allDataReceived : Bool
  deriving DecidableEq

/-- the JPEG decoders are the calls they got -/
structure MPOImageDecoder where
  decoderL : List Call := []
  decoderR : Option (List Call) := some []
  rightImageOffset : BitVec 32 := 0
  finishedLDecode : Bool := false
  decodingL : Bool := true
  failedL : Bool := false
  failedR : Bool := false
  failed : Bool := false
  deriving DecidableEq

/-- the arguments of a call, and what `failed` of the JPEG decoders returns in it -/
structure Supply where
  data : SharedBuffer
  allDataReceived : Bool
  failedL : Bool := false
  failedR : Bool := false

/-- four bytes as an `int`; the position may be any -/
def word (littleendian : Bool) (p : Bytes) (pos : Int) : Option (BitVec 32) :=
  if 0 ≤ pos then (load p pos.toNat 4).map fun bs => BitVec.ofNat 32 (ofLE (if littleendian then bs else bs.reverse))
  else none

def littleendian (mark : Bytes) : Bool := mark == [0x49, 0x49, 0x2A, 0]

/-- the MP index behind a marker: where the right image begins, or that there is none -/
def readIndex (d : MPOImageDecoder) (p : Bytes) (pos : Nat) : Option MPOImageDecoder := do
  let app2len ← segmentLength p pos
  if (app2len : Int) ≤ asInt32 p.length then
    let mark ← load p (pos + 8) 4
    let ifd ← word (littleendian mark) p (pos + 12)
    let mpentries ← word (littleendian mark) p (pos + (ifd.toInt + 38))
    if mpentries.toInt ≤ 16 then return { d with decoderR := none, rightImageOffset := 0 }
    else
      let offset ← word (littleendian mark) p (pos + (ifd.toInt + 66 + 8))
      return { d with rightImageOffset := offset + BitVec.ofNat 32 (pos + 8) }
  else return d

def scan (d : MPOImageDecoder) (p : Bytes) : Option MPOImageDecoder :=
  if asInt32 p.length ≤ 8 then some d
  else do
    let front ← load p 0 3
    if front ≠ SOI then return d
    else
      match ← findMPF p (asInt32 p.length) 2 with
      | none => return d
      | some pos => readIndex d p pos

/-- the left decoder gets the data -/
def feedL (d : MPOImageDecoder) (s : Supply) (allDataReceived : Bool) : MPOImageDecoder :=
  { d with
    decodingL := true
    decoderL := d.decoderL ++ [{ data := s.data.data, allDataReceived := allDataReceived }]
    finishedLDecode := d.finishedLDecode || allDataReceived
    failedL := s.failedL }

/-- before the right decoder gets anything, the left one is told that this is all -/
def finishL (d : MPOImageDecoder) (s : Supply) : MPOImageDecoder := if d.finishedLDecode then d else feedL d s true

/-- what the right decoder is given; a length that is negative as an `int` crashes -/
def rightData (d : MPOImageDecoder) (data : SharedBuffer) : Option Bytes :=
  let rlen := data.size - d.rightImageOffset.toNat
  if 0 ≤ d.rightImageOffset.toInt ∧ rlen < 2 ^ 31 then load data.data d.rightImageOffset.toNat rlen else none

def feedR (d : MPOImageDecoder) (s : Supply) (calls : List Call) (rbuf : Bytes) : MPOImageDecoder :=
  { d with
    decodingL := false
    decoderR := some (calls ++ [{ data := rbuf, allDataReceived := s.allDataReceived }])
    failedR := s.failedR }

def setFailed (d : MPOImageDecoder) : MPOImageDecoder := { d with failed := d.failed || (d.failedL && d.failedR) }

/-- the sizes are compared as `unsigned` -/
def feed (d : MPOImageDecoder) (s : Supply) : Option MPOImageDecoder :=
  match d.decoderR with
  | none => some (setFailed (feedL d s s.allDataReceived))
  | some calls =>
    if s.data.size < d.rightImageOffset.toNat then some (setFailed (feedL d s s.allDataReceived))
    else (rightData (finishL d s) s.data).map fun rbuf => setFailed (feedR (finishL d s) s calls rbuf)

/-- the first piece is looked at until there is an offset -/
def locate (d : MPOImageDecoder) (s : Supply) : Option MPOImageDecoder :=
  if d.rightImageOffset = 0 then scan d s.data.buffer else some d

def setData (d : MPOImageDecoder) (s : Supply) : Option MPOImageDecoder := do
  let d ← locate d s
  feed d s

/-! ## positions -/

/-- the segment with the MP index -/
def IsMPF (p : Bytes) (len : Int) (pos : Nat) : Prop :=
  p[pos]? = some 0xFF ∧ p[pos + 1]? = some 0xE2 ∧ (pos : Int) + 8 < len ∧ load p (pos + 4) 4 = some MPF

/-- another segment, and the position behind it -/
def Next (p : Bytes) (len : Int) (pos pos' : Nat) : Prop :=
  p[pos]? = some 0xFF ∧ (pos : Int) + 4 < len ∧ ¬ IsMPF p len pos ∧
    ∃ next, segmentLength p pos = some next ∧ pos' = pos + next + 2

def Leads (p : Bytes) (len : Int) : Nat → Nat → Prop := Relation.ReflTransGen (Next p len)

/-- all positions are inside -/
def Inside (p : Bytes) (len : Int) : Prop := ∀ pos, Leads p len 2 pos → pos < p.length

theorem findMPF_outside {p : Bytes} {len : Int} {pos : Nat} (h : p.length ≤ pos) : findMPF p len pos = none := by
  rw [findMPF, List.getElem?_eq_none h]
  rfl

theorem isMPF_true {p : Bytes} {len : Int} {pos : Nat} (h : IsMPF p len pos) : isMPF p len pos = some true := by
  obtain ⟨_, hkind, hlen, hload⟩ := h
  rw [isMPF, hkind]
  simp only [Option.bind_eq_bind, Option.bind_some, hlen, and_self, if_true, hload, BEq.rfl]
  rfl

theorem findMPF_mpf {p : Bytes} {len : Int} {pos : Nat} (h : IsMPF p len pos) :
    findMPF p len pos = some (some pos) := by
  have hshort : (pos : Int) + 4 < len := by have hlen := h.2.2.1; omega
  rw [findMPF, h.1]
  simp only [Option.bind_eq_bind, Option.bind_some, true_and, hshort, dite_true, isMPF_true h, if_true]
  rfl

theorem findMPF_end {p : Bytes} {len : Int} {pos : Nat} (hin : pos < p.length)
    (h : ¬ (p[pos]? = some 0xFF ∧ (pos : Int) + 4 < len)) :
    findMPF p len pos = some none := by
  have hmarker : p[pos]? = some p[pos] := List.getElem?_eq_getElem hin
  rw [hmarker, Option.some.injEq] at h
  rw [findMPF, hmarker]
  simp only [Option.bind_eq_bind, Option.bind_some, h, dite_false]
  rfl

section
variable {p : Bytes} {len : Int} (hlen : len ≤ p.length)
include hlen

theorem isMPF_false {pos : Nat} (hmarker : p[pos]? = some 0xFF) (hpos : (pos : Int) + 4 < len)
    (h : ¬ IsMPF p len pos) :
    isMPF p len pos = some false := by
  have hkind : p[pos + 1]? = some p[pos + 1] := List.getElem?_eq_getElem (by omega)
  rw [isMPF, hkind]
  simp only [Option.bind_eq_bind, Option.bind_some]
  by_cases hname : p[pos + 1] = 0xE2 ∧ (pos : Int) + 8 < len
  · obtain ⟨name, hload⟩ := @load_inside p (pos + 4) 4 (by omega)
    have hne : name ≠ MPF := by
      intro heq
      exact h ⟨hmarker, by rw [hkind, hname.1], hname.2, by rw [hload, heq]⟩
    rw [if_pos hname, hload]
    simp only [Option.bind_some, beq_eq_false_iff_ne.mpr hne]
    rfl
  · rw [if_neg hname]
    rfl

theorem findMPF_next {pos pos' : Nat} (h : Next p len pos pos') : findMPF p len pos = findMPF p len pos' := by
  obtain ⟨hmarker, hshort, hother, next, hlength, rfl⟩ := h
  rw [findMPF, hmarker]
  simp only [Option.bind_eq_bind, Option.bind_some, true_and, hshort, dite_true,
    isMPF_false hlen hmarker hshort hother, hlength, Bool.false_eq_true, if_false]

theorem findMPF_leads {pos pos' : Nat} (h : Leads p len pos pos') : findMPF p len pos = findMPF p len pos' := by
  induction h with
  | refl => rfl
  | tail _ hnext ih => rw [ih, findMPF_next hlen hnext]

theorem findMPF_cases (pos : Nat) :
    (∃ last, Leads p len pos last ∧ p.length ≤ last ∧ findMPF p len pos = none) ∨
    (∃ last, Leads p len pos last ∧ IsMPF p len last ∧ findMPF p len pos = some (some last)) ∨
    findMPF p len pos = some none := by
  induction hm : (len - pos).toNat using Nat.strongRecOn generalizing pos with
  | ind m ih =>
    by_cases hout : p.length ≤ pos
    · exact Or.inl ⟨pos, .refl, hout, findMPF_outside hout⟩
    by_cases hmarker : p[pos]? = some 0xFF ∧ (pos : Int) + 4 < len
    · by_cases hmpf : IsMPF p len pos
      · exact Or.inr (Or.inl ⟨pos, .refl, hmpf, findMPF_mpf hmpf⟩)
      obtain ⟨bs, hload⟩ := @load_inside p (pos + 2) 2 (by omega)
      have hnext : Next p len pos (pos + ofLE bs.reverse + 2) :=
        ⟨hmarker.1, hmarker.2, hmpf, _, by rw [segmentLength, hload]; rfl, rfl⟩
      have hrest := ih (len - (pos + ofLE bs.reverse + 2 : Nat)).toNat (by omega) _ rfl
      rw [findMPF_next hlen hnext]
      rcases hrest with ⟨last, hleads, hlast⟩ | ⟨last, hleads, hlast⟩ | hnone
      · exact Or.inl ⟨last, .head hnext hleads, hlast⟩
      · exact Or.inr (Or.inl ⟨last, .head hnext hleads, hlast⟩)
      · exact Or.inr (Or.inr hnone)
    · exact Or.inr (Or.inr (findMPF_end (by omega) hmarker))

theorem findMPF_inside : (∃ found, findMPF p len 2 = some found) ↔ Inside p len := by
  constructor
  · rintro ⟨found, hfound⟩ pos hleads
    by_contra hout
    rw [findMPF_leads hlen hleads, findMPF_outside (by omega)] at hfound
    cases hfound
  · intro hinside
    rcases findMPF_cases hlen 2 with ⟨last, hleads, hout, _⟩ | ⟨last, _, _, hfound⟩ | hfound
    · exact absurd (hinside last hleads) (by omega)
    · exact ⟨_, hfound⟩
    · exact ⟨_, hfound⟩

theorem findMPF_found {pos : Nat} : findMPF p len 2 = some (some pos) ↔ Leads p len 2 pos ∧ IsMPF p len pos := by
  constructor
  · intro h
    rcases findMPF_cases hlen 2 with ⟨_, _, _, hfound⟩ | ⟨last, hleads, hmpf, hfound⟩ | hfound
    · rw [hfound] at h
      cases h
    · rw [hfound, Option.some.injEq, Option.some.injEq] at h
      exact h ▸ ⟨hleads, hmpf⟩
    · rw [hfound] at h
      cases h
  · rintro ⟨hleads, hmpf⟩
    rw [findMPF_leads hlen hleads, findMPF_mpf hmpf]

end

/-! ## what is given to the right decoder -/

/-- the right decoder got data -/
def Fed (before after : Option (List Call)) : Prop := ∃ calls c, before = some calls ∧ after = some (calls ++ [c])

/-- An offset that is not behind the data is positive, and what follows has a length. -/
def Fits (offset : BitVec 32) (size : Nat) : Prop :=
  offset.toNat ≤ size → 0 < offset.toInt ∧ size - offset.toNat < 2 ^ 31

/-- the call comes to its end, and a right image is a part of the data -/
def Safe (before : Option (List Call)) (size : Nat) (result : Option MPOImageDecoder) : Prop :=
  ∃ d, result = some d ∧
    (Fed before d.decoderR → 0 < d.rightImageOffset.toInt ∧ d.rightImageOffset.toInt ≤ size)

theorem not_fits_zero (size : Nat) : ¬ Fits 0 size := by
  intro h
  exact absurd (h (Nat.zero_le size)).1 (by decide)

theorem not_fed_self (calls : Option (List Call)) : ¬ Fed calls calls := by
  rintro ⟨before, c, h₁, h₂⟩
  have hsame : before = before ++ [c] := Option.some.inj (h₁.symm.trans h₂)
  exact absurd (congrArg List.length hsame) (by simp)

@[simp] theorem setFailed_decoderL (d : MPOImageDecoder) : (setFailed d).decoderL = d.decoderL := rfl
@[simp] theorem setFailed_decoderR (d : MPOImageDecoder) : (setFailed d).decoderR = d.decoderR := rfl
@[simp] theorem setFailed_offset (d : MPOImageDecoder) : (setFailed d).rightImageOffset = d.rightImageOffset := rfl
@[simp] theorem setFailed_finished (d : MPOImageDecoder) : (setFailed d).finishedLDecode = d.finishedLDecode := rfl

section
variable (d : MPOImageDecoder) (s : Supply) (allDataReceived : Bool) (calls : List Call) (rbuf : Bytes)

@[simp] theorem feedL_decoderL : (feedL d s allDataReceived).decoderL =
    d.decoderL ++ [{ data := s.data.data, allDataReceived := allDataReceived }] := rfl
@[simp] theorem feedL_decoderR : (feedL d s allDataReceived).decoderR = d.decoderR := rfl
@[simp] theorem feedL_offset : (feedL d s allDataReceived).rightImageOffset = d.rightImageOffset := rfl
@[simp] theorem feedL_finished :
    (feedL d s allDataReceived).finishedLDecode = (d.finishedLDecode || allDataReceived) := rfl

@[simp] theorem feedR_decoderL : (feedR d s calls rbuf).decoderL = d.decoderL := rfl
@[simp] theorem feedR_decoderR : (feedR d s calls rbuf).decoderR =
    some (calls ++ [{ data := rbuf, allDataReceived := s.allDataReceived }]) := rfl
@[simp] theorem feedR_offset : (feedR d s calls rbuf).rightImageOffset = d.rightImageOffset := rfl
@[simp] theorem feedR_finished : (feedR d s calls rbuf).finishedLDecode = d.finishedLDecode := rfl

@[simp] theorem finishL_offset : (finishL d s).rightImageOffset = d.rightImageOffset := by
  unfold finishL
  split <;> rfl

@[simp] theorem finishL_finished : (finishL d s).finishedLDecode = true := by
  unfold finishL
  split
  · next h => exact h
  · rw [feedL_finished, Bool.or_true]

end

theorem rightData_eq {d : MPOImageDecoder} {data : SharedBuffer} (h : d.rightImageOffset.toNat ≤ data.size) :
    rightData d data =
      if 0 ≤ d.rightImageOffset.toInt ∧ data.size - d.rightImageOffset.toNat < 2 ^ 31 then
        some (data.data.drop d.rightImageOffset.toNat) else none := by
  have hin : d.rightImageOffset.toNat + (data.size - d.rightImageOffset.toNat) ≤ data.data.length :=
    Nat.le_of_eq (Nat.add_sub_cancel' h)
  have hload : load data.data d.rightImageOffset.toNat (data.size - d.rightImageOffset.toNat) =
      some (data.data.drop d.rightImageOffset.toNat) := by
    rw [load, if_pos hin, List.take_of_length_le (by rw [List.length_drop]; exact Nat.le_refl _)]
  unfold rightData
  dsimp only
  rw [hload]

theorem feed_safe (d : MPOImageDecoder) (s : Supply) :
    Safe d.decoderR s.data.size (feed d s) ↔ (d.decoderR.isSome → Fits d.rightImageOffset s.data.size) := by
  unfold feed
  cases hR : d.decoderR with
  | none =>
    refine iff_of_true ⟨_, rfl, ?_⟩ (fun h => nomatch h)
    rw [setFailed_decoderR, feedL_decoderR, hR]
    intro hfed
    exact absurd hfed (not_fed_self none)
  | some calls =>
    simp only
    by_cases hsize : s.data.size < d.rightImageOffset.toNat
    · rw [if_pos hsize]
      refine iff_of_true ⟨_, rfl, ?_⟩ (fun _ hle => absurd hsize (Nat.not_lt.mpr hle))
      rw [setFailed_decoderR, feedL_decoderR, hR]
      intro hfed
      exact absurd hfed (not_fed_self _)
    · have hle := Nat.not_lt.mp hsize
      have hcond := BitVec.toInt_eq_toNat_cond d.rightImageOffset
      have hdata := @rightData_eq (finishL d s) s.data (by rw [finishL_offset]; exact hle)
      rw [finishL_offset] at hdata
      rw [if_neg hsize, hdata]
      constructor
      · rintro ⟨d', hd', hfed⟩ _ _
        split at hd'
        · next hfits =>
          obtain rfl := Option.some.inj hd'
          have hpos := (hfed ⟨calls, _, rfl, rfl⟩).1
          rw [setFailed_offset, feedR_offset, finishL_offset] at hpos
          exact ⟨hpos, hfits.2⟩
        · cases hd'
      · intro hfits
        obtain ⟨hpos, hlength⟩ := hfits rfl hle
        rw [if_pos ⟨Int.le_of_lt hpos, hlength⟩]
        refine ⟨_, rfl, fun _ => ?_⟩
        rw [setFailed_offset, feedR_offset, finishL_offset]
        refine ⟨hpos, ?_⟩
        split at hcond <;> omega

/-! ## the scan -/

/-- The piece is as long as the length of the segment says; the two bytes in front of it are not counted. -/
def Complete (p : Bytes) (pos : Nat) : Prop :=
  ∃ app2len, segmentLength p pos = some app2len ∧ (app2len : Int) ≤ asInt32 p.length

/-- what is read of the index lies inside, and the right image begins after the start if it is there already -/
def IndexInside (calls : Option (List Call)) (size : Nat) (p : Bytes) (pos : Nat) : Prop :=
  ∃ mark ifd mpentries, load p (pos + 8) 4 = some mark ∧ word (littleendian mark) p (pos + 12) = some ifd ∧
    word (littleendian mark) p (pos + (ifd.toInt + 38)) = some mpentries ∧
    (mpentries.toInt ≤ 16 ∨ ∃ offset, word (littleendian mark) p (pos + (ifd.toInt + 66 + 8)) = some offset ∧
      (calls.isSome → Fits (offset + BitVec.ofNat 32 (pos + 8)) size))

theorem readIndex_safe {d : MPOImageDecoder} {s : Supply} {p : Bytes} {pos : Nat} (hcomplete : Complete p pos) :
    Safe d.decoderR s.data.size ((readIndex d p pos).bind fun d => feed d s) ↔
      IndexInside d.decoderR s.data.size p pos := by
  obtain ⟨app2len, hlength, hfits⟩ := hcomplete
  have hread : readIndex d p pos = (load p (pos + 8) 4).bind fun mark =>
      (word (littleendian mark) p (pos + 12)).bind fun ifd =>
      (word (littleendian mark) p (pos + (ifd.toInt + 38))).bind fun mpentries =>
      if mpentries.toInt ≤ 16 then some { d with decoderR := none, rightImageOffset := 0 }
      else (word (littleendian mark) p (pos + (ifd.toInt + 66 + 8))).bind fun offset =>
        some { d with rightImageOffset := offset + BitVec.ofNat 32 (pos + 8) } := by
    rw [readIndex, hlength]
    simp only [Option.bind_eq_bind, Option.bind_some, if_pos hfits, Option.pure_def]
  have hnone : ¬ Safe d.decoderR s.data.size none := by
    rintro ⟨_, h, _⟩
    cases h
  rw [hread]
  unfold IndexInside
  cases hmark : load p (pos + 8) 4 with
  | none => exact iff_of_false hnone (by rintro ⟨_, _, _, h, _⟩; cases h)
  | some mark =>
  simp only [Option.bind_some, Option.some.injEq, exists_and_left, exists_eq_left']
  cases hifd : word (littleendian mark) p (pos + 12) with
  | none => exact iff_of_false hnone (by rintro ⟨_, h, _⟩; cases h)
  | some ifd =>
  simp only [Option.bind_some, Option.some.injEq, exists_eq_left']
  cases hcount : word (littleendian mark) p (pos + (ifd.toInt + 38)) with
  | none => exact iff_of_false hnone (by rintro ⟨_, h, _⟩; cases h)
  | some mpentries =>
  simp only [Option.bind_some, Option.some.injEq, exists_eq_left']
  by_cases hfew : mpentries.toInt ≤ 16
  · rw [if_pos hfew, Option.bind_some]
    refine iff_of_true ⟨_, rfl, ?_⟩ (Or.inl hfew)
    rintro ⟨calls, c, _, h⟩
    cases h
  rw [if_neg hfew, or_iff_right hfew]
  cases hoffset : word (littleendian mark) p (pos + (ifd.toInt + 66 + 8)) with
  | none => exact iff_of_false hnone (by rintro ⟨_, h, _⟩; cases h)
  | some offset =>
    simp only [Option.bind_some, Option.some.injEq, exists_eq_left']
    exact feed_safe { d with rightImageOffset := offset + BitVec.ofNat 32 (pos + 8) } s

/-- what the positions and the index must be for the first half of `setData`, which looks at `p` -/
def ScanInside (calls : Option (List Call)) (size : Nat) (p : Bytes) : Prop :=
  if asInt32 p.length ≤ 8 then calls = none
  else Inside p (asInt32 p.length) ∧
    ((∃ pos, Leads p (asInt32 p.length) 2 pos ∧ IsMPF p (asInt32 p.length) pos ∧ Complete p pos ∧
        IndexInside calls size p pos) ∨
      calls = none ∧ ∀ pos, Leads p (asInt32 p.length) 2 pos → IsMPF p (asInt32 p.length) pos → ¬ Complete p pos)

theorem feed_unknown {d : MPOImageDecoder} (hzero : d.rightImageOffset = 0) (s : Supply) :
    Safe d.decoderR s.data.size (feed d s) ↔ d.decoderR = none := by
  rw [feed_safe, hzero]
  cases d.decoderR with
  | none => exact iff_of_true (fun h => nomatch h) rfl
  | some calls => exact iff_of_false (fun h => not_fits_zero _ (h rfl)) (fun h => nomatch h)

theorem scan_safe {d : MPOImageDecoder} (hzero : d.rightImageOffset = 0) {s : Supply} {p : Bytes}
    (hsoi : SOI <+: p ∨ asInt32 p.length ≤ 8) :
    Safe d.decoderR s.data.size ((scan d p).bind fun d => feed d s) ↔ ScanInside d.decoderR s.data.size p := by
  unfold scan ScanInside
  by_cases hshort : asInt32 p.length ≤ 8
  · rw [if_pos hshort, if_pos hshort]
    exact feed_unknown hzero s
  rw [if_neg hshort, if_neg hshort]
  have hlen := asInt32_le p.length
  have hfront : load p 0 3 = some SOI := by
    obtain ⟨rest, rfl⟩ := hsoi.resolve_right hshort
    rw [load, if_pos (by omega)]
    rfl
  rw [hfront]
  simp only [Option.bind_eq_bind, Option.bind_some, ne_eq, not_true_eq_false, if_false]
  rcases findMPF_cases hlen 2 with ⟨last, hleads, hout, hfound⟩ | ⟨pos, hleads, hmpf, hfound⟩ | hfound
  · rw [hfound]
    refine iff_of_false (by rintro ⟨_, h, _⟩; cases h) ?_
    rintro ⟨hinside, _⟩
    exact absurd (hinside last hleads) (by omega)
  · have hinside := (findMPF_inside hlen).mp ⟨_, hfound⟩
    have hunique : ∀ pos', Leads p (asInt32 p.length) 2 pos' → IsMPF p (asInt32 p.length) pos' → pos' = pos := by
      intro pos' hleads' hmpf'
      have hboth := ((findMPF_found hlen).mpr ⟨hleads', hmpf'⟩).symm.trans hfound
      exact Option.some.inj (Option.some.inj hboth)
    rw [hfound, and_iff_right hinside]
    simp only [Option.bind_some]
    by_cases hcomplete : Complete p pos
    · rw [readIndex_safe hcomplete]
      constructor
      · exact fun h => Or.inl ⟨pos, hleads, hmpf, hcomplete, h⟩
      · rintro (⟨pos', hleads', hmpf', _, h⟩ | ⟨_, h⟩)
        · exact hunique pos' hleads' hmpf' ▸ h
        · exact absurd hcomplete (h pos hleads hmpf)
    · have hread : readIndex d p pos = some d := by
        have hshort4 := hmpf.2.2.1
        obtain ⟨bs, hload⟩ := @load_inside p (pos + 2) 2 (by omega)
        have hlength : segmentLength p pos = some (ofLE bs.reverse) := by rw [segmentLength, hload]; rfl
        rw [readIndex, hlength]
        exact if_neg (fun h => hcomplete ⟨_, hlength, h⟩)
      rw [hread, Option.bind_some, feed_unknown hzero]
      constructor
      · exact fun h => Or.inr ⟨h, fun pos' hleads' hmpf' => hunique pos' hleads' hmpf' ▸ hcomplete⟩
      · rintro (⟨pos', hleads', hmpf', h, _⟩ | ⟨h, _⟩)
        · exact absurd (hunique pos' hleads' hmpf' ▸ h) hcomplete
        · exact h
  · have hinside := (findMPF_inside hlen).mp ⟨_, hfound⟩
    rw [hfound, and_iff_right hinside]
    simp only [Option.bind_some, Option.pure_def]
    rw [feed_unknown hzero]
    have hnot : ∀ pos, Leads p (asInt32 p.length) 2 pos → IsMPF p (asInt32 p.length) pos → False := by
      intro pos hleads hmpf
      have hboth := ((findMPF_found hlen).mpr ⟨hleads, hmpf⟩).symm.trans hfound
      cases hboth
    constructor
    · exact fun h => Or.inr ⟨h, fun pos hleads hmpf => (hnot pos hleads hmpf).elim⟩
    · rintro (⟨pos, hleads, hmpf, _⟩ | ⟨h, _⟩)
      · exact (hnot pos hleads hmpf).elim
      · exact h

/-- both functions stay inside, and what the right decoder gets is a part behind the start -/
def Bounded (d : MPOImageDecoder) (s : Supply) : Prop :=
  (∃ mpo, matchesMPOSignature s.data.data = some mpo) ∧ Safe d.decoderR s.data.size (setData d s)

/-- the positions lie inside, and the offset is that of an image or will be -/
def WellPlaced (d : MPOImageDecoder) (s : Supply) : Prop :=
  Inside s.data.data (asInt32 s.data.size) ∧
    if d.rightImageOffset = 0 then ScanInside d.decoderR s.data.size s.data.buffer
    else d.decoderR.isSome → Fits d.rightImageOffset s.data.size

/-- any data that begins as `create` wants it, and any state of the decoder -/
theorem setData_inside_iff (d : MPOImageDecoder) (s : Supply) (hsoi : SOI <+: s.data.data) :
    Bounded d s ↔ WellPlaced d s := by
  have hmatches : (∃ mpo, matchesMPOSignature s.data.data = some mpo) ↔
      Inside s.data.data (asInt32 s.data.data.length) := by
    have hfront : load s.data.data 0 3 = some SOI := by
      obtain ⟨rest, hrest⟩ := hsoi
      rw [load, ← hrest, if_pos (by rw [List.length_append]; exact Nat.le_add_right 3 _)]
      rfl
    rw [← findMPF_inside (asInt32_le s.data.data.length), matchesMPOSignature, hfront]
    simp only [Option.bind_eq_bind, Option.bind_some, ne_eq, not_true_eq_false, if_false]
    cases findMPF s.data.data (asInt32 s.data.data.length) 2 with
    | none => exact iff_of_false (by rintro ⟨_, h⟩; cases h) (by rintro ⟨_, h⟩; cases h)
    | some found => exact iff_of_true ⟨_, rfl⟩ ⟨_, rfl⟩
  unfold Bounded WellPlaced setData locate
  refine and_congr hmatches ?_
  by_cases hzero : d.rightImageOffset = 0
  · rw [if_pos hzero, if_pos hzero]
    refine scan_safe hzero ?_
    by_cases hshort : asInt32 s.data.buffer.length ≤ 8
    · exact Or.inr hshort
    · have hle := asInt32_le s.data.buffer.length
      exact Or.inl (List.prefix_of_prefix_length_le hsoi (List.prefix_append _ _) (by show 3 ≤ _; omega))
  · rw [if_neg hzero, if_neg hzero]
    exact feed_safe d s

/-- an index right behind the start of the image, in a segment of this length -/
def header (hi lo : UInt8) (offset : Bytes) : Bytes :=
  [0xFF, 0xD8, 0xFF, 0xE2, hi, lo, 0x4D, 0x50, 0x46, 0, 0x49, 0x49, 0x2A, 0, 8, 0, 0, 0] ++ zeros 30 ++
    [32, 0, 0, 0] ++ zeros 32 ++ offset

/-- the right image is at 92 -/
def small : Supply where
  data :=
    { buffer := header 0 0x58 [0x52, 0, 0, 0] ++ zeros 4 ++ [0xFF, 0xD8, 0xFF, 0xD9], segments := [],
      bound := by decide }
  allDataReceived := true

theorem small_inside : Bounded {} small := by
  have hmpf : IsMPF small.data.data (asInt32 small.data.size) 2 := ⟨by decide, by decide, by decide, by decide⟩
  have hinside : Inside small.data.data (asInt32 small.data.size) :=
    (findMPF_inside (asInt32_le _)).mp ⟨_, findMPF_mpf hmpf⟩
  have hscan : ScanInside (some []) small.data.size small.data.buffer := by
    unfold ScanInside
    rw [if_neg (by decide)]
    exact ⟨hinside, Or.inl ⟨2, .refl, hmpf, ⟨0x58, by decide, by decide⟩, [0x49, 0x49, 0x2A, 0], 8, 32, by decide,
      by decide, by decide, Or.inr ⟨0x52, by decide, fun _ _ => by decide⟩⟩⟩
  refine (setData_inside_iff {} small (by decide)).mpr ⟨hinside, ?_⟩
  rw [if_pos rfl]
  exact hscan

/-- `FF D8 FF E0`, and a segment of 65535 bytes -/
def truncated : Supply where
  data :=
    { buffer := [0xFF, 0xD8, 0xFF, 0xE0, 0xFF, 0xFF, 0, 0, 0, 0, 0, 0, 0, 0], segments := [], bound := by decide }
  allDataReceived := true

theorem truncated_outside : lengthOfLongestSignature ≤ truncated.data.size ∧ SOI <+: truncated.data.data ∧
    ¬ Bounded {} truncated := by
  refine ⟨by decide, by decide, ?_⟩
  rintro ⟨⟨mpo, hmatches⟩, _⟩
  have hnext : Next truncated.data.data (asInt32 truncated.data.data.length) 2 65539 :=
    ⟨by decide, by decide, fun h => absurd h.2.1 (by decide), 65535, by decide, rfl⟩
  have hnone : findMPF truncated.data.data (asInt32 truncated.data.data.length) 2 = none := by
    rw [findMPF_next (asInt32_le _) hnext, findMPF_outside (by decide)]
  have hfront : load truncated.data.data 0 3 = some SOI := by decide
  rw [matchesMPOSignature, hfront] at hmatches
  simp only [Option.bind_eq_bind, Option.bind_some, ne_eq, not_true_eq_false, if_false, hnone] at hmatches
  cases hmatches

end Mpo
end Wkc
