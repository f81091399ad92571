import Mathlib.Algebra.Order.BigOperators.Group.List
import WkcBrowser.Cache.Resource

/-!
# The record of one entry in the FAT file

`serialize` and `deserialize` as the code performs them, on a buffer in which a store or a load
outside ends the computation:

* `serialize r buf off`      the new buffer and how far the record advances;
* `deserialize data off`     the entry read at `off` and how far the reader advances;
* `record r`                 the bytes of the record, with zero padding.

Main results:

* `serialize_zeros`          in a zeroed buffer with enough room `serialize` writes `record r`, and
                             advances by `recordSize r`, the size that `calcResourceSize` stores;
* `deserialize_record`       reading a record back gives `reread r`: every string has gone through
                             UTF-8, everything else is as it was, and `resourceSize` is up to date.
-/

namespace Wkc
open Buf

/-! ## writing -/

def writeString (buffer : Bytes) (off : Nat) (str : WString) : Option (Bytes × Nat) := do
  let cstr := utf8 str
  let buffer ← store buffer off (toLE 4 cstr.length)
  let buffer ← if 0 < cstr.length then store buffer (off + 4) cstr else some buffer
  return (buffer, off + roundUp (cstr.length + 4) 4)

def writeStrings (buffer : Bytes) (off : Nat) : List WString → Option (Bytes × Nat)
  | [] => some (buffer, off)
  | str :: strs => do
    let (buffer, off) ← writeString buffer off str
    writeStrings buffer off strs

def storeWords (buffer : Bytes) (off : Nat) : List Bytes → Option (Bytes × Nat)
  | [] => some (buffer, off)
  | w :: ws => do
    let buffer ← store buffer off w
    storeWords buffer (off + w.length) ws

namespace HTTPCachedResource

def numberFields (r : HTTPCachedResource) : List Bytes :=
  [toLE 8 r.expectedContentLength.toBitVec.toNat, toLE 8 r.contentLength.toBitVec.toNat,
    toLE 4 r.httpStatusCode.toBitVec.toNat, toLE 4 (if r.noCache then 1 else 0),
    toLE 4 (if r.mustRevalidate then 1 else 0), toLE 8 r.expires.bits.toNat,
    toLE 8 r.maxAge.bits.toNat, toLE 8 r.date.bits.toNat, toLE 8 r.lastModified.bits.toNat]

def serialize (r : HTTPCachedResource) (buffer : Bytes) (off : Nat) : Option (Bytes × Nat) := do
  let (buffer, p) ← storeWords buffer off r.numberFields
  let (buffer, p) ← writeStrings buffer p r.strings
  return (buffer, roundUp (p - off) 4)

end HTTPCachedResource

/-! ## reading -/

theorem bind_ok {ε α β : Type} {x : Except ε α} {f : α → Except ε β} {b : β}
    (h : (x >>= f) = .ok b) : ∃ a, x = .ok a ∧ f a = .ok b := by
  cases x with
  | error e => cases h
  | ok a => exact ⟨a, rfl, h⟩

def readWord (data : Bytes) (off w : Nat) : Except Fault Nat :=
  match load data off w with
  | some bs => .ok (ofLE bs)
  | none => .error .outOfBounds

/-- the new offset beside the string; the length goes to `fromUTF8` as `size_t`, and a negative
one is refused there, so the advance cannot wrap -/
def readString (data : Bytes) (off : Nat) : Except Fault (Option WString × Nat) := do
  let length ← readWord data off 4
  let str ← fromUTF8 length (data.drop (off + 4))
  return (str, off + roundUp (length + 4) 4)

namespace HTTPCachedResource

def int64At (data : Bytes) (off : Nat) : Except Fault Int64 := do
  return Int64.ofBitVec (BitVec.ofNat 64 (← readWord data off 8))

def int32At (data : Bytes) (off : Nat) : Except Fault Int32 := do
  return Int32.ofBitVec (BitVec.ofNat 32 (← readWord data off 4))

def boolAt (data : Bytes) (off : Nat) : Except Fault Bool := do
  return (← readWord data off 4) != 0

def doubleAt (data : Bytes) (off : Nat) : Except Fault Double := do
  return ⟨UInt64.ofNat (← readWord data off 8)⟩

/-- the entry, whether its URL came out as the null string, and the advance -/
def deserialize (data : Bytes) (off : Nat) : Except Fault (HTTPCachedResource × Bool × Int) := do
  let expectedContentLength ← int64At data off
  let contentLength ← int64At data (off + 8)
  let httpStatusCode ← int32At data (off + 16)
  let noCache ← boolAt data (off + 20)
  let mustRevalidate ← boolAt data (off + 24)
  let expires ← doubleAt data (off + 28)
  let maxAge ← doubleAt data (off + 36)
  let date ← doubleAt data (off + 44)
  let lastModified ← doubleAt data (off + 52)
  let (url, p) ← readString data (off + 60)
  let (mimeType, p) ← readString data p
  let (textEncodingName, p) ← readString data p
  let (suggestedFilename, p) ← readString data p
  let (fileName, p) ← readString data p
  let (lastModifiedHeader, p) ← readString data p
  let (eTagHeader, p) ← readString data p
  let r : HTTPCachedResource :=
    { expectedContentLength, contentLength, httpStatusCode, noCache, mustRevalidate,
      expires, maxAge, date, lastModified
      url := url.getD []
      mimeType := mimeType.getD []
      textEncodingName := textEncodingName.getD []
      suggestedFilename := suggestedFilename.getD []
      fileName := fileName.getD []
      lastModifiedHeader := lastModifiedHeader.getD []
      eTagHeader := eTagHeader.getD [] }
  return (r.calcResourceSize, url.isNone, toInt32 (roundUp (p - off) 4))

end HTTPCachedResource

/-! ## the bytes of a record -/

def stringRecord (s : WString) : Bytes :=
  toLE 4 (utf8 s).length ++ utf8 s ++ zeros (roundUp (utf8 s).length 4 - (utf8 s).length)

def HTTPCachedResource.record (r : HTTPCachedResource) : Bytes :=
  r.numberFields.flatten ++ (r.strings.map stringRecord).flatten

theorem stringRecord_length (s : WString) :
    (stringRecord s).length = 4 + roundUp (utf8 s).length 4 := by
  have h := le_roundUp_four (utf8 s).length
  simp only [stringRecord, List.length_append, toLE_length, zeros_length]
  omega

theorem stringRecords_length (ss : List WString) :
    (ss.map stringRecord).flatten.length = (ss.map (fun s => 4 + roundUp (utf8 s).length 4)).sum := by
  rw [List.length_flatten, List.map_map]
  congr 1
  apply List.map_congr_left
  intro s _
  exact stringRecord_length s

theorem stringRecords_mod (ss : List WString) : (ss.map stringRecord).flatten.length % 4 = 0 := by
  induction ss with
  | nil => rfl
  | cons s ss ih =>
    have h := roundUp_four_mod (utf8 s).length
    rw [List.map_cons, List.flatten_cons, List.length_append, stringRecord_length]
    omega

namespace HTTPCachedResource

theorem numberFields_length (r : HTTPCachedResource) : r.numberFields.flatten.length = 60 := by
  simp [numberFields]

theorem record_length (r : HTTPCachedResource) : r.record.length = r.recordSize := by
  have hmod := stringRecords_mod r.strings
  rw [record, List.length_append, numberFields_length, recordSize, ← stringRecords_length,
    roundUp_four_eq (by unfold numberFieldSize; omega)]
  rfl

theorem record_length_mod (r : HTTPCachedResource) : r.record.length % 4 = 0 := by
  rw [record_length]; exact roundUp_four_mod _

theorem record_length_pos (r : HTTPCachedResource) : 0 < r.record.length := by
  rw [record, List.length_append, numberFields_length]; omega

end HTTPCachedResource

/-! ## how far a record advances -/

theorem storeWords_advance (ws : List Bytes) : ∀ {buf buf' : Bytes} {off p : Nat},
    storeWords buf off ws = some (buf', p) → p = off + ws.flatten.length := by
  induction ws with
  | nil =>
    intro buf buf' off p h
    obtain ⟨-, rfl⟩ := Prod.mk.inj (Option.some.inj h)
    rfl
  | cons w ws ih =>
    intro buf buf' off p h
    obtain ⟨_, _, h⟩ := Option.bind_eq_some_iff.mp h
    rw [ih h, List.flatten_cons, List.length_append]
    omega

theorem writeString_advance {buf buf' : Bytes} {off p : Nat} {s : WString}
    (h : writeString buf off s = some (buf', p)) : p = off + (stringRecord s).length := by
  have hadv : off + roundUp ((utf8 s).length + 4) 4 = off + (stringRecord s).length := by
    rw [stringRecord_length, roundUp_four_add]; omega
  obtain ⟨_, _, h⟩ := Option.bind_eq_some_iff.mp h
  dsimp only at h
  split at h
  · obtain ⟨_, _, h⟩ := Option.bind_eq_some_iff.mp h
    obtain ⟨-, rfl⟩ := Prod.mk.inj (Option.some.inj h)
    exact hadv
  · obtain ⟨-, rfl⟩ := Prod.mk.inj (Option.some.inj h)
    exact hadv

theorem writeStrings_advance (ss : List WString) : ∀ {buf buf' : Bytes} {off p : Nat},
    writeStrings buf off ss = some (buf', p) → p = off + (ss.map stringRecord).flatten.length := by
  induction ss with
  | nil =>
    intro buf buf' off p h
    obtain ⟨-, rfl⟩ := Prod.mk.inj (Option.some.inj h)
    rfl
  | cons s ss ih =>
    intro buf buf' off p h
    obtain ⟨⟨buf1, off1⟩, hs, h⟩ := Option.bind_eq_some_iff.mp h
    rw [ih h, writeString_advance hs, List.map_cons, List.flatten_cons, List.length_append]
    omega

theorem HTTPCachedResource.serialize_advance {r : HTTPCachedResource} {buf buf' : Bytes} {off n : Nat}
    (h : r.serialize buf off = some (buf', n)) : n = r.recordSize := by
  obtain ⟨⟨buf1, p1⟩, hnum, h⟩ := Option.bind_eq_some_iff.mp h
  obtain ⟨⟨buf2, p2⟩, hstr, h⟩ := Option.bind_eq_some_iff.mp h
  obtain ⟨-, rfl⟩ := Prod.mk.inj (Option.some.inj h)
  have hp : p2 - off = r.record.length := by
    rw [writeStrings_advance _ hstr, storeWords_advance _ hnum, record, List.length_append]
    omega
  rw [hp, roundUp_four_eq r.record_length_mod, record_length]

/-! ## writing into a zeroed buffer -/

theorem storeWords_zeros (ws : List Bytes) : ∀ (pre : Bytes) (n : Nat),
    storeWords (pre ++ zeros (ws.flatten.length + n)) pre.length ws
      = some (pre ++ ws.flatten ++ zeros n, (pre ++ ws.flatten).length) := by
  induction ws with
  | nil => intro pre n; simp [storeWords]
  | cons w ws ih =>
    intro pre n
    have hadd : (w :: ws).flatten.length + n = w.length + (ws.flatten.length + n) := by
      rw [List.flatten_cons, List.length_append]; omega
    rw [hadd, storeWords, store_zeros]
    have h := ih (pre ++ w) n
    rw [List.length_append] at h
    show storeWords (pre ++ w ++ zeros (ws.flatten.length + n)) (pre.length + w.length) ws = _
    rw [h, List.flatten_cons, List.append_assoc pre, List.append_assoc pre]

theorem writeString_zeros (s : WString) (pre : Bytes) (n : Nat) :
    writeString (pre ++ zeros ((stringRecord s).length + n)) pre.length s
      = some (pre ++ stringRecord s ++ zeros n, (pre ++ stringRecord s).length) := by
  have hle := le_roundUp_four (utf8 s).length
  have hlen : (stringRecord s).length + n
      = (toLE 4 (utf8 s).length).length + ((utf8 s).length
        + ((roundUp (utf8 s).length 4 - (utf8 s).length) + n)) := by
    rw [stringRecord_length, toLE_length]; omega
  have hoff : pre.length + roundUp ((utf8 s).length + 4) 4 = (pre ++ stringRecord s).length := by
    rw [List.length_append, stringRecord_length, roundUp_four_add]; omega
  have h4 : pre.length + 4 = (pre ++ toLE 4 (utf8 s).length).length := by
    rw [List.length_append, toLE_length]
  have hpad : pre ++ toLE 4 (utf8 s).length ++ utf8 s
        ++ zeros (roundUp (utf8 s).length 4 - (utf8 s).length + n)
      = pre ++ stringRecord s ++ zeros n := by
    rw [zeros_add, stringRecord]; simp only [List.append_assoc]
  rw [hlen, writeString, store_zeros, hoff]
  show (do
    let buffer ← if 0 < (utf8 s).length then
      store (pre ++ toLE 4 (utf8 s).length ++ zeros ((utf8 s).length
        + (roundUp (utf8 s).length 4 - (utf8 s).length + n))) (pre.length + 4) (utf8 s)
      else some _
    return (buffer, (pre ++ stringRecord s).length)) = _
  by_cases h0 : 0 < (utf8 s).length
  · rw [if_pos h0, h4, store_zeros, hpad]
    rfl
  · have hnil : utf8 s = [] := List.length_eq_zero_iff.mp (by omega)
    rw [if_neg h0, ← hpad, hnil]
    simp

theorem writeStrings_zeros (ss : List WString) : ∀ (pre : Bytes) (n : Nat),
    writeStrings (pre ++ zeros ((ss.map stringRecord).flatten.length + n)) pre.length ss
      = some (pre ++ (ss.map stringRecord).flatten ++ zeros n,
          (pre ++ (ss.map stringRecord).flatten).length) := by
  induction ss with
  | nil => intro pre n; simp [writeStrings]
  | cons s ss ih =>
    intro pre n
    have hadd : ((s :: ss).map stringRecord).flatten.length + n
        = (stringRecord s).length + ((ss.map stringRecord).flatten.length + n) := by
      rw [List.map_cons, List.flatten_cons, List.length_append]; omega
    rw [hadd, writeStrings, writeString_zeros]
    show writeStrings (pre ++ stringRecord s ++ zeros ((ss.map stringRecord).flatten.length + n))
      (pre ++ stringRecord s).length ss = _
    rw [ih, List.map_cons, List.flatten_cons, List.append_assoc pre, List.append_assoc pre]

/-- **`serialize` fills exactly `recordSize` bytes.** -/
theorem HTTPCachedResource.serialize_zeros (r : HTTPCachedResource) (pre : Bytes) (n : Nat) :
    r.serialize (pre ++ zeros (r.recordSize + n)) pre.length
      = some (pre ++ r.record ++ zeros n, r.recordSize) := by
  have hadd : r.recordSize + n = r.numberFields.flatten.length
      + ((r.strings.map stringRecord).flatten.length + n) := by
    rw [← record_length, record, List.length_append]; omega
  have hadv : roundUp ((pre ++ r.numberFields.flatten ++ (r.strings.map stringRecord).flatten).length
      - pre.length) 4 = r.recordSize := by
    have hmod := r.record_length_mod
    rw [List.append_assoc, List.length_append, Nat.add_sub_cancel_left]
    rw [← record_length]
    exact roundUp_four_eq hmod
  rw [hadd, serialize, storeWords_zeros]
  show (do
    let (buffer, p) ← writeStrings (pre ++ r.numberFields.flatten
      ++ zeros ((r.strings.map stringRecord).flatten.length + n))
      (pre ++ r.numberFields.flatten).length r.strings
    return (buffer, roundUp (p - pre.length) 4)) = _
  rw [writeStrings_zeros]
  show some (_, roundUp ((pre ++ r.numberFields.flatten ++ (r.strings.map stringRecord).flatten).length
    - pre.length) 4) = _
  rw [hadv, record, List.append_assoc pre]

/-! ## reading a record back -/

theorem readWord_drop {data rest : Bytes} {off w n : Nat} (hw : 0 < w)
    (h : data.drop off = toLE w n ++ rest) :
    readWord data off w = .ok (n % 256 ^ w) ∧ data.drop (off + w) = rest := by
  have hlen := congrArg List.length h
  rw [List.length_drop, List.length_append, toLE_length] at hlen
  constructor
  · have hload : load data off w = some (toLE w n) := by
      rw [load, if_pos (by omega), h, List.take_left' (toLE_length w n)]
    rw [readWord, hload, ← ofLE_toLE w n]
  · rw [← List.drop_drop, h, List.drop_left' (toLE_length w n)]

theorem readString_drop {data rest : Bytes} {off : Nat} {s : WString}
    (h : data.drop off = stringRecord s ++ rest) (hmax : (utf8 s).length ≤ maxStringLength) :
    ∃ o, readString data off = .ok (o, off + (stringRecord s).length)
      ∧ data.drop (off + (stringRecord s).length) = rest ∧ (wellFormed s = true → o = some s) := by
  have hmod : (utf8 s).length % 256 ^ 4 = (utf8 s).length :=
    Nat.mod_eq_of_lt (by unfold maxStringLength at hmax; omega)
  have hadv : off + roundUp ((utf8 s).length + 4) 4 = off + (stringRecord s).length := by
    rw [stringRecord_length, roundUp_four_add]; omega
  have hsplit : data.drop off = toLE 4 (utf8 s).length
      ++ (utf8 s ++ (zeros (roundUp (utf8 s).length 4 - (utf8 s).length) ++ rest)) := by
    rw [h, stringRecord]; simp only [List.append_assoc]
  obtain ⟨hword, hbody⟩ := readWord_drop (by omega) hsplit
  have hin : (utf8 s).length ≤ (data.drop (off + 4)).length := by
    rw [hbody, List.length_append]; omega
  obtain ⟨o, ho⟩ := fromUTF8_inside hin hmax
  refine ⟨o, ?_, ?_, ?_⟩
  · rw [readString, hword, hmod]
    show (do
      let str ← fromUTF8 (utf8 s).length (data.drop (off + 4))
      return (str, off + roundUp ((utf8 s).length + 4) 4)) = _
    rw [ho, hadv]
    rfl
  · rw [← List.drop_drop, h, List.drop_left]
  · intro hwf
    rw [hbody, fromUTF8_utf8 s _ hwf hmax] at ho
    exact (Except.ok.inj ho).symm

theorem int64_reread (x : Int64) :
    Int64.ofBitVec (BitVec.ofNat 64 (x.toBitVec.toNat % 256 ^ 8)) = x := by
  have hx : x.toBitVec.toNat < 2 ^ 64 := x.toBitVec.isLt
  rw [Nat.mod_eq_of_lt (by omega), BitVec.ofNat_toNat, BitVec.setWidth_eq, Int64.ofBitVec_toBitVec]

theorem int32_reread (x : Int32) :
    Int32.ofBitVec (BitVec.ofNat 32 (x.toBitVec.toNat % 256 ^ 4)) = x := by
  have hx : x.toBitVec.toNat < 2 ^ 32 := x.toBitVec.isLt
  rw [Nat.mod_eq_of_lt (by omega), BitVec.ofNat_toNat, BitVec.setWidth_eq, Int32.ofBitVec_toBitVec]

theorem double_reread (x : Double) : (⟨UInt64.ofNat (x.bits.toNat % 256 ^ 8)⟩ : Double) = x := by
  have hx : x.bits.toNat < 2 ^ 64 := x.bits.toNat_lt
  rw [Nat.mod_eq_of_lt (by omega), UInt64.ofNat_toNat]

theorem bool_reread (b : Bool) : ((if b then 1 else 0) % 256 ^ 4 != 0) = b := by
  cases b <;> rfl

namespace HTTPCachedResource

/-- what is left of an entry after the way through the file -/
def reread (r : HTTPCachedResource) : HTTPCachedResource :=
  ({ r with resourceData := none, used := false, httpequivflags := 0 } :
    HTTPCachedResource).calcResourceSize

theorem utf8_length_le {r : HTTPCachedResource} {s : WString} (hs : s ∈ r.strings) :
    (utf8 s).length + 88 ≤ r.recordSize := by
  have hmem := List.single_le_sum (fun _ _ => Nat.zero_le _) _
    (List.mem_map_of_mem (f := fun s => roundUp (utf8 s).length 4) hs)
  have hround := le_roundUp_four (utf8 s).length
  have hsum : (r.strings.map (fun s => 4 + roundUp (utf8 s).length 4)).sum
      = 28 + (r.strings.map (fun s => roundUp (utf8 s).length 4)).sum := by
    rw [List.sum_map_add]; rfl
  have hle := le_roundUp_four
    (numberFieldSize + (r.strings.map (fun s => 4 + roundUp (utf8 s).length 4)).sum)
  rw [recordSize]
  unfold numberFieldSize at hle ⊢
  omega

/-- **Reading a record back**: the reader advances over exactly that record. -/
theorem deserialize_record {r : HTTPCachedResource} {data rest : Bytes} {off : Nat}
    (h : data.drop off = r.record ++ rest) (hsize : r.recordSize < 2 ^ 31)
    (hurl : wellFormed r.url = true) :
    ∃ r', deserialize data off = .ok (r', false, r.recordSize)
      ∧ data.drop (off + r.recordSize) = rest ∧ r'.url = r.url ∧ r'.contentLength = r.contentLength
      ∧ r'.resourceSize = r'.recordSize
      ∧ (wellFormed r.fileName = true → r'.fileName = r.fileName)
      ∧ ((∀ s ∈ r.strings, wellFormed s = true) → r' = r.reread) := by
  have hmax : ∀ s ∈ r.strings, (utf8 s).length ≤ maxStringLength := by
    intro s hs
    have := utf8_length_le hs
    unfold maxStringLength
    omega
  have hint : toInt32 (roundUp r.recordSize 4) = r.recordSize := by
    rw [roundUp_four_eq (by rw [← record_length]; exact r.record_length_mod)]
    exact toInt32_of_lt hsize
  have hlen : r.recordSize = 60 + (stringRecord r.url).length + (stringRecord r.mimeType).length
      + (stringRecord r.textEncodingName).length + (stringRecord r.suggestedFilename).length
      + (stringRecord r.fileName).length + (stringRecord r.lastModifiedHeader).length
      + (stringRecord r.eTagHeader).length := by
    have hrec := r.record_length
    simp only [record, numberFields_length, strings, List.map_cons, List.map_nil,
      List.flatten_cons, List.flatten_nil, List.length_append, List.length_nil] at hrec
    omega
  simp only [record, numberFields, strings, List.map_cons, List.map_nil, List.flatten_cons,
    List.flatten_nil, List.append_nil, List.append_assoc] at h
  obtain ⟨n1, h⟩ := readWord_drop (by omega) h
  obtain ⟨n2, h⟩ := readWord_drop (by omega) h
  obtain ⟨n3, h⟩ := readWord_drop (by omega) h
  obtain ⟨n4, h⟩ := readWord_drop (by omega) h
  obtain ⟨n5, h⟩ := readWord_drop (by omega) h
  obtain ⟨n6, h⟩ := readWord_drop (by omega) h
  obtain ⟨n7, h⟩ := readWord_drop (by omega) h
  obtain ⟨n8, h⟩ := readWord_drop (by omega) h
  obtain ⟨n9, h⟩ := readWord_drop (by omega) h
  obtain ⟨o1, s1, h, w1⟩ := readString_drop h (hmax _ (by simp [strings]))
  obtain ⟨o2, s2, h, w2⟩ := readString_drop h (hmax _ (by simp [strings]))
  obtain ⟨o3, s3, h, w3⟩ := readString_drop h (hmax _ (by simp [strings]))
  obtain ⟨o4, s4, h, w4⟩ := readString_drop h (hmax _ (by simp [strings]))
  obtain ⟨o5, s5, h, w5⟩ := readString_drop h (hmax _ (by simp [strings]))
  obtain ⟨o6, s6, h, w6⟩ := readString_drop h (hmax _ (by simp [strings]))
  obtain ⟨o7, s7, h, w7⟩ := readString_drop h (hmax _ (by simp [strings]))
  simp only [Nat.add_assoc, Nat.reduceAdd] at n1 n2 n3 n4 n5 n6 n7 n8 n9 s1 s2 s3 s4 s5 s6 s7 h hlen
  obtain rfl := w1 hurl
  have hrun : deserialize data off = .ok (({
      expectedContentLength := r.expectedContentLength
      contentLength := r.contentLength
      httpStatusCode := r.httpStatusCode
      noCache := r.noCache
      mustRevalidate := r.mustRevalidate
      expires := r.expires
      maxAge := r.maxAge
      date := r.date
      lastModified := r.lastModified
      url := r.url
      mimeType := o2.getD []
      textEncodingName := o3.getD []
      suggestedFilename := o4.getD []
      fileName := o5.getD []
      lastModifiedHeader := o6.getD []
      eTagHeader := o7.getD [] } : HTTPCachedResource).calcResourceSize, false,
      (r.recordSize : Int)) := by
    rw [deserialize]
    simp only [int64At, int32At, boolAt, doubleAt, n1, n2, n3, n4, n5, n6, n7, n8, n9, bind, pure,
      Except.bind, Except.pure, int64_reread, int32_reread, double_reread, bool_reread,
      s1, s2, s3, s4, s5, s6, s7, Option.getD_some, Option.isNone_some]
    rw [← hint, hlen]
    simp only [Nat.add_sub_cancel_left]
  refine ⟨_, hrun, ?_, rfl, rfl, rfl, ?_, ?_⟩
  · rw [hlen]
    simpa only [Nat.add_assoc] using h
  · intro hwf
    obtain rfl := w5 hwf
    rfl
  · intro hwf
    obtain rfl := w2 (hwf _ (by simp [strings]))
    obtain rfl := w3 (hwf _ (by simp [strings]))
    obtain rfl := w4 (hwf _ (by simp [strings]))
    obtain rfl := w5 (hwf _ (by simp [strings]))
    obtain rfl := w6 (hwf _ (by simp [strings]))
    obtain rfl := w7 (hwf _ (by simp [strings]))
    rfl

end HTTPCachedResource

end Wkc
