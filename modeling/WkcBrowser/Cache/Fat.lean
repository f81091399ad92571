import WkcBrowser.Cache.HTTPCache

/-!
# Writing the FAT file

`fatBytes c` is the file in one piece: digest, version, file number, one record per entry.

* `serializeFATData_zeros`   the records fill a zeroed buffer from the left;
* `fatData_eq`               if the stored sizes are up to date, the buffer that `writeFATFile`
                             allocates is filled exactly, with `fatBytes c`;
* `writeFatLoop_length`      the file is never longer than the buffer.
-/

set_option linter.unusedSectionVars false

namespace Wkc
open Buf

section
variable [FilePeers]

namespace HTTPCache

def records (c : HTTPCache) (ps : List Ptr) : Bytes := (ps.map (fun p => (c.res p).record)).flatten

def fatBody (c : HTTPCache) : Bytes :=
  toLE 4 CACHEFAT_FORMAT_VERSION ++ toLE 4 c.fileNumber.toBitVec.toNat ++ c.records c.resourceList

def fatBytes (c : HTTPCache) : Bytes := MD5.checksum c.fatBody ++ c.fatBody

/-- the stored sizes are up to date -/
structure Sized (c : HTTPCache) : Prop where
  entry : ∀ p ∈ c.resourceList, (c.res p).resourceSize = (c.res p).recordSize
  total : c.totalResourceSize = (c.resourceList.map (fun p => (c.res p).resourceSize)).sum

theorem records_cons (c : HTTPCache) (p : Ptr) (ps : List Ptr) :
    c.records (p :: ps) = (c.res p).record ++ c.records ps := rfl

theorem serializeFATData_zeros (c : HTTPCache) (ps : List Ptr) : ∀ (pre : Bytes) (n : Nat),
    c.serializeFATData ps (pre ++ zeros ((c.records ps).length + n)) pre.length
      = some (pre ++ c.records ps ++ zeros n, (pre ++ c.records ps).length) := by
  induction ps with
  | nil => intro pre n; simp [serializeFATData, records]
  | cons p ps ih =>
    intro pre n
    have hadd : (c.records (p :: ps)).length + n
        = (c.res p).recordSize + ((c.records ps).length + n) := by
      rw [records_cons, List.length_append, HTTPCachedResource.record_length]; omega
    have hoff : pre.length + (c.res p).recordSize = (pre ++ (c.res p).record).length := by
      rw [List.length_append, HTTPCachedResource.record_length]
    rw [hadd, serializeFATData, HTTPCachedResource.serialize_zeros]
    show c.serializeFATData ps (pre ++ (c.res p).record ++ zeros ((c.records ps).length + n))
      (pre.length + (c.res p).recordSize) = _
    rw [hoff, ih, records_cons, List.append_assoc pre, List.append_assoc pre]

theorem records_length (c : HTTPCache) (ps : List Ptr)
    (h : ∀ p ∈ ps, (c.res p).resourceSize = (c.res p).recordSize) :
    ((c.records ps).length : Int) = (ps.map (fun p => (c.res p).resourceSize)).sum := by
  induction ps with
  | nil => rfl
  | cons p ps ih =>
    have htail := ih (fun q hq => h q (List.mem_cons_of_mem _ hq))
    have hp := h p List.mem_cons_self
    rw [records_cons, List.length_append, HTTPCachedResource.record_length, List.map_cons,
      List.sum_cons, ← htail, hp]
    push_cast
    rfl

theorem Sized.totalSize_eq {c : HTTPCache} (h : c.Sized) :
    c.totalSize = (headerSize + (c.records c.resourceList).length : Nat) := by
  rw [totalSize, h.total, ← records_length c _ h.entry]
  push_cast
  rfl

theorem Sized.fatHeader_eq {c : HTTPCache} (h : c.Sized) :
    c.fatHeader = some (zeros MD5_DIGESTSIZE ++ toLE 4 CACHEFAT_FORMAT_VERSION
      ++ toLE 4 c.fileNumber.toBitVec.toNat ++ zeros (c.records c.resourceList).length) := by
  have hsize : c.totalSize.toNat = MD5_DIGESTSIZE + ((toLE 4 CACHEFAT_FORMAT_VERSION).length
      + ((toLE 4 c.fileNumber.toBitVec.toNat).length + (c.records c.resourceList).length)) := by
    rw [h.totalSize_eq, Int.toNat_natCast, toLE_length, toLE_length, headerSize]
    omega
  have hpre : MD5_DIGESTSIZE = (zeros MD5_DIGESTSIZE).length := (zeros_length _).symm
  have hpre4 : MD5_DIGESTSIZE + 4
      = (zeros MD5_DIGESTSIZE ++ toLE 4 CACHEFAT_FORMAT_VERSION).length := by
    rw [List.length_append, zeros_length, toLE_length]
  rw [fatHeader, hsize, zeros_add]
  nth_rewrite 2 [hpre]
  rw [store_zeros]
  show store _ (MD5_DIGESTSIZE + 4) _ = _
  rw [hpre4, store_zeros]

/-- **The records fill the rest of the buffer exactly.** -/
theorem Sized.serialize_exact {c : HTTPCache} (h : c.Sized) :
    ∃ buffer buffer', c.fatHeader = some buffer ∧ (buffer.length : Int) = c.totalSize ∧
      c.serializeFATData c.resourceList buffer headerSize = some (buffer', c.totalSize.toNat)
      ∧ buffer'.drop MD5_DIGESTSIZE = c.fatBody := by
  have hser := c.serializeFATData_zeros c.resourceList (zeros MD5_DIGESTSIZE
    ++ toLE 4 CACHEFAT_FORMAT_VERSION ++ toLE 4 c.fileNumber.toBitVec.toNat) 0
  have hlen : (zeros MD5_DIGESTSIZE ++ toLE 4 CACHEFAT_FORMAT_VERSION
      ++ toLE 4 c.fileNumber.toBitVec.toNat).length = headerSize := by
    rw [List.length_append, List.length_append, zeros_length, toLE_length, toLE_length, headerSize]
    omega
  rw [Nat.add_zero, hlen] at hser
  have hdrop : (zeros MD5_DIGESTSIZE ++ toLE 4 CACHEFAT_FORMAT_VERSION
      ++ toLE 4 c.fileNumber.toBitVec.toNat ++ c.records c.resourceList ++ zeros 0).drop
        MD5_DIGESTSIZE = c.fatBody := by
    rw [fatBody]
    simp only [List.append_assoc, zeros, List.replicate_zero, List.append_nil]
    exact List.drop_left' (zeros_length _)
  refine ⟨_, _, h.fatHeader_eq, ?_, hser.trans ?_, hdrop⟩
  · rw [List.length_append, hlen, zeros_length, h.totalSize_eq]
  · rw [h.totalSize_eq, Int.toNat_natCast, List.length_append, hlen]

theorem Sized.fatData_eq {c : HTTPCache} (h : c.Sized) : c.fatData = some c.fatBytes := by
  obtain ⟨buffer, buffer', hhead, _, hser, hbody⟩ := h.serialize_exact
  rw [fatData, hhead]
  simp only [Option.bind_eq_bind, Option.bind_some, hser]
  show some (writeDigest buffer') = _
  rw [writeDigest, hbody]
  rfl

theorem writeFatLoop_length (counts : List Int) : ∀ (buffer file : Bytes),
    (writeFatLoop buffer counts file).2.length ≤ file.length + buffer.length := by
  induction counts with
  | nil =>
    intro buffer file
    cases buffer with
    | nil => exact Nat.le_refl _
    | cons b bs => exact Nat.le_add_right ..
  | cons written counts ih =>
    intro buffer file
    cases buffer with
    | nil => exact Nat.le_refl _
    | cons b bs =>
      rw [writeFatLoop]
      split
      · exact Nat.le_add_right ..
      · have h := ih ((b :: bs).drop written.toNat) (file ++ (b :: bs).take written.toNat)
        rw [List.length_append, List.length_drop, List.length_take] at h
        omega

theorem fatBytes_length (c : HTTPCache) :
    c.fatBytes.length = headerSize + (c.records c.resourceList).length := by
  rw [fatBytes, fatBody, List.length_append, List.length_append, List.length_append,
    MD5.checksum_length, toLE_length, toLE_length, headerSize, MD5_DIGESTSIZE]
  omega

theorem read_of_empty {c : HTTPCache} (hlist : c.resourceList = []) (htotal : c.totalResourceSize = 0)
    (hfile : pathByAppendingComponent c.filePath c.fatFileName ≠ [] →
      c.files.lookup (pathByAppendingComponent c.filePath c.fatFileName) = none) (wr rd : FatIo) :
    (c.writeFATFile wr).2.readFATFile rd = .ok (false, (c.writeFATFile wr).2) := by
  have hsized : c.Sized := by
    refine ⟨?_, ?_⟩
    · intro p hp
      rw [hlist] at hp
      exact absurd hp List.not_mem_nil
    · rw [hlist, htotal]; rfl
  have hold : c.readFATFile rd = .ok (false, c) := by
    unfold readFATFile
    dsimp only
    split
    · rfl
    · next data hdata =>
      rw [if_pos]
      refine .inr (.inl ?_)
      by_contra hne
      rw [hfile hne] at hdata
      cases hdata
  unfold writeFATFile
  split
  · exact hold
  · rw [hsized.fatData_eq]
    dsimp only
    split
    · exact hold
    · have hlen := writeFatLoop_length wr.counts c.fatBytes []
      rw [fatBytes_length, hlist] at hlen
      unfold readFATFile
      dsimp only
      rw [AList.lookup_insert]
      dsimp only
      split
      · rfl
      · rw [if_pos (by simpa [records] using hlen)]

end HTTPCache

end

end Wkc
