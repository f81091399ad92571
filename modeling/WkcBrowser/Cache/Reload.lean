import WkcBrowser.Cache.Accounts

/-!
# Reading back a FAT file that was written

* `writeFatLoop_true`        a write that succeeds leaves the whole buffer in the file;
* `deserialize_records`      the records are read one after the other, each into one entry;
* `readFATFile_fatBytes`     reading the file of a cache loads one entry per entry, in the same order.
-/

set_option linter.unusedSectionVars false

namespace Wkc
open Buf

section
variable [FilePeers]

namespace HTTPCache

theorem writeFatLoop_true (counts : List Int) : ∀ (buffer file : Bytes),
    (writeFatLoop buffer counts file).1 = true →
    (writeFatLoop buffer counts file).2 = file ++ buffer := by
  induction counts with
  | nil =>
    intro buffer file h
    cases buffer with
    | nil => exact (List.append_nil file).symm
    | cons b bs => cases h
  | cons written counts ih =>
    intro buffer file h
    cases buffer with
    | nil => exact (List.append_nil file).symm
    | cons b bs =>
      rw [writeFatLoop] at h ⊢
      split at h
      · cases h
      · next hpos =>
        rw [if_neg hpos, ih _ _ h, List.append_assoc, List.take_append_drop]

theorem Sized.writeFATFile_true {c c' : HTTPCache} {io : FatIo} (hs : c.Sized)
    (h : c.writeFATFile io = (true, c')) :
    c'.files.lookup (pathByAppendingComponent c'.filePath c'.fatFileName) = some c.fatBytes
      ∧ c.fatBytes.length < 2 ^ 31 := by
  unfold writeFATFile at h
  split at h
  · cases h
  · next hok =>
    have hsize : c.totalSize < 2 ^ 31 := by
      by_contra hge
      exact hok (.inr (.inr (by omega)))
    rw [hs.totalSize_eq] at hsize
    rw [hs.fatData_eq] at h
    dsimp only at h
    split at h
    · cases h
    · obtain ⟨hres, rfl⟩ := Prod.mk.inj h
      have hfile := writeFatLoop_true _ _ _ hres
      refine ⟨?_, ?_⟩
      · dsimp only
        rw [AList.lookup_insert, hfile]
        rfl
      · rw [fatBytes_length]
        exact_mod_cast hsize

def loadEntries (c : HTTPCache) (rs : List HTTPCachedResource) : HTTPCache := rs.foldl loadEntry c

/-- `rs` is what reading the records of `ps` gives -/
structure Reread (c0 : HTTPCache) (ps : List Ptr) (rs : List HTTPCachedResource) : Prop where
  url : rs.map HTTPCachedResource.url = ps.map c0.url
  contentLength : rs.map HTTPCachedResource.contentLength = ps.map (fun p => (c0.res p).contentLength)
  size : ∀ r ∈ rs, r.resourceSize = r.recordSize
  fileName : (∀ p ∈ ps, wellFormed (c0.res p).fileName = true) →
    rs.map HTTPCachedResource.fileName = ps.map (fun p => (c0.res p).fileName)
  exact : (∀ p ∈ ps, ∀ s ∈ (c0.res p).strings, wellFormed s = true) →
    rs = ps.map (fun p => (c0.res p).reread)

theorem records_le (c0 : HTTPCache) (p : Ptr) (ps : List Ptr) :
    (c0.records (p :: ps)).length = (c0.res p).recordSize + (c0.records ps).length := by
  rw [records_cons, List.length_append, HTTPCachedResource.record_length]

theorem length_le_records (c0 : HTTPCache) (ps : List Ptr) : ps.length ≤ (c0.records ps).length := by
  induction ps with
  | nil => exact Nat.le_refl _
  | cons p ps ih =>
    have hpos := (c0.res p).record_length_pos
    rw [HTTPCachedResource.record_length] at hpos
    rw [records_le, List.length_cons]
    omega

theorem deserialize_records (c0 : HTTPCache) (data : Bytes) (ps : List Ptr) :
    ∀ (fuel off : Nat) (c : HTTPCache), ps.length ≤ fuel → data.drop off = c0.records ps →
    (c0.records ps).length < 2 ^ 31 → (∀ p ∈ ps, wellFormed (c0.url p) = true) →
    ∃ rs, Reread c0 ps rs ∧
      deserializeFATData data fuel off (c0.records ps).length c = .ok (c.loadEntries rs) := by
  induction ps with
  | nil =>
    intro fuel off c _ _ _ _
    refine ⟨[], ⟨rfl, rfl, fun r hr => absurd hr List.not_mem_nil, fun _ => rfl, fun _ => rfl⟩, ?_⟩
    cases fuel with
    | zero | succ => rfl
  | cons p ps ih =>
    intro fuel off c hfuel hdata hlen hurl
    obtain ⟨fuel, rfl⟩ : ∃ f, fuel = f + 1 := ⟨fuel - 1, by rw [List.length_cons] at hfuel; omega⟩
    rw [records_cons] at hdata
    have hle := records_le c0 p ps
    have hpos := (c0.res p).record_length_pos
    rw [HTTPCachedResource.record_length] at hpos
    obtain ⟨r, hread, hrest, hu, hcl, hsize, hname, hexact⟩ := HTTPCachedResource.deserialize_record hdata
      (by omega) (hurl p List.mem_cons_self)
    obtain ⟨rs, hrs, hrun⟩ := ih fuel (off + (c0.res p).recordSize) (c.loadEntry r)
      (by rw [List.length_cons] at hfuel; omega) hrest (by omega)
      (fun q hq => hurl q (List.mem_cons_of_mem _ hq))
    refine ⟨r :: rs, ⟨?_, ?_, ?_, ?_, ?_⟩, ?_⟩
    · rw [List.map_cons, List.map_cons, hrs.url, hu]; rfl
    · rw [List.map_cons, List.map_cons, hrs.contentLength, hcl]
    · intro q hq
      rcases List.mem_cons.mp hq with rfl | hq
      · exact hsize
      · exact hrs.size q hq
    · intro hwf
      rw [List.map_cons, List.map_cons, hname (hwf p List.mem_cons_self),
        hrs.fileName (fun q hq => hwf q (List.mem_cons_of_mem _ hq))]
    · intro hwf
      rw [List.map_cons, hexact (hwf p List.mem_cons_self),
        hrs.exact (fun q hq => hwf q (List.mem_cons_of_mem _ hq))]
    · have hlength : ((c0.records (p :: ps)).length : Int) - (c0.res p).recordSize
          = (c0.records ps).length := by omega
      rw [deserializeFATData, if_neg (by omega), hread]
      show (if _ then _ else if _ then _ else _) = _
      rw [if_neg (by simp), if_neg (by omega), hlength]
      exact hrun

theorem fatBytes_drop (c0 : HTTPCache) : c0.fatBytes.drop MD5_DIGESTSIZE = c0.fatBody :=
  List.drop_left' (MD5.checksum_length _)

theorem verifyDigest_fatBytes (c0 : HTTPCache) : verifyDigest c0.fatBytes = true := by
  have hlen := c0.fatBytes_length
  have htake : c0.fatBytes.take MD5_DIGESTSIZE = MD5.checksum c0.fatBody :=
    List.take_left' (MD5.checksum_length _)
  rw [verifyDigest, htake, fatBytes_drop, Bool.and_eq_true]
  exact ⟨decide_eq_true (by rw [hlen, headerSize]; omega), beq_self_eq_true _⟩

theorem fatBytes_header (c0 : HTTPCache) :
    load c0.fatBytes MD5_DIGESTSIZE 4 = some (toLE 4 CACHEFAT_FORMAT_VERSION) ∧
    readWord c0.fatBytes (MD5_DIGESTSIZE + 4) 4 = .ok (c0.fileNumber.toBitVec.toNat % 256 ^ 4) ∧
    c0.fatBytes.drop headerSize = c0.records c0.resourceList := by
  have hdrop : c0.fatBytes.drop MD5_DIGESTSIZE = toLE 4 CACHEFAT_FORMAT_VERSION
      ++ (toLE 4 c0.fileNumber.toBitVec.toNat ++ c0.records c0.resourceList) := by
    rw [fatBytes_drop, fatBody, List.append_assoc]
  have hlen := c0.fatBytes_length
  obtain ⟨_, hnext⟩ := readWord_drop (by omega) hdrop
  obtain ⟨hnumber, hrest⟩ := readWord_drop (by omega) hnext
  refine ⟨?_, hnumber, hrest⟩
  rw [load, if_pos (by rw [hlen, headerSize]; omega), hdrop, List.take_left' (toLE_length _ _)]

/-- the platform lets `readFATFile` have the file -/
def Readable (c : HTTPCache) (io : FatIo) (data : Bytes) : Prop :=
  io.opens = true ∧ io.stats = true ∧ io.alloc = true ∧ io.counts.head? = some (data.length : Int)
    ∧ pathByAppendingComponent c.filePath c.fatFileName ≠ []

theorem readFATFile_fatBytes {c c0 : HTTPCache} (rd : FatIo)
    (hfile : c.files.lookup (pathByAppendingComponent c.filePath c.fatFileName) = some c0.fatBytes)
    (hlen : c0.fatBytes.length < 2 ^ 31) (hurl : ∀ p ∈ c0.resourceList, wellFormed (c0.url p) = true) :
    (¬ (c0.resourceList ≠ [] ∧ c.Readable rd c0.fatBytes) ∧ c.readFATFile rd = .ok (false, c)) ∨
    ∃ rs, Reread c0 c0.resourceList rs ∧ c.readFATFile rd
      = .ok (true, ({ c with fileNumber := c0.fileNumber } : HTTPCache).loadEntries rs) := by
  have hlength := c0.fatBytes_length
  unfold readFATFile
  dsimp only
  rw [hfile]
  dsimp only
  split
  · next hno =>
    refine .inl ⟨?_, rfl⟩
    rintro ⟨_, ho, hs, _, _, hp⟩
    rw [ho, hs] at hno
    simp [hp] at hno
  · split
    · next hshort =>
      refine .inl ⟨?_, rfl⟩
      rintro ⟨hne, _⟩
      obtain ⟨p, ps, hps⟩ := List.exists_cons_of_ne_nil hne
      have hpos := (c0.res p).record_length_pos
      rw [HTTPCachedResource.record_length] at hpos
      rw [hlength, hps, records_le] at hshort
      omega
    · split
      · next hno =>
        refine .inl ⟨?_, rfl⟩
        rintro ⟨_, _, _, ha, hc, _⟩
        rw [ha, hc] at hno
        simp at hno
      · obtain ⟨hversion, hnumber, hrest⟩ := c0.fatBytes_header
        have hrem : (c0.fatBytes.length : Int) - headerSize = (c0.records c0.resourceList).length := by
          rw [hlength]; push_cast; omega
        have hcount : c0.resourceList.length ≤ c0.fatBytes.length := by
          rw [hlength]
          have := c0.length_le_records c0.resourceList
          omega
        obtain ⟨rs, hrs, hrun⟩ := deserialize_records c0 c0.fatBytes c0.resourceList
          c0.fatBytes.length headerSize { c with fileNumber := c0.fileNumber } hcount hrest
          (by omega) hurl
        refine .inr ⟨rs, hrs, ?_⟩
        rw [verifyDigest_fatBytes, if_neg (by simp), if_neg (by rw [hversion]; simp), hnumber]
        show (do
          let c ← deserializeFATData _ _ headerSize _ _
          return (true, c)) = _
        rw [int32_reread, hrem, hrun]
        rfl

end HTTPCache

end

end Wkc
