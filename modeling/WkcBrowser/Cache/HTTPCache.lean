import WkcBrowser.Cache.Record
import WkcBrowser.Cache.Moves
import WkcBrowser.Wtf.Md5

/-!
# `HTTPCache`: the index, the list and the files

The class as it stands in `HTTPCacheWKC.cpp`.  Entries are objects on a heap, known by pointer; the
index `m_resources` and the list `m_resourceList` hold pointers, so that one object can be reached
from both.  The two running totals are the code's own fields, changed where the code changes them.

* `purgeBySize`, `purgeOldest`                 eviction;
* `createHTTPCachedResource`, `write`          the two halves of admission;
* `removeResource`, `remove`, `detach`         taking an entry off the list;
* `writeFATFile`, `readFATFile`                the FAT file, through checked memory.

Totals and limits are integers without wrap-around: `long long` in the code, and bounded by the
address space where it says `int`.
-/

set_option linter.unusedSectionVars false

namespace Wkc
open Buf

section
variable [FilePeers]

/-- what the platform answers while the FAT file is written or read -/
structure FatIo where
  alloc : Bool
  opens : Bool
  stats : Bool
  counts : List Int

def ascii (cs : List Char) : WString := cs.map (fun c => UInt16.ofNat c.toNat)

def DEFAULT_FAT_FILENAME : WString := ascii ['c', 'a', 'c', 'h', 'e', '.', 'f', 'a', 't']
def DEFAULT_FILEPATH : WString := ascii ['c', 'a', 'c', 'h', 'e', '/']
def CACHE_SUFFIX : WString := ascii ['.', 'd', 'c', 'f']
def CACHEFAT_FORMAT_VERSION : Nat := 3
def MD5_DIGESTSIZE : Nat := 16

structure HTTPCache where
  disabled : Bool := false
  resources : WString → Option Ptr := fun _ => none
  resourceList : List Ptr := []
  fileNumber : Int32 := 0
  totalResourceSize : Int := 0
  fatFileName : WString := DEFAULT_FAT_FILENAME
  filePath : WString := DEFAULT_FILEPATH
  limitContentEntries : Int := 1024
  limitContentSize : Int := 10 * 1024 * 1024
  limitTotalContentsSize : Int := 10 * 1024 * 1024
  totalContentsSize : Int := 0
  heap : Ptr → Option HTTPCachedResource := fun _ => none
  next : Nat := 0
  files : Files := ∅

namespace HTTPCache

/-! ## objects -/

def res (c : HTTPCache) (p : Ptr) : HTTPCachedResource := (c.heap p).getD default

def setRes (c : HTTPCache) (p : Ptr) (r : HTTPCachedResource) : HTTPCache :=
  { c with heap := Function.update c.heap p (some r) }

def alloc (c : HTTPCache) (r : HTTPCachedResource) : Ptr × HTTPCache :=
  (c.next, { c with heap := Function.update c.heap c.next (some r), next := c.next + 1 })

def free (c : HTTPCache) (p : Ptr) : HTTPCache :=
  { c with heap := Function.update c.heap p none }

/-- `wkcFileUnlinkPeer` -/
def unlink (c : HTTPCache) (path : WString) : HTTPCache := { c with files := c.files.erase path }

def contentLength (c : HTTPCache) (p : Ptr) : Int := (c.res p).contentLength.toInt

def url (c : HTTPCache) (p : Ptr) : WString := (c.res p).url

def fileFullPath (c : HTTPCache) (p : Ptr) : WString :=
  pathByAppendingComponent c.filePath (c.res p).fileName

/-! ## the list and the index -/

def reset (c : HTTPCache) : HTTPCache :=
  { c with
    heap := fun p => if p ∈ c.resourceList then none else c.heap p
    resourceList := []
    resources := fun _ => none
    totalResourceSize := 0
    totalContentsSize := 0 }

def addCachedResource (c : HTTPCache) (p : Ptr) : HTTPCache :=
  if c.disabled then c
  else
    { c with
      resources := Function.update c.resources (c.url p) (some p)
      resourceList := c.resourceList ++ [p]
      totalResourceSize := c.totalResourceSize + (c.res p).resourceSize
      totalContentsSize := c.totalContentsSize + c.contentLength p }

def updateCachedResource (c : HTTPCache) (p : Ptr) (resourceData : SharedBuffer)
    (response : ResourceResponse) (noCache mustRevalidate : Bool) (expires maxAge now : Double) :
    HTTPCache :=
  c.setRes p ((((c.res p).setResourceResponse response now).setResourceData resourceData).update
    noCache mustRevalidate expires maxAge 0)

def removeResource (c : HTTPCache) (p : Ptr) : HTTPCache :=
  { c with
    resources := Function.update c.resources (c.url p) none
    resourceList := c.resourceList.erase p
    totalResourceSize := c.totalResourceSize - (c.res p).resourceSize
    totalContentsSize := c.totalContentsSize - c.contentLength p }

def removeResourceByNumber (c : HTTPCache) (listNumber : Nat) : HTTPCache :=
  match c.resourceList[listNumber]? with
  | none => c
  | some p =>
    (({ c with
        resources := Function.update c.resources (c.url p) none
        resourceList := c.resourceList.eraseIdx listNumber
        totalResourceSize := c.totalResourceSize - (c.res p).resourceSize
        totalContentsSize := c.totalContentsSize - c.contentLength p } : HTTPCache).unlink
      (c.fileFullPath p)).free p

def remove (c : HTTPCache) (p : Ptr) : HTTPCache :=
  ((c.removeResource p).unlink (c.fileFullPath p)).free p

def detach (c : HTTPCache) (p : Ptr) : HTTPCache :=
  if (c.res p).fileName.isEmpty then c.removeResource p
  else (c.removeResource p).unlink (c.fileFullPath p)

/-- the names that the directory peers enumerate; what lies in directories below is not among them -/
def directoryNames (files : Files) (path suffix : WString) : List WString :=
  (files.keys.filterMap (fun f =>
    if (path ++ [separator]) <+: f then some (f.drop (path.length + 1)) else none)).filter
      (fun name => !name.contains separator && suffix.isSuffixOf name)

/-- full paths, up to the first that does not fit -/
def listDirectory (files : Files) (path suffix : WString) : List WString :=
  ((directoryNames files path suffix).map (wkcFilePathByAppendingComponentPeer path)).takeWhile
    Option.isSome |>.filterMap id

def unlinkAll (filePath : WString) : List WString → Files → Files
  | [], files => files
  | item :: items, files =>
    match wkcFilePathByAppendingComponentPeer filePath item with
    | none => files
    | some fullpath => unlinkAll filePath items (files.erase fullpath)

def removeAll (c : HTTPCache) : HTTPCache :=
  let c := { c.reset with fileNumber := 0 }
  let c := { c with files := unlinkAll c.filePath (listDirectory c.files c.filePath CACHE_SUFFIX) c.files }
  match wkcFilePathByAppendingComponentPeer c.filePath c.fatFileName with
  | none => c
  | some fullpath => c.unlink fullpath

def setMaxContentEntries (c : HTTPCache) (limit : Int) : HTTPCache :=
  { c with limitContentEntries := if limit ≤ 0 then 0x7fffffff else limit }

def resourceForURL (c : HTTPCache) (resourceURL : KURL) : Option Ptr :=
  c.resources (cacheKey resourceURL)

def equalHTTPCachedResourceURL (c : HTTPCache) (p : Ptr) (resourceURL : KURL) : Bool :=
  equalIgnoringCase (c.url p) (cacheKey resourceURL)

/-! ## file names -/

/-- at most ten digits, enough for an `int` -/
def decimal : Nat → Nat → WString
  | 0, _ => []
  | w + 1, n => if n < 10 then [UInt16.ofNat (0x30 + n)]
    else decimal w (n / 10) ++ [UInt16.ofNat (0x30 + n % 10)]

/-- `String::format("%08d.dcf", n)` -/
def formatFileName (n : Int32) : WString :=
  let digits := decimal 10 n.toInt.natAbs
  if n.toInt < 0 then
    (0x2D :: (List.replicate (7 - digits.length) 0x30 ++ digits)) ++ CACHE_SUFFIX
  else (List.replicate (8 - digits.length) 0x30 ++ digits) ++ CACHE_SUFFIX

def makeFileName (c : HTTPCache) : WString × HTTPCache :=
  (formatFileName c.fileNumber,
    { c with fileNumber := if c.fileNumber = Int32.maxValue then 0 else c.fileNumber + 1 })

/-! ## eviction -/

/-- `rest` is the list from `num` on -/
def purgeLoop (size : Int) : List Ptr → Nat → Int → HTTPCache → Int × HTTPCache
  | [], _, purgedSize, c => (purgedSize, c)
  | p :: rest, num, purgedSize, c =>
    if (c.res p).used then purgeLoop size rest (num + 1) purgedSize c
    else
      let purgedSize := purgedSize + c.contentLength p
      let c := c.removeResourceByNumber num
      if size < purgedSize then (purgedSize, c) else purgeLoop size rest num purgedSize c

def purgeBySizeInternal (c : HTTPCache) (size : Int) : Int × HTTPCache :=
  purgeLoop size c.resourceList 0 0 c

def clearUsed : List Ptr → HTTPCache → HTTPCache
  | [], c => c
  | p :: rest, c => clearUsed rest (c.setRes p ((c.res p).setUsed false))

def purgeBySize (c : HTTPCache) (size : Int) : Int × HTTPCache :=
  let (purgedSize, c) := c.purgeBySizeInternal size
  if purgedSize < size then
    let (more, c) := (clearUsed c.resourceList c).purgeBySizeInternal (size - purgedSize)
    (purgedSize + more, c)
  else (purgedSize, c)

def purgeOldestLoop : List Ptr → Nat → HTTPCache → Int × HTTPCache
  | [], _, c => (0, c)
  | p :: rest, num, c =>
    if (c.res p).used then purgeOldestLoop rest (num + 1) c
    else (c.contentLength p, c.removeResourceByNumber num)

def purgeOldest (c : HTTPCache) : Int × HTTPCache := purgeOldestLoop c.resourceList 0 c

/-! ## admission -/

/-- room for the length, and whether the purge removed anything -/
def makeSizeRoom (c : HTTPCache) (contentLength : Int) : Bool × HTTPCache :=
  if c.limitTotalContentsSize < c.totalContentsSize + contentLength then
    ((c.purgeBySize contentLength).1 != 0, (c.purgeBySize contentLength).2)
  else (true, c)

def makeEntryRoom (c : HTTPCache) : Bool × HTTPCache :=
  if c.limitContentEntries ≤ c.resourceList.length then (c.purgeOldest.1 != 0, c.purgeOldest.2)
  else (true, c)

/-- whether the limits let a body of this length in, and the cache after the evictions -/
def makeRoom (c : HTTPCache) (contentLength : Int) : Bool × HTTPCache :=
  if c.disabled then (false, c)
  else if c.limitContentSize < contentLength then (false, c)
  else if c.limitTotalContentsSize < contentLength then (false, c)
  else if (c.makeSizeRoom contentLength).1 = false then (false, (c.makeSizeRoom contentLength).2)
  else (c.makeSizeRoom contentLength).2.makeEntryRoom

def createHTTPCachedResource (c : HTTPCache) (url : KURL) (resourceData : SharedBuffer)
    (response : ResourceResponse) (noCache mustRevalidate : Bool) (expires maxAge now : Double) :
    Option Ptr × HTTPCache :=
  let (admitted, c) := c.makeRoom (toInt32 resourceData.size)
  if admitted = false then (none, c)
  else
    let kurl := removeFragmentIdentifierIfNeeded url
    let (p, c) := c.alloc (((HTTPCachedResource.create kurl response now).update
      noCache mustRevalidate expires maxAge 0).setResourceData resourceData)
    (some p, c)

/-- `write` first makes room, if the limit asks for it -/
def beforeWrite (c : HTTPCache) (p : Ptr) : HTTPCache :=
  if c.limitTotalContentsSize < c.totalContentsSize + c.contentLength p then
    (c.purgeBySize (c.contentLength p)).2
  else c

/-- `HashMap::add` keeps a mapping that is there -/
def listWritten (c : HTTPCache) (p : Ptr) : HTTPCache :=
  { c with
    resources := if (c.resources (c.url p)).isSome then c.resources
      else Function.update c.resources (c.url p) (some p)
    resourceList := c.resourceList ++ [p]
    totalResourceSize := c.totalResourceSize + (c.res p).resourceSize
    totalContentsSize := c.totalContentsSize + c.contentLength p }

def write (c : HTTPCache) (p : Ptr) (io : FileIo) : Bool × HTTPCache :=
  let c := c.beforeWrite p
  let filename := c.makeFileName.1
  let c := c.makeFileName.2
  match (c.res p).writeFile filename c.filePath io c.files with
  | (false, r, files) => (false, { c.setRes p r with files := files })
  | (true, r, files) => (true, ({ c.setRes p r with files := files } : HTTPCache).listWritten p)

/-- the bytes that reach the buffer beside the result -/
def read (c : HTTPCache) (p : Ptr) (io : FileIo) : Bool × Bytes × HTTPCache :=
  let (result, bytes, r) := (c.res p).readFile c.filePath io c.files
  (result, bytes, c.setRes p r)

/-! ## the FAT file -/

def serializeFATData (c : HTTPCache) : List Ptr → Bytes → Nat → Option (Bytes × Nat)
  | [], buffer, off => some (buffer, off)
  | p :: rest, buffer, off => do
    let (buffer, read) ← (c.res p).serialize buffer off
    c.serializeFATData rest buffer (off + read)

def headerSize : Nat := 4 * 2 + MD5_DIGESTSIZE

def totalSize (c : HTTPCache) : Int := headerSize + c.totalResourceSize

def writeDigest (data : Bytes) : Bytes :=
  MD5.checksum (data.drop MD5_DIGESTSIZE) ++ data.drop MD5_DIGESTSIZE

/-- the buffer of `totalSize` bytes with the version and the file number in it -/
def fatHeader (c : HTTPCache) : Option Bytes := do
  let buffer ← store (zeros c.totalSize.toNat) MD5_DIGESTSIZE (toLE 4 CACHEFAT_FORMAT_VERSION)
  store buffer (MD5_DIGESTSIZE + 4) (toLE 4 c.fileNumber.toBitVec.toNat)

/-- the buffer that `writeFATFile` fills; `none` if a store falls outside -/
def fatData (c : HTTPCache) : Option Bytes := do
  let buffer ← c.fatHeader
  let (buffer, _) ← c.serializeFATData c.resourceList buffer headerSize
  return writeDigest buffer

/-- what the successive writes leave in the file, and whether everything was written -/
def writeFatLoop : Bytes → List Int → Bytes → Bool × Bytes
  | [], _, file => (true, file)
  | _ :: _, [], file => (false, file)
  | b :: bs, written :: counts, file =>
    if written ≤ 0 then (false, file)
    else writeFatLoop ((b :: bs).drop written.toNat) counts (file ++ (b :: bs).take written.toNat)

/-- A size that is not an `int` fails in `tryFastZeroedMalloc`.  `fatData` is `none` for no reachable
cache (`fatData_eq`). -/
def writeFATFile (c : HTTPCache) (io : FatIo) : Bool × HTTPCache :=
  if io.alloc = false ∨ c.totalSize < 0 ∨ 2 ^ 31 ≤ c.totalSize then (false, c)
  else
    match c.fatData with
    | none => (false, c)
    | some buf =>
      let fileFullPath := pathByAppendingComponent c.filePath c.fatFileName
      if io.opens = false ∨ fileFullPath = [] then (false, c)
      else
        ((writeFatLoop buf io.counts []).1,
          { c with files := c.files.insert fileFullPath (writeFatLoop buf io.counts []).2 })

def setMaxTotalCacheSize (c : HTTPCache) (limit : Int) (io : FatIo) : HTTPCache :=
  let limit := if limit ≤ 0 then 0x7fffffffffffffff else limit
  let c := { c with limitTotalContentsSize := limit }
  if limit < c.totalContentsSize then
    ((c.purgeBySize (c.totalContentsSize - limit)).2.writeFATFile io).2
  else c

def verifyDigest (data : Bytes) : Bool :=
  decide (MD5_DIGESTSIZE < data.length)
    && MD5.checksum (data.drop MD5_DIGESTSIZE) == data.take MD5_DIGESTSIZE

/-- The hash of a null URL dereferences its null `StringImpl`.  An advance that is not positive
never ends the loop. -/
def deserializeFATData (data : Bytes) : Nat → Nat → Int → HTTPCache → Except Fault HTTPCache
  | 0, _, length, c => if 0 < length then .error .noProgress else .ok c
  | fuel + 1, off, length, c =>
    if length ≤ 0 then .ok c
    else do
      let (r, nullURL, read) ← HTTPCachedResource.deserialize data off
      let (p, c) := c.alloc r
      if c.disabled = false ∧ nullURL then .error .crash
      else if read ≤ 0 then .error .noProgress
      else deserializeFATData data fuel (off + read.toNat) (length - read) (c.addCachedResource p)

/-- The read of the whole file is one call: it returns `st_size` or the function gives up. -/
def readFATFile (c : HTTPCache) (io : FatIo) : Except Fault (Bool × HTTPCache) :=
  let fileFullPath := pathByAppendingComponent c.filePath c.fatFileName
  match c.files.lookup fileFullPath with
  | none => .ok (false, c)
  | some data =>
    if io.opens = false ∨ fileFullPath = [] ∨ io.stats = false then .ok (false, c)
    else if data.length ≤ headerSize then .ok (false, c)
    else if io.alloc = false ∨ io.counts.head? ≠ some (data.length : Int) then .ok (false, c)
    else if verifyDigest data = false then .ok (false, c.removeAll)
    else if load data MD5_DIGESTSIZE 4 ≠ some (toLE 4 CACHEFAT_FORMAT_VERSION) then
      .ok (false, c.removeAll)
    else do
      let number ← readWord data (MD5_DIGESTSIZE + 4) 4
      let c := { c with fileNumber := Int32.ofBitVec (BitVec.ofNat 32 number) }
      let c ← deserializeFATData data data.length headerSize (data.length - headerSize) c
      return (true, c)

theorem readFATFile_cases {c c' : HTTPCache} {io : FatIo} {b : Bool} (h : c.readFATFile io = .ok (b, c')) :
    (b = false ∧ (c' = c ∨ c' = c.removeAll)) ∨
      (b = true ∧ ∃ data number, c.files.lookup (pathByAppendingComponent c.filePath c.fatFileName) = some data ∧
        deserializeFATData data data.length headerSize (data.length - headerSize) { c with fileNumber := number }
          = .ok c') := by
  unfold readFATFile at h
  dsimp only at h
  split at h
  · obtain ⟨rfl, rfl⟩ := Prod.mk.inj (Except.ok.inj h)
    exact .inl ⟨rfl, .inl rfl⟩
  next data hdata =>
  split at h
  · obtain ⟨rfl, rfl⟩ := Prod.mk.inj (Except.ok.inj h)
    exact .inl ⟨rfl, .inl rfl⟩
  split at h
  · obtain ⟨rfl, rfl⟩ := Prod.mk.inj (Except.ok.inj h)
    exact .inl ⟨rfl, .inl rfl⟩
  split at h
  · obtain ⟨rfl, rfl⟩ := Prod.mk.inj (Except.ok.inj h)
    exact .inl ⟨rfl, .inl rfl⟩
  split at h
  · obtain ⟨rfl, rfl⟩ := Prod.mk.inj (Except.ok.inj h)
    exact .inl ⟨rfl, .inr rfl⟩
  split at h
  · obtain ⟨rfl, rfl⟩ := Prod.mk.inj (Except.ok.inj h)
    exact .inl ⟨rfl, .inr rfl⟩
  · obtain ⟨number, _, h⟩ := bind_ok h
    obtain ⟨c1, hload, h⟩ := bind_ok h
    obtain ⟨rfl, rfl⟩ := Prod.mk.inj (Except.ok.inj h)
    exact .inr ⟨rfl, data, _, hdata, hload⟩

/-! ## rules for eviction

What the removal of one entry and a change of a used flag preserve, a purge preserves. -/

theorem eraseIdx_drop {α : Type} (l : List α) (n : Nat) : (l.eraseIdx n).drop n = l.drop (n + 1) := by
  by_cases hn : n ≤ l.length
  · have hlen : (l.take n).length = n := List.length_take_of_le hn
    rw [List.eraseIdx_eq_take_drop_succ, List.drop_left' hlen]
  · rw [List.eraseIdx_of_length_le (by omega), List.drop_of_length_le (by omega),
      List.drop_of_length_le (by omega)]

theorem removeResourceByNumber_list (c : HTTPCache) (n : Nat) :
    (c.removeResourceByNumber n).resourceList = c.resourceList.eraseIdx n := by
  unfold removeResourceByNumber
  split
  · next h =>
    rw [List.eraseIdx_of_length_le (List.getElem?_eq_none_iff.mp h)]
  · rfl

/-! where a loop over the list stands: `rest` is what it has not seen -/

section
variable {c : HTTPCache} {p : Ptr} {rest : List Ptr} {num : Nat}

theorem getElem?_of_drop (hrest : p :: rest = c.resourceList.drop num) : c.resourceList[num]? = some p := by
  rw [← List.head?_drop, ← hrest]
  rfl

theorem lt_of_drop (hrest : p :: rest = c.resourceList.drop num) : num < c.resourceList.length :=
  (List.getElem?_eq_some_iff.mp (getElem?_of_drop hrest)).1

theorem drop_next (hrest : p :: rest = c.resourceList.drop num) : rest = c.resourceList.drop (num + 1) := by
  rw [← List.drop_drop, ← hrest]
  rfl

theorem drop_removed (hrest : p :: rest = c.resourceList.drop num) :
    rest = (c.removeResourceByNumber num).resourceList.drop num := by
  rw [removeResourceByNumber_list, eraseIdx_drop]
  exact drop_next hrest

theorem drop_ne (hnd : c.resourceList.Nodup) (hrest : p :: rest = c.resourceList.drop num) : ∀ q ∈ rest, q ≠ p := by
  rintro q hq rfl
  have hsuffix : (q :: rest).Nodup := by
    rw [hrest]
    exact hnd.sublist (List.drop_sublist ..)
  exact (List.nodup_cons.mp hsuffix).1 hq

end

section
variable {P : HTTPCache → Prop}
  (hrm : ∀ c n, n < c.resourceList.length → P c → P (c.removeResourceByNumber n))
include hrm

theorem purgeLoop_pres (size : Int) (rest : List Ptr) : ∀ (num : Nat) (purged : Int) (c : HTTPCache),
    rest = c.resourceList.drop num → P c → P (purgeLoop size rest num purged c).2 := by
  induction rest with
  | nil => intro num purged c _ h; exact h
  | cons p rest ih =>
    intro num purged c hrest h
    have hlen := lt_of_drop hrest
    rw [purgeLoop]
    split
    · exact ih _ _ _ (drop_next hrest) h
    · show P (if size < _ then _ else _ : Int × HTTPCache).2
      split
      · exact hrm c num hlen h
      · exact ih _ _ _ (drop_removed hrest) (hrm c num hlen h)

theorem purgeOldestLoop_pres (rest : List Ptr) : ∀ (num : Nat) (c : HTTPCache),
    rest = c.resourceList.drop num → P c → P (purgeOldestLoop rest num c).2 := by
  induction rest with
  | nil => intro num c _ h; exact h
  | cons p rest ih =>
    intro num c hrest h
    have hlen := lt_of_drop hrest
    rw [purgeOldestLoop]
    split
    · exact ih _ _ (drop_next hrest) h
    · exact hrm c num hlen h

theorem purgeOldest_pres {c : HTTPCache} (h : P c) : P c.purgeOldest.2 :=
  purgeOldestLoop_pres hrm c.resourceList 0 c rfl h

variable (hmark : ∀ c p, p ∈ c.resourceList → P c → P (c.setRes p ((c.res p).setUsed false)))
include hmark

omit hrm in
theorem clearUsed_pres (rest : List Ptr) : ∀ c : HTTPCache, (∀ p ∈ rest, p ∈ c.resourceList) →
    P c → P (clearUsed rest c) := by
  induction rest with
  | nil => intro c _ h; exact h
  | cons p rest ih =>
    intro c hmem h
    refine ih _ (fun q hq => hmem q (List.mem_cons_of_mem _ hq)) ?_
    exact hmark c p (hmem p List.mem_cons_self) h

theorem purgeBySize_pres {c : HTTPCache} (size : Int) (h : P c) : P (c.purgeBySize size).2 := by
  have h1 : P (c.purgeBySizeInternal size).2 := purgeLoop_pres hrm size _ 0 0 c rfl h
  unfold purgeBySize
  show P (if _ then _ else _ : Int × HTTPCache).2
  split
  · exact purgeLoop_pres hrm _ _ 0 0 _ rfl (clearUsed_pres hmark _ _ (fun _ h => h) h1)
  · exact h1

theorem makeSizeRoom_pres {c : HTTPCache} (len : Int) (h : P c) : P (c.makeSizeRoom len).2 := by
  unfold makeSizeRoom
  split
  · exact purgeBySize_pres hrm hmark len h
  · exact h

omit hmark in
theorem makeEntryRoom_pres {c : HTTPCache} (h : P c) : P c.makeEntryRoom.2 := by
  unfold makeEntryRoom
  split
  · exact purgeOldest_pres hrm h
  · exact h

theorem makeRoom_pres {c : HTTPCache} (len : Int) (h : P c) : P (c.makeRoom len).2 := by
  have hsize := makeSizeRoom_pres hrm hmark len h
  unfold makeRoom
  split
  · exact h
  · split
    · exact h
    · split
      · exact h
      · split
        · exact hsize
        · exact makeEntryRoom_pres hrm hsize

end

end HTTPCache

end

end Wkc
