import WkcBrowser.Cache.Index

/-!
# The FAT file as a round trip

A cache is written with `writeFATFile` and read into an empty one with `readFATFile`.  `Restored c e`
says that `e` is `c` again, as far as the file can tell; the index is compared by position, since
the objects are new.

* `loadEntries_spec`        what loading entries into a cache makes of it;
* `read_back`               the file number, the entries, the index and `m_totalResourceSize` come
                            back, and `m_totalContentsSize` comes back as the sum of the lengths;
* `fat_round_trip_iff`      so the round trip restores the cache exactly if its total was that sum.
-/

set_option linter.unusedSectionVars false

namespace Wkc
open Wkc.Core

section
variable [FilePeers]

namespace HTTPCache

/-! ## loading entries -/

/-- the state of a cache into which `rs` have been loaded -/
structure Loaded (c e : HTTPCache) (rs : List HTTPCachedResource) : Prop where
  next : e.next = c.next + rs.length
  list : e.resourceList = c.resourceList ++ List.range' c.next rs.length
  old : ∀ p : Nat, p < c.next → e.res p = c.res p
  new : ∀ i r, rs[i]? = some r → e.res (c.next + i) = r
  totalResourceSize : e.totalResourceSize
    = c.totalResourceSize + (rs.map HTTPCachedResource.resourceSize).sum
  totalContentsSize : e.totalContentsSize
    = c.totalContentsSize + (rs.map (fun r => r.contentLength.toInt)).sum
  fileNumber : e.fileNumber = c.fileNumber
  disabled : e.disabled = c.disabled

theorem loadEntry_enabled {c : HTTPCache} (h : c.disabled = false) (r : HTTPCachedResource) :
    (c.loadEntry r).core [] = (c.core []).load r := by
  rcases loadEntry_core c r [] with hcore | hcore
  · exfalso
    have hlist := congrArg Core.list hcore
    change (c.loadEntry r).resourceList = c.resourceList at hlist
    have happ : (c.loadEntry r).resourceList = c.resourceList ++ [c.next] := by
      unfold loadEntry addCachedResource
      rw [if_neg (by show ¬ c.disabled = true; rw [h]; exact Bool.noConfusion)]
      rfl
    rw [happ] at hlist
    have hlen := congrArg List.length hlist
    rw [List.length_append] at hlen
    simp at hlen
  · exact hcore

theorem loadEntry_frame (c : HTTPCache) (r : HTTPCachedResource) :
    (c.loadEntry r).fileNumber = c.fileNumber ∧ (c.loadEntry r).disabled = c.disabled := by
  unfold loadEntry addCachedResource
  split <;> exact ⟨rfl, rfl⟩

theorem loadEntries_spec (rs : List HTTPCachedResource) : ∀ c : HTTPCache, c.disabled = false →
    Loaded c (c.loadEntries rs) rs := by
  induction rs with
  | nil =>
    intro c _
    refine ⟨rfl, (List.append_nil _).symm, fun _ _ => rfl, ?_, (Int.add_zero _).symm,
      (Int.add_zero _).symm, rfl, rfl⟩
    intro i r h
    cases h
  | cons r rs ih =>
    intro c hen
    have hcore := loadEntry_enabled hen r
    obtain ⟨hnum, hdis⟩ := loadEntry_frame c r
    have h := ih (c.loadEntry r) (hdis.trans hen)
    have hnext : (c.loadEntry r).next = c.next + 1 := congrArg Core.next hcore
    have hlist : (c.loadEntry r).resourceList = c.resourceList ++ [c.next] :=
      congrArg Core.list hcore
    have hres : ∀ q, (c.loadEntry r).res q = if q = c.next then r else c.res q := fun q =>
      (congrArg (fun k => Core.res k q) hcore).trans ((c.core []).load_res r q)
    have hself : ((c.core []).alloc r).res c.next = r :=
      ((c.core []).alloc_res r c.next).trans (if_pos rfl)
    have hrs : (c.loadEntry r).totalResourceSize = c.totalResourceSize + r.resourceSize := by
      refine (congrArg Core.totalResourceSize hcore).trans ?_
      show c.totalResourceSize + (((c.core []).alloc r).res c.next).resourceSize = _
      rw [hself]
    have hcl : (c.loadEntry r).totalContentsSize = c.totalContentsSize + r.contentLength.toInt := by
      refine (congrArg Core.totalContentsSize hcore).trans ?_
      show c.totalContentsSize + (((c.core []).alloc r).res c.next).contentLength.toInt = _
      rw [hself]
    show Loaded c ((c.loadEntry r).loadEntries rs) (r :: rs)
    refine ⟨?_, ?_, ?_, ?_, ?_, ?_, h.fileNumber.trans hnum, h.disabled.trans hdis⟩
    · rw [h.next, hnext, List.length_cons]; omega
    · rw [h.list, hlist, hnext, List.length_cons, List.range'_succ, List.append_assoc]
      rfl
    · intro p hp
      rw [h.old p (by omega), hres, if_neg (Nat.ne_of_lt hp)]
    · intro i q hq
      cases i with
      | zero =>
        obtain rfl := Option.some.inj hq
        rw [Nat.add_zero, h.old c.next (by omega), hres, if_pos rfl]
      | succ i =>
        have hidx : c.next + (i + 1) = (c.loadEntry r).next + i := by omega
        rw [hidx]
        exact h.new i q hq
    · rw [h.totalResourceSize, hrs, List.map_cons, List.sum_cons]; omega
    · rw [h.totalContentsSize, hcl, List.map_cons, List.sum_cons]; omega

/-! ## what is restored -/

/-- an entry as it comes back: what is not in the file is reset -/
def stored (r : HTTPCachedResource) : HTTPCachedResource :=
  { r with resourceData := none, used := false, httpequivflags := 0 }

structure Restored (c e : HTTPCache) : Prop where
  fileNumber : e.fileNumber = c.fileNumber
  entries : e.resourceList.map e.res = c.resourceList.map (fun p => stored (c.res p))
  index : ∀ u i, i < c.resourceList.length →
    (e.resources u = e.resourceList[i]? ↔ c.resources u = c.resourceList[i]?)
  indexNone : ∀ u, e.resources u = none ↔ c.resources u = none
  totalResourceSize : e.totalResourceSize = c.totalResourceSize
  totalContentsSize : e.totalContentsSize = c.totalContentsSize

/-- the index is exactly the list by URL -/
structure Agrees (c : HTTPCache) : Prop where
  nodup : c.resourceList.Nodup
  index : ∀ u p, c.resources u = some p ↔ p ∈ c.resourceList ∧ c.url p = u

theorem Agrees.unique {c : HTTPCache} (h : c.Agrees) {p q : Ptr} (hp : p ∈ c.resourceList)
    (hq : q ∈ c.resourceList) (hu : c.url p = c.url q) : p = q := by
  have h1 := (h.index (c.url q) p).mpr ⟨hp, hu⟩
  have h2 := (h.index (c.url q) q).mpr ⟨hq, rfl⟩
  exact Option.some.inj (h1.symm.trans h2)

theorem Agrees.same_index {c e : HTTPCache} (hc : c.Agrees) (he : e.Agrees)
    (hurl : e.resourceList.map e.url = c.resourceList.map c.url) (u : WString) :
    (∀ i, i < c.resourceList.length →
      (e.resources u = e.resourceList[i]? ↔ c.resources u = c.resourceList[i]?)) ∧
    (e.resources u = none ↔ c.resources u = none) := by
  have hlen : e.resourceList.length = c.resourceList.length := by
    have h := congrArg List.length hurl
    rwa [List.length_map, List.length_map] at h
  have hget : ∀ (d : HTTPCache), d.Agrees → ∀ i (hi : i < d.resourceList.length),
      d.resources u = d.resourceList[i]? ↔ (d.resourceList.map d.url)[i]? = some u := by
    intro d hd i hi
    rw [List.getElem?_map, List.getElem?_eq_getElem hi, hd.index, Option.map_some, Option.some.injEq]
    exact and_iff_right (List.getElem_mem hi)
  have hnone : ∀ (d : HTTPCache), d.Agrees →
      (d.resources u = none ↔ u ∉ d.resourceList.map d.url) := by
    intro d hd
    constructor
    · intro h hmem
      obtain ⟨p, hp, hpu⟩ := List.mem_map.mp hmem
      have := (hd.index u p).mpr ⟨hp, hpu⟩
      rw [h] at this
      cases this
    · intro h
      cases hr : d.resources u with
      | none => rfl
      | some p =>
        obtain ⟨hp, hpu⟩ := (hd.index u p).mp hr
        exact absurd (hpu ▸ List.mem_map_of_mem hp) h
  refine ⟨?_, ?_⟩
  · intro i hi
    rw [hget e he i (by omega), hget c hc i hi, hurl]
  · rw [hnone e he, hnone c hc, hurl]

theorem agrees_of_indexed {c : HTTPCache} {w : List Ptr} (h : (c.core w).Indexed) : c.Agrees := by
  refine ⟨h.wf.list_nodup, ?_⟩
  intro u p
  constructor
  · exact h.wf.index u p
  · rintro ⟨hp, rfl⟩
    exact h.complete p hp

/-! ## the round trip -/

section
variable {c c1 e : HTTPCache} {wr rd : FatIo}

/-- the file peers store the whole buffer, in as many calls as they like -/
structure Stores (c : HTTPCache) (wr : FatIo) : Prop where
  alloc : wr.alloc = true
  opens : wr.opens = true
  path : pathByAppendingComponent c.filePath c.fatFileName ≠ []
  positive : ∀ n ∈ wr.counts, 0 < n
  enough : c.totalSize ≤ wr.counts.sum

theorem writeFatLoop_stores (counts : List Int) : ∀ (buffer file : Bytes), (∀ n ∈ counts, 0 < n) →
    (buffer.length : Int) ≤ counts.sum → (writeFatLoop buffer counts file).1 = true := by
  induction counts with
  | nil =>
    intro buffer file _ hsum
    cases buffer with
    | nil => rfl
    | cons b bs =>
      rw [List.length_cons, List.sum_nil] at hsum
      omega
  | cons n counts ih =>
    intro buffer file hpos hsum
    cases buffer with
    | nil => rfl
    | cons b bs =>
      have hn := hpos n List.mem_cons_self
      rw [writeFatLoop, if_neg (by omega)]
      refine ih _ _ (fun m hm => hpos m (List.mem_cons_of_mem _ hm)) ?_
      have hrest : 0 ≤ counts.sum :=
        List.sum_nonneg (fun m hm => Int.le_of_lt (hpos m (List.mem_cons_of_mem _ hm)))
      rw [List.sum_cons] at hsum
      rw [List.length_drop]
      omega

theorem Sized.fatBytes_length_eq (hs : c.Sized) : (c.fatBytes.length : Int) = c.totalSize := by
  rw [fatBytes_length, hs.totalSize_eq]

theorem Stores.written (hw : c.Stores wr) (hs : c.Sized) (hfit : c.totalSize < 2 ^ 31) :
    (c.writeFATFile wr).1 = true := by
  have hlen := hs.fatBytes_length_eq
  unfold writeFATFile
  rw [hw.alloc, hw.opens, if_neg (by simp; omega), hs.fatData_eq]
  dsimp only
  rw [if_neg (by simpa using hw.path)]
  exact writeFatLoop_stores _ _ _ hw.positive (by rw [hlen]; exact hw.enough)

theorem Stores.written_eq (hw : c.Stores wr) (hs : c.Sized) (hfit : c.totalSize < 2 ^ 31) :
    c.writeFATFile wr = (true, (c.writeFATFile wr).2) := Prod.ext (hw.written hs hfit) rfl

/-- what the new process finds: an empty, enabled cache and the file that was written -/
structure Finds (e c1 : HTTPCache) (rd : FatIo) (data : Bytes) : Prop where
  fresh : e.Fresh
  enabled : e.disabled = false
  file : e.files.lookup (pathByAppendingComponent e.filePath e.fatFileName)
    = c1.files.lookup (pathByAppendingComponent c1.filePath c1.fatFileName)
  readable : e.Readable rd data

theorem loaded_entries {rs : List HTTPCachedResource} {e' : HTTPCache} (he : e.Fresh)
    (h : Loaded e e' rs) : e'.resourceList.map e'.res = rs := by
  rw [h.list, he.resourceList, List.nil_append]
  apply List.ext_getElem?
  intro i
  rw [List.getElem?_map]
  cases hi : rs[i]? with
  | none =>
    have hlen := List.getElem?_eq_none_iff.mp hi
    rw [List.getElem?_eq_none (by rw [List.length_range']; omega)]
    rfl
  | some r =>
    obtain ⟨hlt, _⟩ := List.getElem?_eq_some_iff.mp hi
    rw [List.getElem?_range' hlt, Option.map_some, Nat.one_mul, h.new i r hi]

theorem stored_eq_reread {r : HTTPCachedResource} (h : r.resourceSize = r.recordSize) :
    r.reread = stored r := by
  show ({ stored r with resourceSize := r.recordSize } : HTTPCachedResource) = stored r
  rw [← h]
  rfl

/-- **Reading back what was written**: everything but `m_totalContentsSize` is as it was, and that
is the sum of the lengths. -/
theorem read_back (hs : c.Sized) (ha : c.Agrees) (hne : c.resourceList ≠ [])
    (hwf : ∀ p ∈ c.resourceList, ∀ s ∈ (c.res p).strings, wellFormed s = true)
    (hwr : c.writeFATFile wr = (true, c1)) (hfind : Finds e c1 rd c.fatBytes) :
    ∃ e', e.readFATFile rd = .ok (true, e')
      ∧ e'.totalContentsSize = (c.resourceList.map c.contentLength).sum
      ∧ (e'.totalContentsSize = c.totalContentsSize → Restored c e') := by
  obtain ⟨hbytes, hlen⟩ := hs.writeFATFile_true hwr
  have hurl : ∀ p ∈ c.resourceList, wellFormed (c.url p) = true :=
    fun p hp => hwf p hp _ List.mem_cons_self
  rcases readFATFile_fatBytes rd (hfind.file.trans hbytes) hlen hurl with ⟨hnot, _⟩ | ⟨rs, hrs, hread⟩
  · exact absurd ⟨hne, hfind.readable⟩ hnot
  have hexact := hrs.exact hwf
  have hstored : rs = c.resourceList.map (fun p => stored (c.res p)) := by
    rw [hexact]
    exact List.map_congr_left (fun p hp => stored_eq_reread (hs.entry p hp))
  have hload := loadEntries_spec rs ({ e with fileNumber := c.fileNumber } : HTTPCache) hfind.enabled
  have hfresh : ({ e with fileNumber := c.fileNumber } : HTTPCache).Fresh :=
    ⟨hfind.fresh.resources, hfind.fresh.resourceList, hfind.fresh.totalResourceSize,
      hfind.fresh.totalContentsSize, hfind.fresh.heap⟩
  have hentries := loaded_entries hfresh hload
  have hcontents : (({ e with fileNumber := c.fileNumber } : HTTPCache).loadEntries rs).totalContentsSize
      = (c.resourceList.map c.contentLength).sum := by
    rw [hload.totalContentsSize, hfresh.totalContentsSize, Int.zero_add, hstored, List.map_map]
    rfl
  have hresources : (({ e with fileNumber := c.fileNumber } : HTTPCache).loadEntries rs).totalResourceSize
      = c.totalResourceSize := by
    rw [hload.totalResourceSize, hfresh.totalResourceSize, Int.zero_add, hstored, List.map_map,
      hs.total]
    rfl
  refine ⟨_, hread, hcontents, ?_⟩
  intro htotal
  have hurls : (({ e with fileNumber := c.fileNumber } : HTTPCache).loadEntries rs).resourceList.map
      (({ e with fileNumber := c.fileNumber } : HTTPCache).loadEntries rs).url
      = c.resourceList.map c.url := by
    rw [← hrs.url]
    nth_rewrite 3 [← hentries]
    rw [List.map_map]
    rfl
  have hnd : (rs.map HTTPCachedResource.url).Nodup := by
    rw [hrs.url]
    exact (List.nodup_map_iff_inj_on ha.nodup).mpr (fun p hp q hq => ha.unique hp hq)
  have htext : ∀ r ∈ rs, wellFormed r.url = true := by
    intro r hr
    rw [hstored] at hr
    obtain ⟨p, hp, rfl⟩ := List.mem_map.mp hr
    exact hurl p hp
  have hagree := agrees_of_indexed (Indexed.loadEntries rs (Manager.fresh_indexed hfresh)
    (fun r _ => by rw [hfresh.resources]) htext hnd)
  have hindex := ha.same_index hagree hurls
  exact ⟨hload.fileNumber, hentries.trans hstored, fun u => (hindex u).1, fun u => (hindex u).2,
    hresources, htotal⟩

/-- **The round trip of the FAT file restores the cache exactly if its `m_totalContentsSize` is the
sum of the lengths in its list.** -/
theorem fat_round_trip_iff (hs : c.Sized) (ha : c.Agrees) (hne : c.resourceList ≠ [])
    (hwf : ∀ p ∈ c.resourceList, ∀ s ∈ (c.res p).strings, wellFormed s = true)
    (hfit : c.totalSize < 2 ^ 31) (hw : c.Stores wr)
    (hfind : Finds e (c.writeFATFile wr).2 rd c.fatBytes) :
    ((c.writeFATFile wr).1 = true ∧ ∃ e', e.readFATFile rd = .ok (true, e') ∧ Restored c e')
      ↔ c.totalContentsSize = (c.resourceList.map c.contentLength).sum := by
  have hwritten := hw.written hs hfit
  obtain ⟨e', hread, hsum, hrest⟩ := read_back hs ha hne hwf (hw.written_eq hs hfit) hfind
  constructor
  · rintro ⟨_, e2, hread2, hrest2⟩
    rw [hread] at hread2
    obtain ⟨-, rfl⟩ := Prod.mk.inj (Except.ok.inj hread2)
    rw [← hrest2.totalContentsSize, hsum]
  · intro htotal
    exact ⟨hwritten, e', hread, hrest (hsum.trans htotal.symm)⟩

end

end HTTPCache

end

namespace HTTPCache

/-! a cache with one entry, and one whose entry has been replaced by a longer one -/

open Sample Manager

def io (n : Nat) : FatIo := ⟨true, true, true, [n]⟩

def onePage : Manager := Runs.run step {} [got (page 1) byte, tick byte]

def longerPage : Manager := Runs.run step onePage [got (page 1) bytes2, tick bytes2]

theorem onePage_reachable : Reachable onePage :=
  .step (tick byte) (.step (got (page 1) byte) (.fresh (c := {}) ⟨rfl, rfl, rfl, rfl, rfl⟩))

theorem longerPage_reachable : Reachable longerPage :=
  .step (tick bytes2) (.step (got (page 1) bytes2) onePage_reachable)

theorem finds_written {c : HTTPCache} (hs : c.Sized) (hpath : c.filePath = DEFAULT_FILEPATH)
    (hname : c.fatFileName = DEFAULT_FAT_FILENAME) (hsize : c.totalSize = 136) :
    Finds { files := (c.writeFATFile (io 136)).2.files } (c.writeFATFile (io 136)).2 (io 136)
      c.fatBytes := by
  have hlen := hs.fatBytes_length_eq
  rw [hsize] at hlen
  have hframe : (c.writeFATFile (io 136)).2.filePath = c.filePath ∧
      (c.writeFATFile (io 136)).2.fatFileName = c.fatFileName := by
    unfold writeFATFile
    split
    · exact ⟨rfl, rfl⟩
    · split
      · exact ⟨rfl, rfl⟩
      · dsimp only
        split <;> exact ⟨rfl, rfl⟩
  have hfull : pathByAppendingComponent DEFAULT_FILEPATH DEFAULT_FAT_FILENAME ≠ [] := by decide
  refine ⟨⟨rfl, rfl, rfl, rfl, rfl⟩, rfl, ?_, rfl, rfl, rfl, ?_, hfull⟩
  · rw [hframe.1, hframe.2, hpath, hname]
  · rw [hlen]; rfl

theorem stores_once {c : HTTPCache} (hpath : c.filePath = DEFAULT_FILEPATH)
    (hname : c.fatFileName = DEFAULT_FAT_FILENAME) (hsize : c.totalSize = 136) :
    c.Stores (io 136) := by
  refine ⟨rfl, rfl, ?_, ?_, ?_⟩
  · rw [hpath, hname]; decide
  · intro n hn
    rw [List.mem_singleton.mp hn]
    decide
  · rw [hsize]; decide

theorem fat_round_trip_iff_page : ∃ e', ({ files := (onePage.cache.writeFATFile (io 136)).2.files } :
    HTTPCache).readFATFile (io 136) = .ok (true, e') ∧ Restored onePage.cache e' := by
  have hinv := onePage_reachable.inv
  have hs : onePage.cache.Sized := hinv.1.sized
  have hpath : onePage.cache.filePath = DEFAULT_FILEPATH := by decide +kernel
  have hname : onePage.cache.fatFileName = DEFAULT_FAT_FILENAME := by decide +kernel
  have hsize : onePage.cache.totalSize = 136 := by decide +kernel
  have hlist : onePage.cache.resourceList = [0] := by decide +kernel
  have htext : ∀ s ∈ (onePage.cache.res 0).strings, wellFormed s = true := by decide +kernel
  refine ((fat_round_trip_iff hs (agrees_of_indexed hinv.2) ?_ ?_ ?_
    (stores_once hpath hname hsize) (finds_written hs hpath hname hsize)).mpr ?_).2
  · rw [hlist]; exact List.cons_ne_nil _ _
  · intro p hp
    rw [hlist] at hp
    rw [List.mem_singleton.mp hp]
    exact htext
  · rw [hsize]; decide
  · decide +kernel

/-- the total 1 is written, the total 2 is read -/
theorem fat_round_trip_drifts : Reachable longerPage ∧ longerPage.cache.resourceList ≠ [] ∧
    (∀ p ∈ longerPage.cache.resourceList, ∀ s ∈ (longerPage.cache.res p).strings,
      wellFormed s = true) ∧ longerPage.cache.Sized ∧ longerPage.cache.totalSize < 2 ^ 31 ∧
    ¬ ∃ e', ({ files := (longerPage.cache.writeFATFile (io 136)).2.files } : HTTPCache).readFATFile
      (io 136) = .ok (true, e') ∧ Restored longerPage.cache e' := by
  have hinv := longerPage_reachable.inv
  have hs : longerPage.cache.Sized := hinv.1.sized
  have hpath : longerPage.cache.filePath = DEFAULT_FILEPATH := by decide +kernel
  have hname : longerPage.cache.fatFileName = DEFAULT_FAT_FILENAME := by decide +kernel
  have hsize : longerPage.cache.totalSize = 136 := by decide +kernel
  have hlist : longerPage.cache.resourceList = [0] := by decide +kernel
  have htext : ∀ p ∈ longerPage.cache.resourceList, ∀ s ∈ (longerPage.cache.res p).strings,
      wellFormed s = true := by
    rw [hlist]
    decide +kernel
  have hne : longerPage.cache.resourceList ≠ [] := by rw [hlist]; exact List.cons_ne_nil _ _
  have hfit : longerPage.cache.totalSize < 2 ^ 31 := by rw [hsize]; decide
  have hwritten := (stores_once hpath hname hsize).written_eq hs hfit
  refine ⟨longerPage_reachable, hne, htext, hs, hfit, ?_⟩
  rintro ⟨e, hread, hrest⟩
  obtain ⟨e', hread', hsum, _⟩ := read_back hs (agrees_of_indexed hinv.2) hne htext
    hwritten (finds_written hs hpath hname hsize)
  rw [hread'] at hread
  obtain ⟨-, rfl⟩ := Prod.mk.inj (Except.ok.inj hread)
  have hdrift : longerPage.cache.totalContentsSize
      ≠ (longerPage.cache.resourceList.map longerPage.cache.contentLength).sum := by decide +kernel
  exact hdrift (hrest.totalContentsSize.symm.trans hsum)

end HTTPCache

end Wkc
