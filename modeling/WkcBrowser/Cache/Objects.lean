import WkcBrowser.Cache.Steps

/-!
# Where the entries come from

What an operation leaves of the entries and of the waiting resources it found, and of the files the
entries keep their bodies in; and which resource it adds.

* `Kept`             some entries and waiting resources are still there, with their bodies;
* `Outcome`          an operation keeps what it finds and adds at most one resource;
* `step_outcome`     every operation of the manager does one of these.
-/

set_option linter.unusedSectionVars false

namespace Wkc
open Wkc.Core

section
variable [FilePeers]

namespace HTTPCache

def fatFullPath (c : HTTPCache) : WString := pathByAppendingComponent c.filePath c.fatFileName

/-- every entry has a file of its own, and none of them is the FAT file -/
structure Apart (c : HTTPCache) : Prop where
  entries : ∀ p ∈ c.resourceList, ∀ q ∈ c.resourceList, c.fileFullPath p = c.fileFullPath q → p = q
  fat : ∀ p ∈ c.resourceList, c.fileFullPath p ≠ c.fatFullPath

end HTTPCache

/-- The entries `l` of `c'` and the resources `v` are those of `c`, or of `w`, apart from their used
flags; the entries have their bodies still, unless they are kept in one of the files `lost`. -/
structure Kept (c : HTTPCache) (w : List Ptr) (c' : HTTPCache) (l v : List Ptr) (lost : List WString) :
    Prop where
  list : l.Sublist c.resourceList
  wait : v.Sublist w
  listed : ∀ q ∈ l, ∃ b, c'.res q = (c.res q).setUsed b
  waiting : ∀ q ∈ v, c'.res q = c.res q
  bodies : c.Apart → ∀ q ∈ l, c.fileFullPath q ∉ lost →
    c'.files.lookup (c.fileFullPath q) = c.files.lookup (c.fileFullPath q)
  filePath : c'.filePath = c.filePath
  fatFileName : c'.fatFileName = c.fatFileName

namespace Kept

variable {c c' c'' : HTTPCache} {w v v' l l' : List Ptr} {lost : List WString}

theorem refl (c : HTTPCache) (w : List Ptr) : Kept c w c c.resourceList w [] :=
  ⟨List.Sublist.refl _, List.Sublist.refl _, fun q _ => ⟨(c.res q).used, rfl⟩, fun _ _ => rfl,
    fun _ _ _ _ => rfl, rfl, rfl⟩

theorem path (h : Kept c w c' l v lost) {q : Ptr} (hq : q ∈ l) : c'.fileFullPath q = c.fileFullPath q := by
  obtain ⟨b, hb⟩ := h.listed q hq
  rw [HTTPCache.fileFullPath, h.filePath, hb]
  rfl

theorem apart (h : Kept c w c' c'.resourceList v lost) (ha : c.Apart) : c'.Apart where
  entries p hp q hq heq := by
    rw [h.path hp, h.path hq] at heq
    exact ha.entries p (h.list.subset hp) q (h.list.subset hq) heq
  fat p hp := by
    rw [h.path hp, HTTPCache.fatFullPath, h.filePath, h.fatFileName]
    exact ha.fat p (h.list.subset hp)

theorem trans (h : Kept c w c' c'.resourceList v []) (h' : Kept c' v c'' l v' lost) :
    Kept c w c'' l v' lost where
  list := h'.list.trans h.list
  wait := h'.wait.trans h.wait
  listed q hq := by
    obtain ⟨b, hb⟩ := h.listed q (h'.list.subset hq)
    obtain ⟨b', hb'⟩ := h'.listed q hq
    exact ⟨b', by rw [hb', hb]; rfl⟩
  waiting q hq := by rw [h'.waiting q hq, h.waiting q (h'.wait.subset hq)]
  bodies ha q hq hover := by
    have hq' := h'.list.subset hq
    have hlast := h'.bodies (h.apart ha) q hq
    rw [h.path hq'] at hlast
    rw [hlast hover, h.bodies ha q hq' List.not_mem_nil]
  filePath := h'.filePath.trans h.filePath
  fatFileName := h'.fatFileName.trans h.fatFileName

theorem sub (h : Kept c w c' l v lost) (hl : l'.Sublist l) (hv : v'.Sublist v) :
    Kept c w c' l' v' lost where
  list := hl.trans h.list
  wait := hv.trans h.wait
  listed q hq := h.listed q (hl.subset hq)
  waiting q hq := h.waiting q (hv.subset hq)
  bodies ha q hq := h.bodies ha q (hl.subset hq)
  filePath := h.filePath
  fatFileName := h.fatFileName

theorem widen (h : Kept c w c' l v []) (lost : List WString) : Kept c w c' l v lost where
  list := h.list
  wait := h.wait
  listed := h.listed
  waiting := h.waiting
  bodies ha q hq _ := h.bodies ha q hq List.not_mem_nil
  filePath := h.filePath
  fatFileName := h.fatFileName

theorem frame (h : Kept c w c' l v lost) {d : HTTPCache}
    (hres : ∀ q, q ∈ l ∨ q ∈ v → d.res q = c'.res q)
    (hfiles : c.Apart → ∀ q ∈ l, c.fileFullPath q ∉ lost →
      d.files.lookup (c.fileFullPath q) = c'.files.lookup (c.fileFullPath q))
    (hpath : d.filePath = c'.filePath) (hfat : d.fatFileName = c'.fatFileName) :
    Kept c w d l v lost where
  list := h.list
  wait := h.wait
  listed q hq := by
    rw [hres q (.inl hq)]
    exact h.listed q hq
  waiting q hq := by rw [hres q (.inr hq), h.waiting q hq]
  bodies ha q hq hover := by rw [hfiles ha q hq hover, h.bodies ha q hq hover]
  filePath := hpath.trans h.filePath
  fatFileName := hfat.trans h.fatFileName

end Kept

/-! ## the parts of the operations -/

section
variable {c : HTTPCache} {w : List Ptr}

theorem setRes_ne (c : HTTPCache) {p q : Ptr} (h : q ≠ p) (r : HTTPCachedResource) :
    (c.setRes p r).res q = c.res q := (c.core []).setRes_res_ne h r

theorem setRes_self (c : HTTPCache) (p : Ptr) (r : HTTPCachedResource) : (c.setRes p r).res p = r :=
  (c.core []).setRes_res_self p r

theorem ne_of_listed (hwf : (c.core w).WF) {p q : Ptr} (hp : p ∈ c.resourceList)
    (hq : q ∈ c.resourceList.erase p ∨ q ∈ w) : q ≠ p := by
  intro heq
  subst heq
  exact hq.elim (hwf.list_nodup.not_mem_erase) (hwf.disjoint q hp)

theorem lookup_unlink (ha : c.Apart) {p q : Ptr} (hp : p ∈ c.resourceList) (hq : q ∈ c.resourceList)
    (hne : q ≠ p) (files : Files) :
    (files.erase (c.fileFullPath p)).lookup (c.fileFullPath q) = files.lookup (c.fileFullPath q) := by
  apply AList.lookup_erase_ne
  intro heq
  exact hne (ha.entries q hq p hp heq)

theorem kept_remove (hwf : (c.core w).WF) {p : Ptr} (hp : p ∈ c.resourceList) :
    Kept c w (c.remove p) (c.resourceList.erase p) w [] := by
  have hself := (Kept.refl c w).sub (List.erase_sublist (l := c.resourceList) (a := p))
    (List.Sublist.refl w)
  refine hself.frame ?_ ?_ rfl rfl
  · intro q hq
    exact (c.core w).free_res_ne (ne_of_listed hwf hp hq)
  · intro ha q hq _
    exact lookup_unlink ha hp (List.mem_of_mem_erase hq) (ne_of_listed hwf hp (.inl hq)) _

theorem kept_detach (hwf : (c.core w).WF) {p : Ptr} (hp : p ∈ c.resourceList) {r : HTTPCachedResource}
    (hname : r.fileName = (c.res p).fileName) {d : HTTPCache} (hd : d = c.setRes p r ∨ d = c) :
    Kept c w (d.detach p) (d.detach p).resourceList w [] := by
  have hself := (Kept.refl c w).sub (List.erase_sublist (l := c.resourceList) (a := p))
    (List.Sublist.refl w)
  have hlist : (d.detach p).resourceList = d.resourceList.erase p :=
    congrArg Core.list (detach_core (w := []) d p)
  have hsame : d.resourceList = c.resourceList ∧ d.files = c.files ∧ d.filePath = c.filePath ∧
      d.fatFileName = c.fatFileName := by
    rcases hd with rfl | rfl <;> exact ⟨rfl, rfl, rfl, rfl⟩
  have hres : ∀ q, q ∈ c.resourceList.erase p ∨ q ∈ w → d.res q = c.res q := by
    intro q hq
    rcases hd with rfl | rfl
    · exact setRes_ne c (ne_of_listed hwf hp hq) r
    · rfl
  have hpath : d.fileFullPath p = c.fileFullPath p := by
    rcases hd with rfl | rfl
    · rw [HTTPCache.fileFullPath, setRes_self, hname]
      rfl
    · rfl
  rw [hlist, hsame.1]
  unfold HTTPCache.detach
  split
  · refine hself.frame hres ?_ hsame.2.2.1 hsame.2.2.2
    intro _ q _ _
    exact congrArg (AList.lookup (c.fileFullPath q)) hsame.2.1
  · refine hself.frame hres ?_ hsame.2.2.1 hsame.2.2.2
    intro ha q hq _
    show (d.files.erase (d.fileFullPath p)).lookup _ = _
    rw [hpath, hsame.2.1]
    exact lookup_unlink ha hp (List.mem_of_mem_erase hq) (ne_of_listed hwf hp (.inl hq)) _

theorem removeResourceByNumber_eq (hnd : c.resourceList.Nodup) {n : Nat} {p : Ptr}
    (hn : c.resourceList[n]? = some p) : c.removeResourceByNumber n = c.remove p := by
  unfold HTTPCache.removeResourceByNumber
  rw [hn]
  simp only [HTTPCache.remove, HTTPCache.removeResource, HTTPCache.unlink, HTTPCache.free,
    eraseIdx_eq_erase hnd hn]

/-- what a purge goes through: entries are lost, the others are as they were -/
def Evicted (w : List Ptr) (c c' : HTTPCache) : Prop :=
  (c'.core w).WF ∧ Kept c w c' c'.resourceList w []

theorem Evicted.evict (c' : HTTPCache) (n : Nat) (hn : n < c'.resourceList.length)
    (h : Evicted w c c') : Evicted w c (c'.removeResourceByNumber n) := by
  obtain ⟨hwf, hkept⟩ := h
  have hget : c'.resourceList[n]? = some c'.resourceList[n] := List.getElem?_eq_getElem hn
  have hmem : c'.resourceList[n] ∈ c'.resourceList := List.getElem_mem hn
  rw [removeResourceByNumber_eq hwf.list_nodup hget]
  have hmoves : Moves (fun _ _ => True) (c'.core w) ((c'.remove c'.resourceList[n]).core w) :=
    remove_moves hmem hwf
  exact ⟨hmoves.wf hwf, hkept.trans (kept_remove hwf hmem)⟩

theorem kept_mark (hwf : (c.core w).WF) {p : Ptr} (hp : p ∈ c.resourceList) (b : Bool) :
    Kept c w (c.setRes p ((c.res p).setUsed b)) c.resourceList w [] := by
  refine ⟨List.Sublist.refl _, List.Sublist.refl _, ?_, ?_, fun _ _ _ _ => rfl, rfl, rfl⟩
  · intro q _
    by_cases hq : q = p
    · exact ⟨b, by rw [hq, setRes_self]⟩
    · exact ⟨(c.res q).used, by rw [setRes_ne c hq]; rfl⟩
  · intro q hq
    apply setRes_ne
    intro heq
    subst heq
    exact hwf.disjoint q hp hq

theorem Evicted.mark (c' : HTTPCache) (p : Ptr) (hp : p ∈ c'.resourceList) (h : Evicted w c c') :
    Evicted w c (c'.setRes p ((c'.res p).setUsed false)) :=
  ⟨h.1.setRes (.inl hp) rfl, h.2.trans (kept_mark h.1 hp false)⟩

theorem Evicted.refl (hwf : (c.core w).WF) : Evicted w c c := ⟨hwf, Kept.refl c w⟩

theorem purgeBySize_evicted (hwf : (c.core w).WF) (size : Int) : Evicted w c (c.purgeBySize size).2 :=
  HTTPCache.purgeBySize_pres Evicted.evict Evicted.mark size (.refl hwf)

theorem purgeOldest_evicted (hwf : (c.core w).WF) : Evicted w c c.purgeOldest.2 :=
  HTTPCache.purgeOldest_pres Evicted.evict (.refl hwf)

theorem makeRoom_evicted (hwf : (c.core w).WF) (len : Int) : Evicted w c (c.makeRoom len).2 :=
  HTTPCache.makeRoom_pres Evicted.evict Evicted.mark len (.refl hwf)

theorem beforeWrite_evicted (hwf : (c.core w).WF) (p : Ptr) : Evicted w c (c.beforeWrite p) := by
  unfold HTTPCache.beforeWrite
  split
  · exact purgeBySize_evicted hwf _
  · exact .refl hwf

/-! ## writing -/

theorem writeFATFile_files (c : HTTPCache) (io : FatIo) : ∃ fs, (c.writeFATFile io).2 = { c with files := fs } ∧
    ∀ q, q ≠ c.fatFullPath → fs.lookup q = c.files.lookup q := by
  unfold HTTPCache.writeFATFile
  split
  · exact ⟨c.files, rfl, fun _ _ => rfl⟩
  · split
    · exact ⟨c.files, rfl, fun _ _ => rfl⟩
    · dsimp only
      split
      · exact ⟨c.files, rfl, fun _ _ => rfl⟩
      · exact ⟨_, rfl, fun q hq => AList.lookup_insert_ne hq⟩

theorem Kept.writeFAT {c' : HTTPCache} {l v : List Ptr} {lost : List WString}
    (h : Kept c w c' l v lost) (io : FatIo) : Kept c w (c'.writeFATFile io).2 l v lost := by
  obtain ⟨fs, heq, hfs⟩ := writeFATFile_files c' io
  rw [heq]
  refine h.frame (fun _ _ => rfl) ?_ rfl rfl
  intro ha q hq _
  apply hfs
  rw [HTTPCache.fatFullPath, h.filePath, h.fatFileName]
  exact ha.fat q (h.list.subset hq)

/-- the file of the next resource that is written -/
def HTTPCache.nextFullPath (c : HTTPCache) : WString :=
  pathByAppendingComponent c.filePath (HTTPCache.formatFileName c.fileNumber)

/-- the file that a try to write the next resource overwrites -/
def HTTPCache.touched (c : HTTPCache) (io : FileIo) : List WString :=
  if io.fopen c.nextFullPath then [c.nextFullPath] else []

theorem writeFile_files (r : HTTPCachedResource) (fn fp : WString) (io : FileIo) (files : Files) :
    (∃ fs, r.writeFile fn fp io files = (false, r, fs) ∧
      ∀ q, (io.fopen (pathByAppendingComponent fp fn) = true → q ≠ pathByAppendingComponent fp fn) →
        fs.lookup q = files.lookup q) ∨
    (∃ data, r.resourceData = some data ∧ io.fopen (pathByAppendingComponent fp fn) = true ∧
      (HTTPCachedResource.writeBody data io).1 = true ∧
      r.writeFile fn fp io files = (true, r.written data fn, files.insert
        (pathByAppendingComponent fp fn) (HTTPCachedResource.writeBody data io).2)) := by
  cases hdata : r.resourceData with
  | none => exact .inl ⟨files, by rw [HTTPCachedResource.writeFile, hdata], fun _ _ => rfl⟩
  | some data =>
    simp only [HTTPCachedResource.writeFile, hdata]
    split
    · exact .inl ⟨_, rfl, fun _ _ => rfl⟩
    · next hopen =>
      have hopen : io.fopen (pathByAppendingComponent fp fn) = true := by simpa using hopen
      split
      · next hbody => exact .inr ⟨data, rfl, hopen, hbody, rfl⟩
      · exact .inl ⟨_, rfl, fun q hq => AList.lookup_insert_ne (hq hopen)⟩

theorem write_outcome {p : Ptr} {rest : List Ptr} (hwf : (c.core (p :: rest)).WF) (io : FileIo) :
    ((c.write p io).1 = false ∧ Kept c (p :: rest) ((c.write p io).2.free p)
      ((c.write p io).2.free p).resourceList rest (c.touched io)) ∨
    (∃ data, (c.write p io).1 = true ∧ (c.res p).resourceData = some data ∧
      io.fopen c.nextFullPath = true ∧
      (HTTPCachedResource.writeBody data io).1 = true ∧
      (c.write p io).2.resourceList = (c.beforeWrite p).resourceList ++ [p] ∧
      (c.write p io).2.res p = (c.res p).written data (HTTPCache.formatFileName c.fileNumber) ∧
      (c.write p io).2.files.lookup c.nextFullPath = some (HTTPCachedResource.writeBody data io).2 ∧
      Kept c (p :: rest) (c.write p io).2 (c.beforeWrite p).resourceList rest (c.touched io)) := by
  obtain ⟨hwf1, hkept⟩ := beforeWrite_evicted hwf p
  have hpurged := (beforeWrite_shrinks (G := fun _ _ => True) hwf p).2
  have hname : (c.beforeWrite p).makeFileName.1 = HTTPCache.formatFileName c.fileNumber :=
    congrArg HTTPCache.formatFileName hpurged.fileNumber
  have hres : (c.beforeWrite p).res p = c.res p := hkept.waiting p List.mem_cons_self
  have hpath : pathByAppendingComponent (c.beforeWrite p).filePath (c.beforeWrite p).makeFileName.1
      = c.nextFullPath := by rw [hkept.filePath, hname]; rfl
  have hsub : Kept (c.beforeWrite p) (p :: rest) (c.beforeWrite p) (c.beforeWrite p).resourceList rest
      (c.touched io) :=
    ((Kept.refl _ _).sub (List.Sublist.refl _) (List.sublist_cons_self p rest)).widen _
  have hother : ∀ q, q ∈ (c.beforeWrite p).resourceList ∨ q ∈ rest → q ≠ p := by
    intro q hq heq
    subst heq
    rcases hq with hq | hq
    · exact hwf1.disjoint q hq List.mem_cons_self
    · exact (List.nodup_cons.mp hwf1.pending_nodup).1 hq
  rcases writeFile_files ((c.beforeWrite p).res p) (c.beforeWrite p).makeFileName.1
    (c.beforeWrite p).filePath io (c.beforeWrite p).files with ⟨fs, hfile, hfs⟩ | ⟨data, hdata, hopen, hbody, hfile⟩
  · rw [hpath] at hfs
    rw [write_eq, hfile]
    refine .inl ⟨rfl, hkept.trans (hsub.frame ?_ ?_ rfl rfl)⟩
    · intro q hq
      have hne := hother q hq
      rw [← setRes_ne (c.beforeWrite p) hne ((c.beforeWrite p).res p)]
      exact (((c.beforeWrite p).setRes p ((c.beforeWrite p).res p)).core []).free_res_ne hne
    · intro _ q _ hover
      apply hfs
      intro hopen
      rw [HTTPCache.touched, if_pos hopen] at hover
      exact List.ne_of_not_mem_cons hover
  · rw [hpath, hname] at hfile
    rw [hpath] at hopen
    rw [hres] at hdata hfile
    rw [write_eq, hres, hname, hfile]
    refine .inr ⟨data, rfl, hdata, hopen, hbody, rfl, setRes_self .., AList.lookup_insert _, ?_⟩
    refine hkept.trans (hsub.frame ?_ ?_ rfl rfl)
    · intro q hq
      exact setRes_ne _ (hother q hq) _
    · intro _ q _ hover
      rw [HTTPCache.touched, if_pos hopen] at hover
      exact AList.lookup_insert_ne (List.ne_of_not_mem_cons hover)

end

/-! ## the operations -/

namespace Manager

/-- the resource that a response for the URL updates -/
def target (s : Manager) (url : KURL) : Option Ptr :=
  match s.cache.resourceForURL url with
  | some p => some p
  | none => (s.findPending url).bind (fun n => s.writeCacheList[n]?)

/-- what an operation can do to the entries and the waiting resources -/
inductive Outcome (s : Manager) (op : Op) (s' : Manager) : Prop
  /-- nothing is added; a response that could be kept was for no known URL -/
  | kept : (∀ a, op = .addHTTPCache a → a.refused = false → a.noStore = false →
        s.target a.url = none) →
      Kept s.cache s.writeCacheList s'.cache s'.cache.resourceList s'.writeCacheList [] →
      Outcome s op s'
  /-- a waiting resource could not be written -/
  | failed {io : FileIo} {fat : FatIo} {p : Ptr} : op = .writeCacheTimerCallback false io fat →
      s.writeCacheList = p :: s'.writeCacheList →
      Kept s.cache s.writeCacheList s'.cache s'.cache.resourceList s'.writeCacheList
        (s.cache.touched io) →
      Outcome s op s'
  | written {io : FileIo} {fat : FatIo} {p : Ptr} {data : SharedBuffer} {l : List Ptr} :
      op = .writeCacheTimerCallback false io fat →
      s.writeCacheList = p :: s'.writeCacheList →
      (s.cache.res p).resourceData = some data →
      io.fopen s.cache.nextFullPath = true →
      (HTTPCachedResource.writeBody data io).1 = true →
      s'.cache.resourceList = l ++ [p] →
      s'.cache.res p = (s.cache.res p).written data (HTTPCache.formatFileName s.cache.fileNumber) →
      (s.cache.nextFullPath ≠ s.cache.fatFullPath →
        s'.cache.files.lookup s.cache.nextFullPath
          = some (HTTPCachedResource.writeBody data io).2) →
      Kept s.cache s.writeCacheList s'.cache l s'.writeCacheList (s.cache.touched io) →
      Outcome s op s'
  | updated {a : Response} {data : SharedBuffer} {p : Ptr} {v : List Ptr} :
      op = .addHTTPCache a → a.refused = false → a.noStore = false → a.resourceData = some data →
      s.target a.url = some p →
      s'.writeCacheList = v ++ [p] →
      s'.cache.res p = a.onto (s.cache.res p) data →
      Kept s.cache s.writeCacheList s'.cache s'.cache.resourceList v [] →
      Outcome s op s'
  | created {a : Response} {data : SharedBuffer} :
      op = .addHTTPCache a → a.refused = false → a.noStore = false → a.resourceData = some data →
      s.target a.url = none →
      s'.writeCacheList = s.writeCacheList ++ [s.cache.next] →
      s'.cache.res s.cache.next = a.make data →
      Kept s.cache s.writeCacheList s'.cache s'.cache.resourceList s.writeCacheList [] →
      Outcome s op s'

section
variable {s : Manager}

theorem kept_alloc {c c' : HTTPCache} {w l v : List Ptr} (h : Kept c w c' l v [])
    (hfresh : ∀ q, q ∈ l ∨ q ∈ v → q < c'.next) (r : HTTPCachedResource) :
    Kept c w (c'.alloc r).2 l v [] := by
  refine h.frame ?_ (fun _ _ _ _ => rfl) rfl rfl
  intro q hq
  exact ((c'.core []).alloc_res r q).trans (if_neg (Nat.ne_of_lt (hfresh q hq)))

theorem kept_repend {n : Nat} {p : Ptr} (hwf : s.core.WF) (hget : s.writeCacheList[n]? = some p)
    (r : HTTPCachedResource) :
    Kept s.cache s.writeCacheList (s.cache.setRes p r) s.cache.resourceList
      (s.writeCacheList.eraseIdx n) [] := by
  have hmem : p ∈ s.writeCacheList := List.mem_of_getElem? hget
  have hnd : s.writeCacheList.Nodup := hwf.pending_nodup
  have hsub := (Kept.refl s.cache s.writeCacheList).sub (List.Sublist.refl _)
    (List.eraseIdx_sublist s.writeCacheList n)
  refine hsub.frame ?_ (fun _ _ _ _ => rfl) rfl rfl
  intro q hq
  apply setRes_ne
  intro heq
  subst heq
  rcases hq with hq | hq
  · exact hwf.disjoint q hq hmem
  · rw [eraseIdx_eq_erase hnd hget] at hq
    exact hnd.not_mem_erase hq

theorem addHTTPCache_outcome (a : Response) (hwf : s.core.WF) :
    Outcome s (.addHTTPCache a) (s.addHTTPCache a).2 := by
  have hstored : a.noStore = true → ∀ b, Op.addHTTPCache a = .addHTTPCache b → b.refused = false →
      b.noStore = false → s.target b.url = none := by
    intro hn b hb _ hn'
    cases hb
    rw [hn] at hn'
    cases hn'
  have hspec := s.addHTTPCache_spec a
  generalize s.addHTTPCache a = u at hspec
  cases hspec with
  | refused hr =>
    refine .kept ?_ (Kept.refl _ _)
    intro b hb hr' _
    cases hb
    rw [hr] at hr'
    cases hr'
  | removed _ hp hn => exact .kept (hstored hn) (kept_remove hwf (hwf.index _ _ hp).1)
  | @relisted p data hr hd hp hn =>
    have hmem : p ∈ s.cache.resourceList := (hwf.index _ _ hp).1
    have hdetach : ∀ c : HTTPCache, (c.detach p).res p = c.res p := by
      intro c
      unfold HTTPCache.detach
      split <;> rfl
    refine .updated rfl hr hn hd ?_ rfl ?_
      (kept_detach hwf hmem (r := a.onto (s.cache.res p) data) rfl (.inl rfl))
    · rw [target, hp]
    · exact (hdetach _).trans (setRes_self ..)
  | dropped _ _ _ hn =>
    exact .kept (hstored hn) ((Kept.refl _ _).sub (List.Sublist.refl _) (List.eraseIdx_sublist ..))
  | @repended n p data hr hd hp hf hget hn =>
    refine .updated rfl hr hn hd ?_ rfl (setRes_self ..) (kept_repend hwf hget _)
    rw [target, hp, hf]
    exact hget
  | unknown _ _ _ hn => exact .kept (hstored hn) (Kept.refl _ _)
  | full _ _ hp hf _ _ =>
    refine .kept ?_ (makeRoom_evicted hwf _).2
    intro b hb _ _
    cases hb
    rw [target, hp, hf]
    rfl
  | @created data hr hd hp hf hn _ =>
    obtain ⟨hwf1, hkept⟩ := makeRoom_evicted hwf (toInt32 data.size)
    have hnext : (s.cache.makeRoom (toInt32 data.size)).2.next = s.cache.next :=
      (makeRoom_shrinks (G := fun _ _ => True) hwf _).2.next
    refine .created rfl hr hn hd ?_ ?_ ?_ (kept_alloc hkept ?_ _)
    · rw [target, hp, hf]
      rfl
    · exact congrArg (fun q => s.writeCacheList ++ [q]) hnext
    · exact (((s.cache.makeRoom (toInt32 data.size)).2.core []).alloc_res (a.make data)
        s.cache.next).trans (if_pos hnext.symm)
    · intro q hq
      exact hwf1.fresh q (hwf1.live q hq)

/-- the cache after a try to write the resource -/
def afterWrite (c : HTTPCache) (p : Ptr) (io : FileIo) : HTTPCache :=
  if (c.write p io).1 = false then (c.write p io).2.free p else (c.write p io).2

theorem writeCacheTimerCallback_eq {p : Ptr} {rest : List Ptr} (hw : s.writeCacheList = p :: rest)
    (io : FileIo) (fat : FatIo) :
    s.writeCacheTimerCallback false io fat = {
      cache := if rest = [] then ((afterWrite s.cache p io).writeFATFile fat).2
        else afterWrite s.cache p io
      writeCacheList := rest
      writeCacheTimer := decide (rest ≠ []) } := by
  by_cases hrest : rest = [] <;> simp [writeCacheTimerCallback, afterWrite, hw, hrest]

theorem writeCacheTimerCallback_idle {busy : Bool} (io : FileIo) (fat : FatIo)
    (h : s.writeCacheList = [] ∨ busy = true) :
    (s.writeCacheTimerCallback busy io fat).cache = s.cache ∧
    (s.writeCacheTimerCallback busy io fat).writeCacheList = s.writeCacheList := by
  cases hw : s.writeCacheList with
  | nil => simp [writeCacheTimerCallback, hw]
  | cons p rest =>
    have hbusy : busy = true := h.resolve_left (by rw [hw]; exact List.cons_ne_nil p rest)
    simp [writeCacheTimerCallback, hw, hbusy]

theorem firing_outcome {p : Ptr} {rest : List Ptr} (hw : s.writeCacheList = p :: rest) (io : FileIo)
    (fat : FatIo) (hwf : s.core.WF) :
    Outcome s (.writeCacheTimerCallback false io fat) (s.writeCacheTimerCallback false io fat) := by
  have hwf' : (s.cache.core (p :: rest)).WF := hw ▸ hwf
  rw [writeCacheTimerCallback_eq hw]
  rcases write_outcome hwf' io with ⟨hres, hkept⟩ | ⟨data, hres, hdata, hne, hbody, hlist, hp, hfile, hkept⟩
  · rw [← hw] at hkept
    have hafter : afterWrite s.cache p io = (s.cache.write p io).2.free p := by simp [afterWrite, hres]
    rw [hafter]
    refine .failed rfl hw ?_
    show Kept _ _ (if _ then _ else _) (HTTPCache.resourceList (if _ then _ else _)) rest _
    split
    · obtain ⟨fs, heq, _⟩ := writeFATFile_files ((s.cache.write p io).2.free p) fat
      have hkept' := hkept.writeFAT fat
      rw [heq] at hkept' ⊢
      exact hkept'
    · exact hkept
  · rw [← hw] at hkept
    have hafter : afterWrite s.cache p io = (s.cache.write p io).2 := by simp [afterWrite, hres]
    rw [hafter]
    obtain ⟨fs, heq, hfs⟩ := writeFATFile_files (s.cache.write p io).2 fat
    have hkept' := hkept.writeFAT fat
    rw [heq] at hkept' ⊢
    by_cases hrest : rest = []
    · rw [if_pos hrest]
      refine .written rfl hw hdata hne hbody hlist hp ?_ hkept'
      intro hfat
      refine (hfs _ ?_).trans hfile
      rw [HTTPCache.fatFullPath, hkept.filePath, hkept.fatFileName]
      exact hfat
    · rw [if_neg hrest]
      exact .written rfl hw hdata hne hbody hlist hp (fun _ => hfile) hkept

theorem writeCacheTimerCallback_outcome (busy : Bool) (io : FileIo) (fat : FatIo) (hwf : s.core.WF) :
    Outcome s (.writeCacheTimerCallback busy io fat) (s.writeCacheTimerCallback busy io fat) := by
  have hidle : s.writeCacheList = [] ∨ busy = true →
      Outcome s (.writeCacheTimerCallback busy io fat) (s.writeCacheTimerCallback busy io fat) := by
    intro h
    obtain ⟨hcache, hlist⟩ := writeCacheTimerCallback_idle io fat h
    refine .kept (fun _ hop => nomatch hop) ?_
    rw [hcache, hlist]
    exact Kept.refl _ _
  cases hw : s.writeCacheList with
  | nil => exact hidle (.inl hw)
  | cons p rest =>
    cases busy with
    | true => exact hidle (.inr rfl)
    | false => exact firing_outcome hw io fat hwf

theorem updateCacheResource_kept (a : Response) (data : SharedBuffer) (hwf : s.core.WF) :
    Kept s.cache s.writeCacheList (s.updateCacheResource a data).2.cache
      (s.updateCacheResource a data).2.cache.resourceList
      (s.updateCacheResource a data).2.writeCacheList [] := by
  have hspec := s.updateCacheResource_spec a data
  generalize s.updateCacheResource a data = u at hspec
  cases hspec with
  | removed hp _ => exact kept_remove hwf (hwf.index _ _ hp).1
  | @relisted p hp _ =>
    exact kept_detach hwf (hwf.index _ _ hp).1 (r := a.onto (s.cache.res p) data) rfl (.inl rfl)
  | unknown _ _ => exact Kept.refl _ _
  | dropped _ _ _ => exact (Kept.refl _ _).sub (List.Sublist.refl _) (List.eraseIdx_sublist ..)
  | repended _ _ hget _ => exact kept_repend hwf hget _

theorem kept_dropPending (hwf : s.core.WF) : Kept s.cache s.writeCacheList s.dropPending.cache
    s.cache.resourceList [] [] := by
  have hsub := (Kept.refl s.cache s.writeCacheList).sub (List.Sublist.refl _) (List.nil_sublist _)
  refine hsub.frame ?_ (fun _ _ _ _ => rfl) rfl rfl
  intro q hq
  have hnot : q ∉ s.writeCacheList := hwf.disjoint q (hq.resolve_right List.not_mem_nil)
  show ((if q ∈ s.writeCacheList then none else s.cache.heap q).getD default) = _
  rw [if_neg hnot]
  rfl

theorem kept_removeAll {c : HTTPCache} {w : List Ptr} (hwf : (c.core w).WF) :
    Kept c w c.removeAll c.removeAll.resourceList w [] := by
  have hcore := removeAll_core (w := w) c
  have hlist : c.removeAll.resourceList = [] := congrArg Core.list hcore
  have hsub := (Kept.refl c w).sub (List.nil_sublist _) (List.Sublist.refl w)
  rw [hlist]
  refine hsub.frame ?_ (fun _ q hq => absurd hq List.not_mem_nil) (removeAll_paths c).1
    (removeAll_paths c).2
  intro q hq
  have hnot : q ∉ c.resourceList := fun hl => hwf.disjoint q hl (hq.resolve_left List.not_mem_nil)
  have hheap : c.removeAll.heap = fun p => if p ∈ c.resourceList then none else c.heap p :=
    congrArg Core.heap hcore
  show (c.removeAll.heap q).getD default = _
  rw [hheap]
  dsimp only
  rw [if_neg hnot]
  rfl

theorem kept_read {p : Ptr} (hwf : s.core.WF) (hp : p ∈ s.cache.resourceList) (io : FileIo) :
    Kept s.cache s.writeCacheList (s.cache.read p io).2.2 s.cache.resourceList s.writeCacheList [] := by
  have hmark : ∃ b, ((s.cache.res p).readFile s.cache.filePath io s.cache.files).2.2
      = (s.cache.res p).setUsed b := by
    unfold HTTPCachedResource.readFile
    dsimp only
    split
    · exact ⟨(s.cache.res p).used, rfl⟩
    · split
      · exact ⟨(s.cache.res p).used, rfl⟩
      · exact ⟨true, rfl⟩
  obtain ⟨b, hb⟩ := hmark
  have hread : (s.cache.read p io).2.2 = s.cache.setRes p ((s.cache.res p).setUsed b) := by
    rw [← hb]; rfl
  rw [hread]
  exact kept_mark hwf hp b

theorem step_kept (hwf : s.core.WF) (op : Op) (hadd : ∀ a, op ≠ .addHTTPCache a)
    (htimer : ∀ busy io fat, op ≠ .writeCacheTimerCallback busy io fat) :
    Kept s.cache s.writeCacheList (s.step op).cache (s.step op).cache.resourceList
      (s.step op).writeCacheList [] := by
  cases op with
  | addHTTPCache a => exact absurd rfl (hadd a)
  | writeCacheTimerCallback busy io fat => exact absurd rfl (htimer busy io fat)
  | updateCacheResource a data => exact updateCacheResource_kept a data hwf
  | createHTTPCachedResource a data =>
    obtain ⟨hwf1, hkept⟩ := makeRoom_evicted hwf (toInt32 data.size)
    show Kept _ _ (s.cache.createHTTPCachedResource a.url data a.response a.noCache
      a.mustRevalidate Double.quietNaN a.maxAge a.now).2 (s.cache.createHTTPCachedResource a.url data
      a.response a.noCache a.mustRevalidate Double.quietNaN a.maxAge a.now).2.resourceList _ _
    rw [createHTTPCachedResource_eq]
    split
    · exact hkept
    · refine kept_alloc hkept ?_ _
      intro q hq
      exact hwf1.fresh q (hwf1.live q hq)
  | remove url =>
    dsimp only [step]
    split
    · next p hp => exact kept_remove hwf (hwf.index _ _ hp).1
    · exact Kept.refl _ _
  | detach url =>
    dsimp only [step]
    split
    · next p hp => exact kept_detach hwf (hwf.index _ _ hp).1 rfl (.inr rfl)
    · exact Kept.refl _ _
  | purgeBySize size => exact (purgeBySize_evicted hwf size).2
  | purgeOldest => exact (purgeOldest_evicted hwf).2
  | setMaxTotalCacheSize limit fat =>
    dsimp only [step, HTTPCache.setMaxTotalCacheSize]
    generalize (if limit ≤ 0 then _ else limit : Int) = m
    split
    · have hlimit : Kept s.cache s.writeCacheList { s.cache with limitTotalContentsSize := m }
          s.cache.resourceList s.writeCacheList [] :=
        (Kept.refl _ _).frame (fun _ _ => rfl) (fun _ _ _ _ => rfl) rfl rfl
      have hpurge := (purgeBySize_evicted (c := { s.cache with limitTotalContentsSize := m }) hwf
        (s.cache.totalContentsSize - m)).2
      have hkept := (hlimit.trans hpurge).writeFAT fat
      obtain ⟨fs, heq, _⟩ := writeFATFile_files
        ({ s.cache with limitTotalContentsSize := m }.purgeBySize (s.cache.totalContentsSize - m)).2 fat
      rw [heq] at hkept ⊢
      exact hkept
    · exact (Kept.refl _ _).frame (fun _ _ => rfl) (fun _ _ _ _ => rfl) rfl rfl
  | read url io =>
    dsimp only [step]
    split
    · next p hp => exact kept_read hwf (hwf.index _ _ hp).1 io
    · exact Kept.refl _ _
  | removeAll => exact kept_removeAll hwf
  | clearHTTPCache wr rd =>
    show Kept _ _ (s.clearHTTPCache wr rd).cache (s.clearHTTPCache wr rd).cache.resourceList
      (s.clearHTTPCache wr rd).writeCacheList _
    cases h : s.cache.disabled with
    | true =>
      rw [clearHTTPCache, if_pos h]
      exact Kept.refl _ _
    | false =>
      have hwf' : (s.dropPending.cache.core []).WF := hwf.dropPending
      have hkept := ((kept_dropPending hwf).trans (kept_removeAll hwf')).writeFAT wr
      obtain ⟨fs, heq, _⟩ := writeFATFile_files s.dropPending.cache.removeAll wr
      rw [clearHTTPCache_eq wr rd h]
      rw [heq] at hkept ⊢
      exact hkept
  | resetHTTPCache =>
    have hsub := (Kept.refl s.cache s.writeCacheList).sub (List.nil_sublist _) (List.nil_sublist _)
    refine hsub.frame ?_ (fun _ q hq => absurd hq List.not_mem_nil) rfl rfl
    intro q hq
    exact absurd (hq.elim id id) List.not_mem_nil

/-- **Every operation keeps what it finds and adds at most one resource.** -/
theorem step_outcome (hwf : s.core.WF) (op : Op) : Outcome s op (s.step op) := by
  by_cases hadd : ∃ a, op = .addHTTPCache a
  · obtain ⟨a, rfl⟩ := hadd
    exact addHTTPCache_outcome a hwf
  · by_cases htimer : ∃ busy io fat, op = .writeCacheTimerCallback busy io fat
    · obtain ⟨busy, io, fat, rfl⟩ := htimer
      exact writeCacheTimerCallback_outcome busy io fat hwf
    · refine .kept (fun a h => absurd ⟨a, h⟩ hadd) (step_kept hwf op ?_ ?_)
      · intro a h
        exact hadd ⟨a, h⟩
      · intro busy io fat h
        exact htimer ⟨busy, io, fat, h⟩

end

end Manager

end

end Wkc
