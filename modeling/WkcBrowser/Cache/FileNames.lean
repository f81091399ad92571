import WkcBrowser.Cache.Index
import WkcBrowser.Cache.Objects
import WkcBrowser.Cache.RoundTrip

/-!
# The names of the body files

`makeFileName` takes the next number; the number is kept in the FAT file, and a new process goes on from the one it
reads there.

* `formatFileName_injective`   different numbers give different names;
* `Numbered`                   every entry has a name of its own, from a number that was used;
* `step_fileNumber`            what an operation makes of the number;
* `Numbering`                  runs and restarts, with the names that were made since `removeAll`;
* `bodies_apart`               no two entries share a file, and none loses it while it is listed.
-/

set_option linter.unusedSectionVars false

namespace Wkc
open Wkc.Core

section
variable [FilePeers]

namespace HTTPCache

/-! ## names and numbers -/

/-- the number that a text of digits is -/
def numberOf (digits : WString) : Nat := digits.foldl (fun v c => 10 * v + (c.toNat - 0x30)) 0

theorem digit_toNat {n : Nat} (h : n < 10) : (UInt16.ofNat (0x30 + n)).toNat = 0x30 + n := ofNat16 (by omega)

theorem numberOf_decimal (w : Nat) : ∀ n, n < 10 ^ w → numberOf (decimal w n) = n := by
  induction w with
  | zero =>
    intro n hn
    obtain rfl : n = 0 := by omega
    rfl
  | succ w ih =>
    intro n hn
    rw [decimal]
    split
    · next hsmall =>
      show 10 * 0 + ((UInt16.ofNat (0x30 + n)).toNat - 0x30) = n
      rw [digit_toNat hsmall]
      omega
    · have hhead := ih (n / 10) (by rw [Nat.pow_succ] at hn; omega)
      unfold numberOf at hhead ⊢
      rw [List.foldl_append, hhead]
      show 10 * (n / 10) + ((UInt16.ofNat (0x30 + n % 10)).toNat - 0x30) = n
      rw [digit_toNat (Nat.mod_lt n (by omega))]
      omega

theorem numberOf_zeros (k : Nat) (digits : WString) :
    numberOf (List.replicate k 0x30 ++ digits) = numberOf digits := by
  induction k with
  | zero => rfl
  | succ k ih => exact ih

theorem formatFileName_nonneg {n : Int32} (hn : 0 ≤ n.toInt) :
    ∃ digits, formatFileName n = digits ++ CACHE_SUFFIX ∧ (numberOf digits : Int) = n.toInt := by
  have hsmall : n.toInt.natAbs < 10 ^ 10 := by
    have hlt := n.toInt_lt
    omega
  refine ⟨List.replicate (8 - (decimal 10 n.toInt.natAbs).length) 0x30 ++ decimal 10 n.toInt.natAbs, ?_, ?_⟩
  · unfold formatFileName
    dsimp only
    rw [if_neg (by omega)]
  · rw [numberOf_zeros, numberOf_decimal 10 _ hsmall]
    omega

theorem formatFileName_injective {m n : Int32} (hm : 0 ≤ m.toInt) (hn : 0 ≤ n.toInt)
    (h : formatFileName m = formatFileName n) : m = n := by
  obtain ⟨a, ha, hma⟩ := formatFileName_nonneg hm
  obtain ⟨b, hb, hnb⟩ := formatFileName_nonneg hn
  rw [ha, hb] at h
  obtain rfl := List.append_cancel_right h
  exact Int32.toInt_inj.mp (hma.symm.trans hnb)

theorem decimal_ascii (w : Nat) : ∀ n, ∀ c ∈ decimal w n, c.toNat < 0x80 := by
  induction w with
  | zero =>
    intro n c hc
    cases hc
  | succ w ih =>
    intro n c hc
    rw [decimal] at hc
    split at hc
    · next hsmall =>
      rw [List.mem_singleton.mp hc, digit_toNat hsmall]
      omega
    · rcases List.mem_append.mp hc with hc | hc
      · exact ih _ c hc
      · rw [List.mem_singleton.mp hc, digit_toNat (Nat.mod_lt n (by omega))]
        omega

theorem formatFileName_ascii (n : Int32) : ∀ c ∈ formatFileName n, c.toNat < 0x80 := by
  have hall : CACHE_SUFFIX.all (fun c => decide (c.toNat < 0x80)) = true := by decide
  have hsuffix : ∀ c ∈ CACHE_SUFFIX, c.toNat < 0x80 := fun c hc => of_decide_eq_true (List.all_eq_true.mp hall c hc)
  have hdigits : ∀ k, ∀ c ∈ List.replicate k 0x30 ++ decimal 10 n.toInt.natAbs, c.toNat < 0x80 := by
    intro k c hc
    rcases List.mem_append.mp hc with hc | hc
    · rw [List.eq_of_mem_replicate hc]
      decide
    · exact decimal_ascii 10 _ c hc
  intro c hc
  unfold formatFileName at hc
  dsimp only at hc
  split at hc
  · rcases List.mem_append.mp hc with hc | hc
    · rcases List.mem_cons.mp hc with rfl | hc
      · decide
      · exact hdigits _ c hc
    · exact hsuffix c hc
  · rcases List.mem_append.mp hc with hc | hc
    · exact hdigits _ c hc
    · exact hsuffix c hc

theorem formatFileName_ne_fat {n : Int32} (hn : 0 ≤ n.toInt) : formatFileName n ≠ DEFAULT_FAT_FILENAME := by
  obtain ⟨digits, hdigits, _⟩ := formatFileName_nonneg hn
  intro heq
  rw [hdigits] at heq
  have hlast : some (0x66 : UInt16) = some 0x74 := by
    rw [← show DEFAULT_FAT_FILENAME.getLast? = some 0x74 by decide, ← heq, List.getLast?_append]
    rfl
  exact absurd hlast (by decide)

theorem path_injective (hpeers : FilePeers.Injective) {path a b : WString} (h : pathByAppendingComponent path a ≠ [])
    (heq : pathByAppendingComponent path a = pathByAppendingComponent path b) : a = b := by
  unfold pathByAppendingComponent at h heq
  cases ha : wkcFilePathByAppendingComponentPeer path a with
  | none =>
    rw [ha] at h
    exact absurd rfl h
  | some full =>
    rw [ha] at h heq
    cases hb : wkcFilePathByAppendingComponentPeer path b with
    | none =>
      rw [hb] at heq
      exact absurd heq h
    | some full' =>
      rw [hb] at heq
      obtain rfl : full = full' := heq
      exact hpeers path a b full ha hb

/-! ## entries with names of their own -/

def fileNames (c : HTTPCache) : List WString := c.resourceList.map (fun p => (c.res p).fileName)

/-- the number of a name is below the next one, and the entries were written where their names say -/
structure Numbered (c : HTTPCache) : Prop where
  number : ∀ p ∈ c.resourceList, ∃ k : Int32, 0 ≤ k.toInt ∧ k.toInt < c.fileNumber.toInt ∧
    (c.res p).fileName = formatFileName k
  unique : c.fileNames.Nodup
  fits : ∀ p ∈ c.resourceList, c.fileFullPath p ≠ []

variable {c c' : HTTPCache} {w l v : List Ptr} {lost : List WString}

theorem Numbered.nil (h : c.resourceList = []) : c.Numbered where
  number p hp := by
    rw [h] at hp
    cases hp
  unique := by
    rw [fileNames, h]
    exact List.nodup_nil
  fits p hp := by
    rw [h] at hp
    cases hp

theorem Numbered.same_name (h : c.Numbered) {p q : Ptr} (hp : p ∈ c.resourceList) (hq : q ∈ c.resourceList)
    (heq : (c.res p).fileName = (c.res q).fileName) : p = q :=
  List.inj_on_of_nodup_map h.unique hp hq heq

theorem Numbered.apart (h : c.Numbered) (hpeers : FilePeers.Injective) (hfat : c.fatFileName = DEFAULT_FAT_FILENAME) : c.Apart where
  entries p hp q hq heq := h.same_name hp hq (path_injective hpeers (h.fits p hp) heq)
  fat p hp heq := by
    obtain ⟨k, hk, _, hname⟩ := h.number p hp
    have hsame := path_injective hpeers (h.fits p hp) heq
    rw [hname, hfat] at hsame
    exact formatFileName_ne_fat hk hsame

theorem kept_name (hkept : Kept c w c' l v lost) {q : Ptr} (hq : q ∈ l) :
    (c'.res q).fileName = (c.res q).fileName := by
  obtain ⟨b, hb⟩ := hkept.listed q hq
  rw [hb]
  rfl

theorem Numbered.kept (h : c.Numbered) (hkept : Kept c w c' c'.resourceList v lost)
    (hnumber : c.fileNumber.toInt ≤ c'.fileNumber.toInt) : c'.Numbered where
  number p hp := by
    obtain ⟨k, hk, hless, hname⟩ := h.number p (hkept.list.subset hp)
    exact ⟨k, hk, by omega, (kept_name hkept hp).trans hname⟩
  unique := by
    have hnames : c'.fileNames = c'.resourceList.map (fun p => (c.res p).fileName) :=
      List.map_congr_left (fun p hp => kept_name hkept hp)
    rw [hnames]
    exact h.unique.sublist (hkept.list.map _)
  fits p hp := by
    rw [hkept.path hp]
    exact h.fits p (hkept.list.subset hp)

theorem Numbered.written (h : c.Numbered) {p : Ptr} (hkept : Kept c w c' l v lost)
    (hlist : c'.resourceList = l ++ [p]) (hname : (c'.res p).fileName = formatFileName c.fileNumber)
    (hfits : c.nextFullPath ≠ [])
    (hpos : 0 ≤ c.fileNumber.toInt) (hnumber : c'.fileNumber.toInt = c.fileNumber.toInt + 1) : c'.Numbered where
  number q hq := by
    rw [hlist] at hq
    rcases List.mem_append.mp hq with hq | hq
    · obtain ⟨k, hk, hless, hold⟩ := h.number q (hkept.list.subset hq)
      exact ⟨k, hk, by omega, (kept_name hkept hq).trans hold⟩
    · rw [List.mem_singleton.mp hq]
      exact ⟨c.fileNumber, hpos, by omega, hname⟩
  unique := by
    have hnames : c'.fileNames = l.map (fun q => (c.res q).fileName) ++ [formatFileName c.fileNumber] := by
      rw [fileNames, hlist, List.map_append, List.map_singleton, hname]
      congr 1
      exact List.map_congr_left (fun q hq => kept_name hkept hq)
    rw [hnames]
    refine List.nodup_append.mpr ⟨h.unique.sublist (hkept.list.map _), List.nodup_singleton _, ?_⟩
    intro a ha b hb heq
    obtain ⟨q, hq, rfl⟩ := List.mem_map.mp ha
    obtain ⟨k, hk, hless, hold⟩ := h.number q (hkept.list.subset hq)
    rw [List.mem_singleton.mp hb, hold] at heq
    -- the number is not below itself
    rw [formatFileName_injective hk hpos heq] at hless
    exact absurd hless (Int.lt_irrefl _)
  fits q hq := by
    rw [hlist] at hq
    rcases List.mem_append.mp hq with hq | hq
    · rw [hkept.path hq]
      exact h.fits q (hkept.list.subset hq)
    · rw [List.mem_singleton.mp hq, fileFullPath, hkept.filePath, hname]
      exact hfits

/-! ## the number -/

theorem writeFATFile_fileNumber (c : HTTPCache) (io : FatIo) : (c.writeFATFile io).2.fileNumber = c.fileNumber := by
  obtain ⟨fs, heq, _⟩ := writeFATFile_files c io
  rw [heq]

theorem detach_fileNumber (c : HTTPCache) (p : Ptr) : (c.detach p).fileNumber = c.fileNumber := by
  unfold detach
  split <;> rfl

theorem removeAll_fileNumber (c : HTTPCache) : c.removeAll.fileNumber = 0 := by
  unfold removeAll
  dsimp only
  split <;> rfl

theorem makeRoom_fileNumber (hwf : (c.core w).WF) (len : Int) : (c.makeRoom len).2.fileNumber = c.fileNumber :=
  (makeRoom_shrinks (G := fun _ _ => True) hwf len).2.fileNumber

theorem makeFileName_number (c : HTTPCache) : c.makeFileName.2.fileNumber =
    if c.fileNumber = Int32.maxValue then 0 else c.fileNumber + 1 := rfl

theorem makeFileName_next (h : c.fileNumber.toInt < 0x7fffffff) (hpos : 0 ≤ c.fileNumber.toInt) :
    c.makeFileName.2.fileNumber.toInt = c.fileNumber.toInt + 1 := by
  have hne : c.fileNumber ≠ Int32.maxValue := by
    intro heq
    rw [heq] at h
    exact absurd h (by decide)
  rw [makeFileName_number, if_neg hne, Int32.toInt_add]
  show (c.fileNumber.toInt + 1).bmod (2 ^ 32) = _
  rw [Int.bmod_eq_of_le (by omega) (by omega)]

theorem write_fileNumber {p : Ptr} (hwf : (c.core w).WF) (io : FileIo) :
    (c.write p io).2.fileNumber = c.makeFileName.2.fileNumber := by
  have hbefore := (beforeWrite_shrinks (G := fun _ _ => True) hwf p).2.fileNumber
  have hnext : (c.beforeWrite p).makeFileName.2.fileNumber = c.makeFileName.2.fileNumber := by
    rw [makeFileName_number, makeFileName_number, hbefore]
  rw [write_eq]
  split <;> exact hnext

/-! ## reading the FAT file -/

theorem loadEntries_frame (rs : List HTTPCachedResource) : ∀ c : HTTPCache,
    (c.loadEntries rs).filePath = c.filePath ∧ (c.loadEntries rs).fatFileName = c.fatFileName ∧
      (c.loadEntries rs).fileNumber = c.fileNumber ∧
      (c.disabled = true → (c.loadEntries rs).resourceList = c.resourceList) := by
  induction rs with
  | nil => exact fun c => ⟨rfl, rfl, rfl, fun _ => rfl⟩
  | cons r rs ih =>
    intro c
    have hentry : (c.loadEntry r).filePath = c.filePath ∧ (c.loadEntry r).fatFileName = c.fatFileName ∧
        (c.loadEntry r).fileNumber = c.fileNumber ∧ (c.loadEntry r).disabled = c.disabled ∧
        (c.disabled = true → (c.loadEntry r).resourceList = c.resourceList) := by
      unfold loadEntry addCachedResource
      split
      · exact ⟨rfl, rfl, rfl, rfl, fun _ => rfl⟩
      · next henabled => exact ⟨rfl, rfl, rfl, rfl, fun hdisabled => absurd hdisabled henabled⟩
    obtain ⟨hpath, hname, hnumber, hdisabled, hlist⟩ := hentry
    obtain ⟨hpaths, hnames, hnumbers, hlists⟩ := ih (c.loadEntry r)
    refine ⟨hpaths.trans hpath, hnames.trans hname, hnumbers.trans hnumber, fun hd => ?_⟩
    exact (hlists (hdisabled.trans hd)).trans (hlist hd)

theorem Numbered.name_wellFormed (h : c.Numbered) {p : Ptr} (hp : p ∈ c.resourceList) :
    wellFormed (c.res p).fileName = true := by
  obtain ⟨k, _, _, hname⟩ := h.number p hp
  rw [hname]
  exact wellFormed_of_ascii _ (formatFileName_ascii k)

theorem Numbered.loaded (h : c.Numbered) (hfresh : c'.Fresh) (hnumber : c'.fileNumber = c.fileNumber)
    (hpath : c'.filePath = c.filePath) {rs : List HTTPCachedResource} (hrs : Reread c c.resourceList rs) :
    (c'.loadEntries rs).Numbered := by
  obtain ⟨hpaths, _, hnumbers, hlist⟩ := loadEntries_frame rs c'
  rcases Bool.eq_false_or_eq_true c'.disabled with hdisabled | henabled
  · exact .nil ((hlist hdisabled).trans hfresh.resourceList)
  · have hentries := loaded_entries hfresh (loadEntries_spec rs c' henabled)
    have hnames : (c'.loadEntries rs).fileNames = c.fileNames := by
      have hread := hrs.fileName (fun p hp => h.name_wellFormed hp)
      rw [← hentries, List.map_map] at hread
      exact hread
    have hold : ∀ p ∈ (c'.loadEntries rs).resourceList, ∃ q ∈ c.resourceList,
        (c.res q).fileName = ((c'.loadEntries rs).res p).fileName := by
      intro p hp
      have hmem : ((c'.loadEntries rs).res p).fileName ∈ (c'.loadEntries rs).fileNames := List.mem_map_of_mem hp
      rw [hnames] at hmem
      exact List.mem_map.mp hmem
    refine ⟨?_, ?_, ?_⟩
    · intro p hp
      obtain ⟨q, hq, hname⟩ := hold p hp
      obtain ⟨k, hk, hless, heq⟩ := h.number q hq
      rw [hnumbers, hnumber]
      exact ⟨k, hk, hless, hname.symm.trans heq⟩
    · rw [hnames]
      exact h.unique
    · intro p hp
      obtain ⟨q, hq, hname⟩ := hold p hp
      have hfits := h.fits q hq
      rw [fileFullPath, hname] at hfits
      rw [fileFullPath, hpaths, hpath]
      exact hfits

theorem readFATFile_refused {io : FatIo} (h : c.readFATFile io = .ok (false, c')) : c' = c ∨ c' = c.removeAll := by
  rcases readFATFile_cases h with ⟨-, hc⟩ | ⟨htrue, -⟩
  · exact hc
  · cases htrue

/-- what the constructor leaves, whatever the settings and the files -/
structure New (c : HTTPCache) : Prop where
  fresh : c.Fresh
  fileNumber : c.fileNumber = 0
  fatFileName : c.fatFileName = DEFAULT_FAT_FILENAME

theorem New.removeAll (h : c.New) : c.removeAll.New := by
  have hcore := removeAll_core (w := []) c
  have hheap : c.removeAll.heap = fun p => if p ∈ c.resourceList then none else c.heap p := congrArg Core.heap hcore
  refine ⟨⟨congrArg Core.index hcore, congrArg Core.list hcore, congrArg Core.totalResourceSize hcore,
    congrArg Core.totalContentsSize hcore, ?_⟩, removeAll_fileNumber c,
    (Manager.removeAll_paths c).2.trans h.fatFileName⟩
  rw [hheap, h.fresh.heap]
  funext p
  split <;> rfl

end HTTPCache

namespace Manager

variable {s : Manager}

/-- the operation begins the numbers anew -/
def clears (s : Manager) : Op → Bool
  | .removeAll => true
  | .clearHTTPCache _ _ => !s.cache.disabled
  | _ => false

/-- the operation calls `makeFileName` -/
def makesName (s : Manager) : Op → Bool
  | .writeCacheTimerCallback busy _ _ => !busy && !s.writeCacheList.isEmpty
  | _ => false

theorem updateCacheResource_fileNumber (a : Response) (data : SharedBuffer) :
    (s.updateCacheResource a data).2.cache.fileNumber = s.cache.fileNumber := by
  have hspec := s.updateCacheResource_spec a data
  generalize s.updateCacheResource a data = u at hspec
  cases hspec with
  | removed _ _ => rfl
  | relisted _ _ => exact HTTPCache.detach_fileNumber _ _
  | unknown | dropped | repended => rfl

theorem addHTTPCache_fileNumber (hwf : s.core.WF) (a : Response) :
    (s.addHTTPCache a).2.cache.fileNumber = s.cache.fileNumber := by
  have hspec := s.addHTTPCache_spec a
  generalize s.addHTTPCache a = u at hspec
  cases hspec with
  | refused | removed => rfl
  | relisted _ _ _ _ => exact HTTPCache.detach_fileNumber _ _
  | dropped | repended | unknown => rfl
  | full | created => exact HTTPCache.makeRoom_fileNumber hwf _

theorem writeCacheTimerCallback_fileNumber (hwf : s.core.WF) (busy : Bool) (io : FileIo) (fat : FatIo) :
    (s.writeCacheTimerCallback busy io fat).cache.fileNumber =
      if !busy && !s.writeCacheList.isEmpty then s.cache.makeFileName.2.fileNumber else s.cache.fileNumber := by
  cases hw : s.writeCacheList with
  | nil =>
    rw [(writeCacheTimerCallback_idle io fat (.inl hw)).1]
    simp
  | cons p rest =>
    cases busy with
    | true =>
      rw [(writeCacheTimerCallback_idle io fat (.inr rfl)).1]
      simp
    | false =>
      have hafter : (afterWrite s.cache p io).fileNumber = s.cache.makeFileName.2.fileNumber := by
        rw [← HTTPCache.write_fileNumber (p := p) hwf io]
        unfold afterWrite
        split <;> rfl
      rw [writeCacheTimerCallback_eq hw]
      show (if rest = [] then _ else _ : HTTPCache).fileNumber = s.cache.makeFileName.2.fileNumber
      split
      · rw [HTTPCache.writeFATFile_fileNumber, hafter]
      · exact hafter

theorem step_fileNumber (hwf : s.core.WF) (op : Op) :
    (s.step op).cache.fileNumber =
      if s.clears op then 0
      else if s.makesName op then s.cache.makeFileName.2.fileNumber else s.cache.fileNumber := by
  cases op with
  | addHTTPCache a => exact addHTTPCache_fileNumber hwf a
  | writeCacheTimerCallback busy io fat => exact writeCacheTimerCallback_fileNumber hwf busy io fat
  | updateCacheResource a data => exact updateCacheResource_fileNumber a data
  | createHTTPCachedResource a data =>
    have hroom := HTTPCache.makeRoom_fileNumber hwf (toInt32 data.size)
    show (s.cache.createHTTPCachedResource a.url data a.response a.noCache a.mustRevalidate Double.quietNaN a.maxAge
      a.now).2.fileNumber = s.cache.fileNumber
    rw [createHTTPCachedResource_eq]
    split <;> exact hroom
  | remove url =>
    dsimp only [step]
    split <;> rfl
  | detach url =>
    dsimp only [step]
    split
    · exact HTTPCache.detach_fileNumber _ _
    · rfl
  | purgeBySize size => exact (purgeBySize_shrinks (G := fun _ _ => True) hwf size).2.fileNumber
  | purgeOldest => exact (purgeOldest_shrinks (G := fun _ _ => True) hwf).2.fileNumber
  | setMaxTotalCacheSize limit fat =>
    dsimp only [step, HTTPCache.setMaxTotalCacheSize]
    generalize (if limit ≤ 0 then _ else limit : Int) = m
    split
    · rw [HTTPCache.writeFATFile_fileNumber]
      exact (purgeBySize_shrinks (G := fun _ _ => True) (c := { s.cache with limitTotalContentsSize := m }) hwf
        _).2.fileNumber
    · rfl
  | read url io =>
    dsimp only [step]
    split <;> rfl
  | removeAll => exact HTTPCache.removeAll_fileNumber _
  | clearHTTPCache wr rd =>
    show (s.clearHTTPCache wr rd).cache.fileNumber = if !s.cache.disabled then 0 else s.cache.fileNumber
    cases h : s.cache.disabled with
    | true =>
      rw [clearHTTPCache, if_pos h]
      rfl
    | false =>
      rw [clearHTTPCache_eq wr rd h]
      dsimp only
      rw [HTTPCache.writeFATFile_fileNumber, HTTPCache.removeAll_fileNumber]
      rfl
  | resetHTTPCache => rfl

theorem step_cleared {op : Op} (h : s.clears op = true) : (s.step op).cache.resourceList = [] := by
  cases op with
  | removeAll => exact congrArg Core.list (removeAll_core (w := []) s.cache)
  | clearHTTPCache wr rd =>
    have henabled : s.cache.disabled = false := by simpa [clears] using h
    exact congrArg Core.list (clearHTTPCache_core wr rd henabled)
  | _ => cases h

def WKC_INT_MAX : Nat := 0x7fffffff

/-- the names made since `removeAll` -/
def namesMade (s : Manager) (made : Nat) (op : Op) : Nat :=
  if s.clears op then 0 else if s.makesName op then made + 1 else made

/-- Runs in one directory with `made` names since `removeAll`, always fewer than `WKC_INT_MAX`.  A new process finds
the FAT file of any state that was reached, so its body files may be newer; the names that were made behind that state
are made again. -/
inductive Numbering : Nat → Manager → Prop
  | new {c : HTTPCache} : c.New → Numbering 0 { cache := c }
  | refused {c c' : HTTPCache} {rd : FatIo} : c.New → c.readFATFile rd = .ok (false, c') →
      Numbering 0 { cache := c' }
  | loaded {made : Nat} {s : Manager} {c c1 c' : HTTPCache} {wr rd : FatIo} {b : Bool} : Numbering made s →
      s.cache.writeFATFile wr = (true, c1) → c.New → c.filePath = s.cache.filePath →
      c.files.lookup c.fatFullPath = c1.files.lookup c1.fatFullPath →
      c.readFATFile rd = .ok (b, c') → Numbering made { cache := c' }
  | writeFATFile {made : Nat} {s : Manager} (io : FatIo) : Numbering made s →
      Numbering made { s with cache := (s.cache.writeFATFile io).2 }
  | step {made : Nat} {s : Manager} (op : Op) : Numbering made s → s.namesMade made op < WKC_INT_MAX →
      Numbering (s.namesMade made op) (s.step op)

/-- what every run keeps -/
structure Named (made : Nat) (s : Manager) : Prop where
  size : SizeSound s.core
  index : s.core.Indexed
  names : s.cache.Numbered
  pos : 0 ≤ s.cache.fileNumber.toInt
  number : s.cache.fileNumber.toInt ≤ made
  fatFileName : s.cache.fatFileName = DEFAULT_FAT_FILENAME

theorem new_named {c : HTTPCache} (h : c.New) : Named 0 { cache := c } where
  size := ⟨h.fresh.sound.wf, h.fresh.sound.entrySizes, h.fresh.sound.resources⟩
  index := fresh_indexed h.fresh
  names := .nil h.fresh.resourceList
  pos := Int.le_of_eq (congrArg Int32.toInt h.fileNumber).symm
  number := Int.le_of_eq (congrArg Int32.toInt h.fileNumber)
  fatFileName := h.fatFileName

theorem Named.loaded {made : Nat} {c c1 c' : HTTPCache} {wr rd : FatIo} {b : Bool} (h : Named made s)
    (hwr : s.cache.writeFATFile wr = (true, c1)) (hc : c.New) (hpath : c.filePath = s.cache.filePath)
    (hfile : c.files.lookup c.fatFullPath = c1.files.lookup c1.fatFullPath)
    (hrd : c.readFATFile rd = .ok (b, c')) : Named made { cache := c' } := by
  obtain ⟨hsize, hindex⟩ := loaded_inv h.size h.index hwr hc.fresh hfile hrd
  obtain ⟨hbytes, hlen⟩ := h.size.sized.writeFATFile_true hwr
  rcases HTTPCache.readFATFile_fatBytes rd (hfile.trans hbytes) hlen (fun p hp => h.index.text p (.inl hp)) with
    ⟨_, hnone⟩ | ⟨rs, hrs, hsome⟩
  · rw [hnone] at hrd
    obtain ⟨-, rfl⟩ := Prod.mk.inj (Except.ok.inj hrd)
    have hnew := new_named hc
    exact ⟨hsize, hindex, hnew.names, hnew.pos, Int.le_trans hnew.number (Int.natCast_nonneg made), hnew.fatFileName⟩
  · rw [hsome] at hrd
    obtain ⟨-, rfl⟩ := Prod.mk.inj (Except.ok.inj hrd)
    obtain ⟨_, hname, hnumber, _⟩ :=
      HTTPCache.loadEntries_frame rs ({ c with fileNumber := s.cache.fileNumber } : HTTPCache)
    have hfresh : ({ c with fileNumber := s.cache.fileNumber } : HTTPCache).Fresh :=
      ⟨hc.fresh.resources, hc.fresh.resourceList, hc.fresh.totalResourceSize, hc.fresh.totalContentsSize,
        hc.fresh.heap⟩
    have hnames := h.names.loaded hfresh rfl hpath hrs
    have hcount := h.number
    have hpos := h.pos
    rw [← hnumber] at hcount hpos
    exact ⟨hsize, hindex, hnames, hpos, hcount, hname.trans hc.fatFileName⟩

theorem Named.writeFATFile {made : Nat} (h : Named made s) (io : FatIo) :
    Named made { s with cache := (s.cache.writeFATFile io).2 } := by
  obtain ⟨fs, heq, _⟩ := writeFATFile_files s.cache io
  rw [heq]
  exact ⟨h.size, h.index, ⟨h.names.number, h.names.unique, h.names.fits⟩, h.pos, h.number, h.fatFileName⟩

theorem Named.step_number {made : Nat} (h : Named made s) (op : Op) (hbound : s.namesMade made op < WKC_INT_MAX) :
    0 ≤ (s.step op).cache.fileNumber.toInt ∧ (s.step op).cache.fileNumber.toInt ≤ s.namesMade made op ∧
      (s.clears op = false → s.cache.fileNumber.toInt ≤ (s.step op).cache.fileNumber.toInt) ∧
      (s.makesName op = true → (s.step op).cache.fileNumber.toInt = s.cache.fileNumber.toInt + 1) := by
  have hpos := h.pos
  have hnumber := h.number
  have hmakes : s.makesName op = true → s.clears op = false := by
    cases op with
    | writeCacheTimerCallback busy io fat => exact fun _ => rfl
    | _ => exact fun hmakes => nomatch hmakes
  rw [step_fileNumber h.size.wf]
  unfold namesMade at hbound ⊢
  cases hclears : s.clears op with
  | true =>
    refine ⟨Int.le_refl 0, Int.le_refl 0, (fun hfalse => by cases hfalse), fun hmakes' => ?_⟩
    rw [hmakes hmakes'] at hclears
    cases hclears
  | false =>
    rw [hclears] at hbound
    cases hname : s.makesName op with
    | false => exact ⟨hpos, hnumber, fun _ => Int.le_refl _, (fun hfalse => by cases hfalse)⟩
    | true =>
      rw [hname] at hbound
      have hless : made + 1 < 0x7fffffff := hbound
      have hnext := HTTPCache.makeFileName_next (c := s.cache) (by omega) hpos
      show 0 ≤ s.cache.makeFileName.2.fileNumber.toInt ∧ s.cache.makeFileName.2.fileNumber.toInt ≤ (made + 1 : Nat) ∧
        (_ → s.cache.fileNumber.toInt ≤ s.cache.makeFileName.2.fileNumber.toInt) ∧
        (_ → s.cache.makeFileName.2.fileNumber.toInt = s.cache.fileNumber.toInt + 1)
      rw [hnext]
      refine ⟨?_, ?_, fun _ => ?_, fun _ => rfl⟩ <;> omega

theorem makesName_timer {p : Ptr} {rest : List Ptr} (hw : s.writeCacheList = p :: rest) (io : FileIo) (fat : FatIo) :
    s.makesName (.writeCacheTimerCallback false io fat) = true := by
  rw [makesName, hw]
  rfl

theorem outcome_fatFileName {op : Op} {s' : Manager} (h : Outcome s op s') :
    s'.cache.fatFileName = s.cache.fatFileName := by
  cases h with
  | kept _ hkept => exact hkept.fatFileName
  | failed _ _ hkept => exact hkept.fatFileName
  | written _ _ _ _ _ _ _ _ hkept => exact hkept.fatFileName
  | updated _ _ _ _ _ _ _ hkept | created _ _ _ _ _ _ _ hkept => exact hkept.fatFileName

theorem Named.step {made : Nat} (h : Named made s) (op : Op) (hbound : s.namesMade made op < WKC_INT_MAX) :
    Named (s.namesMade made op) (s.step op) := by
  obtain ⟨hpos, hcount, hmono, hnext⟩ := h.step_number op hbound
  have houtcome := step_outcome h.size.wf op
  have hmoves := step_moves (G := fun _ _ => True) h.size.wf op (fun _ _ _ => trivial)
  refine ⟨h.size.step op, Moves.indexed hmoves h.index, ?_, hpos, hcount,
    (outcome_fatFileName houtcome).trans h.fatFileName⟩
  cases hclears : s.clears op with
  | true => exact .nil (step_cleared hclears)
  | false =>
    have hmono := hmono hclears
    cases houtcome with
    | kept _ hkept => exact h.names.kept hkept hmono
    | failed _ _ hkept | updated _ _ _ _ _ _ _ hkept | created _ _ _ _ _ _ _ hkept => exact h.names.kept hkept hmono
    | written hop hw _ hopen _ hlist hres _ hkept =>
      subst hop
      have hname := congrArg HTTPCachedResource.fileName hres
      have hfits : s.cache.nextFullPath ≠ [] := by
        intro hnil
        rw [hnil, FileIo.fopen, List.isEmpty_nil, Bool.not_true, Bool.and_false] at hopen
        cases hopen
      exact h.names.written hkept hlist hname hfits h.pos (hnext (makesName_timer hw _ _))

theorem Numbering.named {made : Nat} (h : Numbering made s) : Named made s := by
  induction h with
  | new hc => exact new_named hc
  | refused hc hrd =>
    rcases HTTPCache.readFATFile_refused hrd with rfl | rfl
    · exact new_named hc
    · exact new_named hc.removeAll
  | loaded _ hwr hc hpath hfile hrd ih => exact ih.loaded hwr hc hpath hfile hrd
  | writeFATFile io _ ih => exact ih.writeFATFile io
  | step op _ hbound ih => exact ih.step op hbound

theorem Named.next_apart {made : Nat} (h : Named made s) (hpeers : FilePeers.Injective) {p : Ptr}
    (hp : p ∈ s.cache.resourceList) (io : FileIo) :
    s.cache.fileFullPath p ∉ s.cache.touched io := by
  obtain ⟨k, hk, hless, hname⟩ := h.names.number p hp
  have hne : s.cache.fileFullPath p ≠ s.cache.nextFullPath := by
    intro heq
    have hsame := HTTPCache.path_injective hpeers (h.names.fits p hp) heq
    rw [hname] at hsame
    rw [HTTPCache.formatFileName_injective hk h.pos hsame] at hless
    exact Int.lt_irrefl _ hless
  unfold HTTPCache.touched
  split
  · rw [List.mem_singleton]
    exact hne
  · exact List.not_mem_nil

theorem Named.keeps {made : Nat} (h : Named made s) (hpeers : FilePeers.Injective) (op : Op) {p : Ptr}
    (hp : p ∈ s.cache.resourceList) (hp' : p ∈ (s.step op).cache.resourceList) :
    (s.step op).cache.fileFullPath p = s.cache.fileFullPath p ∧
      (s.step op).cache.files.lookup (s.cache.fileFullPath p) = s.cache.files.lookup (s.cache.fileFullPath p) := by
  have hapart := h.names.apart hpeers h.fatFileName
  cases step_outcome h.size.wf op with
  | kept _ hkept => exact ⟨hkept.path hp', hkept.bodies hapart p hp' List.not_mem_nil⟩
  | failed _ _ hkept => exact ⟨hkept.path hp', hkept.bodies hapart p hp' (h.next_apart hpeers hp _)⟩
  | updated _ _ _ _ _ _ _ hkept => exact ⟨hkept.path hp', hkept.bodies hapart p hp' List.not_mem_nil⟩
  | created _ _ _ _ _ _ _ hkept => exact ⟨hkept.path hp', hkept.bodies hapart p hp' List.not_mem_nil⟩
  | written _ hw _ _ _ hlist _ _ hkept =>
    rw [hlist] at hp'
    rcases List.mem_append.mp hp' with hp' | hnew
    · exact ⟨hkept.path hp', hkept.bodies hapart p hp' (h.next_apart hpeers hp _)⟩
    · -- the entry that was written was waiting before
      have hwaits : p ∈ s.writeCacheList := by
        rw [hw, List.mem_singleton.mp hnew]
        exact List.mem_cons_self
      exact absurd hwaits (h.size.wf.disjoint p hp)

/-- **The body files are never shared.** -/
theorem bodies_apart (hpeers : FilePeers.Injective) {made : Nat} (h : Numbering made s) :
    s.cache.fileNames.Nodup ∧
    (∀ p ∈ s.cache.resourceList, ∃ k : Int32, 0 ≤ k.toInt ∧ k.toInt < s.cache.fileNumber.toInt ∧
      (s.cache.res p).fileName = HTTPCache.formatFileName k) ∧
    (∀ op, ∀ p ∈ s.cache.resourceList, p ∈ (s.step op).cache.resourceList →
      (s.step op).cache.fileFullPath p = s.cache.fileFullPath p ∧
      (s.step op).cache.files.lookup (s.cache.fileFullPath p) = s.cache.files.lookup (s.cache.fileFullPath p)) ∧
    ∀ io, ∀ p ∈ s.cache.resourceList,
      (s.cache.writeFATFile io).2.files.lookup (s.cache.fileFullPath p) =
        s.cache.files.lookup (s.cache.fileFullPath p) := by
  have hnamed := h.named
  refine ⟨hnamed.names.unique, hnamed.names.number, fun op p hp hp' => hnamed.keeps hpeers op hp hp', ?_⟩
  intro io p hp
  obtain ⟨fs, heq, hfs⟩ := writeFATFile_files s.cache io
  rw [heq]
  exact hfs _ ((hnamed.names.apart hpeers hnamed.fatFileName).fat p hp)

end Manager

end

namespace Manager
open Sample in
theorem bodies_apart_twoPages :
    (Runs.run step {} [got (page 1) byte, tick byte, got (page 2) byte, tick byte]).cache.fileNames =
      [HTTPCache.formatFileName 0, HTTPCache.formatFileName 1] ∧
    (Runs.run step {} [got (page 1) byte, tick byte, got (page 2) byte, tick byte]).cache.fileNames.Nodup := by
  have hnew : Numbering 0 {} := .new (c := {}) ⟨⟨rfl, rfl, rfl, rfl, rfl⟩, rfl, rfl⟩
  have hfirst := Numbering.step (tick byte) (.step (got (page 1) byte) hnew (by decide +kernel)) (by decide +kernel)
  have hsecond := Numbering.step (tick byte) (.step (got (page 2) byte) hfirst (by decide +kernel))
    (by decide +kernel)
  exact ⟨by decide +kernel, (bodies_apart FilePeers.joining_joins.injective hsecond).1⟩

end Manager

end Wkc
