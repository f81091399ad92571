import Mathlib.Algebra.Order.BigOperators.Group.List
import WkcBrowser.Cache.Accounts
import WkcBrowser.Cache.Objects

/-!
# The limits of the cache

`createHTTPCachedResource` checks the limits; the entry is listed when the write timer fires, and by
then the list and the resource itself may have changed.

* `purgeBySize_frees`      a purge frees what it was asked for, or empties the list;
* `Bounded`                the three limits;
* `Fits`                   what `write` would have to check of the resource it is about to list;
* `capacity_iff`           the limits hold throughout a run exactly if every resource fits when it is
                           written.
-/

set_option linter.unusedSectionVars false

namespace Wkc
open Wkc.Core

section
variable [FilePeers]

namespace HTTPCache

/-- the sum of the lengths on the list -/
def listed (c : HTTPCache) : Int := (c.resourceList.map c.contentLength).sum

/-! ## what a purge frees -/

section
variable {c : HTTPCache} {w : List Ptr}

theorem listed_eq (c : HTTPCache) (w : List Ptr) :
    c.listed = (c.core w).sumOf (fun r => r.contentLength.toInt) := rfl

theorem listed_remove (hwf : (c.core w).WF) {p : Ptr} (hp : p ∈ c.resourceList) :
    (c.remove p).listed = c.listed - c.contentLength p := by
  have hfree : ((c.core w).unlist p).sumOf (fun r => r.contentLength.toInt)
      = (((c.core w).unlist p).free p).sumOf (fun r => r.contentLength.toInt) := by
    refine sumOf_congr rfl ?_
    intro q hq
    rw [free_res_ne _ (ne_of_listed hwf hp (.inl hq))]
  rw [listed_eq _ w, listed_eq _ w]
  show (((c.core w).unlist p).free p).sumOf _ = _
  rw [← hfree, sumOf_unlist hp]
  rfl

theorem listed_mark (c : HTTPCache) (p : Ptr) (b : Bool) :
    (c.setRes p ((c.res p).setUsed b)).listed = c.listed := by
  unfold listed
  congr 1
  apply List.map_congr_left
  intro q _
  by_cases hq : q = p
  · rw [contentLength, hq, setRes_self]
    rfl
  · rw [contentLength, setRes_ne c hq]
    rfl

/-- the total and the sum of the lengths move together -/
def Level (w : List Ptr) (c c' : HTTPCache) : Prop :=
  (c'.core w).WF ∧ c'.totalContentsSize - c'.listed = c.totalContentsSize - c.listed

theorem remove_wf (hwf : (c.core w).WF) {p : Ptr} (hp : p ∈ c.resourceList) :
    ((c.remove p).core w).WF := by
  have hmoves : Moves (fun _ _ => True) (c.core w) ((c.remove p).core w) := remove_moves hp hwf
  exact hmoves.wf hwf

theorem Level.evict (c' : HTTPCache) (n : Nat) (hn : n < c'.resourceList.length) (h : Level w c c') :
    Level w c (c'.removeResourceByNumber n) := by
  have hmem : c'.resourceList[n] ∈ c'.resourceList := List.getElem_mem hn
  rw [removeResourceByNumber_eq h.1.list_nodup (List.getElem?_eq_getElem hn)]
  refine ⟨remove_wf h.1 hmem, ?_⟩
  have htotal : (c'.remove c'.resourceList[n]).totalContentsSize
      = c'.totalContentsSize - c'.contentLength c'.resourceList[n] := rfl
  rw [htotal, listed_remove h.1 hmem, ← h.2]
  omega

theorem Level.mark (c' : HTTPCache) (p : Ptr) (hp : p ∈ c'.resourceList) (h : Level w c c') :
    Level w c (c'.setRes p ((c'.res p).setUsed false)) := by
  refine ⟨h.1.setRes (.inl hp) rfl, ?_⟩
  rw [listed_mark]
  exact h.2

theorem purgeBySize_level (hwf : (c.core w).WF) (size : Int) : Level w c (c.purgeBySize size).2 :=
  purgeBySize_pres Level.evict Level.mark size ⟨hwf, rfl⟩

theorem makeRoom_level (hwf : (c.core w).WF) (len : Int) : Level w c (c.makeRoom len).2 :=
  makeRoom_pres Level.evict Level.mark len ⟨hwf, rfl⟩

theorem purgeLoop_cons (size : Int) (p : Ptr) (rest : List Ptr) (num : Nat) (purged : Int)
    (c : HTTPCache) :
    purgeLoop size (p :: rest) num purged c =
      if (c.res p).used then purgeLoop size rest (num + 1) purged c
      else if size < purged + c.contentLength p then
        (purged + c.contentLength p, c.removeResourceByNumber num)
      else purgeLoop size rest num (purged + c.contentLength p) (c.removeResourceByNumber num) := rfl

theorem purgeLoop_amount (size : Int) (rest : List Ptr) : ∀ (num : Nat) (purged : Int) (c : HTTPCache),
    rest = c.resourceList.drop num → (c.core w).WF →
    (purgeLoop size rest num purged c).1 + (purgeLoop size rest num purged c).2.listed
      = purged + c.listed := by
  induction rest with
  | nil => intro num purged c _ _; rfl
  | cons p rest ih =>
    intro num purged c hrest hwf
    have hget := getElem?_of_drop hrest
    have hp : p ∈ c.resourceList := List.mem_of_getElem? hget
    have htail := drop_next hrest
    have hnext := drop_removed hrest
    have hlost := listed_remove hwf hp
    have hwf' := remove_wf hwf hp
    rw [← removeResourceByNumber_eq hwf.list_nodup hget] at hlost hwf'
    rw [purgeLoop_cons]
    split
    · exact ih _ _ _ htail hwf
    · split
      · dsimp only
        omega
      · rw [ih _ _ _ hnext hwf']
        omega

theorem purgeLoop_unused (size : Int) (rest : List Ptr) : ∀ (num : Nat) (purged : Int) (c : HTTPCache),
    rest = c.resourceList.drop num → (c.core w).WF → (∀ q ∈ rest, (c.res q).used = false) →
    size < (purgeLoop size rest num purged c).1 ∨
      (purgeLoop size rest num purged c).2.resourceList = c.resourceList.take num := by
  induction rest with
  | nil =>
    intro num purged c hrest _ _
    refine .inr ?_
    have hdrop := List.take_append_drop num c.resourceList
    rw [← hrest, List.append_nil] at hdrop
    exact hdrop.symm
  | cons p rest ih =>
    intro num purged c hrest hwf hunused
    have hget := getElem?_of_drop hrest
    have hp : p ∈ c.resourceList := List.mem_of_getElem? hget
    have hnd : c.resourceList.Nodup := hwf.list_nodup
    have hnext := drop_removed hrest
    have htake : (c.removeResourceByNumber num).resourceList.take num = c.resourceList.take num := by
      rw [removeResourceByNumber_list, List.take_eraseIdx_eq_take_of_le _ _ _ (Nat.le_refl num)]
    have hothers : ∀ q ∈ rest, ((c.removeResourceByNumber num).res q).used = false := by
      intro q hq
      have hne := drop_ne hnd hrest q hq
      have hsame : (c.remove p).res q = c.res q := (c.core w).free_res_ne hne
      rw [removeResourceByNumber_eq hnd hget, hsame]
      exact hunused q (List.mem_cons_of_mem p hq)
    have hwf' := remove_wf hwf hp
    rw [← removeResourceByNumber_eq hnd hget] at hwf'
    rw [purgeLoop_cons, if_neg (by rw [hunused p List.mem_cons_self]; exact Bool.noConfusion)]
    split
    · next hstop => exact .inl hstop
    · rw [← htake]
      exact ih _ _ _ hnext hwf' hothers

theorem clearUsed_list (rest : List Ptr) (c : HTTPCache) :
    (clearUsed rest c).resourceList = c.resourceList := by
  induction rest generalizing c with
  | nil => rfl
  | cons p rest ih => exact ih (c.setRes p ((c.res p).setUsed false))

theorem used_mark {q : Ptr} (p : Ptr) (h : (c.res q).used = false) :
    ((c.setRes p ((c.res p).setUsed false)).res q).used = false := by
  by_cases hq : q = p
  · rw [hq, setRes_self]
    rfl
  · rw [setRes_ne c hq]
    exact h

theorem clearUsed_keeps (rest : List Ptr) {q : Ptr} (c : HTTPCache) (h : (c.res q).used = false) :
    ((clearUsed rest c).res q).used = false := by
  induction rest generalizing c with
  | nil => exact h
  | cons p rest ih => exact ih _ (used_mark p h)

theorem clearUsed_unused (rest : List Ptr) (c : HTTPCache) :
    ∀ q ∈ rest, ((clearUsed rest c).res q).used = false := by
  induction rest generalizing c with
  | nil => intro q hq; exact absurd hq List.not_mem_nil
  | cons p rest ih =>
    intro q hq
    rcases List.mem_cons.mp hq with rfl | hq
    · have hset : ((c.setRes q ((c.res q).setUsed false)).res q).used = false := by
        rw [setRes_self]
        rfl
      exact clearUsed_keeps rest _ hset
    · exact ih _ q hq

theorem purgeBySize_eq (c : HTTPCache) (size : Int) : (c.purgeBySize size).2 =
    if (c.purgeBySizeInternal size).1 < size then
      ((clearUsed (c.purgeBySizeInternal size).2.resourceList
        (c.purgeBySizeInternal size).2).purgeBySizeInternal (size - (c.purgeBySizeInternal size).1)).2
    else (c.purgeBySizeInternal size).2 := by
  show (if (c.purgeBySizeInternal size).1 < size then _ else _ : Int × HTTPCache).2 = _
  split <;> rfl

theorem second_round (hwf : (c.core w).WF) (size : Int) :
    size < c.listed - ((clearUsed c.resourceList c).purgeBySizeInternal size).2.listed ∨
      ((clearUsed c.resourceList c).purgeBySizeInternal size).2.resourceList = [] := by
  have hcleared : Level w c (clearUsed c.resourceList c) :=
    clearUsed_pres Level.mark _ _ (fun _ h => h) ⟨hwf, rfl⟩
  have hsum : (clearUsed c.resourceList c).listed = c.listed :=
    clearUsed_pres (P := fun d => d.listed = c.listed)
      (fun d p _ h => (listed_mark d p false).trans h) _ _ (fun _ h => h) rfl
  have hunused : ∀ q ∈ (clearUsed c.resourceList c).resourceList,
      ((clearUsed c.resourceList c).res q).used = false := by
    intro q hq
    rw [clearUsed_list] at hq
    exact clearUsed_unused c.resourceList c q hq
  generalize clearUsed c.resourceList c = d at hcleared hsum hunused
  have hamount := purgeLoop_amount size d.resourceList 0 0 d rfl hcleared.1
  rcases purgeLoop_unused size d.resourceList 0 0 d rfl hcleared.1 hunused with hstop | hempty
  · refine .inl ?_
    rw [purgeBySizeInternal]
    omega
  · exact .inr hempty

theorem purgeBySize_frees (hwf : (c.core w).WF) (size : Int) :
    size ≤ c.listed - (c.purgeBySize size).2.listed ∨ (c.purgeBySize size).2.resourceList = [] := by
  have hamount : (c.purgeBySizeInternal size).1 + (c.purgeBySizeInternal size).2.listed = 0 + c.listed :=
    purgeLoop_amount size c.resourceList 0 0 c rfl hwf
  have hwf1 : ((c.purgeBySizeInternal size).2.core w).WF :=
    (purgeLoop_pres (P := Level w c) Level.evict size c.resourceList 0 0 c rfl ⟨hwf, rfl⟩).1
  rw [purgeBySize_eq]
  split
  · rcases second_round hwf1 (size - (c.purgeBySizeInternal size).1) with hfreed | hempty
    · refine .inl ?_
      omega
    · exact .inr hempty
  · refine .inl ?_
    omega

/-! ## what a write lists -/

/-- the platform takes the whole body -/
def takes (c : HTTPCache) (p : Ptr) (io : FileIo) : Bool :=
  match (c.res p).resourceData with
  | none => false
  | some data => io.fopen c.nextFullPath && (HTTPCachedResource.writeBody data io).1

theorem write_result {p : Ptr} (hwf : (c.core w).WF) (hp : p ∈ w) (io : FileIo) :
    (c.write p io).1 = c.takes p io := by
  have hpurged := (beforeWrite_shrinks (G := fun _ _ => True) hwf p).2
  have hpath : pathByAppendingComponent (c.beforeWrite p).filePath (c.beforeWrite p).makeFileName.1
      = c.nextFullPath := by
    show pathByAppendingComponent _ (formatFileName (c.beforeWrite p).fileNumber) = _
    rw [hpurged.filePath, hpurged.fileNumber]
    rfl
  have hwrite : (c.write p io).1 = (((c.beforeWrite p).res p).writeFile (c.beforeWrite p).makeFileName.1
      (c.beforeWrite p).filePath io (c.beforeWrite p).files).1 := by
    rw [write_eq]
    split
    · next h => rw [h]
    · next h => rw [h]
  rw [hwrite, hpurged.pending p hp, takes, HTTPCachedResource.writeFile]
  cases (c.res p).resourceData with
  | none => rfl
  | some data =>
    simp only [hpath]
    cases io.fopen c.nextFullPath with
    | false => rfl
    | true =>
      cases hbody : (HTTPCachedResource.writeBody data io).1 with
      | false | true => simp

theorem write_total {p : Ptr} {data : SharedBuffer} {io : FileIo} (hwf : (c.core w).WF) (hp : p ∈ w)
    (hdata : (c.res p).resourceData = some data) (hwrite : (c.write p io).1 = true) :
    (c.write p io).2.totalContentsSize = (c.beforeWrite p).totalContentsSize + data.size := by
  have hres : (c.beforeWrite p).res p = c.res p :=
    (beforeWrite_shrinks (G := fun _ _ => True) hwf p).2.pending p hp
  rcases writeFile_cases ((c.beforeWrite p).res p) (c.beforeWrite p).makeFileName.1
    (c.beforeWrite p).filePath io (c.beforeWrite p).files with ⟨fs, hfile⟩ | ⟨data', fs, hdata', hfile⟩
  · rw [write_eq, hfile] at hwrite
    cases hwrite
  · rw [hres, hdata] at hdata'
    obtain rfl := Option.some.inj hdata'
    rw [write_eq, hfile, ← Manager.size_toInt]
    have hself := setRes_self (c.beforeWrite p) p (((c.beforeWrite p).res p).written data
      (c.beforeWrite p).makeFileName.1)
    show _ + ((((c.beforeWrite p).setRes p _).res p).contentLength).toInt = _
    rw [hself]
    rfl

theorem beforeWrite_frees (hwf : (c.core w).WF) (p : Ptr) :
    c.beforeWrite p = c ∧ c.totalContentsSize + c.contentLength p ≤ c.limitTotalContentsSize ∨
    c.limitTotalContentsSize < c.totalContentsSize + c.contentLength p ∧
      (c.contentLength p ≤ c.listed - (c.beforeWrite p).listed ∨ (c.beforeWrite p).resourceList = []) := by
  unfold beforeWrite
  split
  · next h => exact .inr ⟨h, purgeBySize_frees hwf _⟩
  · next h => exact .inl ⟨rfl, by omega⟩

theorem beforeWrite_level (hwf : (c.core w).WF) (p : Ptr) : Level w c (c.beforeWrite p) := by
  unfold beforeWrite
  split
  · exact purgeBySize_level hwf _
  · exact ⟨hwf, rfl⟩

end

end HTTPCache

namespace Manager

/-! ## runs of `addHTTPCache` and `writeCacheTimerCallback` -/

inductive Use where
  | addHTTPCache (a : Response)
  | writeCacheTimerCallback (busy : Bool) (io : FileIo) (fat : FatIo)

def Use.op : Use → Op
  | .addHTTPCache a => .addHTTPCache a
  | .writeCacheTimerCallback busy io fat => .writeCacheTimerCallback busy io fat

def useStep (s : Manager) (u : Use) : Manager := s.step u.op

structure Bounded (s : Manager) : Prop where
  entries : (s.cache.resourceList.length : Int) ≤ s.cache.limitContentEntries
  total : s.cache.totalContentsSize ≤ s.cache.limitTotalContentsSize
  each : ∀ p ∈ s.cache.resourceList, s.cache.contentLength p ≤ s.cache.limitContentSize

instance (s : Manager) : Decidable s.Bounded :=
  decidable_of_iff ((s.cache.resourceList.length : Int) ≤ s.cache.limitContentEntries ∧
    s.cache.totalContentsSize ≤ s.cache.limitTotalContentsSize ∧
    ∀ p ∈ s.cache.resourceList, s.cache.contentLength p ≤ s.cache.limitContentSize)
    ⟨fun h => ⟨h.1, h.2.1, h.2.2⟩, fun h => ⟨h.entries, h.total, h.each⟩⟩

/-- The checks of `createHTTPCachedResource`, made again for a resource that is about to be listed: its
length, a free entry unless entries are about to be evicted, and room in the total once everything
listed is gone. -/
structure Fits (s : Manager) (p : Ptr) : Prop where
  each : s.cache.contentLength p ≤ s.cache.limitContentSize
  entries : (s.cache.resourceList.length : Int) < s.cache.limitContentEntries ∨
    s.cache.limitTotalContentsSize < s.cache.totalContentsSize + s.cache.contentLength p
  total : s.cache.totalContentsSize - s.cache.listed + s.cache.contentLength p
    ≤ s.cache.limitTotalContentsSize

/-- a firing that writes, writes a resource that fits -/
def Room (s : Manager) : Use → Prop
  | .addHTTPCache _ => True
  | .writeCacheTimerCallback busy io _ => busy = false →
      ∀ p rest, s.writeCacheList = p :: rest → s.cache.takes p io = true → s.Fits p

/-- what holds throughout, whatever the limits -/
structure Held (s : Manager) : Prop where
  wf : s.core.WF
  lengths : ∀ p ∈ s.cache.resourceList, 0 ≤ s.cache.contentLength p
  waiting : ∀ p ∈ s.writeCacheList, ∃ data : SharedBuffer, (s.cache.res p).resourceData = some data ∧
    (s.cache.res p).contentLength = Int64.ofNat data.size
  limit : 0 < s.cache.limitContentEntries

section
variable {s s' : Manager} {l v : List Ptr} {lost : List WString}

theorem kept_lengths {c c' : HTTPCache} {w : List Ptr} (h : Kept c w c' l v lost) {q : Ptr}
    (hq : q ∈ l) : c'.contentLength q = c.contentLength q := by
  obtain ⟨b, hb⟩ := h.listed q hq
  rw [HTTPCache.contentLength, hb]
  rfl

theorem Held.lengths_kept (h : s.Held) {c' : HTTPCache}
    (hk : Kept s.cache s.writeCacheList c' l v lost) : ∀ p ∈ l, 0 ≤ c'.contentLength p := by
  intro p hp
  rw [kept_lengths hk hp]
  exact h.lengths p (hk.list.subset hp)

theorem Held.waiting_kept (h : s.Held) (hk : Kept s.cache s.writeCacheList s'.cache l v lost) :
    ∀ p ∈ v, ∃ data : SharedBuffer, (s'.cache.res p).resourceData = some data ∧
      (s'.cache.res p).contentLength = Int64.ofNat data.size := by
  intro p hp
  rw [hk.waiting p hp]
  exact h.waiting p (hk.wait.subset hp)

theorem Held.waiting_append (h : s.Held) (hk : Kept s.cache s.writeCacheList s'.cache l v lost) {p : Ptr}
    {data : SharedBuffer} (hdata : (s'.cache.res p).resourceData = some data)
    (hlen : (s'.cache.res p).contentLength = Int64.ofNat data.size) :
    ∀ q ∈ v ++ [p], ∃ data : SharedBuffer, (s'.cache.res q).resourceData = some data ∧
      (s'.cache.res q).contentLength = Int64.ofNat data.size := by
  intro q hq
  rcases List.mem_append.mp hq with hq | hq
  · exact h.waiting_kept hk q hq
  · rw [List.mem_singleton.mp hq]
    exact ⟨data, hdata, hlen⟩

theorem Held.outcome {op : Op} (h : s.Held) (hwf : s'.core.WF) (ho : Outcome s op s')
    (hlimit : s'.cache.limitContentEntries = s.cache.limitContentEntries) : s'.Held := by
  have hpos : 0 < s'.cache.limitContentEntries := by rw [hlimit]; exact h.limit
  cases ho with
  | kept _ hk | failed _ _ hk => exact ⟨hwf, h.lengths_kept hk, h.waiting_kept hk, hpos⟩
  | @written io fat p data l _ _ _ _ _ hlist hres _ hk =>
    refine ⟨hwf, ?_, h.waiting_kept hk, hpos⟩
    intro q hq
    rw [hlist] at hq
    rcases List.mem_append.mp hq with hq | hq
    · exact h.lengths_kept hk q hq
    · have hsize : s'.cache.contentLength p = data.size := by
        rw [HTTPCache.contentLength, hres, ← size_toInt]
        rfl
      rw [List.mem_singleton.mp hq, hsize]
      exact Int.natCast_nonneg _
  | updated _ _ _ _ _ hw hres hk | created _ _ _ _ _ hw hres hk =>
    refine ⟨hwf, h.lengths_kept hk, ?_, hpos⟩
    rw [hw]
    exact h.waiting_append hk (by rw [hres]; rfl) (by rw [hres]; rfl)

theorem listed_mono (h : s.Held) {c' : HTTPCache}
    (hk : Kept s.cache s.writeCacheList c' c'.resourceList v lost) : c'.listed ≤ s.cache.listed := by
  have hsame : c'.listed = (c'.resourceList.map s.cache.contentLength).sum := by
    unfold HTTPCache.listed
    congr 1
    apply List.map_congr_left
    intro q hq
    exact kept_lengths hk hq
  rw [hsame]
  apply List.Sublist.sum_le_sum (hk.list.map _)
  intro x hx
  obtain ⟨p, hp, rfl⟩ := List.mem_map.mp hx
  exact h.lengths p hp

/-! ## the limits stay as they were set -/

def SameLimits (c c' : HTTPCache) : Prop :=
  c'.limitContentEntries = c.limitContentEntries ∧ c'.limitContentSize = c.limitContentSize ∧
    c'.limitTotalContentsSize = c.limitTotalContentsSize

theorem purged_limits {c c' : HTTPCache} {w : List Ptr} (h : Purged w c c') : SameLimits c c' :=
  ⟨h.limitContentEntries, h.limitContentSize, h.limitTotalContentsSize⟩

theorem detach_limits (c : HTTPCache) (p : Ptr) : SameLimits c (c.detach p) := by
  unfold HTTPCache.detach
  split <;> exact ⟨rfl, rfl, rfl⟩

theorem addHTTPCache_limits (hwf : s.core.WF) (a : Response) :
    SameLimits s.cache (s.addHTTPCache a).2.cache := by
  have hspec := s.addHTTPCache_spec a
  generalize s.addHTTPCache a = u at hspec
  cases hspec with
  | refused | removed => exact ⟨rfl, rfl, rfl⟩
  | relisted _ _ _ _ => exact detach_limits _ _
  | dropped | repended | unknown => exact ⟨rfl, rfl, rfl⟩
  | full _ _ _ _ _ _ => exact purged_limits (makeRoom_shrinks (G := fun _ _ => True) hwf _).2
  | @created data _ _ _ _ _ _ =>
    have hroom := purged_limits (makeRoom_shrinks (G := fun _ _ => True) hwf (toInt32 data.size)).2
    exact hroom

theorem write_limits {p : Ptr} (hwf : s.core.WF) (io : FileIo) :
    SameLimits s.cache (s.cache.write p io).2 := by
  have hsame := purged_limits (beforeWrite_shrinks (G := fun _ _ => True) hwf p).2
  rw [write_eq]
  split <;> exact hsame

theorem writeCacheTimerCallback_cache {p : Ptr} {rest : List Ptr} (hw : s.writeCacheList = p :: rest)
    (io : FileIo) (fat : FatIo) :
    ∃ fs, (s.writeCacheTimerCallback false io fat).cache = { afterWrite s.cache p io with files := fs } := by
  rw [writeCacheTimerCallback_eq hw]
  by_cases hrest : rest = []
  · obtain ⟨fs, heq, _⟩ := writeFATFile_files (afterWrite s.cache p io) fat
    refine ⟨fs, ?_⟩
    rw [← heq]
    exact if_pos hrest
  · refine ⟨(afterWrite s.cache p io).files, ?_⟩
    exact if_neg hrest

theorem afterWrite_limits {p : Ptr} (hwf : s.core.WF) (io : FileIo) :
    SameLimits s.cache (afterWrite s.cache p io) := by
  unfold afterWrite
  split <;> exact write_limits hwf io

theorem useStep_limits (hwf : s.core.WF) (u : Use) : SameLimits s.cache (s.useStep u).cache := by
  cases u with
  | addHTTPCache a => exact addHTTPCache_limits hwf a
  | writeCacheTimerCallback busy io fat =>
    show SameLimits s.cache (s.writeCacheTimerCallback busy io fat).cache
    by_cases hidle : s.writeCacheList = [] ∨ busy = true
    · rw [(writeCacheTimerCallback_idle io fat hidle).1]
      exact ⟨rfl, rfl, rfl⟩
    · cases hw : s.writeCacheList with
      | nil => exact absurd (.inl hw) hidle
      | cons p rest =>
        have hbusy : busy = false := by
          cases busy with
          | true => exact absurd (.inr rfl) hidle
          | false => rfl
        subst hbusy
        obtain ⟨fs, hfs⟩ := writeCacheTimerCallback_cache hw io fat
        rw [hfs]
        exact afterWrite_limits hwf io

theorem Held.step (h : s.Held) (u : Use) : (s.useStep u).Held :=
  h.outcome (step_wf h.wf u.op) (step_outcome h.wf u.op) (useStep_limits h.wf u).1

/-! ## one step -/

theorem Bounded.shrink (hb : s.Bounded) (hlist : s'.cache.resourceList.Sublist s.cache.resourceList)
    (hlens : ∀ q ∈ s'.cache.resourceList, s'.cache.contentLength q = s.cache.contentLength q)
    (htotal : s'.cache.totalContentsSize ≤ s.cache.totalContentsSize)
    (hlimits : SameLimits s.cache s'.cache) : s'.Bounded := by
  obtain ⟨hentries, hsize, hlimit⟩ := hlimits
  have hlen := hlist.length_le
  have hold := hb.entries
  have htot := hb.total
  refine ⟨?_, ?_, ?_⟩
  · rw [hentries]
    omega
  · rw [hlimit]
    omega
  · intro p hp
    rw [hsize, hlens p hp]
    exact hb.each p (hlist.subset hp)

theorem addHTTPCache_total (h : s.Held) (a : Response) :
    (s.addHTTPCache a).2.cache.totalContentsSize ≤ s.cache.totalContentsSize := by
  have hroom : ∀ len, (s.cache.makeRoom len).2.totalContentsSize ≤ s.cache.totalContentsSize := by
    intro len
    have hlevel := (HTTPCache.makeRoom_level h.wf len).2
    have hmono := listed_mono h (makeRoom_evicted h.wf len).2
    omega
  have hspec := s.addHTTPCache_spec a
  generalize s.addHTTPCache a = u at hspec
  cases hspec with
  | refused _ => exact Int.le_refl _
  | @removed p _ hp _ =>
    have hlen := h.lengths p (h.wf.index _ _ hp).1
    show s.cache.totalContentsSize - s.cache.contentLength p ≤ _
    omega
  | @relisted p data _ _ _ _ =>
    have hcore := congrArg Core.totalContentsSize
      (detach_core (w := []) (s.cache.setRes p (a.onto (s.cache.res p) data)) p)
    change _ = s.cache.totalContentsSize
      - ((s.cache.setRes p (a.onto (s.cache.res p) data)).res p).contentLength.toInt at hcore
    rw [setRes_self] at hcore
    have hsize : (a.onto (s.cache.res p) data).contentLength.toInt = data.size := size_toInt data
    show ((s.cache.setRes p (a.onto (s.cache.res p) data)).detach p).totalContentsSize ≤ _
    change ((s.cache.setRes p (a.onto (s.cache.res p) data)).detach p).totalContentsSize = _ at hcore
    omega
  | dropped | repended | unknown => exact Int.le_refl _
  | full | created => exact hroom _

theorem Bounded.add (hb : s.Bounded) (h : s.Held) (a : Response) :
    (s.useStep (.addHTTPCache a)).Bounded := by
  have hlimits := useStep_limits h.wf (.addHTTPCache a)
  have htotal := addHTTPCache_total h a
  have ho := addHTTPCache_outcome a h.wf
  cases ho with
  | kept _ hk => exact hb.shrink hk.list (fun _ => kept_lengths hk) htotal hlimits
  | failed hop | written hop => cases hop
  | updated _ _ _ _ _ _ _ hk => exact hb.shrink hk.list (fun _ => kept_lengths hk) htotal hlimits
  | created _ _ _ _ _ _ _ hk => exact hb.shrink hk.list (fun _ => kept_lengths hk) htotal hlimits

theorem beforeWrite_shorter (h : s.Held) {p : Ptr} (hpos : 0 < s.cache.contentLength p)
    (hfreed : s.cache.contentLength p ≤ s.cache.listed - (s.cache.beforeWrite p).listed) :
    (s.cache.beforeWrite p).resourceList.length < s.cache.resourceList.length := by
  have hk := (beforeWrite_evicted h.wf p).2
  by_contra hge
  have hsame : (s.cache.beforeWrite p).resourceList = s.cache.resourceList :=
    hk.list.eq_of_length (Nat.le_antisymm hk.list.length_le (Nat.not_lt.mp hge))
  have hsum : (s.cache.beforeWrite p).listed = s.cache.listed := by
    unfold HTTPCache.listed
    rw [hsame]
    congr 1
    apply List.map_congr_left
    intro q hq
    rw [← hsame] at hq
    exact kept_lengths hk hq
  omega

theorem written_bounded_iff (h : s.Held) (hb : s.Bounded) {p : Ptr}
    (hlimits : SameLimits s.cache s'.cache)
    (hlist : s'.cache.resourceList = (s.cache.beforeWrite p).resourceList ++ [p])
    (hlens : ∀ q ∈ (s.cache.beforeWrite p).resourceList,
      s'.cache.contentLength q = s.cache.contentLength q)
    (hp : s'.cache.contentLength p = s.cache.contentLength p)
    (htotal : s'.cache.totalContentsSize
      = (s.cache.beforeWrite p).totalContentsSize + s.cache.contentLength p) :
    s'.Bounded ↔ s.Fits p := by
  obtain ⟨hentries, hsize, hlimit⟩ := hlimits
  have hkept := (beforeWrite_evicted h.wf p).2
  have hlevel := (HTTPCache.beforeWrite_level h.wf p).2
  have hfrees := HTTPCache.beforeWrite_frees h.wf p
  have hshorter := hkept.list.length_le
  have hheld : 0 ≤ (s.cache.beforeWrite p).listed := by
    apply List.sum_nonneg
    intro x hx
    obtain ⟨q, hq, rfl⟩ := List.mem_map.mp hx
    exact h.lengths_kept hkept q hq
  have hlength : s'.cache.resourceList.length = (s.cache.beforeWrite p).resourceList.length + 1 := by
    rw [hlist, List.length_append]
    rfl
  constructor
  · intro hb'
    refine ⟨?_, ?_, ?_⟩
    · rw [← hp, ← hsize]
      apply hb'.each
      rw [hlist]
      exact List.mem_append_right _ (List.mem_singleton_self p)
    · have hnew := hb'.entries
      rw [hentries, hlength] at hnew
      rcases hfrees with ⟨hsame, _⟩ | ⟨hover, _⟩
      · rw [hsame] at hnew
        exact .inl (by omega)
      · exact .inr hover
    · have hnew := hb'.total
      rw [hlimit, htotal] at hnew
      omega
  · intro hfits
    have hold := hb.total
    have hcount := hb.entries
    have hpos := h.limit
    refine ⟨?_, ?_, ?_⟩
    · rw [hentries, hlength]
      rcases hfits.entries with hroom | hover
      · omega
      · rcases hfrees with ⟨_, hfit⟩ | ⟨_, hfreed | hempty⟩
        · omega
        · have hless := beforeWrite_shorter h (p := p) (by omega) hfreed
          omega
        · rw [hempty]
          exact hpos
    · rw [hlimit, htotal]
      have hroom := hfits.total
      rcases hfrees with ⟨hsame, hfit⟩ | ⟨_, hfreed | hempty⟩
      · rw [hsame]
        exact hfit
      · omega
      · have hzero : (s.cache.beforeWrite p).listed = 0 := by
          unfold HTTPCache.listed
          rw [hempty]
          rfl
        omega
    · intro q hq
      rw [hlist] at hq
      rw [hsize]
      rcases List.mem_append.mp hq with hq | hq
      · rw [hlens q hq]
        exact hb.each q (hkept.list.subset hq)
      · rw [List.mem_singleton.mp hq, hp]
        exact hfits.each

theorem write_false_total {c : HTTPCache} {p : Ptr} {io : FileIo} (h : (c.write p io).1 = false) :
    (c.write p io).2.totalContentsSize = (c.beforeWrite p).totalContentsSize := by
  rw [write_eq] at h ⊢
  split at h
  · rfl
  · cases h

theorem beforeWrite_total (h : s.Held) (p : Ptr) :
    (s.cache.beforeWrite p).totalContentsSize ≤ s.cache.totalContentsSize := by
  have hlevel := (HTTPCache.beforeWrite_level h.wf p).2
  have hmono := listed_mono h (beforeWrite_evicted h.wf p).2
  omega

theorem firing_bounded_iff (h : s.Held) (hb : s.Bounded) {p : Ptr} {rest : List Ptr}
    (hw : s.writeCacheList = p :: rest) (io : FileIo) (fat : FatIo) :
    (s.useStep (.writeCacheTimerCallback false io fat)).Bounded ↔
      s.Room (.writeCacheTimerCallback false io fat) := by
  have hwf' : (s.cache.core (p :: rest)).WF := hw ▸ h.wf
  have hpw : p ∈ s.writeCacheList := by rw [hw]; exact List.mem_cons_self
  have hresult := HTTPCache.write_result h.wf hpw io
  have hlimits := useStep_limits h.wf (.writeCacheTimerCallback false io fat)
  have htotal := beforeWrite_total h p
  obtain ⟨fs, hfs⟩ := writeCacheTimerCallback_cache hw io fat
  change (s.useStep (.writeCacheTimerCallback false io fat)).cache = _ at hfs
  rcases write_outcome hwf' io with ⟨hres, hkept⟩ | ⟨data, hres, hdata, _, _, hlist, hp, _, hkept⟩
  · rw [← hw] at hkept
    have hafter : afterWrite s.cache p io = (s.cache.write p io).2.free p := by simp [afterWrite, hres]
    rw [hafter] at hfs
    constructor
    · intro _ _ q rest' hw' htakes
      rw [hw] at hw'
      obtain ⟨rfl, _⟩ := List.cons.inj hw'
      rw [← hresult, hres] at htakes
      cases htakes
    · intro _
      refine hb.shrink ?_ ?_ ?_ hlimits
      · rw [hfs]
        exact hkept.list
      · intro q hq
        rw [hfs] at hq ⊢
        exact kept_lengths hkept hq
      · rw [hfs]
        exact (write_false_total hres).trans_le htotal
  · rw [← hw] at hkept
    have hafter : afterWrite s.cache p io = (s.cache.write p io).2 := by simp [afterWrite, hres]
    rw [hafter] at hfs
    have hlen : s.cache.contentLength p = data.size := by
      obtain ⟨d, hd, hlen⟩ := h.waiting p hpw
      rw [hdata] at hd
      obtain rfl := Option.some.inj hd
      rw [HTTPCache.contentLength, hlen, size_toInt]
    have hiff : (s.useStep (.writeCacheTimerCallback false io fat)).Bounded ↔ s.Fits p := by
      refine written_bounded_iff h hb hlimits ?_ ?_ ?_ ?_
      · rw [hfs]
        exact hlist
      · intro q hq
        rw [hfs]
        exact kept_lengths hkept hq
      · rw [hfs, hlen, ← size_toInt]
        exact congrArg (fun r : HTTPCachedResource => r.contentLength.toInt) hp
      · rw [hfs, hlen]
        exact HTTPCache.write_total h.wf hpw hdata hres
    rw [hiff]
    constructor
    · intro hfits _ q rest' hw' _
      rw [hw] at hw'
      obtain ⟨rfl, _⟩ := List.cons.inj hw'
      exact hfits
    · intro hroom
      apply hroom rfl p rest hw
      rw [← hresult]
      exact hres

theorem bounded_step (h : s.Held) (hb : s.Bounded) (u : Use) : (s.useStep u).Bounded ↔ s.Room u := by
  cases u with
  | addHTTPCache a => exact ⟨fun _ => trivial, fun _ => hb.add h a⟩
  | writeCacheTimerCallback busy io fat =>
    by_cases hidle : s.writeCacheList = [] ∨ busy = true
    · obtain ⟨hcache, hlist⟩ := writeCacheTimerCallback_idle io fat hidle
      have hsame : (s.useStep (.writeCacheTimerCallback busy io fat)).Bounded ↔ s.Bounded := by
        have heq : (s.useStep (.writeCacheTimerCallback busy io fat)).cache = s.cache := hcache
        constructor
        · exact fun _ => hb
        · intro _
          exact ⟨by rw [heq]; exact hb.entries, by rw [heq]; exact hb.total, by rw [heq]; exact hb.each⟩
      rw [hsame]
      refine ⟨fun _ hbusy p rest hw => ?_, fun _ => hb⟩
      rcases hidle with hnil | htrue
      · rw [hnil] at hw
        cases hw
      · rw [htrue] at hbusy
        cases hbusy
    · obtain ⟨hne, hbusy⟩ := not_or.mp hidle
      have hbusy : busy = false := by simpa using hbusy
      subst hbusy
      obtain ⟨p, rest, hw⟩ := List.exists_cons_of_ne_nil hne
      exact firing_bounded_iff h hb hw io fat

end

/-- a new cache whose limits have been set; each setter makes its limit positive -/
structure Configured (c : HTTPCache) : Prop where
  fresh : c.Fresh
  entries : 0 < c.limitContentEntries
  each : 0 < c.limitContentSize
  total : 0 < c.limitTotalContentsSize

theorem Configured.held {c : HTTPCache} (h : Configured c) : Held { cache := c } := by
  refine ⟨h.fresh.sound.wf, ?_, ?_, h.entries⟩
  · intro p hp
    rw [h.fresh.resourceList] at hp
    exact absurd hp List.not_mem_nil
  · intro p hp
    exact absurd hp List.not_mem_nil

theorem Configured.bounded {c : HTTPCache} (h : Configured c) : Bounded { cache := c } := by
  have hentries := h.entries
  have htotal := h.total
  refine ⟨?_, ?_, ?_⟩
  · rw [h.fresh.resourceList]
    exact Int.le_of_lt hentries
  · rw [h.fresh.totalContentsSize]
    exact Int.le_of_lt htotal
  · intro p hp
    rw [h.fresh.resourceList] at hp
    exact absurd hp List.not_mem_nil

/-- **The limits of the cache.**  Once the limits are set, they hold in every state of a run of
`addHTTPCache` and `writeCacheTimerCallback` exactly if every resource fits when it is written. -/
theorem capacity_iff {c : HTTPCache} (hc : Configured c) (uses : List Use) :
    (∀ pre, pre <+: uses → (Runs.run useStep { cache := c } pre).Bounded) ↔
      Runs.Along useStep Room { cache := c } uses :=
  Runs.prefix_iff_along (I := Held) (fun _ u h => h.step u) (fun _ u h hb => bounded_step h hb u)
    hc.held hc.bounded uses

end Manager

end

namespace Manager
open Sample

/-- room for one entry -/
def small : HTTPCache := ({} : HTTPCache).setMaxContentEntries 1

def gotten (url : KURL) (data : SharedBuffer) : Use :=
  .addHTTPCache { url := url, resourceData := some data, response := {} }

def ticked (data : SharedBuffer) : Use :=
  .writeCacheTimerCallback false ⟨true, [data.size]⟩ ⟨false, false, false, []⟩

theorem small_configured : Configured small :=
  ⟨⟨rfl, rfl, rfl, rfl, rfl⟩, by decide, by decide, by decide⟩

theorem capacity_iff_small : Configured small ∧
    ∀ pre, pre <+: [gotten (page 1) byte, ticked byte, gotten (page 2) byte, ticked byte] →
      (Runs.run useStep { cache := small } pre).Bounded := by
  refine ⟨small_configured, (capacity_iff small_configured _).mpr ⟨trivial, ?_, trivial, ?_, trivial⟩⟩
  · intro _ p rest hw _
    have hlist : (Runs.run useStep { cache := small } [gotten (page 1) byte]).writeCacheList = [0] := by
      decide +kernel
    obtain ⟨rfl, _⟩ := List.cons.inj (hlist.symm.trans hw)
    exact ⟨by decide +kernel, by decide +kernel, by decide +kernel⟩
  · intro _ p rest hw _
    have hlist : (Runs.run useStep { cache := small }
        [gotten (page 1) byte, ticked byte, gotten (page 2) byte]).writeCacheList = [1] := by
      decide +kernel
    obtain ⟨rfl, _⟩ := List.cons.inj (hlist.symm.trans hw)
    exact ⟨by decide +kernel, by decide +kernel, by decide +kernel⟩

/-- two resources are created while the list is empty, and both are listed -/
theorem capacity_exceeded : Configured small ∧ ¬ (Runs.run useStep { cache := small }
    [gotten (page 1) byte, gotten (page 2) byte, ticked byte, ticked byte]).Bounded :=
  ⟨small_configured, by decide +kernel⟩

end Manager

end Wkc
