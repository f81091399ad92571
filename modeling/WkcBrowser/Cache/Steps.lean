import WkcBrowser.Cache.Manager
import WkcBrowser.Cache.Moves

/-!
# The operations as sequences of moves

* `Purged`, `Shrinks`                            what an eviction leaves of a cache;
* `updateCacheResource_spec`, `addHTTPCache_spec`   the outcomes of the two functions, one by one;
* `step_moves`                                   an operation of the manager is a sequence of moves.
-/

set_option linter.unusedSectionVars false

namespace Wkc
open Wkc.Core

section
variable [FilePeers]

/-! ## the core of a manager -/

def HTTPCache.core (c : HTTPCache) (pending : List Ptr) : Core where
  index := c.resources
  list := c.resourceList
  pending := pending
  heap := c.heap
  next := c.next
  totalResourceSize := c.totalResourceSize
  totalContentsSize := c.totalContentsSize

def Manager.core (s : Manager) : Core := s.cache.core s.writeCacheList

/-- the resource after `updateCachedResource` -/
def Response.onto (a : Response) (r : HTTPCachedResource) (data : SharedBuffer) :
    HTTPCachedResource :=
  ((r.setResourceResponse a.response a.now).setResourceData data).update a.noCache a.mustRevalidate
    Double.quietNaN a.maxAge 0

/-- the resource that `createHTTPCachedResource` makes -/
def Response.make (a : Response) (data : SharedBuffer) : HTTPCachedResource :=
  ((HTTPCachedResource.create (removeFragmentIdentifierIfNeeded a.url) a.response a.now).update
    a.noCache a.mustRevalidate Double.quietNaN a.maxAge 0).setResourceData data

section
variable {G : HTTPCachedResource → SharedBuffer → Prop} {c : HTTPCache} {w : List Ptr}

theorem detach_core (c : HTTPCache) (p : Ptr) : (c.detach p).core w = (c.core w).unlist p := by
  unfold HTTPCache.detach
  split <;> rfl

theorem remove_moves {p : Ptr} (hp : p ∈ c.resourceList) (h : (c.core w).WF) :
    Moves G (c.core w) ((c.remove p).core w) := by
  have h1 : Move G (c.core w) ((c.core w).unlist p) := .unlist hp
  have h2 : Move G ((c.core w).unlist p) (((c.core w).unlist p).free p) :=
    .free h.list_nodup.not_mem_erase (h.disjoint p hp)
  exact (Relation.ReflTransGen.single h1).tail h2

theorem removeResourceByNumber_core {n : Nat} {p : Ptr} (h : (c.core w).WF)
    (hn : c.resourceList[n]? = some p) :
    (c.removeResourceByNumber n).core w = (c.remove p).core w := by
  unfold HTTPCache.removeResourceByNumber
  rw [hn]
  have herase : c.resourceList.eraseIdx n = c.resourceList.erase p :=
    eraseIdx_eq_erase h.list_nodup hn
  simp only [HTTPCache.core, HTTPCache.remove, HTTPCache.removeResource, HTTPCache.free,
    HTTPCache.unlink, herase]

/-- what a purge leaves of a cache whose waiting resources are `w` -/
structure Purged (w : List Ptr) (c c' : HTTPCache) : Prop where
  list : c'.resourceList.Sublist c.resourceList
  index : ∀ u p, c'.resources u = some p → c.resources u = some p
  res : ∀ q, q ∈ w ∨ q ∈ c'.resourceList → ∃ b, c'.res q = (c.res q).setUsed b
  pending : ∀ q ∈ w, c'.res q = c.res q
  next : c'.next = c.next
  disabled : c'.disabled = c.disabled
  fileNumber : c'.fileNumber = c.fileNumber
  filePath : c'.filePath = c.filePath
  fatFileName : c'.fatFileName = c.fatFileName
  limitContentEntries : c'.limitContentEntries = c.limitContentEntries
  limitContentSize : c'.limitContentSize = c.limitContentSize
  limitTotalContentsSize : c'.limitTotalContentsSize = c.limitTotalContentsSize

theorem Purged.refl (w : List Ptr) (c : HTTPCache) : Purged w c c :=
  ⟨List.Sublist.refl _, fun _ _ h => h, fun q _ => ⟨(c.res q).used, rfl⟩, fun _ _ => rfl,
    rfl, rfl, rfl, rfl, rfl, rfl, rfl, rfl⟩

theorem Purged.evict {c' : HTTPCache} {n : Nat} (h : Purged w c c') (hwf : (c'.core w).WF) :
    Purged w c (c'.removeResourceByNumber n) := by
  cases hn : c'.resourceList[n]? with
  | none =>
    have hsame : c'.removeResourceByNumber n = c' := by
      unfold HTTPCache.removeResourceByNumber; rw [hn]
    rw [hsame]; exact h
  | some p =>
    have hp : p ∈ c'.resourceList := List.mem_of_getElem? hn
    have hnodup : c'.resourceList.Nodup := hwf.list_nodup
    have hout : p ∉ c'.resourceList.eraseIdx n := by
      rw [eraseIdx_eq_erase hnodup hn]; exact hnodup.not_mem_erase
    have heq : c'.removeResourceByNumber n =
        (({ c' with
            resources := Function.update c'.resources (c'.url p) none
            resourceList := c'.resourceList.eraseIdx n
            totalResourceSize := c'.totalResourceSize - (c'.res p).resourceSize
            totalContentsSize := c'.totalContentsSize - c'.contentLength p } : HTTPCache).unlink
          (c'.fileFullPath p)).free p := by
      unfold HTTPCache.removeResourceByNumber; rw [hn]
    have hres : ∀ q, q ≠ p → (c'.removeResourceByNumber n).res q = c'.res q := by
      intro q hq
      rw [heq]
      show (Function.update c'.heap p none q).getD default = _
      rw [Function.update_of_ne hq]; rfl
    refine ⟨?_, ?_, ?_, ?_, ?_, ?_, ?_, ?_, ?_, ?_, ?_, ?_⟩
    · rw [heq]; exact (List.eraseIdx_sublist ..).trans h.list
    · intro u q hq
      rw [heq] at hq
      change Function.update c'.resources (c'.url p) none u = some q at hq
      exact h.index u q (Tables.update_taken hq).2
    · intro q hq
      rw [HTTPCache.removeResourceByNumber_list] at hq
      have hne : q ≠ p := by
        rintro rfl
        exact hq.elim (hwf.disjoint q hp) hout
      rw [hres q hne]
      exact h.res q (hq.imp_right List.mem_of_mem_eraseIdx)
    · intro q hq
      have hne : q ≠ p := by
        rintro rfl
        exact hwf.disjoint q hp hq
      rw [hres q hne]
      exact h.pending q hq
    all_goals rw [heq]
    · exact h.next
    · exact h.disabled
    · exact h.fileNumber
    · exact h.filePath
    · exact h.fatFileName
    · exact h.limitContentEntries
    · exact h.limitContentSize
    · exact h.limitTotalContentsSize

theorem Purged.mark {c' : HTTPCache} {p : Ptr} (h : Purged w c c') (hwf : (c'.core w).WF)
    (hp : p ∈ c'.resourceList) (b : Bool) :
    Purged w c (c'.setRes p ((c'.res p).setUsed b)) where
  list := h.list
  index := h.index
  res q hq := by
    obtain ⟨b', hb'⟩ := h.res q hq
    have hset := (c'.core w).setRes_res p q ((c'.res p).setUsed b)
    change (c'.setRes p ((c'.res p).setUsed b)).res q = _ at hset
    by_cases hne : q = p
    · refine ⟨b, ?_⟩
      rw [hset, if_pos hne, ← hne, hb']
      rfl
    · exact ⟨b', by rw [hset, if_neg hne]; exact hb'⟩
  pending q hq := by
    have hne : q ≠ p := by
      rintro rfl
      exact hwf.disjoint q hp hq
    rw [← h.pending q hq]
    exact (c'.core w).setRes_res_ne hne _
  next := h.next
  disabled := h.disabled
  fileNumber := h.fileNumber
  filePath := h.filePath
  fatFileName := h.fatFileName
  limitContentEntries := h.limitContentEntries
  limitContentSize := h.limitContentSize
  limitTotalContentsSize := h.limitTotalContentsSize

/-- reached from `c` by evictions and changes of used flags -/
def Shrinks (G : HTTPCachedResource → SharedBuffer → Prop) (w : List Ptr) (c c' : HTTPCache) : Prop :=
  Moves G (c.core w) (c'.core w) ∧ Purged w c c'

theorem Shrinks.evict (hwf : (c.core w).WF) (c' : HTTPCache) (n : Nat)
    (hn : n < c'.resourceList.length) (h : Shrinks G w c c') :
    Shrinks G w c (c'.removeResourceByNumber n) := by
  have hwf' := h.1.wf hwf
  have hget : c'.resourceList[n]? = some c'.resourceList[n] := List.getElem?_eq_getElem hn
  refine ⟨h.1.trans ?_, h.2.evict hwf'⟩
  rw [removeResourceByNumber_core hwf' hget]
  exact remove_moves (List.getElem_mem hn) hwf'

theorem Shrinks.mark (hwf : (c.core w).WF) (c' : HTTPCache) (p : Ptr) (hp : p ∈ c'.resourceList)
    (h : Shrinks G w c c') : Shrinks G w c (c'.setRes p ((c'.res p).setUsed false)) :=
  ⟨h.1.tail (Move.mark false hp), h.2.mark (h.1.wf hwf) hp false⟩

theorem purgeBySize_shrinks (hwf : (c.core w).WF) (size : Int) :
    Shrinks G w c (c.purgeBySize size).2 :=
  HTTPCache.purgeBySize_pres (Shrinks.evict hwf) (Shrinks.mark hwf) size ⟨.refl, .refl w c⟩

theorem purgeOldest_shrinks (hwf : (c.core w).WF) : Shrinks G w c c.purgeOldest.2 :=
  HTTPCache.purgeOldest_pres (Shrinks.evict hwf) ⟨.refl, .refl w c⟩

theorem makeRoom_shrinks (hwf : (c.core w).WF) (len : Int) : Shrinks G w c (c.makeRoom len).2 :=
  HTTPCache.makeRoom_pres (Shrinks.evict hwf) (Shrinks.mark hwf) len ⟨.refl, .refl w c⟩

/-! ## writing -/

theorem setRes_core_res {p : Ptr} (hlive : (c.heap p).isSome) :
    (c.setRes p (c.res p)).core w = c.core w := by
  obtain ⟨r, hr⟩ := Option.isSome_iff_exists.mp hlive
  have hres : some (c.res p) = c.heap p := by rw [HTTPCache.res, hr]; rfl
  show ({ c.core w with heap := Function.update c.heap p (some (c.res p)) } : Core) = _
  rw [hres, Function.update_eq_self]
  rfl

theorem beforeWrite_shrinks (hwf : (c.core w).WF) (p : Ptr) : Shrinks G w c (c.beforeWrite p) := by
  unfold HTTPCache.beforeWrite
  split
  · exact purgeBySize_shrinks hwf _
  · exact ⟨.refl, .refl w c⟩

theorem writeFile_cases (r : HTTPCachedResource) (fn fp : WString) (io : FileIo) (files : Files) :
    (∃ fs, r.writeFile fn fp io files = (false, r, fs)) ∨
    (∃ data fs, r.resourceData = some data ∧
      r.writeFile fn fp io files = (true, r.written data fn, fs)) := by
  cases hdata : r.resourceData with
  | none => exact .inl ⟨files, by rw [HTTPCachedResource.writeFile, hdata]⟩
  | some data =>
    simp only [HTTPCachedResource.writeFile, hdata]
    split
    · exact .inl ⟨_, rfl⟩
    · split
      · exact .inr ⟨data, _, rfl, rfl⟩
      · exact .inl ⟨_, rfl⟩

theorem write_eq (c : HTTPCache) (p : Ptr) (io : FileIo) : c.write p io =
    match ((c.beforeWrite p).res p).writeFile (c.beforeWrite p).makeFileName.1
      (c.beforeWrite p).filePath io (c.beforeWrite p).files with
    | (false, r, fs) => (false, { (c.beforeWrite p).makeFileName.2.setRes p r with files := fs })
    | (true, r, fs) =>
      (true, ({ (c.beforeWrite p).makeFileName.2.setRes p r with files := fs } :
        HTTPCache).listWritten p) := rfl

theorem write_moves {p : Ptr} {rest : List Ptr} (io : FileIo) (hw : w = p :: rest)
    (hwf : (c.core w).WF) :
    ((c.write p io).1 = false ∧ Moves G (c.core w) (((c.write p io).2.free p).core rest)) ∨
    ((c.write p io).1 = true ∧ Moves G (c.core w) ((c.write p io).2.core rest)) := by
  obtain ⟨hmoves, _⟩ := beforeWrite_shrinks (G := G) hwf p
  have hwf1 := hmoves.wf hwf
  have hpw : p ∈ w := by rw [hw]; exact List.mem_cons_self
  have hlive : ((c.beforeWrite p).heap p).isSome := hwf1.live p (.inr hpw)
  have hrest : w.eraseIdx 0 = rest := by rw [hw]; rfl
  have hnot : p ∉ rest := by
    have hnd : w.Nodup := hwf.pending_nodup
    rw [hw, List.nodup_cons] at hnd
    exact hnd.1
  rcases writeFile_cases ((c.beforeWrite p).res p) (c.beforeWrite p).makeFileName.1
    (c.beforeWrite p).filePath io (c.beforeWrite p).files with ⟨fs, hfile⟩ | ⟨data, fs, hdata, hfile⟩
  · have hwrite : c.write p io =
        (false, { (c.beforeWrite p).makeFileName.2.setRes p ((c.beforeWrite p).res p) with
          files := fs }) := by
      rw [write_eq, hfile]
    rw [hwrite]
    refine .inl ⟨rfl, ?_⟩
    have hunpend : Move G ((c.beforeWrite p).core w)
        { (c.beforeWrite p).core w with pending := w.eraseIdx 0 } := .unpend 0
    rw [hrest] at hunpend
    have hfree : Move G { (c.beforeWrite p).core w with pending := rest }
        (({ (c.beforeWrite p).core w with pending := rest } : Core).free p) :=
      .free (fun hl => hwf1.disjoint p hl hpw) hnot
    have hcore : (({ (c.beforeWrite p).makeFileName.2.setRes p ((c.beforeWrite p).res p) with
        files := fs } : HTTPCache).free p).core rest
        = ({ (c.beforeWrite p).core w with pending := rest } : Core).free p :=
      congrArg (fun k : Core => Core.free { k with pending := rest } p)
        (setRes_core_res (w := w) hlive)
    exact (hmoves.tail hunpend).tail (hcore ▸ hfree)
  · have hwrite : c.write p io =
        (true, ({ (c.beforeWrite p).makeFileName.2.setRes p (((c.beforeWrite p).res p).written data
          (c.beforeWrite p).makeFileName.1) with files := fs } : HTTPCache).listWritten p) := by
      rw [write_eq, hfile]
    rw [hwrite]
    refine .inr ⟨rfl, hmoves.tail ?_⟩
    exact Move.enlist (k := (c.beforeWrite p).core w) (r := ((c.beforeWrite p).res p).written data
      (c.beforeWrite p).makeFileName.1) hw rfl rfl

theorem writeFATFile_core (c : HTTPCache) (io : FatIo) : (c.writeFATFile io).2.core w = c.core w := by
  unfold HTTPCache.writeFATFile
  split
  · rfl
  · split
    · rfl
    · dsimp only
      split <;> rfl

theorem removeAll_core (c : HTTPCache) : c.removeAll.core w = (c.core w).reset := by
  unfold HTTPCache.removeAll
  dsimp only
  split <;> rfl

theorem alloc_moves {a : Response} {data : SharedBuffer} {c1 : HTTPCache} (hc : Shrinks G w c c1)
    (hindex : c.resources (cacheKey a.url) = none)
    (hpending : ∀ q ∈ w, c.url q ≠ cacheKey a.url) :
    Moves G (c.core w) (((c1.alloc (a.make data)).2).core (w ++ [c1.next])) := by
  have hnone : c1.resources (cacheKey a.url) = none := by
    cases h : c1.resources (cacheKey a.url) with
    | none => rfl
    | some p => exact absurd (hc.2.index _ p h) (by rw [hindex]; exact fun e => nomatch e)
  have hother : ∀ q ∈ w, (c1.res q).url ≠ cacheKey a.url := by
    intro q hq
    rw [hc.2.pending q hq]
    exact hpending q hq
  exact hc.1.tail (Move.pend (k := c1.core w) (r := a.make data) hnone hother
    (wellFormed_cacheKey a.url))

end

/-! ## the operations -/

namespace Manager

inductive Updated (s : Manager) (a : Response) (data : SharedBuffer) : Option Ptr × Manager → Prop
  | removed {p : Ptr} : s.cache.resourceForURL a.url = some p → a.noStore = true →
      Updated s a data (none, { s with cache := s.cache.remove p })
  | relisted {p : Ptr} : s.cache.resourceForURL a.url = some p → a.noStore = false →
      Updated s a data
        (some p, { s with cache := (s.cache.setRes p (a.onto (s.cache.res p) data)).detach p })
  | unknown : s.cache.resourceForURL a.url = none → s.findPending a.url = none →
      Updated s a data (none, s)
  | dropped {n : Nat} : s.cache.resourceForURL a.url = none → s.findPending a.url = some n →
      a.noStore = true →
      Updated s a data (none, { s with writeCacheList := s.writeCacheList.eraseIdx n })
  | repended {n : Nat} {p : Ptr} : s.cache.resourceForURL a.url = none →
      s.findPending a.url = some n → s.writeCacheList[n]? = some p → a.noStore = false →
      Updated s a data
        (some p, { s with
          cache := s.cache.setRes p (a.onto (s.cache.res p) data)
          writeCacheList := s.writeCacheList.eraseIdx n })

theorem updateCacheResource_spec (s : Manager) (a : Response) (data : SharedBuffer) :
    Updated s a data (s.updateCacheResource a data) := by
  unfold updateCacheResource
  dsimp only
  split
  · next p hp =>
    split
    · next hn => exact .removed hp hn
    · next hn => exact .relisted hp (by simpa using hn)
  · next hp =>
    split
    · next hf => exact .unknown hp hf
    · next n hf =>
      split
      · next hn => exact .dropped hp hf hn
      · next hn =>
        obtain ⟨hlt, _⟩ := List.findIdx?_eq_some_iff_getElem.mp hf
        rw [List.getElem?_eq_getElem hlt]
        exact .repended hp hf (List.getElem?_eq_getElem hlt) (by simpa using hn)

inductive Added (s : Manager) (a : Response) : Bool × Manager → Prop
  | refused : a.refused = true → Added s a (false, s)
  | removed {p : Ptr} : a.refused = false → s.cache.resourceForURL a.url = some p →
      a.noStore = true → Added s a (false, { s with cache := s.cache.remove p })
  | relisted {p : Ptr} {data : SharedBuffer} : a.refused = false → a.resourceData = some data →
      s.cache.resourceForURL a.url = some p → a.noStore = false →
      Added s a (true, ({ s with cache := (s.cache.setRes p (a.onto (s.cache.res p) data)).detach p } :
        Manager).appendPending p)
  | dropped {n : Nat} : a.refused = false → s.cache.resourceForURL a.url = none →
      s.findPending a.url = some n → a.noStore = true →
      Added s a (false, { s with writeCacheList := s.writeCacheList.eraseIdx n })
  | repended {n : Nat} {p : Ptr} {data : SharedBuffer} : a.refused = false →
      a.resourceData = some data → s.cache.resourceForURL a.url = none →
      s.findPending a.url = some n → s.writeCacheList[n]? = some p → a.noStore = false →
      Added s a (true, ({ s with
          cache := s.cache.setRes p (a.onto (s.cache.res p) data)
          writeCacheList := s.writeCacheList.eraseIdx n } : Manager).appendPending p)
  | unknown : a.refused = false → s.cache.resourceForURL a.url = none →
      s.findPending a.url = none → a.noStore = true → Added s a (false, s)
  | full {data : SharedBuffer} : a.refused = false → a.resourceData = some data →
      s.cache.resourceForURL a.url = none → s.findPending a.url = none → a.noStore = false →
      (s.cache.makeRoom (toInt32 data.size)).1 = false →
      Added s a (false, { s with cache := (s.cache.makeRoom (toInt32 data.size)).2 })
  | created {data : SharedBuffer} : a.refused = false → a.resourceData = some data →
      s.cache.resourceForURL a.url = none → s.findPending a.url = none → a.noStore = false →
      (s.cache.makeRoom (toInt32 data.size)).1 = true →
      Added s a (true, ({ s with
          cache := ((s.cache.makeRoom (toInt32 data.size)).2.alloc (a.make data)).2 } :
        Manager).appendPending (s.cache.makeRoom (toInt32 data.size)).2.next)

theorem createHTTPCachedResource_eq (c : HTTPCache) (a : Response) (data : SharedBuffer) :
    c.createHTTPCachedResource a.url data a.response a.noCache a.mustRevalidate Double.quietNaN
      a.maxAge a.now
    = if (c.makeRoom (toInt32 data.size)).1 = false then
        (none, (c.makeRoom (toInt32 data.size)).2)
      else (some (c.makeRoom (toInt32 data.size)).2.next,
        ((c.makeRoom (toInt32 data.size)).2.alloc (a.make data)).2) := rfl

theorem addHTTPCache_spec (s : Manager) (a : Response) : Added s a (s.addHTTPCache a) := by
  unfold addHTTPCache
  split
  · next hr => exact .refused hr
  · next hr =>
    have hr : a.refused = false := by simpa using hr
    split
    · next hd =>
      rw [Response.refused, hd] at hr
      cases hr
    · next data hd =>
      have hspec := s.updateCacheResource_spec a data
      generalize s.updateCacheResource a data = u at hspec
      cases hspec with
      | removed hp hn =>
        dsimp only
        rw [if_pos hn]
        exact .removed hr hp hn
      | relisted hp hn =>
        dsimp only
        rw [if_neg (by simp [hn])]
        exact .relisted hr hd hp hn
      | unknown hp hf =>
        dsimp only
        split
        · next hn => exact .unknown hr hp hf hn
        · next hn =>
          have hn : a.noStore = false := by simpa using hn
          rw [createHTTPCachedResource_eq]
          cases hm : (s.cache.makeRoom (toInt32 data.size)).1 with
          | false => exact .full hr hd hp hf hn hm
          | true => exact .created hr hd hp hf hn hm
      | dropped hp hf hn =>
        dsimp only
        rw [if_pos hn]
        exact .dropped hr hp hf hn
      | repended hp hf hget hn =>
        dsimp only
        rw [if_neg (by simp [hn])]
        exact .repended hr hd hp hf hget hn

theorem findPending_none {s : Manager} {url : KURL} (h : s.findPending url = none) :
    ∀ q ∈ s.writeCacheList, s.cache.url q ≠ cacheKey url := by
  intro q hq heq
  have hfalse := List.findIdx?_eq_none_iff.mp h q hq
  rw [HTTPCache.equalHTTPCachedResourceURL, heq, equalIgnoringCase_refl] at hfalse
  cases hfalse

/-- the body that an operation puts into a listed entry -/
def indexUpdate (s : Manager) : Op → Option (Ptr × SharedBuffer)
  | .addHTTPCache a =>
    if a.refused || a.noStore then none
    else
      match s.cache.resourceForURL a.url, a.resourceData with
      | some p, some data => some (p, data)
      | _, _ => none
  | .updateCacheResource a data =>
    if a.noStore then none else (s.cache.resourceForURL a.url).map (fun p => (p, data))
  | _ => none

section
variable {G : HTTPCachedResource → SharedBuffer → Prop} {s : Manager}

theorem relist_moves {a : Response} {data : SharedBuffer} {p : Ptr} (hwf : s.core.WF)
    (hp : s.cache.resourceForURL a.url = some p) (hG : G (s.cache.res p) data) :
    Moves G s.core (((s.cache.setRes p (a.onto (s.cache.res p) data)).detach p).core
      (s.writeCacheList ++ [p])) := by
  have hmem : p ∈ s.cache.resourceList := (hwf.index _ p hp).1
  rw [detach_core]
  exact .single (Move.relist (k := s.core) (r := a.onto (s.cache.res p) data) hmem rfl rfl rfl hG)

theorem repend_moves {a : Response} {data : SharedBuffer} {n : Nat} {p : Ptr}
    (hget : s.writeCacheList[n]? = some p) :
    Moves G s.core ((s.cache.setRes p (a.onto (s.cache.res p) data)).core
      (s.writeCacheList.eraseIdx n ++ [p])) :=
  .single (Move.repend (k := s.core) (r := a.onto (s.cache.res p) data) hget rfl)

theorem unpend_last_moves {c : HTTPCache} {w : List Ptr} {p : Ptr} :
    Moves G (c.core (w ++ [p])) (c.core w) := by
  have h : Move G (c.core (w ++ [p])) { c.core (w ++ [p]) with
      pending := (w ++ [p]).eraseIdx w.length } := .unpend w.length
  rw [List.eraseIdx_append_of_length_le (Nat.le_refl _), Nat.sub_self] at h
  have hnil : w ++ [p].eraseIdx 0 = w := List.append_nil w
  rw [hnil] at h
  exact .single h

theorem addHTTPCache_moves {a : Response} (hwf : s.core.WF)
    (hG : ∀ p d, s.indexUpdate (.addHTTPCache a) = some (p, d) → G (s.cache.res p) d) :
    Moves G s.core (s.addHTTPCache a).2.core := by
  have hspec := s.addHTTPCache_spec a
  generalize s.addHTTPCache a = u at hspec
  cases hspec with
  | refused _ => exact .refl
  | removed _ hp _ => exact remove_moves (hwf.index _ _ hp).1 hwf
  | relisted hr hd hp hn =>
    refine relist_moves hwf hp (hG _ _ ?_)
    simp [indexUpdate, hr, hn, hp, hd]
  | dropped _ _ _ _ => exact .single (Move.unpend _)
  | repended _ _ _ _ hget _ => exact repend_moves hget
  | unknown _ _ _ _ => exact .refl
  | full _ _ _ _ _ _ => exact (makeRoom_shrinks hwf _).1
  | created _ _ hp hf _ _ =>
    exact alloc_moves (makeRoom_shrinks hwf _) hp (findPending_none hf)

theorem updateCacheResource_moves {a : Response} {data : SharedBuffer} (hwf : s.core.WF)
    (hG : ∀ p d, s.indexUpdate (.updateCacheResource a data) = some (p, d) → G (s.cache.res p) d) :
    Moves G s.core (s.updateCacheResource a data).2.core := by
  have hspec := s.updateCacheResource_spec a data
  generalize s.updateCacheResource a data = u at hspec
  cases hspec with
  | removed hp _ => exact remove_moves (hwf.index _ _ hp).1 hwf
  | relisted hp hn =>
    refine (relist_moves hwf hp (hG _ data ?_)).trans unpend_last_moves
    simp [indexUpdate, hn, hp]
  | unknown _ _ => exact .refl
  | dropped _ _ _ => exact .single (Move.unpend _)
  | repended _ _ hget _ => exact (repend_moves hget).trans unpend_last_moves

theorem writeCacheTimerCallback_moves (busy : Bool) (io : FileIo) (fat : FatIo) (hwf : s.core.WF) :
    Moves G s.core (s.writeCacheTimerCallback busy io fat).core := by
  unfold writeCacheTimerCallback
  dsimp only
  split
  · exact .refl
  · next p rest hw =>
    have hwrite : Moves G s.core ((if (s.cache.write p io).1 = false then (s.cache.write p io).2.free p
        else (s.cache.write p io).2).core rest) := by
      rcases write_moves io hw hwf with ⟨hres, hm⟩ | ⟨hres, hm⟩
      · rw [if_pos hres]; exact hm
      · rw [if_neg (by rw [hres]; exact Bool.noConfusion)]; exact hm
    split
    · exact .refl
    · split
      · show Moves G s.core (HTTPCache.core _ rest)
        rw [writeFATFile_core]
        exact hwrite
      · exact hwrite

theorem read_moves {p : Ptr} {io : FileIo} (hwf : s.core.WF) (hp : p ∈ s.cache.resourceList) :
    Moves G s.core ((s.cache.read p io).2.2.core s.writeCacheList) := by
  have hlive : (s.cache.heap p).isSome := hwf.live p (.inl hp)
  have hsame : Moves G s.core ((s.cache.setRes p (s.cache.res p)).core s.writeCacheList) := by
    rw [setRes_core_res hlive]; exact .refl
  have hread : (s.cache.read p io).2.2
      = s.cache.setRes p ((s.cache.res p).readFile s.cache.filePath io s.cache.files).2.2 := rfl
  rw [hread]
  unfold HTTPCachedResource.readFile
  dsimp only
  split
  · exact hsame
  · split
    · exact hsame
    · exact .single (Move.mark (k := s.core) true hp)

theorem removeAll_paths (c : HTTPCache) :
    c.removeAll.filePath = c.filePath ∧ c.removeAll.fatFileName = c.fatFileName := by
  unfold HTTPCache.removeAll
  dsimp only
  split <;> exact ⟨rfl, rfl⟩

theorem removeAll_lookup (c : HTTPCache)
    (h : pathByAppendingComponent c.removeAll.filePath c.removeAll.fatFileName ≠ []) :
    c.removeAll.files.lookup (pathByAppendingComponent c.removeAll.filePath c.removeAll.fatFileName)
      = none := by
  obtain ⟨hpath, hname⟩ := removeAll_paths c
  rw [hpath, hname] at h ⊢
  cases hfull : wkcFilePathByAppendingComponentPeer c.filePath c.fatFileName with
  | none => exact absurd (by rw [pathByAppendingComponent, hfull]; rfl) h
  | some fullpath =>
    rw [pathByAppendingComponent, hfull]
    unfold HTTPCache.removeAll
    dsimp only
    split
    · next hnone =>
      change wkcFilePathByAppendingComponentPeer c.filePath c.fatFileName = none at hnone
      rw [hfull] at hnone
      cases hnone
    · next full hsome =>
      change wkcFilePathByAppendingComponentPeer c.filePath c.fatFileName = some full at hsome
      rw [hfull] at hsome
      obtain rfl := Option.some.inj hsome
      exact AList.lookup_erase ..

theorem purgeBySize_nil {c : HTTPCache} (h : c.resourceList = []) : c.purgeBySize 0 = (0, c) := by
  have hin : c.purgeBySizeInternal 0 = (0, c) := by
    rw [HTTPCache.purgeBySizeInternal, h]; rfl
  rw [HTTPCache.purgeBySize, hin]
  rfl

theorem clearHTTPCache_eq (wr rd : FatIo) (h : s.cache.disabled = false) :
    s.clearHTTPCache wr rd
      = { s.dropPending with cache := (s.dropPending.cache.removeAll.writeFATFile wr).2 } := by
  have hcore := removeAll_core (w := []) s.dropPending.cache
  have hlist : s.dropPending.cache.removeAll.resourceList = [] := congrArg Core.list hcore
  have htotal : s.dropPending.cache.removeAll.totalResourceSize = 0 :=
    congrArg Core.totalResourceSize hcore
  have hread := HTTPCache.read_of_empty hlist htotal (removeAll_lookup _) wr rd
  unfold clearHTTPCache
  rw [if_neg (by rw [h]; exact Bool.noConfusion)]
  dsimp only
  rw [purgeBySize_nil hlist, hread]

theorem clearHTTPCache_core (wr rd : FatIo) (h : s.cache.disabled = false) :
    (s.clearHTTPCache wr rd).core = s.core.dropPending.reset := by
  rw [clearHTTPCache_eq wr rd h]
  exact (writeFATFile_core _ _).trans (removeAll_core s.dropPending.cache)

theorem clearHTTPCache_moves (wr rd : FatIo) : Moves G s.core (s.clearHTTPCache wr rd).core := by
  cases h : s.cache.disabled with
  | true =>
    rw [clearHTTPCache, if_pos h]
  | false =>
    rw [clearHTTPCache_core wr rd h]
    exact (Relation.ReflTransGen.single Move.dropPending).tail Move.reset

/-- **Every operation of the manager is a sequence of moves.** -/
theorem step_moves (hwf : s.core.WF) (op : Op)
    (hG : ∀ p d, s.indexUpdate op = some (p, d) → G (s.cache.res p) d) :
    Moves G s.core (s.step op).core := by
  cases op with
  | addHTTPCache a => exact addHTTPCache_moves hwf hG
  | writeCacheTimerCallback busy io fat => exact writeCacheTimerCallback_moves busy io fat hwf
  | updateCacheResource a data => exact updateCacheResource_moves hwf hG
  | createHTTPCachedResource a data =>
    have hroom := (makeRoom_shrinks (G := G) hwf (toInt32 data.size)).1
    show Moves G s.core ((s.cache.createHTTPCachedResource a.url data a.response a.noCache
      a.mustRevalidate Double.quietNaN a.maxAge a.now).2.core s.writeCacheList)
    rw [createHTTPCachedResource_eq]
    split
    · exact hroom
    · exact hroom.tail (Move.alloc (a.make data))
  | remove url =>
    dsimp only [step]
    split
    · next p hp => exact remove_moves (hwf.index _ _ hp).1 hwf
    · exact .refl
  | detach url =>
    dsimp only [step]
    split
    · next p hp =>
      show Moves G s.core ((s.cache.detach p).core s.writeCacheList)
      rw [detach_core]
      exact .single (Move.unlist (hwf.index _ _ hp).1)
    · exact .refl
  | purgeBySize size => exact (purgeBySize_shrinks hwf size).1
  | purgeOldest => exact (purgeOldest_shrinks hwf).1
  | setMaxTotalCacheSize limit fat =>
    show Moves G s.core ((s.cache.setMaxTotalCacheSize limit fat).core s.writeCacheList)
    unfold HTTPCache.setMaxTotalCacheSize
    dsimp only
    generalize (if limit ≤ 0 then _ else limit : Int) = l
    split
    · rw [writeFATFile_core]
      exact (purgeBySize_shrinks (c := { s.cache with limitTotalContentsSize := l }) hwf _).1
    · exact .refl
  | read url io =>
    dsimp only [step]
    split
    · next p hp => exact read_moves hwf (hwf.index _ _ hp).1
    · exact .refl
  | removeAll =>
    show Moves G s.core (s.cache.removeAll.core s.writeCacheList)
    rw [removeAll_core]
    exact .single Move.reset
  | clearHTTPCache wr rd => exact clearHTTPCache_moves wr rd
  | resetHTTPCache => exact (Relation.ReflTransGen.single Move.dropPending).tail Move.reset

theorem step_wf (hwf : s.core.WF) (op : Op) : (s.step op).core.WF :=
  (step_moves (G := fun _ _ => True) hwf op (fun _ _ _ => trivial)).wf hwf

end

end Manager

end

end Wkc
