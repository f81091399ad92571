import WkcBrowser.Cache.Index
import WkcBrowser.Cache.Objects

/-!
# What the cache serves for a URL

`mostRecent` is the last response of a run that could be cached under a URL.  The index is searched by
the exact text of the URL, the waiting resources up to letter case, so a response can end up in the
resource of another URL.

* `writeBody_unsplit`     a transfer without short writes leaves the body in the file;
* `Stored`                a resource holds what a response brought;
* `Exact`                 a response meets the resource of its own URL, and a written body is intact;
* `key_sound`             in a run of such steps, what `resourceForURL` returns is the most recent
                          response for that URL.
-/

set_option linter.unusedSectionVars false

namespace Wkc
open Wkc.Core

section
variable [FilePeers]

/-! ## the transfer of a body -/

namespace HTTPCachedResource

/-- an `int` holds the size, and no call takes only a part of the piece it is given -/
def Unsplit (data : SharedBuffer) (io : FileIo) : Prop :=
  data.size < 2 ^ 31 ∧
    data.pieces.map (fun s => (s.length : Int)) <+: io.counts.filter (fun n => decide (n ≠ 0))

theorem writePiece_done {buf : Bytes} {writelength : Int} (h : writelength ≤ 0) (counts : List Int) (file : Bytes) :
    writePiece buf writelength counts file = (true, counts, file) := by
  cases counts with
  | nil => rw [writePiece, decide_eq_true h]
  | cons written counts => rw [writePiece, if_pos h]

theorem writePiece_whole {buf : Bytes} (hbuf : buf ≠ []) (file : Bytes) (cs : List Int) :
    ∀ counts : List Int, counts.filter (fun n => decide (n ≠ 0)) = (buf.length : Int) :: cs →
      ∃ rest, writePiece buf buf.length counts file = (true, rest, file ++ buf) ∧
        rest.filter (fun n => decide (n ≠ 0)) = cs := by
  have hpos : 0 < buf.length := List.length_pos_of_ne_nil hbuf
  intro counts
  induction counts with
  | nil => intro h; cases h
  | cons n counts ih =>
    intro h
    have hlen : ¬ ((buf.length : Int) ≤ 0) := by omega
    by_cases hn : n = 0
    · subst hn
      rw [List.filter_cons_of_neg (by simp)] at h
      obtain ⟨rest, hwrite, hrest⟩ := ih h
      refine ⟨rest, ?_, hrest⟩
      rw [writePiece, if_neg hlen, if_neg (Int.lt_irrefl 0), Int.sub_zero]
      have hmin : (min (0 : Int) buf.length).toNat = 0 := by omega
      rw [hmin, List.take_zero, List.append_nil]
      exact hwrite
    · rw [List.filter_cons_of_pos (by simpa using hn)] at h
      obtain ⟨rfl, hrest⟩ := List.cons.inj h
      refine ⟨counts, ?_, hrest⟩
      rw [writePiece, if_neg hlen, if_neg (by omega), Int.sub_self, writePiece_done (Int.le_refl 0)]
      have hmin : (min (buf.length : Int) buf.length).toNat = buf.length := by omega
      rw [hmin, List.take_length]

theorem getSome_next (done : List Bytes) {s : Bytes} (hs : s ≠ []) (todo : List Bytes) :
    SharedBuffer.getSome (done ++ s :: todo) done.flatten.length = s := by
  induction done with
  | nil =>
    show (if 0 < s.length then s.drop 0 else _) = s
    rw [if_pos (List.length_pos_of_ne_nil hs)]
    rfl
  | cons d done ih =>
    show (if (d :: done).flatten.length < d.length then _ else SharedBuffer.getSome _ _) = s
    have hlen : (d :: done).flatten.length = d.length + done.flatten.length := by simp
    rw [hlen, if_neg (by omega), Nat.add_sub_cancel_left]
    exact ih

theorem writeLoop_whole (data : SharedBuffer) (extra : List Int) (todo : List Bytes) :
    ∀ (fuel : Nat) (done : List Bytes) (counts : List Int), data.pieces = done ++ todo →
      todo.length ≤ fuel →
      counts.filter (fun n => decide (n ≠ 0)) = todo.map (fun s => (s.length : Int)) ++ extra →
      writeLoop data fuel todo.flatten.length done.flatten.length counts done.flatten
        = (true, data.contents) := by
  induction todo with
  | nil =>
    intro fuel done counts hpieces _ _
    have hall : data.contents = done.flatten := by
      rw [SharedBuffer.contents, hpieces, List.append_nil]
    rw [hall]
    cases fuel with
    | zero | succ => rfl
  | cons s todo ih =>
    intro fuel done counts hpieces hfuel hcounts
    have hs : s ≠ [] := data.pieces_ne s (by rw [hpieces]; simp)
    have hpos : 0 < s.length := List.length_pos_of_ne_nil hs
    have hnext : data.getSomeData done.flatten.length = s := by
      rw [SharedBuffer.getSomeData, hpieces]
      exact getSome_next done hs todo
    obtain ⟨rest, hwrite, hrest⟩ := writePiece_whole hs done.flatten _ counts hcounts
    have hlen : (s :: todo).flatten.length = s.length + todo.flatten.length := by simp
    have hdone : (done ++ [s]).flatten = done.flatten ++ s := by simp
    cases fuel with
    | zero => exact absurd hfuel (Nat.not_succ_le_zero _)
    | succ fuel =>
      rw [writeLoop, if_neg (by omega)]
      simp only [hnext]
      rw [if_neg (by omega), hwrite]
      have hstep := ih fuel (done ++ [s]) rest (by rw [hpieces]; simp) (Nat.le_of_succ_le_succ hfuel) hrest
      rw [hdone, List.length_append] at hstep
      have hleft : ((s :: todo).flatten.length : Int) - s.length = todo.flatten.length := by omega
      show writeLoop data fuel (((s :: todo).flatten.length : Int) - s.length)
        (done.flatten.length + s.length) rest (done.flatten ++ s) = _
      rw [hleft]
      exact hstep

theorem length_le_flatten (l : List Bytes) (h : ∀ s ∈ l, s ≠ []) : l.length ≤ l.flatten.length := by
  induction l with
  | nil => exact Nat.le_refl 0
  | cons s l ih =>
    have hs := List.length_pos_of_ne_nil (h s List.mem_cons_self)
    have hl := ih (fun t ht => h t (List.mem_cons_of_mem s ht))
    rw [List.flatten_cons, List.length_append, List.length_cons]
    omega

theorem writeBody_unsplit {data : SharedBuffer} {io : FileIo} (h : Unsplit data io) :
    writeBody data io = (true, data.contents) := by
  obtain ⟨hsize, extra, hcounts⟩ := h
  rw [writeBody, toInt32_of_lt hsize]
  exact writeLoop_whole data extra data.pieces data.size [] io.counts rfl
    (length_le_flatten data.pieces data.pieces_ne) hcounts.symm

/-- an entry without what the cache itself keeps in it -/
def responseFields (r : HTTPCachedResource) : HTTPCachedResource :=
  { r with fileName := [], resourceData := none, resourceSize := 0, used := false }

theorem written_fields {r : HTTPCachedResource} {data : SharedBuffer}
    (h : r.contentLength = Int64.ofNat data.size) (filename : WString) :
    (r.written data filename).responseFields = r.responseFields := by
  show ({ r.responseFields with contentLength := Int64.ofNat data.size } : HTTPCachedResource) = _
  rw [← h]
  rfl

end HTTPCachedResource

open HTTPCachedResource

/-! ## responses -/

def Response.cacheable (a : Response) : Bool := !a.refused && !a.noStore

theorem Response.make_flags (a : Response) (data : SharedBuffer) :
    (a.make data).httpequivflags = 0 := by
  show (0 : UInt32) ||| 0 = 0
  decide

theorem Response.onto_fields {a : Response} {r : HTTPCachedResource} {data : SharedBuffer}
    (hurl : r.url = cacheKey a.url) (hflags : r.httpequivflags = 0) :
    (a.onto r data).responseFields = (a.make data).responseFields := by
  simp [Response.onto, Response.make, responseFields, HTTPCachedResource.update, setResourceData,
    setResourceResponse, HTTPCachedResource.create, hurl, hflags, cacheKey]

namespace Manager

/-- the response that an operation brings for a cache key -/
def cached (key : WString) : Op → Option Response
  | .addHTTPCache a => if a.cacheable = true ∧ cacheKey a.url = key then some a else none
  | _ => none

/-- the last cacheable response for a cache key -/
def mostRecent (ops : List Op) (key : WString) : Option Response :=
  (ops.filterMap (cached key)).getLast?

theorem mostRecent_other {ops : List Op} {op : Op} {key : WString} (h : cached key op = none) :
    mostRecent (ops ++ [op]) key = mostRecent ops key := by
  simp [mostRecent, List.filterMap_append, h]

theorem mostRecent_last {ops : List Op} {op : Op} {key : WString} {a : Response}
    (h : cached key op = some a) : mostRecent (ops ++ [op]) key = some a := by
  simp [mostRecent, List.filterMap_append, h]

/-- the resource holds what this response, the most recent for its URL, brought -/
structure Stored (past : List Op) (r : HTTPCachedResource) (a : Response) (data : SharedBuffer) : Prop where
  recent : mostRecent past r.url = some a
  body : a.resourceData = some data
  fields : r.responseFields = (a.make data).responseFields

theorem Stored.url {past : List Op} {r : HTTPCachedResource} {a : Response} {data : SharedBuffer}
    (h : Stored past r a data) : r.url = cacheKey a.url := congrArg HTTPCachedResource.url h.fields

theorem Stored.flags {past : List Op} {r : HTTPCachedResource} {a : Response} {data : SharedBuffer}
    (h : Stored past r a data) : r.httpequivflags = 0 :=
  (congrArg HTTPCachedResource.httpequivflags h.fields).trans (a.make_flags data)

theorem Stored.length {past : List Op} {r : HTTPCachedResource} {a : Response} {data : SharedBuffer}
    (h : Stored past r a data) : r.contentLength = Int64.ofNat data.size :=
  congrArg HTTPCachedResource.contentLength h.fields

theorem Stored.other {past : List Op} {r : HTTPCachedResource} {a : Response} {data : SharedBuffer}
    {op : Op} (h : Stored past r a data) (hop : cached r.url op = none) :
    Stored (past ++ [op]) r a data :=
  ⟨by rw [mostRecent_other hop]; exact h.recent, h.body, h.fields⟩

/-! ## the invariant -/

structure Faithful (past : List Op) (s : Manager) : Prop where
  indexed : s.core.Indexed
  apart : s.cache.Apart
  listed : ∀ p ∈ s.cache.resourceList, ∃ a data, Stored past (s.cache.res p) a data ∧
    s.cache.files.lookup (s.cache.fileFullPath p) = some data.contents
  waiting : ∀ p ∈ s.writeCacheList, ∃ a data, Stored past (s.cache.res p) a data ∧
    (s.cache.res p).resourceData = some data

/-- A response that is not for an entry meets a waiting resource of the very same URL.  A body goes to
a file that neither an entry nor the FAT uses, by a transfer without short writes. -/
def Exact (s : Manager) : Op → Prop
  | .addHTTPCache a => a.cacheable = true → s.cache.resourceForURL a.url = none →
      ∀ n p, s.findPending a.url = some n → s.writeCacheList[n]? = some p →
        s.cache.url p = cacheKey a.url
  | .writeCacheTimerCallback busy io _ => busy = false →
      ∀ p rest data, s.writeCacheList = p :: rest → (s.cache.res p).resourceData = some data →
        io.fopen s.cache.nextFullPath = true →
        (∀ q ∈ s.cache.resourceList, s.cache.fileFullPath q ≠ s.cache.nextFullPath) ∧
        ((writeBody data io).1 = true →
          s.cache.nextFullPath ≠ s.cache.fatFullPath ∧ Unsplit data io)
  | _ => True

section
variable {past : List Op} {s s' : Manager} {op : Op} {l v : List Ptr} {lost : List WString}

theorem unknown_target {url : KURL} (h : s.core.Indexed) (ht : s.target url = none) :
    ∀ q, s.core.Known q → s.cache.url q ≠ cacheKey url := by
  rw [target] at ht
  split at ht
  · cases ht
  · next hindex =>
    refine h.unknown hindex ?_
    cases hf : s.findPending url with
    | none => exact findPending_none hf
    | some n =>
      obtain ⟨hlt, _⟩ := List.findIdx?_eq_some_iff_getElem.mp hf
      rw [hf, Option.bind_some, List.getElem?_eq_getElem hlt] at ht
      cases ht

theorem cached_cacheable {key : WString} {a b : Response}
    (h : cached key (.addHTTPCache a) = some b) : a.refused = false ∧ a.noStore = false ∧ cacheKey a.url = key := by
  rw [cached] at h
  split at h
  · next hc => simpa [Response.cacheable, and_assoc] using hc
  · cases h

theorem Faithful.listed_kept (h : Faithful past s)
    (hk : Kept s.cache s.writeCacheList s'.cache l v lost)
    (hover : ∀ q ∈ l, s.cache.fileFullPath q ∉ lost)
    (hkey : ∀ q ∈ l, cached (s.cache.url q) op = none) :
    ∀ p ∈ l, ∃ a data, Stored (past ++ [op]) (s'.cache.res p) a data ∧
      s'.cache.files.lookup (s'.cache.fileFullPath p) = some data.contents := by
  intro p hp
  obtain ⟨a, data, hstored, hfile⟩ := h.listed p (hk.list.subset hp)
  have hnew := hstored.other (hkey p hp)
  obtain ⟨b, hb⟩ := hk.listed p hp
  refine ⟨a, data, ?_, ?_⟩
  · rw [hb]
    exact ⟨hnew.recent, hnew.body, hnew.fields⟩
  · rw [hk.path hp, hk.bodies h.apart p hp (hover p hp)]
    exact hfile

theorem Faithful.waiting_kept (h : Faithful past s)
    (hk : Kept s.cache s.writeCacheList s'.cache l v lost)
    (hkey : ∀ q ∈ v, cached (s.cache.url q) op = none) :
    ∀ p ∈ v, ∃ a data, Stored (past ++ [op]) (s'.cache.res p) a data ∧
      (s'.cache.res p).resourceData = some data := by
  intro p hp
  obtain ⟨a, data, hstored, hdata⟩ := h.waiting p (hk.wait.subset hp)
  have hnew := hstored.other (hkey p hp)
  refine ⟨a, data, ?_, ?_⟩
  · rw [hk.waiting p hp]
    exact hnew
  · rw [hk.waiting p hp]
    exact hdata

theorem Faithful.appended {p : Ptr} {a : Response} {data : SharedBuffer} (h : Faithful past s)
    (hindexed : s'.core.Indexed) (hop : op = .addHTTPCache a) (hcacheable : a.cacheable = true)
    (hdata : a.resourceData = some data) (hw : s'.writeCacheList = v ++ [p])
    (hk : Kept s.cache s.writeCacheList s'.cache s'.cache.resourceList v [])
    (hfields : (s'.cache.res p).responseFields = (a.make data).responseFields)
    (hbody : (s'.cache.res p).resourceData = some data)
    (hother : ∀ q, q ∈ s'.cache.resourceList ∨ q ∈ v → s.cache.url q ≠ cacheKey a.url) :
    Faithful (past ++ [op]) s' := by
  have hurl : (s'.cache.res p).url = cacheKey a.url := congrArg HTTPCachedResource.url hfields
  have hkey : ∀ q, q ∈ s'.cache.resourceList ∨ q ∈ v → cached (s.cache.url q) op = none := by
    intro q hq
    rw [hop, cached, if_neg]
    exact fun hc => hother q hq hc.2.symm
  have hnew : cached (s'.cache.res p).url op = some a := by
    rw [hop, cached, if_pos ⟨hcacheable, hurl.symm⟩]
  refine ⟨hindexed, hk.apart h.apart, ?_, ?_⟩
  · exact h.listed_kept hk (fun _ _ => List.not_mem_nil) (fun q hq => hkey q (.inl hq))
  · intro q hq
    rw [hw] at hq
    rcases List.mem_append.mp hq with hq | hq
    · exact h.waiting_kept hk (fun q hq => hkey q (.inr hq)) q hq
    · rw [List.mem_singleton.mp hq]
      exact ⟨a, data, ⟨mostRecent_last hnew, hdata, hfields⟩, hbody⟩

theorem target_url {a : Response} {p : Ptr} (h : Faithful past s) (hC : s.Exact (.addHTTPCache a))
    (hcacheable : a.cacheable = true) (ht : s.target a.url = some p) :
    s.core.Known p ∧ s.cache.url p = cacheKey a.url := by
  rw [target] at ht
  split at ht
  · next q hindex =>
    obtain rfl := Option.some.inj ht
    obtain ⟨hmem, hurl⟩ := h.indexed.wf.index _ _ hindex
    exact ⟨.inl hmem, hurl⟩
  · next hindex =>
    obtain ⟨n, hf, hget⟩ := Option.bind_eq_some_iff.mp ht
    exact ⟨.inr (List.mem_of_getElem? hget), hC hcacheable hindex n p hf hget⟩

theorem Faithful.known (h : Faithful past s) {p : Ptr} (hp : s.core.Known p) :
    ∃ a data, Stored past (s.cache.res p) a data := by
  rcases hp with hp | hp
  · obtain ⟨a, data, hstored, _⟩ := h.listed p hp
    exact ⟨a, data, hstored⟩
  · obtain ⟨a, data, hstored, _⟩ := h.waiting p hp
    exact ⟨a, data, hstored⟩

theorem Faithful.updated {a : Response} {data : SharedBuffer} {p : Ptr} (h : Faithful past s)
    (hindexed : s'.core.Indexed) (hop : op = .addHTTPCache a) (hC : s.Exact op)
    (hcacheable : a.cacheable = true) (hdata : a.resourceData = some data)
    (ht : s.target a.url = some p) (hw : s'.writeCacheList = v ++ [p])
    (hres : s'.cache.res p = a.onto (s.cache.res p) data)
    (hk : Kept s.cache s.writeCacheList s'.cache s'.cache.resourceList v []) :
    Faithful (past ++ [op]) s' := by
  obtain ⟨hknown, hurl⟩ := target_url h (hop ▸ hC) hcacheable ht
  obtain ⟨a', data', hstored⟩ := h.known hknown
  refine h.appended hindexed hop hcacheable hdata hw hk ?_ ?_ ?_
  · rw [hres]
    exact Response.onto_fields hurl hstored.flags
  · rw [hres]
    rfl
  · intro q hq hsame
    have hqknown : s.core.Known q := hq.imp (fun hq => hk.list.subset hq) (fun hq => hk.wait.subset hq)
    have hqp : q = p := h.indexed.unique q p hqknown hknown (hsame.trans hurl.symm)
    subst hqp
    have hlast : q ∈ s'.writeCacheList := by
      rw [hw]
      exact List.mem_append_right _ (List.mem_singleton_self q)
    rcases hq with hq | hq
    · exact hindexed.wf.disjoint q hq hlast
    · have hnd : (v ++ [q]).Nodup := hw ▸ hindexed.wf.pending_nodup
      exact (List.nodup_append.mp hnd).2.2 q hq q (List.mem_singleton_self q) rfl

theorem Faithful.written {io : FileIo} {fat : FatIo} {p : Ptr} {data : SharedBuffer}
    (h : Faithful past s) (hindexed : s'.core.Indexed) (hop : op = .writeCacheTimerCallback false io fat)
    (hC : s.Exact op) (hw : s.writeCacheList = p :: s'.writeCacheList)
    (hdata : (s.cache.res p).resourceData = some data) (hopen : io.fopen s.cache.nextFullPath = true)
    (hbody : (writeBody data io).1 = true) (hlist : s'.cache.resourceList = l ++ [p])
    (hres : s'.cache.res p = (s.cache.res p).written data (HTTPCache.formatFileName s.cache.fileNumber))
    (hfile : s.cache.nextFullPath ≠ s.cache.fatFullPath →
      s'.cache.files.lookup s.cache.nextFullPath = some (writeBody data io).2)
    (hk : Kept s.cache s.writeCacheList s'.cache l s'.writeCacheList (s.cache.touched io)) :
    Faithful (past ++ [op]) s' := by
  subst hop
  obtain ⟨hfresh, hwhole⟩ := hC rfl p _ data hw hdata hopen
  obtain ⟨hfat, hunsplit⟩ := hwhole hbody
  have hp : p ∈ s.writeCacheList := by rw [hw]; exact List.mem_cons_self
  obtain ⟨a, data', hstored, hdata'⟩ := h.waiting p hp
  rw [hdata] at hdata'
  obtain rfl := Option.some.inj hdata'
  have hpath : s'.cache.fileFullPath p = s.cache.nextFullPath := by
    rw [HTTPCache.fileFullPath, hres, hk.filePath]
    rfl
  have hpaths : ∀ q ∈ l, s'.cache.fileFullPath q ≠ s.cache.nextFullPath := by
    intro q hq
    rw [hk.path hq]
    exact hfresh q (hk.list.subset hq)
  have hcases : ∀ {q : Ptr}, q ∈ s'.cache.resourceList → q ∈ l ∨ q = p := by
    intro q hq
    rw [hlist] at hq
    exact (List.mem_append.mp hq).imp_right List.mem_singleton.mp
  have hfatpath : s'.cache.fatFullPath = s.cache.fatFullPath := by
    rw [HTTPCache.fatFullPath, hk.filePath, hk.fatFileName]
    rfl
  refine ⟨hindexed, ⟨?_, ?_⟩, ?_, h.waiting_kept hk (fun _ _ => rfl)⟩
  · intro q hq q' hq' heq
    rcases hcases hq with hq | rfl
    · rcases hcases hq' with hq' | rfl
      · rw [hk.path hq, hk.path hq'] at heq
        exact h.apart.entries q (hk.list.subset hq) q' (hk.list.subset hq') heq
      · exact absurd (heq.trans hpath) (hpaths q hq)
    · rcases hcases hq' with hq' | rfl
      · exact absurd (heq.symm.trans hpath) (hpaths q' hq')
      · rfl
  · intro q hq
    rw [hfatpath]
    rcases hcases hq with hq | rfl
    · rw [hk.path hq]
      exact h.apart.fat q (hk.list.subset hq)
    · rw [hpath]
      exact hfat
  · intro q hq
    rcases hcases hq with hq | rfl
    · refine h.listed_kept hk ?_ (fun _ _ => rfl) q hq
      intro r hr
      rw [HTTPCache.touched, if_pos hopen]
      exact fun hmem => hfresh r (hk.list.subset hr) (List.mem_singleton.mp hmem)
    · have hnew : Stored (past ++ [.writeCacheTimerCallback false io fat]) (s.cache.res q) a data :=
        hstored.other rfl
      refine ⟨a, data, ?_, ?_⟩
      · rw [hres]
        exact ⟨hnew.recent, hnew.body, (written_fields hnew.length _).trans hnew.fields⟩
      · rw [hpath, hfile hfat, writeBody_unsplit hunsplit]

theorem Faithful.step (h : Faithful past s) (op : Op) (hC : s.Exact op) :
    Faithful (past ++ [op]) (s.step op) := by
  have hindexed : (s.step op).core.Indexed :=
    Moves.indexed (step_moves (G := fun _ _ => True) h.indexed.wf op (fun _ _ _ => trivial)) h.indexed
  have hcacheable : ∀ a : Response, a.refused = false → a.noStore = false → a.cacheable = true := by
    intro a hr hn
    simp [Response.cacheable, hr, hn]
  cases step_outcome h.indexed.wf op with
  | kept hnone hk =>
    have hkey : ∀ q, s.core.Known q → cached (s.cache.url q) op = none := by
      intro q hq
      cases hc : cached (s.cache.url q) op with
      | none => rfl
      | some b =>
        cases op with
        | addHTTPCache a =>
          obtain ⟨hr, hn, hurl⟩ := cached_cacheable hc
          exact absurd hurl.symm (unknown_target h.indexed (hnone a rfl hr hn) q hq)
        | _ => cases hc
    exact ⟨hindexed, hk.apart h.apart,
      h.listed_kept hk (fun _ _ => List.not_mem_nil) (fun q hq => hkey q (.inl (hk.list.subset hq))),
      h.waiting_kept hk (fun q hq => hkey q (.inr (hk.wait.subset hq)))⟩
  | @failed io fat p hop hw hk =>
    subst hop
    refine ⟨hindexed, hk.apart h.apart, h.listed_kept hk ?_ (fun _ _ => rfl),
      h.waiting_kept hk (fun _ _ => rfl)⟩
    intro q hq
    have hp : p ∈ s.writeCacheList := by rw [hw]; exact List.mem_cons_self
    obtain ⟨_, data, _, hdata⟩ := h.waiting p hp
    unfold HTTPCache.touched
    split
    · next hopen =>
      have hfresh := (hC rfl p _ data hw hdata hopen).1
      exact fun hmem => hfresh q (hk.list.subset hq) (List.mem_singleton.mp hmem)
    · exact List.not_mem_nil
  | written hop hw hdata hopen hbody hlist hres hfile hk =>
    exact h.written hindexed hop hC hw hdata hopen hbody hlist hres hfile hk
  | updated hop hr hn hdata ht hw hres hk =>
    exact h.updated hindexed hop hC (hcacheable _ hr hn) hdata ht hw hres hk
  | created hop hr hn hdata ht hw hres hk =>
    refine h.appended hindexed hop (hcacheable _ hr hn) hdata hw hk (by rw [hres]) (by rw [hres]; rfl) ?_
    intro q hq
    apply unknown_target h.indexed ht
    exact hq.imp (fun hq => hk.list.subset hq) (fun hq => hq)

end

theorem fresh_faithful {c : HTTPCache} (h : c.Fresh) : Faithful [] { cache := c } := by
  have hempty : ∀ p, p ∉ c.resourceList := by
    intro p hp
    rw [h.resourceList] at hp
    exact List.not_mem_nil hp
  refine ⟨fresh_indexed h, ⟨?_, ?_⟩, ?_, ?_⟩
  · exact fun p hp => absurd hp (hempty p)
  · exact fun p hp => absurd hp (hempty p)
  · exact fun p hp => absurd hp (hempty p)
  · exact fun p hp => absurd hp List.not_mem_nil

/-- **What the cache serves.**  In a run whose steps are all exact, the resource that `resourceForURL`
returns has the fields and the body of the most recent cacheable response whose URL, without its
fragment, is exactly the one asked for. -/
theorem key_sound {c : HTTPCache} (hc : c.Fresh) (ops : List Op)
    (hC : Runs.Along step Exact { cache := c } ops) :
    ∀ pre, pre <+: ops → ∀ u p, (Runs.run step { cache := c } pre).cache.resourceForURL u = some p →
      ∃ a data, mostRecent pre (cacheKey u) = some a ∧ cacheKey a.url = cacheKey u ∧
        a.resourceData = some data ∧
        ((Runs.run step { cache := c } pre).cache.res p).responseFields = (a.make data).responseFields ∧
        (Runs.run step { cache := c } pre).cache.files.lookup
          ((Runs.run step { cache := c } pre).cache.fileFullPath p) = some data.contents := by
  rintro pre ⟨post, rfl⟩ u p hp
  have hrun : Faithful pre (Runs.run step { cache := c } pre) :=
    Runs.Along.inv_history (P := Faithful) (fun _ _ op hC h => h.step op hC) hC.left
      (fresh_faithful hc)
  obtain ⟨hmem, hurl⟩ := hrun.indexed.wf.index _ p hp
  obtain ⟨a, data, hstored, hfile⟩ := hrun.listed p hmem
  have hkey : mostRecent pre (cacheKey u) = some a := hurl ▸ hstored.recent
  exact ⟨a, data, hkey, hstored.url.symm.trans hurl, hstored.body, hstored.fields, hfile⟩

end Manager

end

namespace Manager
open Sample

theorem key_sound_page : HTTPCache.Fresh {} ∧
    (Runs.run step {} [got (page 1) byte, tick byte]).cache.resourceForURL (page 1) = some 0 ∧
    ∃ a data, mostRecent [got (page 1) byte, tick byte] (cacheKey (page 1)) = some a ∧
      a.resourceData = some data ∧
      (Runs.run step {} [got (page 1) byte, tick byte]).cache.files.lookup
        ((Runs.run step {} [got (page 1) byte, tick byte]).cache.fileFullPath 0)
          = some data.contents := by
  have hfresh : HTTPCache.Fresh {} := ⟨rfl, rfl, rfl, rfl, rfl⟩
  have hfound : (Runs.run step {} [got (page 1) byte, tick byte]).cache.resourceForURL (page 1)
      = some 0 := by decide +kernel
  have hexact : Runs.Along step Exact {} [got (page 1) byte, tick byte] := by
    refine ⟨?_, ?_, trivial⟩
    · intro _ _ n p hf
      cases hf
    · intro _ p rest data hw hdata _
      have hlist : (step {} (got (page 1) byte)).writeCacheList = [0] := by decide +kernel
      obtain ⟨rfl, _⟩ := List.cons.inj (hlist.symm.trans hw)
      have hbody : ((step {} (got (page 1) byte)).cache.res 0).resourceData = some byte := by
        decide +kernel
      obtain rfl := Option.some.inj (hbody.symm.trans hdata)
      have hempty : (step {} (got (page 1) byte)).cache.resourceList = [] := by decide +kernel
      refine ⟨?_, fun _ => ⟨by decide +kernel, by decide, by decide⟩⟩
      intro q hq
      rw [hempty] at hq
      exact absurd hq List.not_mem_nil
  obtain ⟨a, data, hrecent, _, hdata, _, hfile⟩ :=
    key_sound hfresh _ hexact _ (List.prefix_refl _) (page 1) 0 hfound
  exact ⟨hfresh, hfound, a, data, hrecent, hdata, hfile⟩

/-- the response for `http://a/x` lands in the resource of `http://a/X` -/
theorem key_confused : HTTPCache.Fresh {} ∧
    ¬ ∀ u p, (Runs.run step {} [got (page 0x58) byte, got (page 0x78) bytes2,
          tick bytes2]).cache.resourceForURL u = some p →
      ∃ a data, mostRecent [got (page 0x58) byte, got (page 0x78) bytes2, tick bytes2] (cacheKey u)
          = some a ∧ a.resourceData = some data ∧
        (Runs.run step {} [got (page 0x58) byte, got (page 0x78) bytes2, tick bytes2]).cache.files.lookup
          ((Runs.run step {} [got (page 0x58) byte, got (page 0x78) bytes2,
            tick bytes2]).cache.fileFullPath p) = some data.contents := by
  refine ⟨⟨rfl, rfl, rfl, rfl, rfl⟩, ?_⟩
  intro h
  obtain ⟨a, data, hrecent, hdata, hfile⟩ := h (page 0x58) 0 (by decide +kernel)
  have hbody : (mostRecent [got (page 0x58) byte, got (page 0x78) bytes2, tick bytes2]
      (cacheKey (page 0x58))).bind Response.resourceData = some byte := by decide +kernel
  rw [hrecent, Option.bind_some, hdata] at hbody
  obtain rfl := Option.some.inj hbody
  have hother : (Runs.run step {} [got (page 0x58) byte, got (page 0x78) bytes2,
      tick bytes2]).cache.files.lookup ((Runs.run step {} [got (page 0x58) byte,
        got (page 0x78) bytes2, tick bytes2]).cache.fileFullPath 0) = some [2, 3] := by
    decide +kernel
  rw [hother] at hfile
  exact absurd hfile (by decide +kernel)

end Manager

end Wkc
