import WkcBrowser.Cache.Capacity

/-!
# Which entries an eviction takes

`purgeBySizeInternal` removes by position while it goes through the list; which entries it takes is a
matter of the lengths and the used flags alone.

* `victims`                 the entries that one round takes, of those it may take;
* `evict`                   the cache without some of its entries, and without their files;
* `purgeLoop_evicts`        a round takes its victims;
* `purgeScan_eq`            the loop over the positions ends, and does what `purgeLoop` does;
* `purgeBySizeFor_evicts`   the two rounds of `purgeBySize`;
* `makeRoom_iff`            when `createHTTPCachedResource` finds room.
-/

set_option linter.unusedSectionVars false

namespace Wkc
open Wkc.Core

section
variable [FilePeers]

namespace HTTPCache

/-! ## the loops over the positions -/

/-- `purgeBySizeInternal`, by the position that it has reached -/
def purgeScan (size : Int) : Nat → Nat → Int → HTTPCache → Option (Int × HTTPCache)
  | 0, _, _, _ => none
  | fuel + 1, num, purgedSize, c =>
    match c.resourceList[num]? with
    | none => some (purgedSize, c)
    | some p =>
      if (c.res p).used then purgeScan size fuel (num + 1) purgedSize c
      else
        let purgedSize := purgedSize + c.contentLength p
        let c := c.removeResourceByNumber num
        if size < purgedSize then some (purgedSize, c) else purgeScan size fuel num purgedSize c

def purgeBySizeFor (fuel : Nat) (c : HTTPCache) (size : Int) : Option (Int × HTTPCache) := do
  let (purgedSize, c) ← purgeScan size fuel 0 0 c
  if purgedSize < size then
    let (more, c) ← purgeScan (size - purgedSize) fuel 0 0 (clearUsed c.resourceList c)
    return (purgedSize + more, c)
  else return (purgedSize, c)

theorem purgeScan_eq (size : Int) (fuel : Nat) : ∀ (num : Nat) (purged : Int) (c : HTTPCache),
    c.resourceList.length - num < fuel →
    purgeScan size fuel num purged c = some (purgeLoop size (c.resourceList.drop num) num purged c) := by
  induction fuel with
  | zero => intro num purged c h; exact absurd h (Nat.not_lt_zero _)
  | succ fuel ih =>
    intro num purged c hfuel
    rw [purgeScan]
    rcases Nat.lt_or_ge num c.resourceList.length with hlt | hge
    · have hdrop : c.resourceList.drop num = c.resourceList[num] :: c.resourceList.drop (num + 1) :=
        List.drop_eq_getElem_cons hlt
      have hnext : (c.removeResourceByNumber num).resourceList.drop num = c.resourceList.drop (num + 1) := by
        rw [removeResourceByNumber_list, eraseIdx_drop]
      have hshort : (c.removeResourceByNumber num).resourceList.length = c.resourceList.length - 1 := by
        rw [removeResourceByNumber_list, List.length_eraseIdx_of_lt hlt]
      rw [List.getElem?_eq_getElem hlt, hdrop, purgeLoop_cons]
      dsimp only
      split
      · exact ih _ _ _ (by omega)
      · split
        · rfl
        · rw [ih _ _ _ (by omega), hnext]
    · rw [List.getElem?_eq_none hge, List.drop_of_length_le hge]
      rfl

/-! ## the entries that a round takes -/

/-- the oldest ones, up to the one whose length passes the size -/
def victims (length : Ptr → Int) (size : Int) : List Ptr → List Ptr
  | [] => []
  | p :: rest => p :: if size < length p then [] else victims length (size - length p) rest

def unused (c : HTTPCache) : List Ptr := c.resourceList.filter (fun p => !(c.res p).used)

def inUse (c : HTTPCache) : List Ptr := c.resourceList.filter (fun p => (c.res p).used)

/-- the sum of the lengths of some entries -/
def lengths (c : HTTPCache) (out : List Ptr) : Int := (out.map c.contentLength).sum

def evict (c : HTTPCache) (out : List Ptr) : HTTPCache := out.foldl remove c

section
variable {length : Ptr → Int} {size : Int} {c : HTTPCache} {w : List Ptr}

theorem victims_leading (length : Ptr → Int) (l : List Ptr) :
    ∀ size, victims length size l <+: l := by
  induction l with
  | nil => intro size; exact List.prefix_refl []
  | cons p rest ih =>
    intro size
    rw [victims]
    refine List.cons_prefix_cons.mpr ⟨rfl, ?_⟩
    split
    · exact List.nil_prefix
    · exact ih _

theorem victims_congr {length length' : Ptr → Int} {l : List Ptr} (h : ∀ p ∈ l, length p = length' p) :
    ∀ size, victims length size l = victims length' size l := by
  induction l with
  | nil => intro size; rfl
  | cons p rest ih =>
    intro size
    have hrest := ih (fun q hq => h q (List.mem_cons_of_mem p hq))
    rw [victims, victims, h p List.mem_cons_self, hrest]

theorem victims_enough (length : Ptr → Int) (l : List Ptr) : ∀ size,
    size < ((victims length size l).map length).sum ∨ victims length size l = l := by
  induction l with
  | nil => intro size; exact .inr rfl
  | cons p rest ih =>
    intro size
    rw [victims, List.map_cons, List.sum_cons]
    split
    · next hpass =>
      refine .inl ?_
      rw [List.map_nil, List.sum_nil]
      omega
    · rcases ih (size - length p) with hmore | hall
      · exact .inl (by omega)
      · exact .inr (by rw [hall])

/-! ## the cache without some entries -/

theorem evict_cons (c : HTTPCache) (p : Ptr) (out : List Ptr) :
    c.evict (p :: out) = (c.remove p).evict out := rfl

theorem remove_res (c : HTTPCache) {p q : Ptr} (h : q ≠ p) : (c.remove p).res q = c.res q :=
  (c.core []).free_res_ne h

theorem remove_path (c : HTTPCache) {p q : Ptr} (h : q ≠ p) :
    (c.remove p).fileFullPath q = c.fileFullPath q := by
  rw [fileFullPath, remove_res c h]
  rfl

theorem evict_list (out : List Ptr) : ∀ c : HTTPCache, c.resourceList.Nodup →
    (c.evict out).resourceList = c.resourceList.filter (fun p => p ∉ out) := by
  induction out with
  | nil =>
    intro c _
    exact (List.filter_eq_self.mpr (by simp)).symm
  | cons p out ih =>
    intro c hnd
    have hrest : (c.remove p).resourceList = c.resourceList.filter (fun q => q != p) :=
      hnd.erase_eq_filter p
    rw [evict_cons, ih _ (hnd.erase p), hrest, List.filter_filter]
    apply List.filter_congr
    intro q _
    rw [Bool.eq_iff_iff]
    simp [and_comm]

theorem evict_res (out : List Ptr) : ∀ c : HTTPCache, ∀ q, q ∉ out → (c.evict out).res q = c.res q := by
  induction out with
  | nil => intro c q _; rfl
  | cons p out ih =>
    intro c q hq
    have hne : q ≠ p := List.ne_of_not_mem_cons hq
    have hout : q ∉ out := List.not_mem_of_not_mem_cons hq
    rw [evict_cons, ih _ q hout, remove_res c hne]

theorem evict_files (out : List Ptr) : ∀ c : HTTPCache, out.Nodup →
    (c.evict out).files = out.foldl (fun files p => files.erase (c.fileFullPath p)) c.files := by
  induction out with
  | nil => intro c _; rfl
  | cons p out ih =>
    intro c hnd
    obtain ⟨hp, hout⟩ := List.nodup_cons.mp hnd
    rw [evict_cons, ih _ hout, List.foldl_cons]
    refine List.foldl_ext _ _ _ ?_
    intro files q hq
    have hne : q ≠ p := fun heq => hp (heq ▸ hq)
    rw [remove_path c hne]

/-! ## a round -/

def round (c : HTTPCache) (size : Int) : List Ptr := victims c.contentLength size c.unused

theorem round_leading (c : HTTPCache) (size : Int) : c.round size <+: c.unused := victims_leading _ _ _

theorem round_enough (c : HTTPCache) (size : Int) :
    size < c.lengths (c.round size) ∨ c.round size = c.unused := victims_enough _ _ _

theorem unused_nodup (hwf : (c.core w).WF) : c.unused.Nodup := hwf.list_nodup.filter _

theorem round_nodup (hwf : (c.core w).WF) (size : Int) : (c.round size).Nodup :=
  (unused_nodup hwf).sublist (round_leading c size).sublist

/-- The position `num` is the start of what is left to go through; an entry that is removed changes
neither the lengths nor the flags of the entries behind it. -/
theorem purgeLoop_evicts (size : Int) (rest : List Ptr) : ∀ (num : Nat) (purged : Int) (c : HTTPCache),
    rest = c.resourceList.drop num → (c.core w).WF →
    purgeLoop size rest num purged c =
      (purged + c.lengths (victims c.contentLength (size - purged)
          (rest.filter (fun p => !(c.res p).used))),
        c.evict (victims c.contentLength (size - purged) (rest.filter (fun p => !(c.res p).used)))) := by
  induction rest with
  | nil =>
    intro num purged c _ _
    exact Prod.ext (Int.add_zero purged).symm rfl
  | cons p rest ih =>
    intro num purged c hrest hwf
    have hget := getElem?_of_drop hrest
    have hp : p ∈ c.resourceList := List.mem_of_getElem? hget
    have htail := drop_next hrest
    have hnext := drop_removed hrest
    have hne := drop_ne hwf.list_nodup hrest
    have hres : ∀ q ∈ rest, (c.remove p).res q = c.res q := fun q hq => remove_res c (hne q hq)
    rw [purgeLoop_cons]
    cases hused : (c.res p).used with
    | true =>
      rw [if_pos rfl, List.filter_cons_of_neg (by rw [hused]; decide)]
      exact ih _ _ _ htail hwf
    | false =>
      rw [if_neg Bool.false_ne_true, List.filter_cons_of_pos (by rw [hused]; rfl), victims]
      rw [removeResourceByNumber_eq hwf.list_nodup hget] at hnext ⊢
      have hfilter : rest.filter (fun q => !((c.remove p).res q).used)
          = rest.filter (fun q => !(c.res q).used) := by
        apply List.filter_congr
        intro q hq
        rw [hres q hq]
      have hlength : ∀ q ∈ rest.filter (fun q => !(c.res q).used),
          (c.remove p).contentLength q = c.contentLength q := by
        intro q hq
        rw [contentLength, hres q (List.mem_of_mem_filter hq)]
        rfl
      by_cases hpass : size < purged + c.contentLength p
      · rw [if_pos hpass, if_pos (by omega)]
        refine Prod.ext ?_ rfl
        simp [lengths]
      · rw [if_neg hpass, if_neg (by omega), ih _ _ _ hnext (remove_wf hwf hp), hfilter,
          victims_congr hlength, ← Int.sub_sub]
        refine Prod.ext ?_ rfl
        have hsum : ∀ size, (c.remove p).lengths (victims c.contentLength size
            (rest.filter (fun q => !(c.res q).used)))
            = c.lengths (victims c.contentLength size (rest.filter (fun q => !(c.res q).used))) := by
          intro size
          refine congrArg List.sum (List.map_congr_left ?_)
          exact fun q hq => hlength q ((victims_leading _ _ _).subset hq)
        dsimp only
        rw [hsum]
        simp only [lengths, List.map_cons, List.sum_cons]
        exact Int.add_assoc ..

theorem purgeBySizeInternal_evicts (hwf : (c.core w).WF) (size : Int) :
    c.purgeBySizeInternal size = (c.lengths (c.round size), c.evict (c.round size)) := by
  have hloop := purgeLoop_evicts (w := w) size c.resourceList 0 0 c rfl hwf
  rw [Int.sub_zero, Int.zero_add] at hloop
  exact hloop

/-! ## the two rounds -/

theorem clearUsed_res (rest : List Ptr) (q : Ptr) :
    ∀ c : HTTPCache, ∃ b, (clearUsed rest c).res q = (c.res q).setUsed b := by
  induction rest with
  | nil => intro c; exact ⟨(c.res q).used, rfl⟩
  | cons p rest ih =>
    intro c
    obtain ⟨b, hb⟩ := ih (c.setRes p ((c.res p).setUsed false))
    refine ⟨b, ?_⟩
    rw [clearUsed, hb]
    by_cases hq : q = p
    · rw [hq, setRes_self]
      rfl
    · rw [setRes_ne c hq]

theorem clearUsed_frame (rest : List Ptr) (c : HTTPCache) :
    (clearUsed rest c).files = c.files ∧ (clearUsed rest c).filePath = c.filePath := by
  induction rest generalizing c with
  | nil => exact ⟨rfl, rfl⟩
  | cons p rest ih => exact ih _

theorem evict_wf (out : List Ptr) : ∀ {c : HTTPCache}, (c.core w).WF → out.Nodup →
    (∀ p ∈ out, p ∈ c.resourceList) → ((c.evict out).core w).WF := by
  induction out with
  | nil => intro c hwf _ _; exact hwf
  | cons p out ih =>
    intro c hwf hnd hmem
    obtain ⟨hp, hout⟩ := List.nodup_cons.mp hnd
    refine ih (remove_wf hwf (hmem p List.mem_cons_self)) hout ?_
    intro q hq
    have hne : q ≠ p := fun heq => hp (heq ▸ hq)
    exact (List.mem_erase_of_ne hne).mpr (hmem q (List.mem_cons_of_mem p hq))

theorem evict_path (out : List Ptr) (c : HTTPCache) : (c.evict out).filePath = c.filePath := by
  induction out generalizing c with
  | nil => rfl
  | cons p out ih => exact ih _

/-- the cache at the start of the second round -/
def cleared (c : HTTPCache) (size : Int) : HTTPCache :=
  clearUsed (c.evict (c.round size)).resourceList (c.evict (c.round size))

theorem purgeBySize_rounds (hwf : (c.core w).WF) (size : Int) : c.purgeBySize size =
    if c.lengths (c.round size) < size then
      (c.lengths (c.round size) +
          ((c.cleared size).purgeBySizeInternal (size - c.lengths (c.round size))).1,
        ((c.cleared size).purgeBySizeInternal (size - c.lengths (c.round size))).2)
    else (c.lengths (c.round size), c.evict (c.round size)) := by
  rw [purgeBySize, purgeBySizeInternal_evicts hwf]
  rfl

/-- what the second round takes -/
def override (c : HTTPCache) (size : Int) : List Ptr :=
  if c.lengths (c.round size) < size then
    victims c.contentLength (size - c.lengths (c.round size)) c.inUse
  else []

theorem round_short {size : Int} (h : c.lengths (c.round size) < size) : c.round size = c.unused := by
  rcases round_enough c size with hmore | hall
  · omega
  · exact hall

theorem not_unused (c : HTTPCache) : c.resourceList.filter (fun p => p ∉ c.unused) = c.inUse := by
  apply List.filter_congr
  intro p hp
  rw [Bool.eq_iff_iff]
  simp [unused, hp]

/-- what the second round finds: the used entries, with the flags cleared and everything else as it was -/
structure Cleared (w : List Ptr) (c d : HTTPCache) (first : List Ptr) : Prop where
  wf : (d.core w).WF
  list : d.resourceList = c.inUse
  unused : d.unused = c.inUse
  length : ∀ p ∈ c.inUse, d.contentLength p = c.contentLength p
  path : ∀ p ∈ c.inUse, d.fileFullPath p = c.fileFullPath p
  files : d.files = first.foldl (fun files p => files.erase (c.fileFullPath p)) c.files

theorem cleared_spec (hwf : (c.core w).WF) {size : Int} (h : c.lengths (c.round size) < size) :
    Cleared w c (c.cleared size) (c.round size) := by
  have hnd := round_nodup hwf size
  have hmem : ∀ p ∈ c.round size, p ∈ c.resourceList := fun p hp =>
    List.mem_of_mem_filter ((round_leading c size).subset hp)
  have hwf1 : ((c.evict (c.round size)).core w).WF := evict_wf _ hwf hnd hmem
  have hlevel : Level w (c.evict (c.round size)) (c.cleared size) :=
    clearUsed_pres Level.mark _ _ (fun _ h => h) ⟨hwf1, rfl⟩
  have hlist : (c.cleared size).resourceList = c.inUse := by
    rw [cleared, clearUsed_list, evict_list _ c hwf.list_nodup, round_short h, not_unused]
  have hres : ∀ p ∈ c.inUse, ∃ b, (c.cleared size).res p = (c.res p).setUsed b := by
    intro p hp
    have hused : (c.res p).used = true := (List.mem_filter.mp hp).2
    have hout : p ∉ c.round size := by
      intro hin
      have hfree := (List.mem_filter.mp ((round_leading c size).subset hin)).2
      rw [hused] at hfree
      cases hfree
    obtain ⟨b, hb⟩ := clearUsed_res (c.evict (c.round size)).resourceList p (c.evict (c.round size))
    exact ⟨b, by rw [cleared, hb, evict_res _ c p hout]⟩
  have hframe := clearUsed_frame (c.evict (c.round size)).resourceList (c.evict (c.round size))
  refine ⟨hlevel.1, hlist, ?_, ?_, ?_, ?_⟩
  · rw [HTTPCache.unused, ← hlist, List.filter_eq_self]
    intro p hp
    rw [cleared, clearUsed_list] at hp
    rw [cleared, clearUsed_unused _ _ p hp]
    rfl
  · intro p hp
    obtain ⟨b, hb⟩ := hres p hp
    rw [contentLength, hb]
    rfl
  · intro p hp
    obtain ⟨b, hb⟩ := hres p hp
    have hpath : (c.cleared size).filePath = c.filePath := hframe.2.trans (evict_path _ c)
    rw [fileFullPath, hb, hpath]
    rfl
  · exact hframe.1.trans (evict_files _ c hnd)

/-- what an eviction by size does, round by round -/
structure EvictsBySize (c : HTTPCache) (size : Int) (out : Int × HTTPCache) (first second : List Ptr) :
    Prop where
  result : out.1 = c.lengths (first ++ second)
  files : out.2.files = (first ++ second).foldl (fun files p => files.erase (c.fileFullPath p)) c.files
  list : out.2.resourceList = c.resourceList.filter (fun p => p ∉ first ++ second)
  enough : size ≤ out.1 ∨ out.2.resourceList = []
  unused : first <+: c.unused
  used : second <+: c.inUse
  overrides : second ≠ [] → first = c.unused ∧ c.lengths c.unused < size

theorem lengths_append (c : HTTPCache) (a b : List Ptr) :
    c.lengths (a ++ b) = c.lengths a + c.lengths b := by
  rw [lengths, List.map_append, List.sum_append]
  rfl

theorem purgeBySize_spec (hwf : (c.core w).WF) (size : Int) :
    EvictsBySize c size (c.purgeBySize size) (c.round size) (c.override size) := by
  have hnd := hwf.list_nodup
  rw [purgeBySize_rounds hwf]
  unfold override
  split
  · next hshort =>
    have hd := cleared_spec hwf hshort
    have hfirst := round_short hshort
    generalize c.cleared size = d at hd
    have hlength : ∀ out, (∀ p ∈ out, p ∈ c.inUse) → d.lengths out = c.lengths out := by
      intro out hout
      exact congrArg List.sum (List.map_congr_left (fun p hp => hd.length p (hout p hp)))
    have hround : ∀ size, d.round size = victims c.contentLength size c.inUse := by
      intro size
      rw [round, hd.unused, victims_congr hd.length]
    have hin : ∀ size, ∀ p ∈ victims c.contentLength size c.inUse, p ∈ c.inUse :=
      fun size p hp => (victims_leading _ _ _).subset hp
    have hlist : (d.evict (d.round (size - c.lengths (c.round size)))).resourceList
        = c.resourceList.filter (fun p => p ∉ c.round size ++
            victims c.contentLength (size - c.lengths (c.round size)) c.inUse) := by
      rw [evict_list _ d hd.wf.list_nodup, hd.list, hround, hfirst, ← not_unused, List.filter_filter]
      apply List.filter_congr
      intro p _
      rw [Bool.eq_iff_iff]
      simp [and_comm]
    rw [purgeBySizeInternal_evicts hd.wf]
    refine ⟨?_, ?_, hlist, ?_, round_leading c size, victims_leading _ _ _, fun _ => ⟨hfirst, ?_⟩⟩
    · rw [lengths_append, hround, hlength _ (hin _)]
    · rw [evict_files _ d (round_nodup hd.wf _), hround, List.foldl_append, ← hd.files]
      refine List.foldl_ext _ _ _ ?_
      intro files p hp
      rw [hd.path p (hin _ p hp)]
    · rcases round_enough d (size - c.lengths (c.round size)) with hmore | hall
      · refine .inl ?_
        rw [hround, hlength _ (hin _)] at hmore
        dsimp only
        rw [hround, hlength _ (hin _)]
        omega
      · refine .inr ?_
        dsimp only
        rw [evict_list _ d hd.wf.list_nodup, hall, hd.unused, hd.list, List.filter_eq_nil_iff]
        intro p hp
        simp [hp]
    · rw [← hfirst]
      exact hshort
  · next hlong =>
    refine ⟨?_, ?_, ?_, .inl (by omega), round_leading c size, List.nil_prefix, fun h => absurd rfl h⟩
    · rw [List.append_nil]
    · rw [List.append_nil, evict_files _ c (round_nodup hwf size)]
    · rw [List.append_nil, evict_list _ c hnd]

theorem removeResourceByNumber_shorter (c : HTTPCache) (n : Nat) :
    (c.removeResourceByNumber n).resourceList.length ≤ c.resourceList.length := by
  rw [removeResourceByNumber_list]
  exact (List.eraseIdx_sublist ..).length_le

theorem purgeBySizeFor_eq {fuel : Nat} (hfuel : c.resourceList.length < fuel) (size : Int) :
    purgeBySizeFor fuel c size = some (c.purgeBySize size) := by
  have hfirst : purgeScan size fuel 0 0 c = some (c.purgeBySizeInternal size) :=
    purgeScan_eq size fuel 0 0 c hfuel
  have hshort : (c.purgeBySizeInternal size).2.resourceList.length ≤ c.resourceList.length :=
    purgeLoop_pres (P := fun d => d.resourceList.length ≤ c.resourceList.length)
      (fun d n _ h => (removeResourceByNumber_shorter d n).trans h) size _ 0 0 c rfl (Nat.le_refl _)
  rw [purgeBySizeFor, hfirst]
  generalize hg : c.purgeBySizeInternal size = g at hshort
  obtain ⟨purged, d⟩ := g
  simp only [purgeBySize, hg, Option.bind_eq_bind, Option.bind_some]
  split
  · have hsecond : purgeScan (size - purged) fuel 0 0 (clearUsed d.resourceList d)
        = some ((clearUsed d.resourceList d).purgeBySizeInternal (size - purged)) := by
      refine purgeScan_eq _ fuel 0 0 _ ?_
      rw [clearUsed_list]
      dsimp only at hshort
      omega
    rw [hsecond]
    rfl
  · rfl

end

/-- The loops end, and take entries off the list as `EvictsBySize` says. -/
theorem purgeBySizeFor_evicts {c : HTTPCache} {w : List Ptr} (hwf : (c.core w).WF) (size : Int)
    {fuel : Nat} (hfuel : c.resourceList.length < fuel) :
    ∃ out first second, purgeBySizeFor fuel c size = some out ∧ EvictsBySize c size out first second :=
  ⟨_, _, _, purgeBySizeFor_eq hfuel size, purgeBySize_spec hwf size⟩

end HTTPCache

end

namespace Manager
open Sample

/-- two pages are cached, of one byte and of two -/
def twoPages : Manager :=
  Runs.run useStep {} [gotten (page 1) byte, ticked byte, gotten (page 2) bytes2, ticked bytes2]

theorem held_run (c : HTTPCache) (h : Configured c) (uses : List Use) :
    Held (Runs.run useStep { cache := c } uses) :=
  Runs.run_inv (P := Held) (fun _ u hs => hs.step u) h.held uses

theorem default_configured : Configured {} :=
  ⟨⟨rfl, rfl, rfl, rfl, rfl⟩, by decide, by decide, by decide⟩

theorem purgeBySizeFor_evicts_twoPages : twoPages.cache.resourceList = [0, 1] ∧
    ∃ out first second, HTTPCache.purgeBySizeFor 3 twoPages.cache 1 = some out ∧
      HTTPCache.EvictsBySize twoPages.cache 1 out first second := by
  have hlist : twoPages.cache.resourceList = [0, 1] := by decide +kernel
  refine ⟨hlist, HTTPCache.purgeBySizeFor_evicts (held_run {} default_configured _).wf 1 ?_⟩
  show twoPages.cache.resourceList.length < 3
  rw [hlist]
  decide

end Manager

section
variable [FilePeers]

namespace HTTPCache

/-! ## room for a resource -/

section
variable {c : HTTPCache} {w : List Ptr} {len : Int}

theorem lengths_ne_zero {out : List Ptr} (hlen : ∀ p ∈ out, 0 ≤ c.contentLength p) :
    0 ≤ c.lengths out ∧ (c.lengths out ≠ 0 ↔ ∃ p ∈ out, c.contentLength p ≠ 0) := by
  induction out with
  | nil => simp [lengths]
  | cons p out ih =>
    obtain ⟨hsum, hiff⟩ := ih (fun q hq => hlen q (List.mem_cons_of_mem p hq))
    have hp := hlen p List.mem_cons_self
    have hcons : c.lengths (p :: out) = c.contentLength p + c.lengths out := by
      rw [lengths, List.map_cons, List.sum_cons]
      rfl
    rw [hcons]
    refine ⟨by omega, ?_⟩
    rw [List.exists_mem_cons_iff, ← hiff]
    omega

theorem lengths_mono {a b : List Ptr} (h : a <+: b) (hlen : ∀ p ∈ b, 0 ≤ c.contentLength p) :
    c.lengths a ≤ c.lengths b := by
  obtain ⟨rest, rfl⟩ := h
  have hrest : 0 ≤ c.lengths rest :=
    (lengths_ne_zero (fun p hp => hlen p (List.mem_append_right a hp))).1
  rw [lengths_append]
  omega

theorem unused_mem {p : Ptr} (h : p ∈ c.unused) : p ∈ c.resourceList := List.mem_of_mem_filter h

/-- A round takes something that is not empty if there is such an entry; below a negative size it
takes one entry only. -/
theorem victims_ne_zero {l : List Ptr} (hlen : ∀ p ∈ l, 0 ≤ c.contentLength p) (size : Int) :
    (∃ p ∈ victims c.contentLength size l, c.contentLength p ≠ 0) ↔
      if size < 0 then ∃ p, l.head? = some p ∧ c.contentLength p ≠ 0
      else ∃ p ∈ l, c.contentLength p ≠ 0 := by
  have hpre := victims_leading c.contentLength l size
  split
  · next hneg =>
    cases l with
    | nil => simp [victims]
    | cons p rest =>
      have hp := hlen p List.mem_cons_self
      rw [victims, if_pos (by omega)]
      simp
  · next hpos =>
    constructor
    · rintro ⟨p, hp, hne⟩
      exact ⟨p, hpre.subset hp, hne⟩
    · rcases victims_enough c.contentLength l size with hmore | hall
      · intro _
        refine (lengths_ne_zero (fun p hp => hlen p (hpre.subset hp))).2.mp ?_
        rw [lengths]
        omega
      · rw [hall]
        exact id

/-- an entry that is not empty, for a purge to take -/
def Frees (c : HTTPCache) (size : Int) : Prop :=
  if size < 0 then ∃ p, c.unused.head? = some p ∧ c.contentLength p ≠ 0
  else (∃ p ∈ c.unused, c.contentLength p ≠ 0) ∨ 0 < size ∧ ∃ p ∈ c.inUse, c.contentLength p ≠ 0

theorem purgeBySize_ne_zero (hwf : (c.core w).WF) (hlen : ∀ p ∈ c.resourceList, 0 ≤ c.contentLength p)
    (size : Int) : (c.purgeBySize size).1 ≠ 0 ↔ c.Frees size := by
  have hspec := purgeBySize_spec hwf size
  have hunused : ∀ p ∈ c.unused, 0 ≤ c.contentLength p := fun p hp => hlen p (unused_mem hp)
  have hused : ∀ p ∈ c.inUse, 0 ≤ c.contentLength p := fun p hp => hlen p (List.mem_of_mem_filter hp)
  have hboth : ∀ p ∈ c.round size ++ c.override size, 0 ≤ c.contentLength p := by
    intro p hp
    rcases List.mem_append.mp hp with hp | hp
    · exact hunused p (hspec.unused.subset hp)
    · exact hused p (hspec.used.subset hp)
  have hround := victims_ne_zero hunused size
  change (∃ p ∈ c.round size, _) ↔ _ at hround
  have hsum := lengths_ne_zero (fun p hp => hunused p ((round_leading c size).subset hp))
  rw [hspec.result, (lengths_ne_zero hboth).2, Frees]
  simp only [List.mem_append, or_and_right, exists_or, hround]
  split
  · next hneg =>
    have hnone : c.override size = [] := if_neg (by omega)
    rw [hnone]
    simp
  · next hpos =>
    rw [if_neg hpos] at hround
    by_cases hfirst : ∃ p ∈ c.unused, c.contentLength p ≠ 0
    · exact iff_of_true (.inl hfirst) (.inl hfirst)
    · rw [or_iff_right hfirst, or_iff_right hfirst]
      have hzero : c.lengths (c.round size) = 0 := by
        by_contra hne
        exact hfirst (hround.mp (hsum.2.mp hne))
      rw [override, hzero, Int.sub_zero]
      split
      · next hsize =>
        rw [victims_ne_zero hused, if_neg hpos]
        exact (and_iff_right hsize).symm
      · next hsize => simp [hsize]

theorem purgeOldestLoop_result (rest : List Ptr) : ∀ (num : Nat) (c : HTTPCache),
    (purgeOldestLoop rest num c).1 =
      ((rest.filter (fun p => !(c.res p).used)).head?.map c.contentLength).getD 0 := by
  induction rest with
  | nil => intro num c; rfl
  | cons p rest ih =>
    intro num c
    rw [purgeOldestLoop]
    cases hused : (c.res p).used with
    | true => rw [if_pos rfl, List.filter_cons_of_neg (by rw [hused]; decide), ih]
    | false =>
      rw [if_neg Bool.false_ne_true, List.filter_cons_of_pos (by rw [hused]; rfl)]
      rfl

theorem purgeOldest_ne_zero (c : HTTPCache) :
    c.purgeOldest.1 ≠ 0 ↔ ∃ p, c.unused.head? = some p ∧ c.contentLength p ≠ 0 := by
  have hresult : c.purgeOldest.1 = (c.unused.head?.map c.contentLength).getD 0 :=
    purgeOldestLoop_result c.resourceList 0 c
  rw [hresult]
  cases c.unused.head? with
  | none | some => simp

theorem purgeBySize_used (hwf : (c.core w).WF) (hlen : ∀ p ∈ c.resourceList, 0 ≤ c.contentLength p)
    (size : Int) {q : Ptr} (hq : q ∈ (c.purgeBySize size).2.resourceList) :
    ((c.purgeBySize size).2.res q).used = ((c.res q).used && !decide (c.lengths c.unused < size)) := by
  have hunused : ∀ p ∈ c.unused, 0 ≤ c.contentLength p := fun p hp => hlen p (unused_mem hp)
  rw [purgeBySize_rounds hwf] at hq ⊢
  by_cases hshort : c.lengths (c.round size) < size
  · have hd := cleared_spec hwf hshort
    rw [if_pos hshort] at hq ⊢
    rw [round_short hshort] at hshort
    dsimp only at hq ⊢
    rw [purgeBySizeInternal_evicts hd.wf] at hq ⊢
    dsimp only at hq ⊢
    rw [evict_list _ _ hd.wf.list_nodup, List.mem_filter, decide_eq_true_eq] at hq
    obtain ⟨hin, hout⟩ := hq
    rw [cleared, clearUsed_list] at hin
    rw [evict_res _ _ q hout, cleared, clearUsed_unused _ _ q hin, decide_eq_true hshort]
    exact (Bool.and_false _).symm
  · have hlong := lengths_mono (round_leading c size) hunused
    rw [if_neg hshort] at hq ⊢
    dsimp only at hq ⊢
    rw [evict_list _ _ hwf.list_nodup, List.mem_filter, decide_eq_true_eq] at hq
    rw [evict_res _ _ q hq.2, decide_eq_false (by omega)]
    exact (Bool.and_true _).symm

theorem purgeBySize_length (hwf : (c.core w).WF) (size : Int) {q : Ptr}
    (hq : q ∈ (c.purgeBySize size).2.resourceList) :
    (c.purgeBySize size).2.contentLength q = c.contentLength q := by
  obtain ⟨b, hb⟩ := (purgeBySize_shrinks (G := fun _ _ => True) hwf size).2.res q (.inr hq)
  rw [contentLength, hb]
  rfl

/-- the total asks for an eviction by size -/
def Over (c : HTTPCache) (len : Int) : Prop :=
  c.limitTotalContentsSize < c.totalContentsSize + len

instance (c : HTTPCache) (len : Int) : Decidable (c.Over len) :=
  inferInstanceAs (Decidable (c.limitTotalContentsSize < c.totalContentsSize + len))

/-- the entries that are left for the check of their number -/
def left (c : HTTPCache) (len : Int) : List Ptr :=
  if c.Over len then c.resourceList.filter (fun p => p ∉ c.round len ++ c.override len)
  else c.resourceList

/-- those of them that are not in use then: an eviction by size that runs short clears the flags -/
def leftUnused (c : HTTPCache) (len : Int) : List Ptr :=
  (c.left len).filter (fun p => !(c.res p).used || decide (c.Over len ∧ c.lengths c.unused < len))

/-- Each of the evictions that the limits ask for comes to an entry that is not empty. -/
structure HasRoom (c : HTTPCache) (len : Int) : Prop where
  size : c.Over len → c.Frees len
  entries : c.limitContentEntries ≤ (c.left len).length →
    ∃ p, (c.leftUnused len).head? = some p ∧ c.contentLength p ≠ 0

theorem makeSizeRoom_eq (c : HTTPCache) (len : Int) : c.makeSizeRoom len =
    if c.Over len then ((c.purgeBySize len).1 != 0, (c.purgeBySize len).2) else (true, c) := rfl

theorem makeSizeRoom_left (hwf : (c.core w).WF) (hlen : ∀ p ∈ c.resourceList, 0 ≤ c.contentLength p)
    (len : Int) : (c.makeSizeRoom len).2.resourceList = c.left len ∧
      (c.makeSizeRoom len).2.unused = c.leftUnused len ∧
      (∀ p ∈ c.left len, (c.makeSizeRoom len).2.contentLength p = c.contentLength p) ∧
      (c.makeSizeRoom len).2.limitContentEntries = c.limitContentEntries := by
  unfold leftUnused left
  rw [makeSizeRoom_eq]
  by_cases hover : c.Over len
  · have hlist := (purgeBySize_spec hwf len).list
    rw [if_pos hover, if_pos hover]
    refine ⟨hlist, ?_, ?_, (purgeBySize_shrinks (G := fun _ _ => True) hwf len).2.limitContentEntries⟩
    · dsimp only
      rw [unused, ← hlist]
      apply List.filter_congr
      intro p hp
      rw [purgeBySize_used hwf hlen len hp, Bool.not_and, Bool.not_not]
      congr 1
      rw [Bool.eq_iff_iff, decide_eq_true_iff, decide_eq_true_iff]
      exact (and_iff_right hover).symm
    · rw [← hlist]
      exact fun p hp => purgeBySize_length hwf len hp
  · rw [if_neg hover, if_neg hover]
    refine ⟨rfl, ?_, fun _ _ => rfl, rfl⟩
    apply List.filter_congr
    intro p _
    rw [decide_eq_false (fun h => hover h.1), Bool.or_false]

theorem makeSizeRoom_iff (hwf : (c.core w).WF) (hlen : ∀ p ∈ c.resourceList, 0 ≤ c.contentLength p)
    (len : Int) : (c.makeSizeRoom len).1 = true ↔ (c.Over len → c.Frees len) := by
  rw [makeSizeRoom_eq]
  by_cases hover : c.Over len
  · rw [if_pos hover, bne_iff_ne, purgeBySize_ne_zero hwf hlen]
    exact ⟨fun h _ => h, fun h => h hover⟩
  · rw [if_neg hover]
    exact iff_of_true rfl (fun h => absurd h hover)

theorem makeEntryRoom_iff (c : HTTPCache) : c.makeEntryRoom.1 = true ↔
    (c.limitContentEntries ≤ c.resourceList.length →
      ∃ p, c.unused.head? = some p ∧ c.contentLength p ≠ 0) := by
  unfold makeEntryRoom
  split
  · next hfull =>
    rw [bne_iff_ne, purgeOldest_ne_zero]
    exact ⟨fun h _ => h, fun h => h hfull⟩
  · next hfree => exact iff_of_true rfl (fun h => absurd h hfree)

theorem makeRoom_iff (hwf : (c.core w).WF) (hlen : ∀ p ∈ c.resourceList, 0 ≤ c.contentLength p)
    (henabled : c.disabled = false) (hsize : len ≤ c.limitContentSize)
    (htotal : len ≤ c.limitTotalContentsSize) : (c.makeRoom len).1 = true ↔ c.HasRoom len := by
  obtain ⟨hlist, hunused, hlength, hlimit⟩ := makeSizeRoom_left hwf hlen len
  have hentry : (c.makeSizeRoom len).2.makeEntryRoom.1 = true ↔
      (c.limitContentEntries ≤ (c.left len).length →
        ∃ p, (c.leftUnused len).head? = some p ∧ c.contentLength p ≠ 0) := by
    rw [makeEntryRoom_iff, hlist, hunused, hlimit]
    refine imp_congr_right (fun _ => exists_congr (fun p => and_congr_right (fun hp => ?_)))
    rw [hlength p (List.mem_of_mem_filter (List.mem_of_mem_head? hp))]
  unfold makeRoom
  rw [if_neg (by rw [henabled]; decide), if_neg (by omega), if_neg (by omega)]
  cases hroom : (c.makeSizeRoom len).1 with
  | false =>
    have hnot : ¬ (c.Over len → c.Frees len) := by
      rw [← makeSizeRoom_iff hwf hlen, hroom]
      exact Bool.false_ne_true
    exact iff_of_false Bool.false_ne_true (fun h => hnot h.size)
  | true =>
    have hfrees := (makeSizeRoom_iff hwf hlen len).mp hroom
    rw [if_neg (by decide), hentry]
    exact ⟨fun h => ⟨hfrees, h⟩, fun h => h.entries⟩

end

/-- a resource is returned, and the cache is as it was wherever none is -/
structure Admits (c : HTTPCache) (out : Option Ptr × HTTPCache) : Prop where
  live : out.1.isSome
  atomic : out.1 = none → out.2.resourceList = c.resourceList ∧ out.2.files = c.files

theorem createHTTPCachedResource_admits_iff {c : HTTPCache} {w : List Ptr} (hwf : (c.core w).WF)
    (hlen : ∀ p ∈ c.resourceList, 0 ≤ c.contentLength p) (henabled : c.disabled = false)
    (url : KURL) (resourceData : SharedBuffer) (response : ResourceResponse)
    (noCache mustRevalidate : Bool) (expires maxAge now : Double)
    (hsize : resourceData.size ≤ c.limitContentSize)
    (htotal : resourceData.size ≤ c.limitTotalContentsSize) :
    c.Admits (c.createHTTPCachedResource url resourceData response noCache mustRevalidate expires maxAge
      now) ↔ c.HasRoom (toInt32 resourceData.size) := by
  have hle := toInt32_le resourceData.size
  rw [← makeRoom_iff hwf hlen henabled (hle.trans hsize) (hle.trans htotal)]
  unfold createHTTPCachedResource
  cases hroom : (c.makeRoom (toInt32 resourceData.size)).1 with
  | false =>
    simp only [hroom]
    exact iff_of_false (fun h => Bool.false_ne_true h.live) Bool.false_ne_true
  | true =>
    simp only [hroom]
    rw [if_neg (by decide)]
    exact iff_of_true ⟨rfl, fun h => (nomatch h)⟩ trivial

end HTTPCache

end

namespace Manager
open Sample

def nothing : SharedBuffer := ⟨[], by decide, by decide⟩

/-- a cache for one entry, with an entry of this body in it -/
def full (data : SharedBuffer) : HTTPCache :=
  (Runs.run useStep { cache := small } [gotten (page 1) data, ticked data]).cache

def ask (c : HTTPCache) : Option Ptr × HTTPCache :=
  c.createHTTPCachedResource (page 2) byte {} false false Double.zero Double.zero Double.zero

theorem createHTTPCachedResource_admits_full : (full byte).resourceList = [0] ∧
    ((full byte).Admits (ask (full byte)) ↔ (full byte).HasRoom (toInt32 byte.size)) := by
  have hheld := held_run small small_configured [gotten (page 1) byte, ticked byte]
  exact ⟨by decide +kernel, HTTPCache.createHTTPCachedResource_admits_iff hheld.wf hheld.lengths
    (by decide +kernel) _ _ _ _ _ _ _ _ (by decide +kernel) (by decide +kernel)⟩

/-- an entry of no bytes is evicted to make room, and no room is found -/
theorem createHTTPCachedResource_loses : (full nothing).disabled = false ∧
    0 < (full nothing).limitContentEntries ∧
    byte.size ≤ (full nothing).limitContentSize ∧ byte.size ≤ (full nothing).limitTotalContentsSize ∧
    (ask (full nothing)).1 = none ∧
    (full nothing).resourceList = [0] ∧ (ask (full nothing)).2.resourceList = [] ∧
    ¬ (full nothing).Admits (ask (full nothing)) := by
  have hnone : (ask (full nothing)).1 = none := by decide +kernel
  have hbefore : (full nothing).resourceList = [0] := by decide +kernel
  have hafter : (ask (full nothing)).2.resourceList = [] := by decide +kernel
  refine ⟨by decide +kernel, by decide +kernel, by decide +kernel, by decide +kernel, hnone, hbefore,
    hafter, ?_⟩
  intro h
  have hsame := (h.atomic hnone).1
  rw [hbefore, hafter] at hsame
  cases hsame

end Manager

end Wkc
