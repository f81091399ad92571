import Mathlib.Algebra.BigOperators.Group.List.Basic
import WkcBrowser.Cache.Steps

/-!
# The running totals

A `Tally` is a total that changes where entries enter and leave the list; both totals of the cache
are tallies.  Every move keeps a tally equal to the sum over the list, except the one that replaces
the length of a listed entry before it is subtracted (`Move.relist`).

* `Move.balanced`            a tally stays the sum of its weights;
* `Move.entrySizes`          listed entries keep an up-to-date record size;
* `readFATFile_pres`         what loading an entry preserves, loading a file preserves;
* `contents_total_iff`       `m_totalContentsSize` is the sum of the lengths throughout a run exactly if
                             no step puts a body of another length into a listed entry;
* `fat_buffer_exact`         the records of any reachable cache fill the buffer of `writeFATFile`.
-/

set_option linter.unusedSectionVars false

namespace Wkc
open Wkc.Core

section
variable [FilePeers]

namespace Core

def sumOf (k : Core) (f : HTTPCachedResource → Int) : Int := (k.list.map (fun p => f (k.res p))).sum

/-- a total that follows the weight `f` of the entries -/
structure Tally (t : Core → Int) (f : HTTPCachedResource → Int) : Prop where
  unlist : ∀ (k : Core) (p : Ptr), t (k.unlist p) = t k - f (k.res p)
  enlist : ∀ (k : Core) (p : Ptr), t (k.enlist p) = t k + f (k.res p)
  reset : ∀ k : Core, t k.reset = 0
  other : ∀ k k' : Core, k'.totalResourceSize = k.totalResourceSize →
    k'.totalContentsSize = k.totalContentsSize → t k' = t k
  used : ∀ r b, f (r.setUsed b) = f r

theorem contents_tally : Tally Core.totalContentsSize (fun r => r.contentLength.toInt) :=
  ⟨fun _ _ => rfl, fun _ _ => rfl, fun _ => rfl, fun _ _ _ h => h, fun _ _ => rfl⟩

theorem resources_tally : Tally Core.totalResourceSize HTTPCachedResource.resourceSize :=
  ⟨fun _ _ => rfl, fun _ _ => rfl, fun _ => rfl, fun _ _ h _ => h, fun _ _ => rfl⟩

theorem sumOf_congr {k k' : Core} {f : HTTPCachedResource → Int} (hlist : k'.list = k.list)
    (h : ∀ p ∈ k.list, f (k'.res p) = f (k.res p)) : k.sumOf f = k'.sumOf f := by
  unfold sumOf
  rw [hlist]
  congr 1
  exact List.map_congr_left (fun p hp => (h p hp).symm)

theorem sumOf_unlist {k : Core} {f : HTTPCachedResource → Int} {p : Ptr} (hp : p ∈ k.list) :
    (k.unlist p).sumOf f = k.sumOf f - f (k.res p) := by
  have h := List.sum_map_erase (fun q => f (k.res q)) hp
  show ((k.list.erase p).map (fun q => f (k.res q))).sum = _
  rw [sumOf, ← h]
  omega

theorem sumOf_enlist (k : Core) (f : HTTPCachedResource → Int) (p : Ptr) :
    (k.enlist p).sumOf f = k.sumOf f + f (k.res p) := by
  show ((k.list ++ [p]).map (fun q => f (k.res q))).sum = _
  rw [List.map_append, List.sum_append]
  simp [sumOf]

theorem sumOf_setRes_unlist {k : Core} {f : HTTPCachedResource → Int} {p : Ptr}
    (hnd : k.list.Nodup) (hp : p ∈ k.list) (r : HTTPCachedResource) :
    ((k.setRes p r).unlist p).sumOf f = k.sumOf f - f (k.res p) := by
  have hsame : (k.unlist p).sumOf f = ((k.setRes p r).unlist p).sumOf f := by
    refine sumOf_congr rfl ?_
    intro q hq
    have hne : q ≠ p := by
      rintro rfl
      exact hnd.not_mem_erase hq
    exact congrArg f (setRes_res_ne k hne r)
  rw [← hsame, sumOf_unlist hp]

end Core

section
variable {G : HTTPCachedResource → SharedBuffer → Prop} {k k' : Core}
variable {t : Core → Int} {f : HTTPCachedResource → Int}

theorem Move.balanced (T : Tally t f) (hm : Move G k k') (hwf : k.WF)
    (hf : ∀ p r d, p ∈ k.list → r.resourceSize = (k.res p).resourceSize →
      r.contentLength = Int64.ofNat d.size → G (k.res p) d → f r = f (k.res p))
    (h : t k = k.sumOf f) : t k' = k'.sumOf f := by
  cases hm with
  | unlist hp => rw [T.unlist, sumOf_unlist hp, h]
  | @free p hl hp =>
    rw [show t (k.free p) = t k from T.other _ _ rfl rfl, h]
    refine sumOf_congr rfl ?_
    intro q hq
    have hne : q ≠ p := by
      rintro rfl
      exact hl hq
    rw [free_res_ne k hne]
  | @mark p b hp =>
    rw [show t (k.setRes p _) = t k from T.other _ _ rfl rfl, h]
    refine sumOf_congr rfl ?_
    intro q _
    by_cases hne : q = p
    · rw [hne, setRes_res_self, T.used]
    · rw [setRes_res_ne k hne]
  | @relist p r d hp _ hsize hlen hG =>
    have hsum := sumOf_setRes_unlist (f := f) hwf.list_nodup hp r
    have ht : t (((k.setRes p r).unlist p).append p) = t k - f r := by
      rw [show t (((k.setRes p r).unlist p).append p) = t ((k.setRes p r).unlist p) from T.other _ _ rfl rfl,
        T.unlist, setRes_res_self, show t (k.setRes p r) = t k from T.other _ _ rfl rfl]
    rw [ht, hf p r d hp hsize hlen hG, h]
    exact hsum.symm
  | @repend n p r hn _ =>
    have hp : p ∈ k.pending := List.mem_of_getElem? hn
    have ht : t (({ k.setRes p r with pending := k.pending.eraseIdx n } : Core).append p) = t k :=
      T.other _ _ rfl rfl
    rw [ht, h]
    refine sumOf_congr rfl ?_
    intro q hq
    have hne : q ≠ p := by
      rintro rfl
      exact hwf.disjoint q hq hp
    exact congrArg f (setRes_res_ne k hne r)
  | unpend n =>
    rw [T.other k { k with pending := k.pending.eraseIdx n } rfl rfl, h]
    rfl
  | alloc r =>
    rw [show t (k.alloc r) = t k from T.other _ _ rfl rfl, h]
    refine sumOf_congr rfl ?_
    intro q hq
    rw [alloc_res, if_neg (Nat.ne_of_lt (hwf.list_lt hq))]
  | @pend r _ _ _ =>
    rw [show t ((k.alloc r).append k.next) = t k from T.other _ _ rfl rfl, h]
    refine sumOf_congr rfl ?_
    intro q hq
    exact congrArg f ((alloc_res k r q).trans (if_neg (Nat.ne_of_lt (hwf.list_lt hq))))
  | @enlist p rest r hp _ _ =>
    have hmem : p ∈ k.pending := by rw [hp]; exact List.mem_cons_self
    rw [T.enlist, sumOf_enlist, show t { k.setRes p r with pending := rest } = t k from T.other _ _ rfl rfl, h]
    congr 1
    refine sumOf_congr rfl ?_
    intro q hq
    have hne : q ≠ p := by
      rintro rfl
      exact hwf.disjoint q hq hmem
    exact congrArg f (setRes_res_ne k hne r)
  | reset => rw [T.reset]; rfl
  | dropPending =>
    rw [show t k.dropPending = t k from T.other _ _ rfl rfl, h]
    refine sumOf_congr rfl ?_
    intro q hq
    show f ((if q ∈ k.pending then none else k.heap q).getD default) = _
    rw [if_neg (hwf.disjoint q hq)]
    rfl

theorem Moves.balanced (T : Tally t f) (hm : Moves G k k') (hwf : k.WF)
    (hf : ∀ k1 : Core, ∀ p r d, p ∈ k1.list → r.resourceSize = (k1.res p).resourceSize →
      r.contentLength = Int64.ofNat d.size → G (k1.res p) d → f r = f (k1.res p))
    (h : t k = k.sumOf f) : t k' = k'.sumOf f := by
  induction hm with
  | refl => exact h
  | tail hk hlast ih => exact hlast.balanced T (Moves.wf hk hwf) (hf _) ih

/-- every listed entry knows the size of its record -/
def EntrySizes (k : Core) : Prop := ∀ p ∈ k.list, (k.res p).resourceSize = (k.res p).recordSize

theorem Move.entrySizes (hm : Move G k k') (hwf : k.WF) (h : EntrySizes k) : EntrySizes k' := by
  cases hm with
  | unlist _ => exact fun q hq => h q (List.mem_of_mem_erase hq)
  | @free p hl _ =>
    intro q hq
    have hne : q ≠ p := by
      rintro rfl
      exact hl hq
    rw [free_res_ne k hne]
    exact h q hq
  | @mark p b hp =>
    intro q hq
    by_cases hne : q = p
    · rw [hne, setRes_res_self]
      exact h p hp
    · rw [setRes_res_ne k hne]
      exact h q hq
  | @relist p r d hp _ _ _ _ =>
    intro q hq
    have hne : q ≠ p := by
      rintro rfl
      exact hwf.list_nodup.not_mem_erase hq
    show ((k.setRes p r).res q).resourceSize = ((k.setRes p r).res q).recordSize
    rw [setRes_res_ne k hne]
    exact h q (List.mem_of_mem_erase hq)
  | @repend n p r hn _ =>
    intro q hq
    have hne : q ≠ p := by
      rintro rfl
      exact hwf.disjoint q hq (List.mem_of_getElem? hn)
    show ((k.setRes p r).res q).resourceSize = ((k.setRes p r).res q).recordSize
    rw [setRes_res_ne k hne]
    exact h q hq
  | unpend n => exact h
  | alloc r =>
    intro q hq
    rw [alloc_res, if_neg (Nat.ne_of_lt (hwf.list_lt hq))]
    exact h q hq
  | @pend r _ _ _ =>
    intro q hq
    show ((k.alloc r).res q).resourceSize = ((k.alloc r).res q).recordSize
    rw [alloc_res, if_neg (Nat.ne_of_lt (hwf.list_lt hq))]
    exact h q hq
  | @enlist p rest r hp _ hsize =>
    have hmem : p ∈ k.pending := by rw [hp]; exact List.mem_cons_self
    intro q hq
    show ((k.setRes p r).res q).resourceSize = ((k.setRes p r).res q).recordSize
    rcases List.mem_append.mp hq with hq | hq
    · have hne : q ≠ p := by
        rintro rfl
        exact hwf.disjoint q hq hmem
      rw [setRes_res_ne k hne]
      exact h q hq
    · rw [List.mem_singleton.mp hq, setRes_res_self]
      exact hsize
  | reset => exact fun q hq => absurd hq List.not_mem_nil
  | dropPending =>
    intro q hq
    show ((if q ∈ k.pending then none else k.heap q).getD default).resourceSize
      = ((if q ∈ k.pending then none else k.heap q).getD default).recordSize
    rw [if_neg (hwf.disjoint q hq)]
    exact h q hq

theorem Moves.entrySizes (hm : Moves G k k') (hwf : k.WF) (h : EntrySizes k) : EntrySizes k' := by
  induction hm with
  | refl => exact h
  | tail hk hlast ih => exact hlast.entrySizes (Moves.wf hk hwf) ih

end

/-! ## loading -/

theorem deserialize_resourceSize {data : Bytes} {off : Nat} {r : HTTPCachedResource} {b : Bool}
    {n : Int} (h : HTTPCachedResource.deserialize data off = .ok (r, b, n)) :
    r.resourceSize = r.recordSize := by
  unfold HTTPCachedResource.deserialize at h
  obtain ⟨_, _, h⟩ := bind_ok h
  obtain ⟨_, _, h⟩ := bind_ok h
  obtain ⟨_, _, h⟩ := bind_ok h
  obtain ⟨_, _, h⟩ := bind_ok h
  obtain ⟨_, _, h⟩ := bind_ok h
  obtain ⟨_, _, h⟩ := bind_ok h
  obtain ⟨_, _, h⟩ := bind_ok h
  obtain ⟨_, _, h⟩ := bind_ok h
  obtain ⟨_, _, h⟩ := bind_ok h
  obtain ⟨_, _, h⟩ := bind_ok h
  obtain ⟨_, _, h⟩ := bind_ok h
  obtain ⟨_, _, h⟩ := bind_ok h
  obtain ⟨_, _, h⟩ := bind_ok h
  obtain ⟨_, _, h⟩ := bind_ok h
  obtain ⟨_, _, h⟩ := bind_ok h
  obtain ⟨_, _, h⟩ := bind_ok h
  obtain ⟨rfl, _⟩ := Prod.mk.inj (Except.ok.inj h)
  rfl

/-- a record read from the file becomes an entry -/
def HTTPCache.loadEntry (c : HTTPCache) (r : HTTPCachedResource) : HTTPCache :=
  (c.alloc r).2.addCachedResource c.next

namespace Core

/-- a new object, listed and indexed at once; the index keeps the last of two equal URLs -/
def load (k : Core) (r : HTTPCachedResource) : Core :=
  { (k.alloc r).enlist k.next with index := Function.update k.index r.url (some k.next) }

theorem load_res (k : Core) (r : HTTPCachedResource) (q : Ptr) :
    (k.load r).res q = if q = k.next then r else k.res q := k.alloc_res r q

theorem WF.load {k : Core} (h : k.WF) (r : HTTPCachedResource) : (k.load r).WF := by
  have hnew : k.next ∉ k.list := fun hl => Nat.lt_irrefl _ (h.list_lt hl)
  have halloc := h.alloc r
  refine ⟨?_, h.pending_nodup, ?_, ?_, halloc.fresh, ?_⟩
  · refine List.nodup_append.mpr ⟨h.list_nodup, List.nodup_singleton _, ?_⟩
    intro a ha b hb
    rw [List.mem_singleton.mp hb]
    rintro rfl
    exact hnew ha
  · intro q hq hq'
    rcases List.mem_append.mp hq with hq | hq
    · exact h.disjoint q hq hq'
    · rw [List.mem_singleton.mp hq] at hq'
      exact Nat.lt_irrefl _ (h.pending_lt hq')
  · intro q hq
    rcases hq with hq | hq
    · rcases List.mem_append.mp hq with hq | hq
      · exact halloc.live q (.inl hq)
      · rw [List.mem_singleton.mp hq]
        exact (setRes_live k k.next k.next r).mpr (.inl rfl)
    · exact halloc.live q (.inr hq)
  · intro u q hq
    change Function.update k.index r.url (some k.next) u = some q at hq
    rw [load_res]
    by_cases hu : u = r.url
    · subst hu
      rw [Function.update_self] at hq
      obtain rfl := Option.some.inj hq
      rw [if_pos rfl]
      exact ⟨List.mem_append_right _ (List.mem_singleton_self _), rfl⟩
    · rw [Function.update_of_ne hu] at hq
      obtain ⟨hmem, hurl⟩ := h.index u q hq
      rw [if_neg (Nat.ne_of_lt (h.list_lt hmem))]
      exact ⟨List.mem_append_left _ hmem, hurl⟩

theorem WF.load_balanced {k : Core} (h : k.WF) {t : Core → Int} {f : HTTPCachedResource → Int}
    (T : Tally t f) (r : HTTPCachedResource) (hb : t k = k.sumOf f) :
    t (k.load r) = (k.load r).sumOf f := by
  have ht : t (k.load r) = t ((k.alloc r).enlist k.next) := T.other _ _ rfl rfl
  have hs : (k.load r).sumOf f = ((k.alloc r).enlist k.next).sumOf f := rfl
  rw [ht, hs, T.enlist, sumOf_enlist,
    (Move.alloc (G := fun _ _ => False) r).balanced T h (fun _ _ _ _ _ _ hG => hG.elim) hb]

theorem WF.load_entrySizes {k : Core} (h : k.WF) {r : HTTPCachedResource}
    (hr : r.resourceSize = r.recordSize) (he : EntrySizes k) : EntrySizes (k.load r) := by
  intro q hq
  rw [load_res]
  rcases List.mem_append.mp hq with hq | hq
  · rw [if_neg (Nat.ne_of_lt (h.list_lt hq))]
    exact he q hq
  · rw [if_pos (List.mem_singleton.mp hq)]
    exact hr

end Core

theorem loadEntry_core (c : HTTPCache) (r : HTTPCachedResource) (w : List Ptr) :
    (c.loadEntry r).core w = (c.core w).alloc r ∨ (c.loadEntry r).core w = (c.core w).load r := by
  have hurl : (c.alloc r).2.url c.next = r.url := congrArg HTTPCachedResource.url
    ((c.core w).alloc_res r c.next |>.trans (if_pos rfl))
  unfold HTTPCache.loadEntry HTTPCache.addCachedResource
  split
  · exact .inl rfl
  · rw [hurl]
    exact .inr rfl

section
variable {P : HTTPCache → Prop}
  (hload : ∀ c r, r.resourceSize = r.recordSize → P c → P (c.loadEntry r))
include hload

theorem deserializeFATData_pres (data : Bytes) (fuel : Nat) : ∀ (off : Nat) (len : Int)
    (c c' : HTTPCache), HTTPCache.deserializeFATData data fuel off len c = .ok c' → P c → P c' := by
  induction fuel with
  | zero =>
    intro off len c c' h hc
    rw [HTTPCache.deserializeFATData] at h
    split at h
    · cases h
    · obtain rfl := Except.ok.inj h
      exact hc
  | succ fuel ih =>
    intro off len c c' h hc
    rw [HTTPCache.deserializeFATData] at h
    split at h
    · obtain rfl := Except.ok.inj h
      exact hc
    · obtain ⟨⟨r, nullURL, read⟩, hr, h⟩ := bind_ok h
      dsimp only at h
      split at h
      · cases h
      · split at h
        · cases h
        · exact ih _ _ _ _ h (hload c r (deserialize_resourceSize hr) hc)

theorem readFATFile_pres (hnumber : ∀ c n, P c → P { c with fileNumber := n })
    (hall : ∀ c, P c → P c.removeAll) {c c' : HTTPCache} {io : FatIo} {b : Bool}
    (h : c.readFATFile io = .ok (b, c')) (hc : P c) : P c' := by
  rcases HTTPCache.readFATFile_cases h with ⟨-, rfl | rfl⟩ | ⟨-, data, number, -, hrecords⟩
  · exact hc
  · exact hall c hc
  · exact deserializeFATData_pres hload _ _ _ _ _ _ hrecords (hnumber c _ hc)

end

/-! ## reachable managers -/

/-- a cache just constructed, whatever its limits and its directory -/
structure HTTPCache.Fresh (c : HTTPCache) : Prop where
  resources : c.resources = fun _ => none
  resourceList : c.resourceList = []
  totalResourceSize : c.totalResourceSize = 0
  totalContentsSize : c.totalContentsSize = 0
  heap : c.heap = fun _ => none

/-- a manager before its first operation: empty, or loaded once from any FAT file -/
inductive Start : Manager → Prop
  | fresh {c : HTTPCache} : c.Fresh → Start { cache := c }
  | loaded {c c' : HTTPCache} {io : FatIo} {b : Bool} : c.Fresh → c.readFATFile io = .ok (b, c') →
      Start { cache := c' }

/-- what holds of both totals before the first operation -/
structure Sound (k : Core) : Prop where
  wf : k.WF
  contents : k.totalContentsSize = k.sumOf (fun r => r.contentLength.toInt)
  resources : k.totalResourceSize = k.sumOf HTTPCachedResource.resourceSize
  entrySizes : EntrySizes k

theorem HTTPCache.Fresh.sound {c : HTTPCache} (h : c.Fresh) : Sound (c.core []) := by
  refine ⟨⟨?_, List.nodup_nil, ?_, ?_, ?_, ?_⟩, ?_, ?_, ?_⟩
  · show c.resourceList.Nodup
    rw [h.resourceList]; exact List.nodup_nil
  · intro p _; exact List.not_mem_nil
  · intro p hp
    change p ∈ c.resourceList ∨ p ∈ [] at hp
    rw [h.resourceList] at hp
    exact absurd (hp.elim id id) List.not_mem_nil
  · intro p hp
    change (c.heap p).isSome = true at hp
    rw [h.heap] at hp
    cases hp
  · intro u p hu
    change c.resources u = some p at hu
    rw [h.resources] at hu
    cases hu
  · show c.totalContentsSize = (c.resourceList.map _).sum
    rw [h.resourceList, h.totalContentsSize]; rfl
  · show c.totalResourceSize = (c.resourceList.map _).sum
    rw [h.resourceList, h.totalResourceSize]; rfl
  · intro p hp
    change p ∈ c.resourceList at hp
    rw [h.resourceList] at hp
    exact absurd hp List.not_mem_nil

theorem Sound.loadEntry {c : HTTPCache} (h : Sound (c.core [])) {r : HTTPCachedResource}
    (hr : r.resourceSize = r.recordSize) : Sound ((c.loadEntry r).core []) := by
  rcases loadEntry_core c r [] with hcore | hcore
  · have hm : Move (fun _ _ => False) (c.core []) ((c.core []).alloc r) := .alloc r
    rw [hcore]
    exact ⟨hm.wf h.wf, hm.balanced contents_tally h.wf (fun _ _ _ _ _ _ hG => hG.elim) h.contents,
      hm.balanced resources_tally h.wf (fun _ _ _ _ _ _ hG => hG.elim) h.resources,
      hm.entrySizes h.wf h.entrySizes⟩
  · rw [hcore]
    exact ⟨h.wf.load r, h.wf.load_balanced contents_tally r h.contents,
      h.wf.load_balanced resources_tally r h.resources, h.wf.load_entrySizes hr h.entrySizes⟩

theorem Sound.reset {k : Core} (h : Sound k) : Sound k.reset :=
  ⟨h.wf.reset, rfl, rfl, fun _ hp => absurd hp List.not_mem_nil⟩

theorem Start.sound {s : Manager} (h : Start s) : Sound s.core := by
  cases h with
  | fresh hc => exact hc.sound
  | loaded hc hread =>
    refine readFATFile_pres (P := fun c => Sound (c.core [])) ?_ ?_ ?_ hread hc.sound
    · intro c r hr hs
      exact hs.loadEntry hr
    · intro c n hs
      exact hs
    · intro c hs
      rw [removeAll_core]
      exact hs.reset

/-! ## `m_totalContentsSize` -/

namespace Manager

def ContentsTotal (s : Manager) : Prop :=
  s.cache.totalContentsSize = (s.cache.resourceList.map s.cache.contentLength).sum

instance (s : Manager) : Decidable s.ContentsTotal := inferInstanceAs (Decidable (_ = _))

/-- no listed entry gets a body of another length -/
def SameLength (s : Manager) (op : Op) : Prop :=
  ∀ p data, s.indexUpdate op = some (p, data) → s.cache.contentLength p = data.size

theorem size_toInt (d : SharedBuffer) : (Int64.ofNat d.size).toInt = d.size := by
  have h : d.size < 2 ^ 32 := d.size_lt
  exact Int64.toInt_ofNat_of_lt (by omega)

theorem indexUpdate_step {s : Manager} {op : Op} {p : Ptr} {d : SharedBuffer}
    (h : s.indexUpdate op = some (p, d)) :
    ∃ a : Response, s.cache.resourceForURL a.url = some p ∧
      (s.step op).cache = (s.cache.setRes p (a.onto (s.cache.res p) d)).detach p := by
  cases op with
  | addHTTPCache a =>
    rw [indexUpdate] at h
    split at h
    · cases h
    · next hrn =>
      obtain ⟨hr, hn⟩ : a.refused = false ∧ a.noStore = false := by simpa using hrn
      split at h
      · next q d' hq hd =>
        obtain ⟨rfl, rfl⟩ := Prod.mk.inj (Option.some.inj h)
        refine ⟨a, hq, ?_⟩
        have hadd : (s.addHTTPCache a).2 = ({ s with
            cache := (s.cache.setRes q (a.onto (s.cache.res q) d')).detach q } :
            Manager).appendPending q := by
          simp only [addHTTPCache, updateCacheResource, hr, hn, hd, hq, Bool.false_eq_true, if_false]
          rfl
        exact congrArg cache hadd
      · cases h
  | updateCacheResource a data =>
    rw [indexUpdate] at h
    split at h
    · cases h
    · next hn =>
      have hn : a.noStore = false := by simpa using hn
      obtain ⟨q, hq, he⟩ := Option.map_eq_some_iff.mp h
      obtain ⟨rfl, rfl⟩ := Prod.mk.inj he
      refine ⟨a, hq, ?_⟩
      have hup : (s.updateCacheResource a data).2 = { s with
          cache := (s.cache.setRes q (a.onto (s.cache.res q) data)).detach q } := by
        simp only [updateCacheResource, hn, hq, Bool.false_eq_true, if_false]
        rfl
      exact congrArg cache hup
  | _ => cases h

theorem contentsTotal_step {s : Manager} {op : Op} (hwf : s.core.WF) (h : s.ContentsTotal) :
    (s.step op).ContentsTotal ↔ s.SameLength op := by
  constructor
  · intro hnext p d hup
    obtain ⟨a, hurl, hcache⟩ := indexUpdate_step hup
    have hp : p ∈ s.cache.resourceList := (hwf.index _ _ hurl).1
    have hcore : (s.step op).cache.core [] = ((s.cache.core []).setRes p
        (a.onto (s.cache.res p) d)).unlist p := by
      rw [hcache, detach_core]; rfl
    have hsum : (s.cache.core []).sumOf (fun r => r.contentLength.toInt) - s.cache.contentLength p
        = ((s.step op).cache.core []).sumOf (fun r => r.contentLength.toInt) := by
      rw [hcore]
      exact (sumOf_setRes_unlist (k := s.cache.core []) hwf.list_nodup hp _).symm
    have htotal : (s.step op).cache.totalContentsSize = s.cache.totalContentsSize - d.size := by
      have hlen : ((s.cache.core []).setRes p (a.onto (s.cache.res p) d)).res p
          = a.onto (s.cache.res p) d := setRes_res_self ..
      rw [show (s.step op).cache.totalContentsSize = (((s.cache.core []).setRes p
        (a.onto (s.cache.res p) d)).unlist p).totalContentsSize from
          congrArg Core.totalContentsSize hcore]
      show s.cache.totalContentsSize - _ = _
      rw [hlen, ← size_toInt]
      rfl
    change _ = ((s.step op).cache.core []).sumOf (fun r => r.contentLength.toInt) at hnext
    change _ = (s.cache.core []).sumOf (fun r => r.contentLength.toInt) at h
    omega
  · intro hsame
    have hm := step_moves (G := fun r d => r.contentLength.toInt = d.size) hwf op hsame
    refine Moves.balanced contents_tally hm hwf ?_ h
    intro k p r d _ _ hlen hG
    rw [hlen, size_toInt, hG]

/-- **The accounting of the cache.**  After any operations, the total is the sum of the lengths in
every state on the way exactly if no step puts a body of another length into a listed entry. -/
theorem contents_total_iff {s : Manager} (hs : Start s) (ops : List Op) :
    (∀ pre, pre <+: ops → (Runs.run step s pre).ContentsTotal) ↔ Runs.Along step SameLength s ops :=
  Runs.prefix_iff_along (I := fun s => s.core.WF) (fun _ op hwf => step_wf hwf op)
    (fun _ _ hwf h => contentsTotal_step hwf h) hs.sound.wf hs.sound.contents ops

end Manager

end

namespace Manager
open Sample

theorem start_default : Start {} := .fresh ⟨rfl, rfl, rfl, rfl, rfl⟩

theorem contents_total_iff_same : Start {} ∧
    ∀ pre, pre <+: [got (page 1) byte, tick byte, got (page 1) byte] →
      (Runs.run step {} pre).ContentsTotal := by
  refine ⟨start_default, (contents_total_iff start_default _).mpr ⟨?_, ?_, ?_, trivial⟩⟩
  · intro p d h
    have hnone : indexUpdate {} (got (page 1) byte) = none := by decide +kernel
    rw [hnone] at h
    cases h
  · intro p d h
    cases h
  · intro p d h
    have hsome : indexUpdate (Runs.run step {} [got (page 1) byte, tick byte]) (got (page 1) byte)
        = some (0, byte) := by decide +kernel
    obtain ⟨rfl, rfl⟩ := Prod.mk.inj (Option.some.inj (hsome.symm.trans h))
    decide +kernel

/-- one byte is written, two bytes are subtracted -/
theorem contents_total_drifts : Start {} ∧
    ¬ (Runs.run step {} [got (page 1) byte, tick byte, got (page 1) bytes2]).ContentsTotal :=
  ⟨start_default, by decide +kernel⟩

end Manager

section
variable [FilePeers]

namespace Manager

/-! ## `m_totalResourceSize` and the buffer of `writeFATFile` -/

/-- the sizes of the records are right, one by one and in total -/
structure SizeSound (k : Core) : Prop where
  wf : k.WF
  entrySizes : EntrySizes k
  total : k.totalResourceSize = k.sumOf HTTPCachedResource.resourceSize

theorem SizeSound.step {s : Manager} (h : SizeSound s.core) (op : Op) : SizeSound (s.step op).core := by
  have hm := step_moves (G := fun _ _ => True) h.wf op (fun _ _ _ => trivial)
  exact ⟨hm.wf h.wf, Moves.entrySizes hm h.wf h.entrySizes,
    Moves.balanced resources_tally hm h.wf (fun _ _ _ _ _ hsize _ _ => hsize) h.total⟩

theorem SizeSound.sized {s : Manager} (h : SizeSound s.core) : s.cache.Sized :=
  ⟨h.entrySizes, h.total⟩

theorem run_sized {s : Manager} (hs : Start s) (ops : List Op) : (Runs.run step s ops).cache.Sized := by
  have hrun : SizeSound (Runs.run step s ops).core :=
    Runs.run_inv (P := fun s : Manager => SizeSound s.core) (fun _ op h => h.step op)
      ⟨hs.sound.wf, hs.sound.entrySizes, hs.sound.resources⟩ ops
  exact hrun.sized

/-- **The FAT buffer is never overrun.**  In every reachable cache `m_resourceSize` is what `serialize`
advances, `m_totalResourceSize` is the sum, and `serializeFATData`, started behind the header in the
buffer that `writeFATFile` allocates, ends exactly at the end of that buffer. -/
theorem fat_buffer_exact {s : Manager} (hs : Start s) (ops : List Op) :
    let c := (Runs.run step s ops).cache
    (∀ p ∈ c.resourceList, ∀ (buf buf' : Bytes) (off n : Nat),
      (c.res p).serialize buf off = some (buf', n) → (c.res p).resourceSize = n) ∧
    c.totalResourceSize = (c.resourceList.map (fun p => (c.res p).resourceSize)).sum ∧
    ∃ buffer buffer', c.fatHeader = some buffer ∧ (buffer.length : Int) = c.totalSize ∧
      c.serializeFATData c.resourceList buffer HTTPCache.headerSize
        = some (buffer', c.totalSize.toNat) := by
  intro c
  have hsized : c.Sized := run_sized hs ops
  refine ⟨?_, hsized.total, ?_⟩
  · intro p hp buf buf' off n hser
    rw [hsized.entry p hp, HTTPCachedResource.serialize_advance hser]
  · obtain ⟨buffer, buffer', hhead, hlen, hser, _⟩ := hsized.serialize_exact
    exact ⟨buffer, buffer', hhead, hlen, hser⟩

end Manager

end

namespace Manager
open Sample in
theorem fat_buffer_exact_page : ∃ buffer buffer',
    (Runs.run step {} [got (page 1) byte, tick byte]).cache.fatHeader = some buffer ∧
    (Runs.run step {} [got (page 1) byte, tick byte]).cache.serializeFATData [0] buffer 24
      = some (buffer', 136) := by
  obtain ⟨buffer, buffer', hhead, _, hser⟩ :=
    (fat_buffer_exact start_default [got (page 1) byte, tick byte]).2.2
  have hsize : (Runs.run step {} [got (page 1) byte, tick byte]).cache.totalSize.toNat = 136 := by
    decide +kernel
  have hlist : (Runs.run step {} [got (page 1) byte, tick byte]).cache.resourceList = [0] := by
    decide +kernel
  rw [hsize, hlist] at hser
  exact ⟨buffer, buffer', hhead, hser⟩

end Manager

end Wkc
