import WkcBrowser.Cache.Reload

/-!
# The index and the list agree

`Indexed` is the joint invariant of the cache and the list of waiting resources: a listed entry is
found under its URL, and no URL is known twice, listed or waiting.  It is what makes the
`HashMap::add` of `HTTPCache::write` safe.

* `Move.indexed`           every move keeps it;
* `Indexed.loadEntries`    so does loading entries with distinct URLs;
* `index_list_agree`       it holds in every reachable manager.
-/

set_option linter.unusedSectionVars false

namespace Wkc
open Wkc.Core

section
variable [FilePeers]

namespace Core

def Known (k : Core) (p : Ptr) : Prop := p ∈ k.list ∨ p ∈ k.pending

structure Indexed (k : Core) : Prop where
  wf : k.WF
  complete : ∀ p ∈ k.list, k.index (k.res p).url = some p
  unique : ∀ p q, k.Known p → k.Known q → (k.res p).url = (k.res q).url → p = q
  text : ∀ p, k.Known p → wellFormed (k.res p).url = true

theorem Indexed.shrink {k k' : Core} (h : k.Indexed) (hwf : k'.WF)
    (hk : ∀ p, k'.Known p → k.Known p) (hu : ∀ p, k'.Known p → (k'.res p).url = (k.res p).url)
    (hc : ∀ p ∈ k'.list, k'.index (k'.res p).url = some p) : k'.Indexed where
  wf := hwf
  complete := hc
  unique p q hp hq hpq := by
    rw [hu p hp, hu q hq] at hpq
    exact h.unique p q (hk p hp) (hk q hq) hpq
  text p hp := by
    rw [hu p hp]
    exact h.text p (hk p hp)

theorem Indexed.setRes {k : Core} (h : k.Indexed) {p : Ptr} {r : HTTPCachedResource}
    (hp : k.Known p) (hr : r.url = (k.res p).url) : (k.setRes p r).Indexed := by
  refine h.shrink (h.wf.setRes hp hr) (fun _ hq => hq) (fun q _ => url_setRes hr q) ?_
  intro q hq
  rw [url_setRes hr]
  exact h.complete q hq

theorem Indexed.unlist {k : Core} (h : k.Indexed) {p : Ptr} (hp : p ∈ k.list) :
    (k.unlist p).Indexed := by
  refine h.shrink (h.wf.unlist p) (fun _ hq => hq.imp_left List.mem_of_mem_erase)
    (fun _ _ => rfl) ?_
  intro q hq
  have hq' : q ∈ k.list := List.mem_of_mem_erase hq
  have hne : (k.res q).url ≠ (k.res p).url := by
    intro he
    have hqp := h.unique q p (.inl hq') (.inl hp) he
    rw [hqp] at hq
    exact h.wf.list_nodup.not_mem_erase hq
  show Function.update k.index (k.res p).url none (k.res q).url = some q
  rw [Function.update_of_ne hne]
  exact h.complete q hq'

theorem Indexed.enlist {k : Core} (h : k.Indexed) {p : Ptr} {rest : List Ptr}
    (hp : k.pending = p :: rest) : (({ k with pending := rest } : Core).enlist p).Indexed := by
  have hmem : p ∈ k.pending := by rw [hp]; exact List.mem_cons_self
  have hnone : k.index (k.res p).url = none := by
    cases hi : k.index (k.res p).url with
    | none => rfl
    | some q =>
      obtain ⟨hq, hurl⟩ := h.wf.index _ q hi
      have hqp := h.unique q p (.inl hq) (.inr hmem) hurl
      rw [hqp] at hq
      exact absurd hmem (h.wf.disjoint p hq)
  have hknown : ∀ q, (({ k with pending := rest } : Core).enlist p).Known q → k.Known q := by
    intro q hq
    rcases hq with hq | hq
    · rcases List.mem_append.mp hq with hq | hq
      · exact .inl hq
      · rw [List.mem_singleton.mp hq]; exact .inr hmem
    · refine .inr ?_
      rw [hp]
      exact List.mem_cons_of_mem _ hq
  refine h.shrink (h.wf.enlist hp) hknown (fun _ _ => rfl) ?_
  intro q hq
  show (if (k.index (k.res p).url).isSome then k.index
    else Function.update k.index (k.res p).url (some p)) (k.res q).url = some q
  rw [hnone]
  show Function.update k.index (k.res p).url (some p) (k.res q).url = some q
  rcases List.mem_append.mp hq with hq | hq
  · have hne : (k.res q).url ≠ (k.res p).url := by
      intro he
      have hqp := h.unique q p (.inl hq) (.inr hmem) he
      rw [hqp] at hq
      exact h.wf.disjoint p hq hmem
    rw [Function.update_of_ne hne]
    exact h.complete q hq
  · rw [List.mem_singleton.mp hq, Function.update_self]

theorem Indexed.grow {k k' : Core} (h : k.Indexed) {r : HTTPCachedResource} (hwf : k'.WF)
    (hk : ∀ p, k'.Known p → k.Known p ∨ p = k.next)
    (hres : ∀ p, k'.res p = if p = k.next then r else k.res p)
    (hnew : ∀ q, k.Known q → (k.res q).url ≠ r.url) (htext : wellFormed r.url = true)
    (hc : ∀ p ∈ k'.list, k'.index (k'.res p).url = some p) : k'.Indexed := by
  have hold : ∀ q, k.Known q → k'.res q = k.res q := by
    intro q hq
    rw [hres, if_neg (Nat.ne_of_lt (h.wf.fresh q (h.wf.live q hq)))]
  have hnext : k'.res k.next = r := by rw [hres, if_pos rfl]
  refine ⟨hwf, hc, ?_, ?_⟩
  · intro p q hp hq hpq
    rcases hk p hp with hp | rfl
    · rw [hold p hp] at hpq
      rcases hk q hq with hq | rfl
      · rw [hold q hq] at hpq
        exact h.unique p q hp hq hpq
      · rw [hnext] at hpq
        exact absurd hpq (hnew p hp)
    · rw [hnext] at hpq
      rcases hk q hq with hq | rfl
      · rw [hold q hq] at hpq
        exact absurd hpq.symm (hnew q hq)
      · rfl
  · intro p hp
    rcases hk p hp with hp | rfl
    · rw [hold p hp]; exact h.text p hp
    · rw [hnext]; exact htext

theorem Indexed.unknown {k : Core} (h : k.Indexed) {u : WString} (hi : k.index u = none)
    (hp : ∀ q ∈ k.pending, (k.res q).url ≠ u) : ∀ q, k.Known q → (k.res q).url ≠ u := by
  rintro q (hq | hq) rfl
  · rw [h.complete q hq] at hi
    cases hi
  · exact hp q hq rfl

end Core

section
variable {G : HTTPCachedResource → SharedBuffer → Prop} {k k' : Core}

theorem Move.indexed (hm : Move G k k') (h : k.Indexed) : k'.Indexed := by
  have hwf := hm.wf h.wf
  cases hm with
  | unlist hp => exact h.unlist hp
  | @free p hl hp =>
    have hne : ∀ q, k.Known q → q ≠ p := by
      rintro q hq rfl
      exact hq.elim hl hp
    refine h.shrink hwf (fun _ hq => hq) (fun q hq => by rw [free_res_ne k (hne q hq)]) ?_
    intro q hq
    rw [free_res_ne k (hne q (.inl hq))]
    exact h.complete q hq
  | mark b hp => exact h.setRes (.inl hp) rfl
  | @relist p r d hp hurl _ _ _ =>
    have hset := h.setRes (.inl hp) hurl
    have hun := hset.unlist hp
    refine hset.shrink hwf ?_ (fun _ _ => rfl) hun.complete
    rintro q (hq | hq)
    · exact .inl (List.mem_of_mem_erase hq)
    · rcases List.mem_append.mp hq with hq | hq
      · exact .inr hq
      · rw [List.mem_singleton.mp hq]; exact .inl hp
  | @repend n p r hn hurl =>
    have hp : p ∈ k.pending := List.mem_of_getElem? hn
    have hset := h.setRes (.inr hp) hurl
    refine hset.shrink hwf ?_ (fun _ _ => rfl) hset.complete
    rintro q (hq | hq)
    · exact .inl hq
    · rcases List.mem_append.mp hq with hq | hq
      · exact .inr (List.mem_of_mem_eraseIdx hq)
      · rw [List.mem_singleton.mp hq]; exact .inr hp
  | unpend n =>
    exact h.shrink hwf (fun _ hq => hq.imp_right List.mem_of_mem_eraseIdx) (fun _ _ => rfl) h.complete
  | alloc r =>
    have hres : ∀ q, k.Known q → (k.alloc r).res q = k.res q := by
      intro q hq
      rw [alloc_res, if_neg (Nat.ne_of_lt (h.wf.fresh q (h.wf.live q hq)))]
    refine h.shrink hwf (fun _ hq => hq) (fun q hq => by rw [hres q hq]) ?_
    intro q hq
    rw [hres q (.inl hq)]
    exact h.complete q hq
  | @pend r hi hp htext =>
    refine h.grow hwf ?_ (k.alloc_res r) (h.unknown hi hp) htext ?_
    · rintro q (hq | hq)
      · exact .inl (.inl hq)
      · rcases List.mem_append.mp hq with hq | hq
        · exact .inl (.inr hq)
        · exact .inr (List.mem_singleton.mp hq)
    · intro q hq
      show k.index ((k.alloc r).res q).url = some q
      rw [alloc_res, if_neg (Nat.ne_of_lt (h.wf.list_lt hq))]
      exact h.complete q hq
  | @enlist p rest r hp hurl _ =>
    have hmem : p ∈ k.pending := by rw [hp]; exact List.mem_cons_self
    exact (h.setRes (.inr hmem) hurl).enlist hp
  | reset =>
    refine h.shrink hwf (fun _ hq => .inr (hq.resolve_left List.not_mem_nil)) ?_ ?_
    · intro q hq
      have hq : q ∈ k.pending := hq.resolve_left List.not_mem_nil
      show ((if q ∈ k.list then none else k.heap q).getD default).url = _
      rw [if_neg (fun hl => h.wf.disjoint q hl hq)]
      rfl
    · exact fun q hq => absurd hq List.not_mem_nil
  | dropPending =>
    have hres : ∀ q ∈ k.list, k.dropPending.res q = k.res q := by
      intro q hq
      show (if q ∈ k.pending then none else k.heap q).getD default = _
      rw [if_neg (h.wf.disjoint q hq)]
      rfl
    refine h.shrink hwf (fun _ hq => .inl (hq.resolve_right List.not_mem_nil)) ?_ ?_
    · intro q hq
      rw [hres q (hq.resolve_right List.not_mem_nil)]
    · intro q hq
      rw [hres q hq]
      exact h.complete q hq

theorem Moves.indexed (hm : Moves G k k') (h : k.Indexed) : k'.Indexed := by
  induction hm with
  | refl => exact h
  | tail _ hlast ih => exact hlast.indexed ih

end

/-! ## loading a file with distinct URLs -/

theorem Core.Indexed.loadEntry {c : HTTPCache} (h : (c.core []).Indexed) {r : HTTPCachedResource}
    (hi : c.resources r.url = none) (htext : wellFormed r.url = true) :
    ((c.loadEntry r).core []).Indexed := by
  rcases loadEntry_core c r [] with hcore | hcore
  · rw [hcore]
    exact (Move.alloc (G := fun _ _ => True) r).indexed h
  · rw [hcore]
    have hnew := h.unknown hi (fun q hq => absurd hq List.not_mem_nil)
    refine h.grow (h.wf.load r) ?_ ((c.core []).load_res r) hnew htext ?_
    · rintro q (hq | hq)
      · rcases List.mem_append.mp hq with hq | hq
        · exact .inl (.inl hq)
        · exact .inr (List.mem_singleton.mp hq)
      · exact absurd hq List.not_mem_nil
    · intro q hq
      rw [load_res]
      show Function.update c.resources r.url (some c.next) _ = some q
      rcases List.mem_append.mp hq with hq | hq
      · have hlt : q ≠ (c.core []).next := Nat.ne_of_lt (h.wf.list_lt hq)
        rw [if_neg hlt, Function.update_of_ne (hnew q (.inl hq))]
        exact h.complete q hq
      · have heq : q = (c.core []).next := List.mem_singleton.mp hq
        rw [if_pos heq, Function.update_self, heq]
        rfl

theorem loadEntry_resources {c : HTTPCache} {r : HTTPCachedResource} {u : WString}
    (h : c.resources u = none) (hne : u ≠ r.url) : (c.loadEntry r).resources u = none := by
  rcases loadEntry_core c r [] with hcore | hcore
  · exact (congrFun (congrArg Core.index hcore) u).trans h
  · refine (congrFun (congrArg Core.index hcore) u).trans ?_
    show Function.update c.resources r.url (some c.next) u = none
    rw [Function.update_of_ne hne, h]

theorem Core.Indexed.loadEntries (rs : List HTTPCachedResource) : ∀ {c : HTTPCache},
    (c.core []).Indexed → (∀ r ∈ rs, c.resources r.url = none) →
    (∀ r ∈ rs, wellFormed r.url = true) → (rs.map HTTPCachedResource.url).Nodup →
    ((c.loadEntries rs).core []).Indexed := by
  induction rs with
  | nil => intro c h _ _ _; exact h
  | cons r rs ih =>
    intro c h hnone htext hnd
    rw [List.map_cons, List.nodup_cons] at hnd
    refine ih (h.loadEntry (hnone r List.mem_cons_self) (htext r List.mem_cons_self)) ?_ ?_ hnd.2
    · intro q hq
      refine loadEntry_resources (hnone q (List.mem_cons_of_mem _ hq)) ?_
      intro he
      exact hnd.1 (he ▸ List.mem_map_of_mem hq)
    · exact fun q hq => htext q (List.mem_cons_of_mem _ hq)

theorem Manager.SizeSound.loadEntries (rs : List HTTPCachedResource) : ∀ {c : HTTPCache},
    Manager.SizeSound (c.core []) → (∀ r ∈ rs, r.resourceSize = r.recordSize) →
    Manager.SizeSound ((c.loadEntries rs).core []) := by
  induction rs with
  | nil => intro c h _; exact h
  | cons r rs ih =>
    intro c h hsize
    refine ih ?_ (fun q hq => hsize q (List.mem_cons_of_mem _ hq))
    rcases loadEntry_core c r [] with hcore | hcore
    · have hm : Move (fun _ _ => False) (c.core []) ((c.core []).alloc r) := .alloc r
      rw [hcore]
      exact ⟨hm.wf h.wf, hm.entrySizes h.wf h.entrySizes,
        hm.balanced resources_tally h.wf (fun _ _ _ _ _ _ hG => hG.elim) h.total⟩
    · rw [hcore]
      exact ⟨h.wf.load r, h.wf.load_entrySizes (hsize r List.mem_cons_self) h.entrySizes,
        h.wf.load_balanced resources_tally r h.total⟩

/-! ## reachable managers -/

namespace Manager

/-- Reached from an empty cache, or from one that a new process has loaded from a file that
`writeFATFile` wrote in a reachable state, by any operations. -/
inductive Reachable : Manager → Prop
  | fresh {c : HTTPCache} : c.Fresh → Reachable { cache := c }
  | loaded {s : Manager} {c c1 c' : HTTPCache} {wr rd : FatIo} {b : Bool} : Reachable s →
      s.cache.writeFATFile wr = (true, c1) → c.Fresh →
      c.files.lookup (pathByAppendingComponent c.filePath c.fatFileName)
        = c1.files.lookup (pathByAppendingComponent c1.filePath c1.fatFileName) →
      c.readFATFile rd = .ok (b, c') → Reachable { cache := c' }
  | step {s : Manager} (op : Op) : Reachable s → Reachable (s.step op)

theorem fresh_indexed {c : HTTPCache} (h : c.Fresh) : (c.core []).Indexed := by
  have hlist : ∀ p, p ∉ (c.core []).list := by
    intro p hp
    change p ∈ c.resourceList at hp
    rw [h.resourceList] at hp
    exact List.not_mem_nil hp
  have hknown : ∀ p, ¬ (c.core []).Known p := fun p hp => hp.elim (hlist p) List.not_mem_nil
  exact ⟨h.sound.wf, fun p hp => absurd hp (hlist p), fun p _ hp => absurd hp (hknown p),
    fun p hp => absurd hp (hknown p)⟩

theorem loaded_inv {s : Manager} {c c1 c' : HTTPCache} {wr rd : FatIo} {b : Bool} (hsize : SizeSound s.core)
    (hindex : s.core.Indexed) (hwr : s.cache.writeFATFile wr = (true, c1)) (hc : c.Fresh)
    (hfile : c.files.lookup (pathByAppendingComponent c.filePath c.fatFileName)
      = c1.files.lookup (pathByAppendingComponent c1.filePath c1.fatFileName))
    (hrd : c.readFATFile rd = .ok (b, c')) : SizeSound (c'.core []) ∧ (c'.core []).Indexed := by
  obtain ⟨hbytes, hlen⟩ := hsize.sized.writeFATFile_true hwr
  have hurl : ∀ p ∈ s.cache.resourceList, wellFormed (s.cache.url p) = true :=
    fun p hp => hindex.text p (.inl hp)
  have hfresh : SizeSound (c.core []) := ⟨hc.sound.wf, hc.sound.entrySizes, hc.sound.resources⟩
  rcases HTTPCache.readFATFile_fatBytes rd (hfile.trans hbytes) hlen hurl with
    ⟨_, hnone⟩ | ⟨rs, hrs, hsome⟩
  · rw [hnone] at hrd
    obtain ⟨-, rfl⟩ := Prod.mk.inj (Except.ok.inj hrd)
    exact ⟨hfresh, fresh_indexed hc⟩
  · rw [hsome] at hrd
    obtain ⟨-, rfl⟩ := Prod.mk.inj (Except.ok.inj hrd)
    have hnd : (rs.map HTTPCachedResource.url).Nodup := by
      rw [hrs.url]
      refine (List.nodup_map_iff_inj_on hindex.wf.list_nodup).mpr ?_
      exact fun p hp q hq => hindex.unique p q (.inl hp) (.inl hq)
    have htext : ∀ r ∈ rs, wellFormed r.url = true := by
      intro r hr
      have hmem : r.url ∈ s.cache.resourceList.map s.cache.url := by
        rw [← hrs.url]; exact List.mem_map_of_mem hr
      obtain ⟨p, hp, he⟩ := List.mem_map.mp hmem
      rw [← he]
      exact hurl p hp
    have hempty : ∀ r ∈ rs, c.resources r.url = none := fun r _ => by rw [hc.resources]
    have hidx : (c.core []).Indexed := fresh_indexed hc
    have hstart : (({ c with fileNumber := s.cache.fileNumber } : HTTPCache).core []).Indexed := hidx
    exact ⟨SizeSound.loadEntries rs (c := { c with fileNumber := s.cache.fileNumber }) hfresh hrs.size,
      Indexed.loadEntries rs hstart hempty htext hnd⟩

theorem Reachable.inv {s : Manager} (h : Reachable s) : SizeSound s.core ∧ s.core.Indexed := by
  induction h with
  | fresh hc => exact ⟨⟨hc.sound.wf, hc.sound.entrySizes, hc.sound.resources⟩, fresh_indexed hc⟩
  | loaded _ hwr hc hfile hrd ih => exact loaded_inv ih.1 ih.2 hwr hc hfile hrd
  | step op _ ih =>
    exact ⟨ih.1.step op, Moves.indexed (step_moves (G := fun _ _ => True) ih.1.wf op
      (fun _ _ _ => trivial)) ih.2⟩

/-- **The index and the list agree in every reachable manager.** -/
theorem index_list_agree {s : Manager} (h : Reachable s) :
    (∀ u p, s.cache.resources u = some p ↔ p ∈ s.cache.resourceList ∧ s.cache.url p = u) ∧
    s.cache.resourceList.Nodup ∧ (∀ p ∈ s.cache.resourceList, p ∉ s.writeCacheList) ∧
    (∀ p q, p ∈ s.cache.resourceList ++ s.writeCacheList →
      q ∈ s.cache.resourceList ++ s.writeCacheList → s.cache.url p = s.cache.url q → p = q) := by
  have hi := h.inv.2
  refine ⟨?_, hi.wf.list_nodup, hi.wf.disjoint, ?_⟩
  · intro u p
    constructor
    · exact hi.wf.index u p
    · rintro ⟨hp, rfl⟩
      exact hi.complete p hp
  · intro p q hp hq
    exact hi.unique p q (List.mem_append.mp hp) (List.mem_append.mp hq)

end Manager

end

namespace Manager
open Sample in
theorem index_list_agree_page :
    Reachable (Runs.run step {} [got (page 1) byte, tick byte, got (page 2) byte]) ∧
    ∀ u p, (Runs.run step {} [got (page 1) byte, tick byte, got (page 2) byte]).cache.resources u
        = some p ↔
      p ∈ (Runs.run step {} [got (page 1) byte, tick byte, got (page 2) byte]).cache.resourceList ∧
      (Runs.run step {} [got (page 1) byte, tick byte, got (page 2) byte]).cache.url p = u := by
  have hreach : Reachable (Runs.run step {} [got (page 1) byte, tick byte, got (page 2) byte]) :=
    .step (got (page 2) byte) (.step (tick byte) (.step (got (page 1) byte)
      (.fresh (c := {}) ⟨rfl, rfl, rfl, rfl, rfl⟩)))
  exact ⟨hreach, (index_list_agree hreach).1⟩

end Manager

end Wkc
