import Mathlib.Logic.Relation
import WkcBrowser.Cache.Resource
import WkcBrowser.Lib.Tables

/-!
# What the cache operations can do

`Core` is the part of a manager that its invariants speak about: the index, the list, the waiting
resources, the objects and the two totals.  `Move` lists what an operation can do to it, so that an
invariant has to be looked at once per move.

* `Core.WF`        lists without repetition, live and disjoint; the index points into the list;
* `Move.wf`        every move keeps `WF`.

The parameter `G` of `Move` is a condition on the one move that matters for the accounting: a listed
entry receives a new body (`Move.relist`).
-/

namespace Wkc

abbrev Ptr := Nat

structure Core where
  index : WString → Option Ptr
  list : List Ptr
  pending : List Ptr
  heap : Ptr → Option HTTPCachedResource
  next : Nat
  totalResourceSize : Int
  totalContentsSize : Int

theorem eraseIdx_eq_erase {l : List Ptr} (h : l.Nodup) {n : Nat} {p : Ptr} (hn : l[n]? = some p) :
    l.eraseIdx n = l.erase p := by
  obtain ⟨hlt, rfl⟩ := List.getElem?_eq_some_iff.mp hn
  exact (List.erase_eq_eraseIdx_of_idxOf (h.idxOf_getElem n hlt)).symm

namespace Core

def res (k : Core) (p : Ptr) : HTTPCachedResource := (k.heap p).getD default

def setRes (k : Core) (p : Ptr) (r : HTTPCachedResource) : Core :=
  { k with heap := Function.update k.heap p (some r) }

def free (k : Core) (p : Ptr) : Core := { k with heap := Function.update k.heap p none }

def alloc (k : Core) (r : HTTPCachedResource) : Core :=
  { k with heap := Function.update k.heap k.next (some r), next := k.next + 1 }

def append (k : Core) (p : Ptr) : Core := { k with pending := k.pending ++ [p] }

def unlist (k : Core) (p : Ptr) : Core :=
  { k with
    index := Function.update k.index (k.res p).url none
    list := k.list.erase p
    totalResourceSize := k.totalResourceSize - (k.res p).resourceSize
    totalContentsSize := k.totalContentsSize - (k.res p).contentLength.toInt }

def enlist (k : Core) (p : Ptr) : Core :=
  { k with
    index := if (k.index (k.res p).url).isSome then k.index
      else Function.update k.index (k.res p).url (some p)
    list := k.list ++ [p]
    totalResourceSize := k.totalResourceSize + (k.res p).resourceSize
    totalContentsSize := k.totalContentsSize + (k.res p).contentLength.toInt }

def reset (k : Core) : Core :=
  { k with
    index := fun _ => none
    list := []
    heap := fun p => if p ∈ k.list then none else k.heap p
    totalResourceSize := 0
    totalContentsSize := 0 }

def dropPending (k : Core) : Core :=
  { k with pending := [], heap := fun p => if p ∈ k.pending then none else k.heap p }

theorem setRes_res (k : Core) (p q : Ptr) (r : HTTPCachedResource) :
    (k.setRes p r).res q = if q = p then r else k.res q := by
  show (Function.update k.heap p (some r) q).getD default = _
  by_cases h : q = p
  · rw [h, if_pos rfl, Function.update_self]; rfl
  · rw [if_neg h, Function.update_of_ne h]; rfl

theorem setRes_res_self (k : Core) (p : Ptr) (r : HTTPCachedResource) : (k.setRes p r).res p = r := by
  rw [setRes_res, if_pos rfl]

theorem setRes_res_ne (k : Core) {p q : Ptr} (h : q ≠ p) (r : HTTPCachedResource) :
    (k.setRes p r).res q = k.res q := by
  rw [setRes_res, if_neg h]

theorem setRes_live (k : Core) (p q : Ptr) (r : HTTPCachedResource) :
    ((k.setRes p r).heap q).isSome ↔ q = p ∨ (k.heap q).isSome := by
  show (Function.update k.heap p (some r) q).isSome ↔ _
  by_cases h : q = p
  · rw [h, Function.update_self]; simp
  · rw [Function.update_of_ne h]; simp [h]

theorem free_heap_ne (k : Core) {p q : Ptr} (h : q ≠ p) : (k.free p).heap q = k.heap q :=
  Function.update_of_ne h ..

theorem free_res_ne (k : Core) {p q : Ptr} (h : q ≠ p) : (k.free p).res q = k.res q := by
  rw [res, free_heap_ne k h]; rfl

theorem alloc_res (k : Core) (r : HTTPCachedResource) (q : Ptr) :
    (k.alloc r).res q = if q = k.next then r else k.res q := k.setRes_res k.next q r

/-! ## well-formed cores -/

structure WF (k : Core) : Prop where
  list_nodup : k.list.Nodup
  pending_nodup : k.pending.Nodup
  disjoint : ∀ p ∈ k.list, p ∉ k.pending
  live : ∀ p, p ∈ k.list ∨ p ∈ k.pending → (k.heap p).isSome
  fresh : ∀ p, (k.heap p).isSome → p < k.next
  index : ∀ u p, k.index u = some p → p ∈ k.list ∧ (k.res p).url = u

theorem WF.list_lt {k : Core} (h : k.WF) {p : Ptr} (hp : p ∈ k.list) : p < k.next :=
  h.fresh p (h.live p (.inl hp))

theorem WF.pending_lt {k : Core} (h : k.WF) {p : Ptr} (hp : p ∈ k.pending) : p < k.next :=
  h.fresh p (h.live p (.inr hp))

theorem url_setRes {k : Core} {p : Ptr} {r : HTTPCachedResource} (hr : r.url = (k.res p).url)
    (q : Ptr) : ((k.setRes p r).res q).url = (k.res q).url := by
  by_cases h : q = p
  · rw [h, setRes_res_self, hr]
  · rw [setRes_res_ne k h]

theorem WF.setRes {k : Core} (h : k.WF) {p : Ptr} {r : HTTPCachedResource}
    (hp : p ∈ k.list ∨ p ∈ k.pending) (hr : r.url = (k.res p).url) : (k.setRes p r).WF where
  list_nodup := h.list_nodup
  pending_nodup := h.pending_nodup
  disjoint := h.disjoint
  live q hq := (setRes_live k p q r).mpr (.inr (h.live q hq))
  fresh q hq := by
    rcases (setRes_live k p q r).mp hq with rfl | hq
    · exact h.fresh q (h.live q hp)
    · exact h.fresh q hq
  index u q hq := by
    rw [url_setRes hr]
    exact h.index u q hq

theorem WF.unlist {k : Core} (h : k.WF) (p : Ptr) : (k.unlist p).WF where
  list_nodup := h.list_nodup.erase p
  pending_nodup := h.pending_nodup
  disjoint q hq := h.disjoint q (List.mem_of_mem_erase hq)
  live q hq := h.live q (hq.imp_left List.mem_of_mem_erase)
  fresh := h.fresh
  index u q hq := by
    have hne : u ≠ (k.res p).url := by
      rintro rfl
      have : (k.unlist p).index (k.res p).url = none := Function.update_self ..
      rw [this] at hq
      cases hq
    have hq' : k.index u = some q := by
      rw [← hq]; exact (Function.update_of_ne hne ..).symm
    obtain ⟨hmem, hurl⟩ := h.index u q hq'
    refine ⟨(List.mem_erase_of_ne ?_).mpr hmem, hurl⟩
    rintro rfl
    exact hne hurl.symm

theorem WF.append {k : Core} (h : k.WF) {p : Ptr} (hl : p ∉ k.list) (hp : p ∉ k.pending)
    (hlive : (k.heap p).isSome) : (k.append p).WF where
  list_nodup := h.list_nodup
  pending_nodup := by
    refine List.nodup_append.mpr ⟨h.pending_nodup, List.nodup_singleton p, ?_⟩
    intro a ha b hb
    rw [List.mem_singleton.mp hb]
    rintro rfl
    exact hp ha
  disjoint q hq hq' := by
    rcases List.mem_append.mp hq' with hq' | hq'
    · exact h.disjoint q hq hq'
    · rw [List.mem_singleton.mp hq'] at hq
      exact hl hq
  live q hq := by
    rcases hq with hq | hq
    · exact h.live q (.inl hq)
    · rcases List.mem_append.mp hq with hq | hq
      · exact h.live q (.inr hq)
      · rw [List.mem_singleton.mp hq]; exact hlive
  fresh := h.fresh
  index := h.index

theorem WF.unpend {k : Core} (h : k.WF) (n : Nat) :
    ({ k with pending := k.pending.eraseIdx n } : Core).WF where
  list_nodup := h.list_nodup
  pending_nodup := h.pending_nodup.sublist (List.eraseIdx_sublist ..)
  disjoint q hq hq' := h.disjoint q hq (List.mem_of_mem_eraseIdx hq')
  live q hq := h.live q (hq.imp_right List.mem_of_mem_eraseIdx)
  fresh := h.fresh
  index := h.index

theorem WF.alloc {k : Core} (h : k.WF) (r : HTTPCachedResource) : (k.alloc r).WF where
  list_nodup := h.list_nodup
  pending_nodup := h.pending_nodup
  disjoint := h.disjoint
  live q hq := (setRes_live k k.next q r).mpr (.inr (h.live q hq))
  fresh q hq := by
    rcases (setRes_live k k.next q r).mp hq with rfl | hq
    · exact Nat.lt_succ_self _
    · exact Nat.lt_succ_of_lt (h.fresh q hq)
  index u q hq := by
    obtain ⟨hmem, hurl⟩ := h.index u q hq
    rw [alloc_res, if_neg (Nat.ne_of_lt (h.list_lt hmem))]
    exact ⟨hmem, hurl⟩

theorem WF.free {k : Core} (h : k.WF) {p : Ptr} (hl : p ∉ k.list) (hp : p ∉ k.pending) :
    (k.free p).WF where
  list_nodup := h.list_nodup
  pending_nodup := h.pending_nodup
  disjoint := h.disjoint
  live q hq := by
    have hne : q ≠ p := by
      rintro rfl
      exact hq.elim hl hp
    rw [free_heap_ne k hne]
    exact h.live q hq
  fresh q hq := by
    by_cases hne : q = p
    · rw [hne, show (k.free p).heap p = none from Function.update_self ..] at hq
      cases hq
    · rw [free_heap_ne k hne] at hq
      exact h.fresh q hq
  index u q hq := by
    obtain ⟨hmem, hurl⟩ := h.index u q hq
    have hne : q ≠ p := by
      rintro rfl
      exact hl hmem
    rw [free_res_ne k hne]
    exact ⟨hmem, hurl⟩

theorem WF.enlist {k : Core} (h : k.WF) {p : Ptr} {rest : List Ptr} (hp : k.pending = p :: rest) :
    (({ k with pending := rest } : Core).enlist p).WF := by
  have hnd := h.pending_nodup
  rw [hp, List.nodup_cons] at hnd
  have hmem : p ∈ k.pending := by rw [hp]; exact List.mem_cons_self
  have hrest : ∀ q, q ∈ rest → q ∈ k.pending := fun q hq => by rw [hp]; exact List.mem_cons_of_mem _ hq
  refine ⟨?_, hnd.2, ?_, ?_, h.fresh, ?_⟩
  · refine List.nodup_append.mpr ⟨h.list_nodup, List.nodup_singleton p, ?_⟩
    intro a ha b hb
    rw [List.mem_singleton.mp hb]
    rintro rfl
    exact h.disjoint a ha hmem
  · intro q hq hq'
    rcases List.mem_append.mp hq with hq | hq
    · exact h.disjoint q hq (hrest q hq')
    · rw [List.mem_singleton.mp hq] at hq'
      exact hnd.1 hq'
  · intro q hq
    rcases hq with hq | hq
    · rcases List.mem_append.mp hq with hq | hq
      · exact h.live q (.inl hq)
      · rw [List.mem_singleton.mp hq]; exact h.live p (.inr hmem)
    · exact h.live q (.inr (hrest q hq))
  · intro u q hq
    have hold : ∀ u q, k.index u = some q → q ∈ k.list ++ [p] ∧ (k.res q).url = u := fun u q hq =>
      ⟨List.mem_append_left _ (h.index u q hq).1, (h.index u q hq).2⟩
    change (if (k.index (k.res p).url).isSome then k.index
      else Function.update k.index (k.res p).url (some p)) u = some q at hq
    split at hq
    · exact hold u q hq
    · refine Tables.forall_update (P := fun u q => q ∈ k.list ++ [p] ∧ (k.res q).url = u) hold (fun x hx => ?_) hq
      obtain rfl := Option.some.inj hx
      exact ⟨List.mem_append_right _ (List.mem_singleton_self p), rfl⟩

theorem WF.reset {k : Core} (h : k.WF) : k.reset.WF where
  list_nodup := List.nodup_nil
  pending_nodup := h.pending_nodup
  disjoint q hq := absurd hq List.not_mem_nil
  live q hq := by
    rcases hq with hq | hq
    · exact absurd hq List.not_mem_nil
    · have hnot : q ∉ k.list := fun hl => h.disjoint q hl hq
      show (if q ∈ k.list then none else k.heap q).isSome
      rw [if_neg hnot]
      exact h.live q (.inr hq)
  fresh q hq := by
    change (if q ∈ k.list then none else k.heap q).isSome at hq
    split at hq
    · cases hq
    · exact h.fresh q hq
  index u q hq := nomatch hq

theorem WF.dropPending {k : Core} (h : k.WF) : k.dropPending.WF where
  list_nodup := h.list_nodup
  pending_nodup := List.nodup_nil
  disjoint q _ := List.not_mem_nil
  live q hq := by
    rcases hq with hq | hq
    · show (if q ∈ k.pending then none else k.heap q).isSome
      rw [if_neg (h.disjoint q hq)]
      exact h.live q (.inl hq)
    · exact absurd hq List.not_mem_nil
  fresh q hq := by
    change (if q ∈ k.pending then none else k.heap q).isSome at hq
    split at hq
    · cases hq
    · exact h.fresh q hq
  index u q hq := by
    obtain ⟨hmem, hurl⟩ := h.index u q hq
    refine ⟨hmem, ?_⟩
    show ((if q ∈ k.pending then none else k.heap q).getD default).url = u
    rw [if_neg (h.disjoint q hmem)]
    exact hurl

end Core

open Wkc.Core

/-! ## moves -/

section
variable (G : HTTPCachedResource → SharedBuffer → Prop)

inductive Move : Core → Core → Prop
  /-- an entry leaves the list -/
  | unlist {k : Core} {p : Ptr} : p ∈ k.list → Move k (k.unlist p)
  /-- an object on neither list is deleted -/
  | free {k : Core} {p : Ptr} : p ∉ k.list → p ∉ k.pending → Move k (k.free p)
  /-- the used flag of an entry changes -/
  | mark {k : Core} {p : Ptr} (b : Bool) : p ∈ k.list → Move k (k.setRes p ((k.res p).setUsed b))
  /-- an entry gets a new response and body and goes back to the waiting resources -/
  | relist {k : Core} {p : Ptr} {r : HTTPCachedResource} {d : SharedBuffer} : p ∈ k.list →
      r.url = (k.res p).url → r.resourceSize = (k.res p).resourceSize →
      r.contentLength = Int64.ofNat d.size → G (k.res p) d →
      Move k (((k.setRes p r).unlist p).append p)
  /-- a waiting resource gets a new response and body and goes to the end -/
  | repend {k : Core} {n : Nat} {p : Ptr} {r : HTTPCachedResource} : k.pending[n]? = some p →
      r.url = (k.res p).url →
      Move k (({ k.setRes p r with pending := k.pending.eraseIdx n } : Core).append p)
  /-- a waiting resource is forgotten -/
  | unpend {k : Core} (n : Nat) : Move k { k with pending := k.pending.eraseIdx n }
  /-- an object is created and kept nowhere -/
  | alloc {k : Core} (r : HTTPCachedResource) : Move k (k.alloc r)
  /-- an object for an unknown URL is created and waits -/
  | pend {k : Core} {r : HTTPCachedResource} : k.index r.url = none →
      (∀ q ∈ k.pending, (k.res q).url ≠ r.url) → wellFormed r.url = true →
      Move k ((k.alloc r).append k.next)
  /-- the first waiting resource has been written and is listed -/
  | enlist {k : Core} {p : Ptr} {rest : List Ptr} {r : HTTPCachedResource} : k.pending = p :: rest →
      r.url = (k.res p).url → r.resourceSize = r.recordSize →
      Move k (({ k.setRes p r with pending := rest } : Core).enlist p)
  | reset {k : Core} : Move k k.reset
  | dropPending {k : Core} : Move k k.dropPending

abbrev Moves : Core → Core → Prop := Relation.ReflTransGen (Move G)

variable {G}

theorem Move.wf {k k' : Core} (hm : Move G k k') (h : k.WF) : k'.WF := by
  cases hm with
  | unlist _ => exact h.unlist _
  | free hl hp => exact h.free hl hp
  | mark b hp => exact h.setRes (.inl hp) rfl
  | @relist p r d hp hurl _ _ _ =>
    have hset := h.setRes (.inl hp) hurl
    refine (hset.unlist p).append ?_ (h.disjoint p hp) (hset.live p (.inl hp))
    exact h.list_nodup.not_mem_erase
  | @repend n p r hn hurl =>
    have hp : p ∈ k.pending := List.mem_of_getElem? hn
    have hset := h.setRes (.inr hp) hurl
    refine (hset.unpend n).append ?_ ?_ (hset.live p (.inr hp))
    · intro hl
      exact h.disjoint p hl hp
    · intro hmem
      change p ∈ k.pending.eraseIdx n at hmem
      rw [eraseIdx_eq_erase h.pending_nodup hn] at hmem
      exact h.pending_nodup.not_mem_erase hmem
  | unpend n => exact h.unpend n
  | alloc r => exact h.alloc r
  | @pend r _ _ _ =>
    refine (h.alloc r).append ?_ ?_ ((setRes_live k k.next k.next r).mpr (.inl rfl))
    · exact fun hl => Nat.lt_irrefl _ (h.list_lt hl)
    · exact fun hp => Nat.lt_irrefl _ (h.pending_lt hp)
  | @enlist p rest r hp hurl _ =>
    have hmem : p ∈ k.pending := by rw [hp]; exact List.mem_cons_self
    exact (h.setRes (.inr hmem) hurl).enlist hp
  | reset => exact h.reset
  | dropPending => exact h.dropPending

theorem Moves.wf {k k' : Core} (hm : Moves G k k') (h : k.WF) : k'.WF := by
  induction hm with
  | refl => exact h
  | tail _ hlast ih => exact hlast.wf ih

end

end Wkc
