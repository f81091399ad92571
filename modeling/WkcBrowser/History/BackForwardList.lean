import WkcBrowser.Lib.Bytes
import WkcBrowser.Lib.Runs
import WkcBrowser.Wtf.Text
import Mathlib.Data.Finset.Insert
import Mathlib.Data.Finset.Erase
import Mathlib.Data.List.Nodup
import Mathlib.Logic.Function.Iterate

/-!
# The back-forward list and its indices (BackForwardListImpl.cpp, WKCWebView.cpp)

* `BackForwardListImpl`   the entries, their hash, the current index and the capacity;
* `addItem`, `goToItem`, `setCapacity`, `setEnabled`, `removeItem`, `itemAtIndex`   as in `BackForwardListImpl`;
* `addHistoryItem`, `removeHistoryItemByIndex`, `getHistoryItemByIndex`, `gotoHistoryItemByIndex`
                          what the application calls, with indices from the first entry;
* `Listed`                what holds of the list after every sequence of calls;
* `ByIndex`               which entry each index function speaks about.
-/

namespace Wkc.History
open Runs Buf

/-- items are compared by their address; `create` gives each one of its own -/
structure HistoryItem where
  address : Nat
  urlString : Bytes
  title : WString
  deriving DecidableEq

def NoCurrentItemIndex : Nat := 2 ^ 32 - 1

structure BackForwardListImpl where
  m_entries : List HistoryItem := []
  m_entryHash : Finset Nat := ∅
  m_current : Nat := NoCurrentItemIndex
  m_capacity : Nat := 100
  m_enabled : Bool := true
  /-- items created so far, which is not in the source -/
  created : Nat := 0
  deriving DecidableEq

section
variable (s : BackForwardListImpl)

def removeLast : BackForwardListImpl :=
  { s with
    m_entries := s.m_entries.dropLast
    m_entryHash := match s.m_entries.getLast? with
      | some item => s.m_entryHash.erase item.address
      | none => s.m_entryHash }

def removeFirst : BackForwardListImpl :=
  match s.m_entries with
  | [] => s
  | item :: rest =>
    { s with
      m_entries := rest
      m_entryHash := s.m_entryHash.erase item.address
      m_current := minus s.m_current 1 }

/-- the loop that tosses the forward list; it runs once for each entry too many -/
def tossForward : BackForwardListImpl :=
  if s.m_current ≠ NoCurrentItemIndex then removeLast^[s.m_entries.length - (s.m_current + 1) % 2 ^ 32] s else s

def tossFirst : BackForwardListImpl :=
  if s.m_entries.length = s.m_capacity ∧ (s.m_current ≠ 0 ∨ s.m_capacity = 1) then removeFirst s else s

def insertItem (item : HistoryItem) : BackForwardListImpl :=
  { s with
    m_entries := s.m_entries.insertIdx ((s.m_current + 1) % 2 ^ 32) item
    m_entryHash := insert item.address s.m_entryHash
    m_current := (s.m_current + 1) % 2 ^ 32 }

def addItem (item : HistoryItem) : BackForwardListImpl :=
  if s.m_capacity = 0 ∨ s.m_enabled = false then s else insertItem (tossFirst (tossForward s)) item

/-- the index of the first entry that is this item -/
def indexOf (address : Nat) : Option Nat := s.m_entries.findIdx? fun item => item.address == address

def goToItem (address : Nat) : BackForwardListImpl :=
  match indexOf s address with
  | some index => { s with m_current := index }
  | none => s

def setCapacity (size : Nat) : BackForwardListImpl :=
  let t := removeLast^[(asInt32 s.m_entries.length - size).toNat] s
  { t with
    m_current :=
      if size = 0 then NoCurrentItemIndex
      else if minus t.m_entries.length 1 < t.m_current then minus t.m_entries.length 1
      else t.m_current
    m_capacity := size }

def setEnabled (enabled : Bool) : BackForwardListImpl :=
  let t := { s with m_enabled := enabled }
  if enabled then t else setCapacity (setCapacity t 0) s.m_capacity

def backListCount : Int := if s.m_current = NoCurrentItemIndex then 0 else asInt32 s.m_current

def forwardListCount : Int :=
  if s.m_current = NoCurrentItemIndex then 0 else asInt32 (minus s.m_entries.length ((s.m_current + 1) % 2 ^ 32))

def itemAtIndex (index : Int) : Option HistoryItem :=
  if index < -asInt32 s.m_current then none
  else if forwardListCount s < index then none
  else s.m_entries[((index + s.m_current) % 2 ^ 32).toNat]?

def removeItem (address : Nat) : BackForwardListImpl :=
  match indexOf s address with
  | none => s
  | some i =>
    let count := s.m_entries.length - 1
    { s with
      m_entries := s.m_entries.eraseIdx i
      m_entryHash := s.m_entryHash.erase address
      m_current :=
        if s.m_current = NoCurrentItemIndex ∨ s.m_current < i then s.m_current
        else if i < s.m_current then minus s.m_current 1
        else if count ≤ s.m_current then (if count ≠ 0 then minus count 1 else NoCurrentItemIndex)
        else s.m_current }

/-! ## what the application calls -/

def addHistoryItem (uri : Bytes) (title : WString) : BackForwardListImpl :=
  if s.m_enabled then
    let item : HistoryItem := ⟨s.created, uri, title⟩
    addItem { s with created := s.created + 1 } item
  else s

def getHistoryLength : Nat := if s.m_enabled then s.m_entries.length else 0

def getHistoryCurrentIndex : Option Nat :=
  if s.m_enabled = false ∨ getHistoryLength s = 0 then none else some ((backListCount s) % 2 ^ 32).toNat

def getHistoryIndexByItem (address : Nat) : Option Nat := if s.m_enabled then indexOf s address else none

/-- the distance of an index from the current one -/
def distance (index : UInt32) (current : Nat) : Int := asInt32 (minus index.toNat current)

/-- the item whose URL and title are handed out -/
def getHistoryItemByIndex (index : UInt32) : Option HistoryItem :=
  match getHistoryCurrentIndex s with
  | none => none
  | some current => itemAtIndex s (distance index current)

def removeHistoryItemByIndex (index : UInt32) : BackForwardListImpl :=
  match getHistoryItemByIndex s index with
  | none => s
  | some item => removeItem s item.address

/-- the item that the page is asked to go to -/
def gotoHistoryItemByIndex (index : UInt32) : Option HistoryItem :=
  match getHistoryCurrentIndex s with
  | none => none
  | some current =>
    let d := distance index current
    match itemAtIndex s d with
    | some item => some item
    | none =>
      if 0 < d then
        if 0 < forwardListCount s then itemAtIndex s (forwardListCount s) else none
      else if 0 < backListCount s then itemAtIndex s (-backListCount s) else none

end

inductive Call
  | addHistoryItem (uri : Bytes) (title : WString)
  | removeHistoryItemByIndex (index : UInt32)
  /-- a navigation that ends there; the item may have been removed meanwhile -/
  | goToItem (address : Nat)
  | setMaintainsBackForwardList (flag : Bool)
  | setCapacity (size : Fin (2 ^ 31))

def step (s : BackForwardListImpl) : Call → BackForwardListImpl
  | .addHistoryItem uri title => addHistoryItem s uri title
  | .removeHistoryItemByIndex index => removeHistoryItemByIndex s index
  | .goToItem address => goToItem s address
  | .setMaintainsBackForwardList flag => setEnabled s flag
  | .setCapacity size => setCapacity s size

/-! ## what is meant -/

structure Listed (s : BackForwardListImpl) : Prop where
  nodup : (s.m_entries.map HistoryItem.address).Nodup
  hash : ∀ address, address ∈ s.m_entryHash ↔ ∃ item ∈ s.m_entries, item.address = address
  size : s.m_entries.length ≤ s.m_capacity
  empty : s.m_current = NoCurrentItemIndex ↔ s.m_entries = []
  current : s.m_entries ≠ [] → s.m_current < s.m_entries.length

/-- the index functions speak about the entry with that index, and removing it keeps the others -/
structure ByIndex (s : BackForwardListImpl) : Prop where
  getItem : ∀ index : UInt32, getHistoryItemByIndex s index =
    if index.toNat < getHistoryLength s then s.m_entries[index.toNat]? else none
  goto : ∀ index : UInt32, index.toNat < getHistoryLength s →
    gotoHistoryItemByIndex s index = s.m_entries[index.toNat]?
  indexByItem : ∀ address index, getHistoryIndexByItem s address = some index ↔
    index < getHistoryLength s ∧ (s.m_entries.map HistoryItem.address)[index]? = some address
  currentIndex : getHistoryCurrentIndex s = if getHistoryLength s = 0 then none else some s.m_current
  remove : ∀ index : UInt32, (removeHistoryItemByIndex s index).m_entries =
    if index.toNat < getHistoryLength s then s.m_entries.eraseIdx index.toNat else s.m_entries
  /-- the current item stays -/
  removeCurrent : ∀ index : UInt32, index.toNat ≠ s.m_current →
    (removeHistoryItemByIndex s index).m_entries[(removeHistoryItemByIndex s index).m_current]? =
      s.m_entries[s.m_current]?
  removeBeyond : ∀ index : UInt32, getHistoryLength s ≤ index.toNat → removeHistoryItemByIndex s index = s

theorem distance_eq {index : UInt32} {current : Nat} (hc : current < 2 ^ 31) :
    distance index current =
      if index.toNat < current + 2 ^ 31 then (index.toNat : Int) - current else index.toNat - current - 2 ^ 32 := by
  have hi : index.toNat < 2 ^ 32 := index.toNat_lt
  have hm : minus index.toNat current < 2 ^ 32 := Nat.mod_lt _ (by omega)
  rw [distance, asInt32_eq_of_lt hm]
  unfold minus
  split <;> split <;> omega

/-! ## the entries and their hash -/

/-- what the entries and the hash have to do with each other -/
structure Held (s : BackForwardListImpl) : Prop where
  nodup : (s.m_entries.map HistoryItem.address).Nodup
  hash : ∀ address, address ∈ s.m_entryHash ↔ address ∈ s.m_entries.map HistoryItem.address
  made : ∀ item ∈ s.m_entries, item.address < s.created

theorem mem_eraseIdx {l : List HistoryItem} (hl : (l.map HistoryItem.address).Nodup) {i : Nat} {item : HistoryItem}
    (hi : l[i]? = some item) (address : Nat) :
    address ∈ (l.eraseIdx i).map HistoryItem.address ↔ address ≠ item.address ∧ address ∈ l.map HistoryItem.address := by
  have hat : (l.map HistoryItem.address)[i]? = some item.address := by simp [hi]
  obtain ⟨hlt, heq⟩ := List.getElem?_eq_some_iff.mp hat
  have herase : (l.eraseIdx i).map HistoryItem.address = (l.map HistoryItem.address).erase item.address := by
    rw [← heq, hl.erase_getElem, List.eraseIdx_map]
  rw [herase, hl.mem_erase_iff]

theorem Held.eraseIdx {s t : BackForwardListImpl} (h : Held s) {i : Nat} {item : HistoryItem}
    (hi : s.m_entries[i]? = some item) (hentries : t.m_entries = s.m_entries.eraseIdx i)
    (hhash : t.m_entryHash = s.m_entryHash.erase item.address) (hcreated : t.created = s.created) : Held t where
  nodup := by
    rw [hentries, ← List.eraseIdx_map]
    exact h.nodup.sublist (List.eraseIdx_sublist _ _)
  hash address := by rw [hhash, hentries, mem_eraseIdx h.nodup hi, Finset.mem_erase, h.hash]
  made x hx := by
    rw [hentries] at hx
    rw [hcreated]
    exact h.made x (List.mem_of_mem_eraseIdx hx)

theorem Held.removeLast {s : BackForwardListImpl} (h : Held s) : Held (removeLast s) := by
  rcases List.eq_nil_or_concat s.m_entries with hnil | ⟨l, item, hl⟩
  · have hsame : History.removeLast s = s := by
      cases s
      simp_all [History.removeLast]
    rw [hsame]
    exact h
  · have hi : s.m_entries[l.length]? = some item := by simp [hl]
    refine h.eraseIdx hi ?_ ?_ rfl
    · simp [History.removeLast, hl, List.eraseIdx_append_of_length_le]
    · simp [History.removeLast, hl]

theorem removeLast_iterate {s : BackForwardListImpl} (h : Held s) (k : Nat) :
    ∃ hash, removeLast^[k] s = { s with m_entries := s.m_entries.take (s.m_entries.length - k), m_entryHash := hash } ∧
      Held (removeLast^[k] s) := by
  induction k with
  | zero => exact ⟨s.m_entryHash, by simp, h⟩
  | succ k ih =>
    obtain ⟨hash, heq, hheld⟩ := ih
    rw [Function.iterate_succ_apply']
    refine ⟨(removeLast (removeLast^[k] s)).m_entryHash, ?_, hheld.removeLast⟩
    rw [heq]
    simp only [removeLast, List.dropLast_eq_take, List.take_take, List.length_take]
    congr 2
    omega

theorem Held.removeFirst {s : BackForwardListImpl} (h : Held s) : Held (removeFirst s) := by
  cases hs : s.m_entries with
  | nil =>
    have hsame : History.removeFirst s = s := by simp [History.removeFirst, hs]
    rw [hsame]
    exact h
  | cons item rest =>
    have hi : s.m_entries[0]? = some item := by simp [hs]
    refine h.eraseIdx hi ?_ ?_ ?_ <;> simp [History.removeFirst, hs]

/-! ## what a call keeps -/

structure Kept (s : BackForwardListImpl) : Prop where
  held : Held s
  size : s.m_entries.length ≤ s.m_capacity
  capacity : s.m_capacity < 2 ^ 31
  empty : s.m_current = NoCurrentItemIndex ↔ s.m_entries = []
  current : s.m_entries ≠ [] → s.m_current < s.m_entries.length

/-- a list that is switched off is empty -/
structure Inv (s : BackForwardListImpl) : Prop extends Kept s where
  enabled : s.m_enabled = false → s.m_entries = []

theorem Inv.tossForward {s : BackForwardListImpl} (h : Inv s) :
    Inv (tossForward s) ∧ (tossForward s).m_entries.length = ((tossForward s).m_current + 1) % 2 ^ 32 ∧
      (tossForward s).m_capacity = s.m_capacity ∧ (tossForward s).m_enabled = s.m_enabled ∧
      (tossForward s).created = s.created ∧ (tossForward s).m_entries <+: s.m_entries := by
  by_cases hc : s.m_current = NoCurrentItemIndex
  · have hsame : History.tossForward s = s := by simp [History.tossForward, hc]
    rw [hsame]
    refine ⟨h, ?_, rfl, rfl, rfl, List.prefix_rfl⟩
    rw [h.empty.mp hc, hc]
    rfl
  · have hne : s.m_entries ≠ [] := fun hnil => hc (h.empty.mpr hnil)
    have hlt := h.current hne
    have hsize := h.size
    have hcap := h.capacity
    have htarget : (s.m_current + 1) % 2 ^ 32 = s.m_current + 1 := Nat.mod_eq_of_lt (by omega)
    obtain ⟨hash, heq, hheld⟩ := removeLast_iterate h.held (s.m_entries.length - (s.m_current + 1) % 2 ^ 32)
    have hkeep : s.m_entries.length - (s.m_entries.length - (s.m_current + 1)) = s.m_current + 1 := by omega
    have htoss : History.tossForward s =
        { s with m_entries := s.m_entries.take (s.m_current + 1), m_entryHash := hash } := by
      rw [History.tossForward, if_pos hc, heq, htarget, hkeep]
    have hheld' : Held (History.tossForward s) := by
      rw [History.tossForward, if_pos hc]
      exact hheld
    have hlen : (s.m_entries.take (s.m_current + 1)).length = s.m_current + 1 := by
      rw [List.length_take]
      omega
    have hkept : s.m_entries.take (s.m_current + 1) ≠ [] := List.ne_nil_of_length_pos (by omega)
    rw [htoss] at hheld' ⊢
    refine ⟨⟨⟨hheld', ?_, hcap, ?_, ?_⟩, ?_⟩, ?_, rfl, rfl, rfl, List.take_prefix _ _⟩
    · show _ ≤ s.m_capacity
      rw [hlen]
      omega
    · show s.m_current = _ ↔ _ = []
      simp [hc, hkept]
    · intro _
      show s.m_current < _
      rw [hlen]
      omega
    · intro hoff
      exact absurd (h.enabled hoff) hne
    · show List.length _ = _
      rw [hlen, htarget]

/-- ready for an item at the end: there is room, and the current entry is the last one -/
structure Room (s : BackForwardListImpl) (item : HistoryItem) : Prop where
  held : Held s
  last : s.m_entries.length = (s.m_current + 1) % 2 ^ 32
  room : s.m_entries.length < s.m_capacity
  capacity : s.m_capacity < 2 ^ 31
  enabled : s.m_enabled = true
  fresh : item.address ∉ s.m_entries.map HistoryItem.address
  made : item.address < s.created

theorem Inv.room {s : BackForwardListImpl} (h : Inv s) {item : HistoryItem} (hnew : item.address < s.created)
    (hfresh : item.address ∉ s.m_entries.map HistoryItem.address) (hskip : ¬ (s.m_capacity = 0 ∨ s.m_enabled = false)) :
    Room (tossFirst (History.tossForward s)) item := by
  obtain ⟨hinv, hlen, hcap, hon, hcreated, hfront⟩ := h.tossForward
  have hon' : (History.tossForward s).m_enabled = true := by
    rw [hon]
    simpa using fun hoff => hskip (Or.inr hoff)
  have hpositive : (History.tossForward s).m_capacity ≠ 0 := by
    rw [hcap]
    exact fun hzero => hskip (Or.inl hzero)
  have hnot : item.address ∉ (History.tossForward s).m_entries.map HistoryItem.address :=
    fun hmem => hfresh ((hfront.map HistoryItem.address).subset hmem)
  rw [← hcreated] at hnew
  have hsize := hinv.size
  have hbound := hinv.capacity
  by_cases hfull : (History.tossForward s).m_entries.length = (History.tossForward s).m_capacity ∧
      ((History.tossForward s).m_current ≠ 0 ∨ (History.tossForward s).m_capacity = 1)
  · rw [tossFirst, if_pos hfull]
    have hne : (History.tossForward s).m_entries ≠ [] := List.ne_nil_of_length_pos (by omega)
    have hcur := hinv.current hne
    have hheld := hinv.held.removeFirst
    obtain ⟨x, rest, hrest⟩ := List.exists_cons_of_ne_nil hne
    rw [hrest, List.length_cons] at hlen hcur hfull
    rw [hrest, List.map_cons, List.mem_cons, not_or] at hnot
    refine ⟨hheld, ?_, ?_, ?_, ?_, ?_, ?_⟩ <;> simp only [History.removeFirst, hrest, minus]
    · omega
    · omega
    · exact hbound
    · exact hon'
    · exact hnot.2
    · exact hnew
  · rw [tossFirst, if_neg hfull]
    refine ⟨hinv.held, hlen, ?_, hbound, hon', hnot, hnew⟩
    -- a full list whose first entry is the current one has only that entry
    by_contra hge
    have hzero : ¬ (History.tossForward s).m_current ≠ 0 := fun hne => hfull ⟨by omega, Or.inl hne⟩
    have hone : ¬ (History.tossForward s).m_capacity = 1 := fun hone => hfull ⟨by omega, Or.inr hone⟩
    omega

theorem Room.insertItem {s : BackForwardListImpl} {item : HistoryItem} (h : Room s item) : Inv (insertItem s item) := by
  have hroom := h.room
  have hbound := h.capacity
  have hentries : (History.insertItem s item).m_entries = s.m_entries ++ [item] := by
    show s.m_entries.insertIdx ((s.m_current + 1) % 2 ^ 32) item = _
    rw [← h.last, List.insertIdx_length_self]
  have hcurrent : (History.insertItem s item).m_current = s.m_entries.length := h.last.symm
  have hne : (History.insertItem s item).m_entries ≠ [] := by simp [hentries]
  refine ⟨⟨⟨?_, ?_, ?_⟩, ?_, hbound, ?_, ?_⟩, ?_⟩
  · rw [hentries, List.map_append, List.nodup_append]
    refine ⟨h.held.nodup, by simp, ?_⟩
    intro a ha b hb heq
    rw [List.map_singleton, List.mem_singleton] at hb
    exact h.fresh (hb ▸ heq ▸ ha)
  · intro address
    show address ∈ insert item.address s.m_entryHash ↔ _
    rw [hentries, Finset.mem_insert, h.held.hash, List.map_append, List.mem_append, List.map_singleton,
      List.mem_singleton, or_comm]
  · intro x hx
    rw [hentries, List.mem_append, List.mem_singleton] at hx
    rcases hx with hx | rfl
    · exact h.held.made x hx
    · exact h.made
  · show _ ≤ s.m_capacity
    rw [hentries, List.length_append]
    exact hroom
  · rw [hcurrent]
    simp only [hne, iff_false, NoCurrentItemIndex]
    omega
  · intro _
    rw [hcurrent, hentries, List.length_append]
    exact Nat.lt_succ_self _
  · intro hoff
    have hon : (History.insertItem s item).m_enabled = true := h.enabled
    rw [hon] at hoff
    cases hoff

theorem Inv.addItem {s : BackForwardListImpl} (h : Inv s) {item : HistoryItem} (hnew : item.address < s.created)
    (hfresh : item.address ∉ s.m_entries.map HistoryItem.address) : Inv (addItem s item) := by
  unfold History.addItem
  split
  · exact h
  · exact (h.room hnew hfresh ‹_›).insertItem

theorem Inv.addHistoryItem {s : BackForwardListImpl} (h : Inv s) (uri : Bytes) (title : WString) :
    Inv (addHistoryItem s uri title) := by
  unfold History.addHistoryItem
  split
  · have hcounted : Inv { s with created := s.created + 1 } :=
      ⟨⟨⟨h.held.nodup, h.held.hash, fun item hmem => Nat.lt_succ_of_lt (h.held.made item hmem)⟩, h.size, h.capacity,
        h.empty, h.current⟩, h.enabled⟩
    refine hcounted.addItem (Nat.lt_succ_self _) ?_
    intro hmem
    obtain ⟨x, hx, haddress⟩ := List.mem_map.mp hmem
    exact Nat.lt_irrefl _ (haddress ▸ h.held.made x hx)
  · exact h

theorem indexOf_eq_some {s : BackForwardListImpl} (h : Held s) (address i : Nat) :
    indexOf s address = some i ↔ (s.m_entries.map HistoryItem.address)[i]? = some address := by
  rw [indexOf, List.findIdx?_eq_some_iff_getElem, List.getElem?_map]
  constructor
  · rintro ⟨hlt, hat, _⟩
    simpa [hlt] using hat
  · intro hat
    obtain ⟨item, hitem, haddress⟩ := Option.map_eq_some_iff.mp hat
    obtain ⟨hlt, heq⟩ := List.getElem?_eq_some_iff.mp hitem
    refine ⟨hlt, by simp [heq, haddress], ?_⟩
    intro j hj hsame
    have hi : i < (s.m_entries.map HistoryItem.address).length := by simpa using hlt
    have hj' : j < (s.m_entries.map HistoryItem.address).length := Nat.lt_trans hj hi
    have hboth : (s.m_entries.map HistoryItem.address)[j] = (s.m_entries.map HistoryItem.address)[i] := by
      simpa [heq, haddress] using hsame
    have : j = i := h.nodup.getElem_inj_iff.mp hboth
    omega

theorem indexOf_lt {s : BackForwardListImpl} (h : Held s) {address i : Nat} (hi : indexOf s address = some i) :
    i < s.m_entries.length := by
  obtain ⟨hlt, _⟩ := List.getElem?_eq_some_iff.mp ((indexOf_eq_some h address i).mp hi)
  rwa [List.length_map] at hlt

theorem Inv.goToItem {s : BackForwardListImpl} (h : Inv s) (address : Nat) : Inv (goToItem s address) := by
  unfold History.goToItem
  cases hi : indexOf s address with
  | none => exact h
  | some i =>
    have hlt := indexOf_lt h.held hi
    have hsize := h.size
    have hbound := h.capacity
    have hne : s.m_entries ≠ [] := List.ne_nil_of_length_pos (by omega)
    refine ⟨⟨⟨h.held.nodup, h.held.hash, h.held.made⟩, hsize, hbound, ?_, fun _ => hlt⟩, h.enabled⟩
    show i = NoCurrentItemIndex ↔ _
    simp only [hne, iff_false, NoCurrentItemIndex]
    omega

theorem Kept.setCapacity {s : BackForwardListImpl} (h : Kept s) {size : Nat} (hsize : size < 2 ^ 31) :
    Kept (setCapacity s size) ∧ (setCapacity s size).m_entries <+: s.m_entries := by
  have hbound := h.capacity
  have hlen := h.size
  obtain ⟨hash, heq, hheld⟩ := removeLast_iterate h.held (asInt32 s.m_entries.length - size).toNat
  have hkeep : s.m_entries.length - (asInt32 s.m_entries.length - size).toNat = min size s.m_entries.length := by
    rw [asInt32_eq (by omega)]
    omega
  rw [heq, hkeep] at hheld
  have htaken : (s.m_entries.take (min size s.m_entries.length)).length = min size s.m_entries.length := by
    rw [List.length_take]
    omega
  have hset : History.setCapacity s size =
      { s with
        m_entries := s.m_entries.take (min size s.m_entries.length)
        m_entryHash := hash
        m_current :=
          if size = 0 then NoCurrentItemIndex
          else if minus (min size s.m_entries.length) 1 < s.m_current then minus (min size s.m_entries.length) 1
          else s.m_current
        m_capacity := size } := by
    simp only [History.setCapacity, heq, hkeep, htaken]
  rw [hset]
  have hnil : s.m_entries.take (min size s.m_entries.length) = [] ↔ size = 0 ∨ s.m_entries.length = 0 := by
    rw [← List.length_eq_zero_iff, htaken]
    omega
  have hempty := h.empty
  rw [← List.length_eq_zero_iff] at hempty
  have hcurrent : s.m_entries.length ≠ 0 → s.m_current < s.m_entries.length :=
    fun hne => h.current (List.ne_nil_of_length_pos (Nat.pos_of_ne_zero hne))
  refine ⟨⟨⟨hheld.nodup, hheld.hash, hheld.made⟩, ?_, hsize, ?_, ?_⟩, List.take_prefix _ _⟩
  · show _ ≤ size
    rw [htaken]
    omega
  · show (if size = 0 then NoCurrentItemIndex else _) = _ ↔ _
    rw [hnil]
    unfold NoCurrentItemIndex minus at *
    split
    · rename_i hzero
      simp only [hzero, true_or]
    · split <;> omega
  · intro hne
    have hnot := mt hnil.mpr hne
    show (if size = 0 then NoCurrentItemIndex else _) < List.length _
    rw [htaken, if_neg (fun hzero => hnot (Or.inl hzero))]
    unfold minus
    split <;> omega

theorem Inv.setCapacity {s : BackForwardListImpl} (h : Inv s) {size : Nat} (hsize : size < 2 ^ 31) :
    Inv (setCapacity s size) := by
  obtain ⟨hkept, hfront⟩ := h.toKept.setCapacity hsize
  refine ⟨hkept, ?_⟩
  intro hoff
  have hon : (History.setCapacity s size).m_enabled = s.m_enabled := by
    obtain ⟨hash, heq, _⟩ := removeLast_iterate h.held (asInt32 s.m_entries.length - size).toNat
    simp only [History.setCapacity, heq]
  rw [h.enabled (hon ▸ hoff)] at hfront
  exact List.prefix_nil.mp hfront

theorem Inv.setEnabled {s : BackForwardListImpl} (h : Inv s) (enabled : Bool) : Inv (setEnabled s enabled) := by
  have hkept : Kept { s with m_enabled := enabled } :=
    ⟨⟨h.held.nodup, h.held.hash, h.held.made⟩, h.size, h.capacity, h.empty, h.current⟩
  cases enabled with
  | true => exact ⟨hkept, fun hoff => by cases hoff⟩
  | false =>
    -- emptied before the capacity is put back
    obtain ⟨hzero, _⟩ := hkept.setCapacity (Nat.two_pow_pos 31)
    obtain ⟨hback, hfront⟩ := hzero.setCapacity h.capacity
    have hnil : (History.setCapacity { s with m_enabled := false } 0).m_entries = [] :=
      List.length_eq_zero_iff.mp (Nat.le_zero.mp hzero.size)
    rw [hnil] at hfront
    exact ⟨hback, fun _ => List.prefix_nil.mp hfront⟩

/-- the current index after the entry `i` has gone -/
def currentWithout (s : BackForwardListImpl) (i : Nat) : Nat :=
  if s.m_current < i then s.m_current
  else if i < s.m_current then s.m_current - 1
  else if s.m_entries.length = 1 then NoCurrentItemIndex
  else if s.m_current + 1 = s.m_entries.length then s.m_current - 1
  else s.m_current

theorem removeItem_eq {s : BackForwardListImpl} (h : Inv s) {address i : Nat} (hi : indexOf s address = some i) :
    removeItem s address =
      { s with
        m_entries := s.m_entries.eraseIdx i
        m_entryHash := s.m_entryHash.erase address
        m_current := currentWithout s i } := by
  have hlt := indexOf_lt h.held hi
  have hsize := h.size
  have hbound := h.capacity
  have hcurrent := h.current (List.ne_nil_of_length_pos (Nat.zero_lt_of_lt hlt))
  have hnone : s.m_current ≠ NoCurrentItemIndex := by
    unfold NoCurrentItemIndex
    omega
  simp only [removeItem, hi, currentWithout, hnone, false_or]
  refine congrArg (fun current => { s with
    m_entries := s.m_entries.eraseIdx i
    m_entryHash := s.m_entryHash.erase address
    m_current := current }) ?_
  generalize s.m_entries.length = len at *
  by_cases hafter : s.m_current < i
  · rw [if_pos hafter, if_pos hafter]
  · rw [if_neg hafter, if_neg hafter]
    by_cases hbefore : i < s.m_current
    · rw [if_pos hbefore, if_pos hbefore, minus_eq (by omega) (by omega)]
    · rw [if_neg hbefore, if_neg hbefore]
      by_cases hone : len = 1
      · rw [if_pos (by omega), if_neg (by omega), if_pos hone]
      · rw [if_neg hone]
        by_cases hlast : s.m_current + 1 = len
        · rw [if_pos (by omega), if_pos (by omega), if_pos hlast, minus_eq (by omega) (by omega)]
          omega
        · rw [if_neg (by omega), if_neg hlast]

theorem Inv.removeItem {s : BackForwardListImpl} (h : Inv s) (address : Nat) : Inv (removeItem s address) := by
  cases hi : indexOf s address with
  | none =>
    rw [History.removeItem, hi]
    exact h
  | some i =>
    rw [removeItem_eq h hi]
    have hlt := indexOf_lt h.held hi
    have hsize := h.size
    have hbound := h.capacity
    have hcurrent := h.current (List.ne_nil_of_length_pos (Nat.zero_lt_of_lt hlt))
    obtain ⟨item, hitem, haddress⟩ : ∃ item, s.m_entries[i]? = some item ∧ item.address = address := by
      have hat := (indexOf_eq_some h.held address i).mp hi
      rw [List.getElem?_map] at hat
      exact Option.map_eq_some_iff.mp hat
    have hlen : (s.m_entries.eraseIdx i).length = s.m_entries.length - 1 := List.length_eraseIdx_of_lt hlt
    have hnil : s.m_entries.eraseIdx i = [] ↔ s.m_entries.length = 1 := by
      rw [← List.length_eq_zero_iff, hlen]
      omega
    refine ⟨⟨h.held.eraseIdx hitem rfl (by rw [haddress]) rfl, ?_, hbound, ?_, ?_⟩, ?_⟩
    · show (s.m_entries.eraseIdx i).length ≤ s.m_capacity
      omega
    · show currentWithout s i = _ ↔ s.m_entries.eraseIdx i = []
      rw [hnil]
      unfold currentWithout NoCurrentItemIndex
      grind
    · intro hne
      show currentWithout s i < (s.m_entries.eraseIdx i).length
      rw [hlen]
      unfold currentWithout
      grind
    · intro hoff
      have hnone := h.enabled hoff
      rw [hnone] at hlt
      exact absurd hlt (Nat.not_lt_zero i)

theorem Inv.initial : Inv {} :=
  ⟨⟨⟨List.nodup_nil, fun address => by simp, by simp⟩, by simp, by simp, by simp, by simp⟩, by simp⟩

theorem Inv.removeHistoryItemByIndex {s : BackForwardListImpl} (h : Inv s) (index : UInt32) :
    Inv (removeHistoryItemByIndex s index) := by
  unfold History.removeHistoryItemByIndex
  split
  · exact h
  · exact h.removeItem _

theorem Inv.step {s : BackForwardListImpl} (h : Inv s) (c : Call) : Inv (step s c) := by
  cases c with
  | addHistoryItem uri title => exact h.addHistoryItem uri title
  | removeHistoryItemByIndex index => exact h.removeHistoryItemByIndex index
  | goToItem address => exact h.goToItem address
  | setMaintainsBackForwardList flag => exact h.setEnabled flag
  | setCapacity size => exact h.setCapacity size.isLt

theorem inv_run (calls : List Call) : Inv (run step {} calls) := run_inv (fun _ c h => h.step c) Inv.initial calls

theorem Inv.listed {s : BackForwardListImpl} (h : Inv s) : Listed s :=
  ⟨h.held.nodup, fun address => by rw [h.held.hash, List.mem_map], h.size, h.empty, h.current⟩

/-! ## indices -/

theorem Inv.getHistoryLength {s : BackForwardListImpl} (h : Inv s) : getHistoryLength s = s.m_entries.length := by
  unfold History.getHistoryLength
  split
  · rfl
  · rename_i hoff
    rw [h.enabled (by simpa using hoff)]
    rfl

section
variable {s : BackForwardListImpl} (h : Inv s) (hne : s.m_entries ≠ [])
include h hne

theorem Inv.bounds : s.m_current < s.m_entries.length ∧ s.m_entries.length < 2 ^ 31 ∧ s.m_current ≠ NoCurrentItemIndex :=
  ⟨h.current hne, Nat.lt_of_le_of_lt h.size h.capacity, fun hnone => hne (h.empty.mp hnone)⟩

theorem Inv.backListCount : backListCount s = s.m_current := by
  obtain ⟨hlt, hlen, hnone⟩ := h.bounds hne
  rw [History.backListCount, if_neg hnone, asInt32_eq (by omega)]

theorem Inv.forwardListCount : forwardListCount s = s.m_entries.length - (s.m_current + 1) := by
  obtain ⟨hlt, hlen, hnone⟩ := h.bounds hne
  rw [History.forwardListCount, if_neg hnone, Nat.mod_eq_of_lt (by omega), minus_eq (by omega) (by omega),
    asInt32_eq (by omega)]
  omega

theorem Inv.currentIndex : getHistoryCurrentIndex s = some s.m_current := by
  obtain ⟨hlt, hlen, _⟩ := h.bounds hne
  have hon : s.m_enabled ≠ false := fun hoff => hne (h.enabled hoff)
  have hsize : ¬ (s.m_enabled = false ∨ History.getHistoryLength s = 0) := by
    rw [h.getHistoryLength]
    simp [hon, hne]
  rw [getHistoryCurrentIndex, if_neg hsize, h.backListCount hne]
  congr 1
  omega

theorem Inv.itemAtIndex (d : Int) : itemAtIndex s d =
    if 0 ≤ s.m_current + d then s.m_entries[(s.m_current + d).toNat]? else none := by
  obtain ⟨hlt, hlen, _⟩ := h.bounds hne
  rw [History.itemAtIndex, h.forwardListCount hne, asInt32_eq (by omega)]
  by_cases hlow : d < -(s.m_current : Int)
  · rw [if_pos hlow, if_neg (by omega)]
  · rw [if_neg hlow]
    by_cases hhigh : (s.m_entries.length : Int) - (s.m_current + 1) < d
    · rw [if_pos hhigh, if_pos (by omega), List.getElem?_eq_none (by omega)]
    · rw [if_neg hhigh, if_pos (by omega)]
      congr 1
      omega

theorem Inv.itemAt_distance (index : UInt32) :
    History.itemAtIndex s (distance index s.m_current) = s.m_entries[index.toNat]? := by
  obtain ⟨hlt, hlen, _⟩ := h.bounds hne
  have hindex : index.toNat < 2 ^ 32 := index.toNat_lt
  rw [h.itemAtIndex hne, distance_eq (by omega)]
  by_cases hnear : index.toNat < s.m_current + 2 ^ 31
  · rw [if_pos hnear, if_pos (by omega)]
    congr 1
    omega
  · rw [if_neg hnear, if_neg (by omega), List.getElem?_eq_none (by omega)]

end

theorem Inv.currentIndex_nil {s : BackForwardListImpl} (h : Inv s) (hnil : s.m_entries = []) :
    getHistoryCurrentIndex s = none := by
  have hzero : History.getHistoryLength s = 0 := by rw [h.getHistoryLength, hnil]; rfl
  rw [getHistoryCurrentIndex, if_pos (Or.inr hzero)]

theorem Inv.getHistoryItemByIndex {s : BackForwardListImpl} (h : Inv s) (index : UInt32) :
    getHistoryItemByIndex s index = s.m_entries[index.toNat]? := by
  unfold History.getHistoryItemByIndex
  by_cases hne : s.m_entries = []
  · rw [h.currentIndex_nil hne, hne]
    rfl
  · rw [h.currentIndex hne]
    exact h.itemAt_distance hne index

theorem Inv.gotoHistoryItemByIndex {s : BackForwardListImpl} (h : Inv s) {index : UInt32}
    (hnear : index.toNat < s.m_current + 2 ^ 31) :
    gotoHistoryItemByIndex s index =
      if index.toNat < s.m_entries.length then s.m_entries[index.toNat]?
      else if s.m_current + 1 < s.m_entries.length then s.m_entries.getLast?
      else none := by
  unfold History.gotoHistoryItemByIndex
  by_cases hne : s.m_entries = []
  · rw [h.currentIndex_nil hne, hne]
    simp
  · obtain ⟨hlt, hlen, _⟩ := h.bounds hne
    rw [h.currentIndex hne]
    dsimp only
    rw [h.itemAt_distance hne]
    by_cases hin : index.toNat < s.m_entries.length
    · rw [if_pos hin, List.getElem?_eq_getElem hin]
    · rw [if_neg hin, List.getElem?_eq_none (by omega)]
      have hpos : 0 < distance index s.m_current := by
        rw [distance_eq (by omega), if_pos hnear]
        omega
      dsimp only
      rw [if_pos hpos, h.forwardListCount hne, h.itemAtIndex hne]
      by_cases hmore : s.m_current + 1 < s.m_entries.length
      · rw [if_pos (by omega), if_pos (by omega), if_pos hmore, List.getLast?_eq_getElem?]
        congr 1
        omega
      · rw [if_neg (by omega), if_neg hmore]

theorem Inv.removeByIndex {s : BackForwardListImpl} (h : Inv s) {index : UInt32} (hlt : index.toNat < s.m_entries.length) :
    ∃ hash, History.removeHistoryItemByIndex s index =
      { s with
        m_entries := s.m_entries.eraseIdx index.toNat
        m_entryHash := hash
        m_current := currentWithout s index.toNat } := by
  unfold History.removeHistoryItemByIndex
  rw [h.getHistoryItemByIndex, List.getElem?_eq_getElem hlt]
  have hat : indexOf s s.m_entries[index.toNat].address = some index.toNat := by
    rw [indexOf_eq_some h.held, List.getElem?_map, List.getElem?_eq_getElem hlt]
    rfl
  exact ⟨_, removeItem_eq h hat⟩

theorem Inv.removeBeyond {s : BackForwardListImpl} (h : Inv s) {index : UInt32} (hge : s.m_entries.length ≤ index.toNat) :
    History.removeHistoryItemByIndex s index = s := by
  unfold History.removeHistoryItemByIndex
  rw [h.getHistoryItemByIndex, List.getElem?_eq_none hge]

theorem eraseIdx_currentWithout {s : BackForwardListImpl} {i : Nat} (hne : i ≠ s.m_current) :
    (s.m_entries.eraseIdx i)[currentWithout s i]? = s.m_entries[s.m_current]? := by
  rw [List.getElem?_eraseIdx]
  by_cases hafter : s.m_current < i
  · have hcur : currentWithout s i = s.m_current := if_pos hafter
    rw [hcur, if_pos hafter]
  · have hcur : currentWithout s i = s.m_current - 1 := by
      rw [currentWithout, if_neg hafter, if_pos (by omega)]
    rw [hcur, if_neg (by omega)]
    congr 1
    omega

theorem Inv.byIndex {s : BackForwardListImpl} (h : Inv s) : ByIndex s where
  getItem index := by
    rw [h.getHistoryItemByIndex, h.getHistoryLength]
    split
    · rfl
    · exact List.getElem?_eq_none (by omega)
  goto index hlt := by
    rw [h.getHistoryLength] at hlt
    have hne : s.m_entries ≠ [] := List.ne_nil_of_length_pos (Nat.zero_lt_of_lt hlt)
    obtain ⟨_, hlen, _⟩ := h.bounds hne
    rw [h.gotoHistoryItemByIndex (by omega), if_pos hlt]
  indexByItem address index := by
    rw [h.getHistoryLength, getHistoryIndexByItem, ← indexOf_eq_some h.held]
    split
    · exact ⟨fun hindex => ⟨indexOf_lt h.held hindex, hindex⟩, fun hindex => hindex.2⟩
    · rename_i hoff
      rw [h.enabled (by simpa using hoff)]
      simp
  currentIndex := by
    rw [h.getHistoryLength]
    split
    · rename_i hzero
      exact h.currentIndex_nil (List.length_eq_zero_iff.mp hzero)
    · rename_i hzero
      exact h.currentIndex (fun hnil => hzero (by rw [hnil]; rfl))
  remove index := by
    rw [h.getHistoryLength]
    split
    · rename_i hlt
      obtain ⟨hash, heq⟩ := h.removeByIndex hlt
      rw [heq]
    · rename_i hge
      rw [h.removeBeyond (Nat.not_lt.mp hge)]
  removeCurrent index hother := by
    by_cases hlt : index.toNat < s.m_entries.length
    · obtain ⟨hash, heq⟩ := h.removeByIndex hlt
      rw [heq]
      exact eraseIdx_currentWithout hother
    · rw [h.removeBeyond (Nat.not_lt.mp hlt)]
  removeBeyond index hge := h.removeBeyond (h.getHistoryLength ▸ hge)

/-- the list after every sequence of calls -/
theorem history_by_index (calls : List Call) :
    Listed (run step {} calls) ∧ ByIndex (run step {} calls) ∧
      ∀ index : UInt32, getHistoryLength (run step {} calls) ≤ index.toNat →
        index.toNat < (run step {} calls).m_current + 2 ^ 31 →
        gotoHistoryItemByIndex (run step {} calls) index =
          if (run step {} calls).m_current + 1 < getHistoryLength (run step {} calls) then
            (run step {} calls).m_entries.getLast?
          else none := by
  have h := inv_run calls
  refine ⟨h.listed, h.byIndex, ?_⟩
  intro index hge hnear
  rw [h.getHistoryLength] at hge ⊢
  rw [h.gotoHistoryItemByIndex hnear, if_neg (Nat.not_lt.mpr hge)]

/-- two entries, the first one current; the sixth is asked for, and the page goes to the second -/
theorem goto_beyond_the_end :
    ¬ ∀ (calls : List Call) (index : UInt32), getHistoryLength (run step {} calls) ≤ index.toNat →
      gotoHistoryItemByIndex (run step {} calls) index = none := by
  intro h
  have hgone := h [.addHistoryItem [] [], .addHistoryItem [] [], .goToItem 0] 5
  revert hgone
  decide

end Wkc.History
