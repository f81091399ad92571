import WkcBrowser.Lib.Best
import Mathlib.Algebra.Order.Group.Nat
import Mathlib.Data.Int.Order.Basic
import Mathlib.Data.List.Basic
import Mathlib.Data.List.Induction
import Mathlib.Data.List.Nodup
import Mathlib.Order.Basic

/-!
# Tab order (FocusController.cpp, `findNeighboringEditableNode` in WKCWebView.cpp)

* `Document`                      the nodes in tree order, with their tab indices;
* `nextFocusableNode`, `previousFocusableNode`   the two steps, and the searches they are made of;
* `findNeighboringEditableNode`   the loop over the steps, with fuel;
* `byTabIndex`                    the order that is meant;
* `First`, `Last`                 the neighbour of a node in that order;
* `tab_order_iff`                 the steps are inverse to each other, unless an index of 32767 and one of 0 meet.
-/

namespace Wkc.TabOrder

/-- Keyboard focusable nodes have a tab index in the range of a `short`, and none below 0. -/
structure Node where
  isKeyboardFocusable : Bool
  tabIndex : Int
  isElementNode : Bool
  isTextFormControl : Bool
  isContentEditable : Bool
  inRange : isKeyboardFocusable = true → 0 ≤ tabIndex ∧ tabIndex ≤ 32767

/-- without shadow trees; a node is its place in tree order, and the root has place 0 -/
structure Document where
  root : Node
  others : List Node

inductive Direction
  | forward
  | backward
  deriving DecidableEq

section
variable (doc : Document)

def nodes : List Node := doc.root :: doc.others

def size : Nat := (nodes doc).length

/-- the chain of last children from the root ends at the last node in tree order -/
def last : Nat := doc.others.length

def shouldVisit (i : Nat) : Bool := (nodes doc)[i]?.any Node.isKeyboardFocusable

def adjustedTabIndex (i : Nat) : Int := ((nodes doc)[i]?.map Node.tabIndex).getD 0

def nextNode (i : Nat) : Option Nat := if i + 1 < size doc then some (i + 1) else none

def previousNode (i : Nat) : Option Nat := if i = 0 then none else some (i - 1)

/-- the nodes that a walker comes to, from the first one on -/
def walkerFrom : Direction → Option Nat → List Nat
  | _, none => []
  | .forward, some start => List.range' start (size doc - start)
  | .backward, some start => (List.range (start + 1)).reverse

def findNodeWithExactTabIndex (start : Option Nat) (tabIndex : Int) (direction : Direction) : Option Nat :=
  (walkerFrom doc direction start).find? fun i => shouldVisit doc i && adjustedTabIndex doc i == tabIndex

/-- the loops that look for a winner; `lower` is the sign with which indices are compared -/
def winnerOf (candidate : Nat → Bool) (lower : Int → Int) (limit : Int) (walk : List Nat) : Option Nat × Int :=
  walk.foldl (fun winner i =>
    if candidate i && lower (adjustedTabIndex doc i) < lower winner.2 then (some i, adjustedTabIndex doc i)
    else winner) (none, limit)

def nextNodeWithGreaterTabIndex (start : Option Nat) (tabIndex : Int) : Option Nat :=
  (winnerOf doc (fun i => shouldVisit doc i && tabIndex < adjustedTabIndex doc i) id (32767 + 1)
    (walkerFrom doc .forward start)).1

def previousNodeWithLowerTabIndex (start : Option Nat) (tabIndex : Int) : Option Nat :=
  (winnerOf doc (fun i => shouldVisit doc i && adjustedTabIndex doc i < tabIndex) (fun x => -x) 0
    (walkerFrom doc .backward start)).1

/-- for a node that is excluded from the tabbing cycle -/
def inTreeOrder (start : Option Nat) (direction : Direction) : Option Nat :=
  (walkerFrom doc direction start).find? fun i => shouldVisit doc i && 0 ≤ adjustedTabIndex doc i

/-- the first node with the next greater index, or the first one with index 0 -/
def fromTheRoot (tabIndex : Int) : Option Nat :=
  (nextNodeWithGreaterTabIndex doc (some 0) tabIndex).or (findNodeWithExactTabIndex doc (some 0) 0 .forward)

def nextFocusableNode : Option Nat → Option Nat
  | none => fromTheRoot doc 0
  | some start =>
    let tabIndex := adjustedTabIndex doc start
    (if tabIndex < 0 then inTreeOrder doc (nextNode doc start) .forward else none).or
      ((findNodeWithExactTabIndex doc (nextNode doc start) tabIndex .forward).or
        (if tabIndex = 0 then none else fromTheRoot doc tabIndex))

def previousFocusableNode (start : Option Nat) : Option Nat :=
  let startingNode := match start with
    | some start => previousNode start
    | none => some (last doc)
  let startingTabIndex := match start with
    | some start => adjustedTabIndex doc start
    | none => 0
  (if startingTabIndex < 0 then inTreeOrder doc startingNode .backward else none).or
    ((findNodeWithExactTabIndex doc startingNode startingTabIndex .backward).or
      (previousNodeWithLowerTabIndex doc (some (last doc))
        (if start.isSome ∧ startingTabIndex ≠ 0 then startingTabIndex else 32767)))

def findFocusableNode : Direction → Option Nat → Option Nat
  | .forward, start => nextFocusableNode doc start
  | .backward, start => previousFocusableNode doc start

/-- `none` when the fuel is used up; otherwise the node, if there is one -/
def findNeighboringEditableNode (direction : Direction) : Nat → Option Nat → Option (Option Nat)
  | 0, _ => none
  | fuel + 1, node =>
    match findFocusableNode doc direction node with
    | none => some none
    | some i =>
      if (nodes doc)[i]?.any Node.isElementNode then
        if (nodes doc)[i]?.any (fun a => a.isTextFormControl || a.isContentEditable) then some (some i)
        else findNeighboringEditableNode direction fuel (some i)
      else findNeighboringEditableNode direction fuel (some i)

/-! ## what is meant -/

def Visited (i : Nat) : Prop := shouldVisit doc i = true

def withTabIndex (t : Int) : List Nat :=
  (List.range (size doc)).filter fun i => shouldVisit doc i && adjustedTabIndex doc i == t

/-- by ascending positive tab index, then those with index 0, each group in tree order -/
def byTabIndex : List Nat :=
  (List.range' 1 32767).flatMap (fun t : Nat => withTabIndex doc (t : Int)) ++ withTabIndex doc 0

/-- index 0 comes after all others -/
def rank (i : Nat) : Int := if adjustedTabIndex doc i = 0 then 32768 else adjustedTabIndex doc i

def Before (i j : Nat) : Prop := rank doc i < rank doc j ∨ (rank doc i = rank doc j ∧ i < j)

/-- The forward steps go through the order, the backward steps are inverse to them, and the loop ends. -/
structure InTabOrder : Prop where
  forward : (byTabIndex doc).Nodup ∧ (∀ i, i ∈ byTabIndex doc ↔ Visited doc i) ∧
    nextFocusableNode doc none = (byTabIndex doc).head? ∧
    ∀ k i, (byTabIndex doc)[k]? = some i → nextFocusableNode doc (some i) = (byTabIndex doc)[k + 1]?
  inverse : ∀ i j, Visited doc i → Visited doc j →
    (nextFocusableNode doc (some i) = some j ↔ previousFocusableNode doc (some j) = some i)
  ends : ∀ direction node, (∀ i, node = some i → i < size doc) →
    ∃ fuel found, findNeighboringEditableNode doc direction fuel node = some found

end

/-! ## the searches -/

theorem find_eq_some {R : Nat → Nat → Prop} {l : List Nat} (hl : l.Pairwise R) {p : Nat → Bool} {j : Nat}
    (h : l.find? p = some j) : j ∈ l ∧ p j = true ∧ ∀ k ∈ l, p k = true → k = j ∨ R j k := by
  obtain ⟨hp, before, after, rfl, hbefore⟩ := List.find?_eq_some_iff_append.mp h
  refine ⟨by simp, hp, ?_⟩
  intro k hk hpk
  rw [List.mem_append, List.mem_cons] at hk
  rcases hk with hk | rfl | hk
  · have hnot := hbefore k hk
    rw [hpk] at hnot
    cases hnot
  · exact Or.inl rfl
  · have htail := (List.pairwise_append.mp hl).2.1
    exact Or.inr ((List.pairwise_cons.mp htail).1 k hk)

section
variable {doc : Document}

theorem Visited.lt {i : Nat} (h : Visited doc i) : i < size doc := by
  by_contra hge
  have hnone : (nodes doc)[i]? = none := List.getElem?_eq_none (Nat.not_lt.mp hge)
  simp [Visited, shouldVisit, hnone] at h

theorem Visited.inRange {i : Nat} (h : Visited doc i) : 0 ≤ adjustedTabIndex doc i ∧ adjustedTabIndex doc i ≤ 32767 := by
  have hlt := h.lt
  have hsome : (nodes doc)[i]? = some (nodes doc)[i] := List.getElem?_eq_getElem hlt
  simp only [Visited, shouldVisit, hsome, Option.any_some] at h
  simp only [adjustedTabIndex, hsome, Option.map_some, Option.getD_some]
  exact (nodes doc)[i].inRange h

theorem size_eq : size doc = last doc + 1 := rfl

theorem rank_of_tabIndex {i j : Nat} (h : adjustedTabIndex doc i = adjustedTabIndex doc j) : rank doc i = rank doc j := by
  rw [rank, rank, h]

theorem tabIndex_of_rank {i j : Nat} (hi : Visited doc i) (hj : Visited doc j) (h : rank doc i = rank doc j) :
    adjustedTabIndex doc i = adjustedTabIndex doc j := by
  have hirange := hi.inRange
  have hjrange := hj.inRange
  unfold rank at h
  split at h <;> split at h <;> omega

/-- in which order a walker comes to the nodes -/
def Direction.Leads : Direction → Nat → Nat → Prop
  | .forward, i, j => i < j
  | .backward, i, j => j < i

theorem walkerFrom_pairwise (direction : Direction) (start : Option Nat) :
    (walkerFrom doc direction start).Pairwise direction.Leads := by
  cases direction <;> cases start
  · exact List.Pairwise.nil
  · exact List.pairwise_lt_range'
  · exact List.Pairwise.nil
  · exact List.pairwise_reverse.mpr List.pairwise_lt_range

theorem mem_walkerFrom_next {i k : Nat} : k ∈ walkerFrom doc .forward (nextNode doc i) ↔ i < k ∧ k < size doc := by
  unfold nextNode
  split
  · rw [walkerFrom, List.mem_range'_1]
    omega
  · rw [walkerFrom]
    simp only [List.not_mem_nil, false_iff]
    omega

theorem mem_walkerFrom_root {k : Nat} : k ∈ walkerFrom doc .forward (some 0) ↔ k < size doc := by
  rw [walkerFrom, List.mem_range'_1]
  omega

theorem mem_walkerFrom_previous {i k : Nat} : k ∈ walkerFrom doc .backward (previousNode i) ↔ k < i := by
  unfold previousNode
  split
  · rename_i hzero
    rw [walkerFrom, hzero]
    simp
  · rw [walkerFrom, List.mem_reverse, List.mem_range]
    omega

theorem mem_walkerFrom_last {k : Nat} : k ∈ walkerFrom doc .backward (some (last doc)) ↔ k < size doc := by
  rw [walkerFrom, List.mem_reverse, List.mem_range, size_eq]

theorem exact_some {start : Option Nat} {t : Int} {direction : Direction} {j : Nat}
    (h : findNodeWithExactTabIndex doc start t direction = some j) :
    j ∈ walkerFrom doc direction start ∧ Visited doc j ∧ adjustedTabIndex doc j = t ∧
      ∀ k ∈ walkerFrom doc direction start, Visited doc k → adjustedTabIndex doc k = t → k = j ∨ direction.Leads j k := by
  obtain ⟨hmem, hp, hfirst⟩ := find_eq_some (walkerFrom_pairwise direction start) h
  rw [Bool.and_eq_true, beq_iff_eq] at hp
  refine ⟨hmem, hp.1, hp.2, ?_⟩
  intro k hk hvisited ht
  exact hfirst k hk (by rw [Bool.and_eq_true, beq_iff_eq]; exact ⟨hvisited, ht⟩)

theorem exact_none {start : Option Nat} {t : Int} {direction : Direction}
    (h : findNodeWithExactTabIndex doc start t direction = none) :
    ∀ k ∈ walkerFrom doc direction start, Visited doc k → adjustedTabIndex doc k ≠ t := by
  intro k hk hvisited ht
  have hnot := List.find?_eq_none.mp h k hk
  rw [Bool.and_eq_true, beq_iff_eq] at hnot
  exact hnot ⟨hvisited, ht⟩

/-- the candidates below the limit -/
def below (doc : Document) (candidate : Nat → Bool) (lower : Int → Int) (limit : Int) (walk : List Nat) : List Nat :=
  walk.filter fun i => candidate i && lower (adjustedTabIndex doc i) < lower limit

theorem winnerOf_eq (candidate : Nat → Bool) (lower : Int → Int) (limit : Int) (walk : List Nat) :
    let winner := Best.best (fun i => lower (adjustedTabIndex doc i)) (fun _ _ => false)
      (below doc candidate lower limit walk)
    winnerOf doc candidate lower limit walk = (winner, (winner.map (adjustedTabIndex doc)).getD limit) := by
  induction walk using List.reverseRecOn with
  | nil => rfl
  | append_singleton walk i ih =>
    have hstep : winnerOf doc candidate lower limit (walk ++ [i]) =
        if candidate i && lower (adjustedTabIndex doc i) < lower (winnerOf doc candidate lower limit walk).2 then
          (some i, adjustedTabIndex doc i)
        else winnerOf doc candidate lower limit walk := by
      rw [winnerOf, List.foldl_append]
      rfl
    have hbelow : below doc candidate lower limit (walk ++ [i]) = below doc candidate lower limit walk ++
        if candidate i && lower (adjustedTabIndex doc i) < lower limit then [i] else [] := by
      rw [below, List.filter_append, List.filter_singleton, cond_eq_ite]
      rfl
    rw [hstep, hbelow, ih]
    dsimp only
    cases hwinner : Best.best (fun i => lower (adjustedTabIndex doc i)) (fun _ _ => false)
        (below doc candidate lower limit walk) with
    | none =>
      rw [(Best.best_eq_none _ _).mp hwinner]
      show (if (candidate i && decide (lower (adjustedTabIndex doc i) < lower limit)) = true then _ else _) = _
      split <;> rfl
    | some j =>
      have hj := (List.mem_filter.mp (Best.best_mem _ _ hwinner)).2
      rw [Bool.and_eq_true, decide_eq_true_eq] at hj
      show (if (candidate i && decide (lower (adjustedTabIndex doc i) < lower (adjustedTabIndex doc j))) = true then _
        else _) = _
      by_cases hi : (candidate i && decide (lower (adjustedTabIndex doc i) < lower limit)) = true
      · rw [if_pos hi, Best.best_concat, hwinner, Best.keep]
        have hcandidate : candidate i = true := (Bool.and_eq_true _ _ ▸ hi).1
        by_cases hlt : lower (adjustedTabIndex doc i) < lower (adjustedTabIndex doc j) <;> simp [hcandidate, hlt]
      · rw [if_neg hi, List.append_nil, hwinner]
        refine if_neg fun hboth => ?_
        rw [Bool.and_eq_true, decide_eq_true_eq] at hi hboth
        exact hi ⟨hboth.1, hboth.2.trans hj.2⟩

theorem winner_some {candidate : Nat → Bool} {lower : Int → Int} {limit : Int} {R : Nat → Nat → Prop} {walk : List Nat}
    (hwalk : walk.Pairwise R) {j : Nat} (h : (winnerOf doc candidate lower limit walk).1 = some j) :
    candidate j = true ∧ lower (adjustedTabIndex doc j) < lower limit ∧
      ∀ k ∈ walk, candidate k = true → k = j ∨ lower (adjustedTabIndex doc j) < lower (adjustedTabIndex doc k) ∨
        (lower (adjustedTabIndex doc j) = lower (adjustedTabIndex doc k) ∧ R j k) := by
  rw [winnerOf_eq] at h
  have hj := (List.mem_filter.mp (Best.best_mem _ _ h)).2
  rw [Bool.and_eq_true, decide_eq_true_eq] at hj
  refine ⟨hj.1, hj.2, fun k hk hcandidate => ?_⟩
  by_cases hlimit : lower (adjustedTabIndex doc k) < lower limit
  · have hbelow : k ∈ below doc candidate lower limit walk := List.mem_filter.mpr ⟨hk, by simp [hcandidate, hlimit]⟩
    have hle := not_lt.mp (Best.best_unbeaten _ _ h k hbelow)
    obtain ⟨front, behind, hsplit, hfront⟩ := Best.best_first _ h
    have hpairwise : (front ++ j :: behind).Pairwise R := hsplit ▸ hwalk.filter _
    rw [hsplit, List.mem_append, List.mem_cons] at hbelow
    rcases hbelow with hk | rfl | hk
    · exact Or.inr (Or.inl (hfront k hk))
    · exact Or.inl rfl
    · have hR := List.rel_of_pairwise_cons (List.pairwise_append.mp hpairwise).2.1 hk
      rcases hle.lt_or_eq with hlt | heq
      · exact Or.inr (Or.inl hlt)
      · exact Or.inr (Or.inr ⟨heq, hR⟩)
  · exact Or.inr (Or.inl (lt_of_lt_of_le hj.2 (not_lt.mp hlimit)))

theorem winner_none {candidate : Nat → Bool} {lower : Int → Int} {limit : Int} {walk : List Nat}
    (h : (winnerOf doc candidate lower limit walk).1 = none) :
    ∀ k ∈ walk, candidate k = true → lower limit ≤ lower (adjustedTabIndex doc k) := by
  rw [winnerOf_eq] at h
  intro k hk hcandidate
  have hnot := List.filter_eq_nil_iff.mp ((Best.best_eq_none _ _).mp h) k hk
  rw [Bool.and_eq_true, decide_eq_true_eq, not_and, not_lt] at hnot
  exact hnot hcandidate

theorem greater_some {t : Int} {j : Nat} (h : nextNodeWithGreaterTabIndex doc (some 0) t = some j) :
    Visited doc j ∧ t < adjustedTabIndex doc j ∧ ∀ k, Visited doc k → t < adjustedTabIndex doc k →
      k = j ∨ adjustedTabIndex doc j < adjustedTabIndex doc k ∨
        (adjustedTabIndex doc j = adjustedTabIndex doc k ∧ j < k) := by
  obtain ⟨hcand, -, hfirst⟩ := winner_some (walkerFrom_pairwise .forward (some 0)) h
  rw [Bool.and_eq_true, decide_eq_true_eq] at hcand
  refine ⟨hcand.1, hcand.2, ?_⟩
  intro k hk ht
  exact hfirst k (mem_walkerFrom_root.mpr hk.lt) (by rw [Bool.and_eq_true, decide_eq_true_eq]; exact ⟨hk, ht⟩)

theorem greater_none {t : Int} (h : nextNodeWithGreaterTabIndex doc (some 0) t = none) :
    ∀ k, Visited doc k → ¬ t < adjustedTabIndex doc k := by
  intro k hk ht
  have hle : (32767 + 1 : Int) ≤ adjustedTabIndex doc k := winner_none h k
    (mem_walkerFrom_root.mpr hk.lt) (by rw [Bool.and_eq_true, decide_eq_true_eq]; exact ⟨hk, ht⟩)
  have hmax := hk.inRange.2
  omega

theorem lower_some {t : Int} {j : Nat} (h : previousNodeWithLowerTabIndex doc (some (last doc)) t = some j) :
    Visited doc j ∧ adjustedTabIndex doc j < t ∧ 0 < adjustedTabIndex doc j ∧
      ∀ k, Visited doc k → adjustedTabIndex doc k < t →
        k = j ∨ adjustedTabIndex doc k < adjustedTabIndex doc j ∨
          (adjustedTabIndex doc j = adjustedTabIndex doc k ∧ k < j) := by
  obtain ⟨hcand, hlimit, hfirst⟩ := winner_some (walkerFrom_pairwise .backward (some (last doc))) h
  rw [Bool.and_eq_true, decide_eq_true_eq] at hcand
  refine ⟨hcand.1, hcand.2, by omega, ?_⟩
  intro k hk ht
  have hk' := hfirst k (mem_walkerFrom_last.mpr hk.lt) (by rw [Bool.and_eq_true, decide_eq_true_eq]; exact ⟨hk, ht⟩)
  rcases hk' with rfl | hlt | ⟨heq, hleads⟩
  · exact Or.inl rfl
  · exact Or.inr (Or.inl (by omega))
  · exact Or.inr (Or.inr ⟨by omega, hleads⟩)

theorem lower_none {t : Int} (h : previousNodeWithLowerTabIndex doc (some (last doc)) t = none) :
    ∀ k, Visited doc k → adjustedTabIndex doc k < t → adjustedTabIndex doc k = 0 := by
  intro k hk ht
  have hle : -(0 : Int) ≤ -adjustedTabIndex doc k := winner_none h k
    (mem_walkerFrom_last.mpr hk.lt) (by rw [Bool.and_eq_true, decide_eq_true_eq]; exact ⟨hk, ht⟩)
  have hmin := hk.inRange.1
  omega

/-! ## neighbours -/

/-- the first of the nodes with a property -/
def First (doc : Document) (P : Nat → Prop) (j : Nat) : Prop := P j ∧ ∀ k, P k → k = j ∨ Before doc j k

def Last (doc : Document) (P : Nat → Prop) (j : Nat) : Prop := P j ∧ ∀ k, P k → k = j ∨ Before doc k j

theorem Before.asymm {i j : Nat} (h : Before doc i j) : ¬ Before doc j i := by
  unfold Before at *
  omega

theorem before_total {i j : Nat} (h : i ≠ j) : Before doc i j ∨ Before doc j i := by
  unfold Before
  omega

theorem First.unique {P : Nat → Prop} {i j : Nat} (hi : First doc P i) (hj : First doc P j) : i = j := by
  rcases hi.2 j hj.1 with h | h
  · exact h.symm
  · rcases hj.2 i hi.1 with h' | h'
    · exact h'
    · exact absurd h' h.asymm

theorem Last.unique {P : Nat → Prop} {i j : Nat} (hi : Last doc P i) (hj : Last doc P j) : i = j := by
  rcases hi.2 j hj.1 with h | h
  · exact h.symm
  · rcases hj.2 i hi.1 with h' | h'
    · exact h'
    · exact absurd h' h.asymm

theorem fromTheRoot_some {t : Int} (ht : 0 ≤ t) {j : Nat} (h : fromTheRoot doc t = some j) :
    First doc (fun k => Visited doc k ∧ (t < adjustedTabIndex doc k ∨ adjustedTabIndex doc k = 0)) j := by
  rcases Option.or_eq_some_iff.mp h with hgreater | ⟨hnone, hexact⟩
  · obtain ⟨hj, hlt, hfirst⟩ := greater_some hgreater
    refine ⟨⟨hj, Or.inl hlt⟩, ?_⟩
    rintro k ⟨hk, hkt⟩
    have hmax := hj.inRange.2
    rcases hkt with hkt | hzero
    · rcases hfirst k hk hkt with rfl | hbefore
      · exact Or.inl rfl
      · refine Or.inr ?_
        unfold Before rank
        rw [if_neg (by omega), if_neg (by omega)]
        exact hbefore
    · refine Or.inr (Or.inl ?_)
      unfold rank
      rw [if_neg (by omega), if_pos hzero]
      omega
  · obtain ⟨-, hj, hzero, hfirst⟩ := exact_some hexact
    refine ⟨⟨hj, Or.inr hzero⟩, ?_⟩
    rintro k ⟨hk, hkt⟩
    have hk0 : adjustedTabIndex doc k = 0 := by
      rcases hkt with hkt | hkt
      · exact absurd hkt (greater_none hnone k hk)
      · exact hkt
    rcases hfirst k (mem_walkerFrom_root.mpr hk.lt) hk hk0 with rfl | hlt
    · exact Or.inl rfl
    · refine Or.inr (Or.inr ⟨?_, hlt⟩)
      unfold rank
      rw [hzero, hk0]

theorem fromTheRoot_none {t : Int} (h : fromTheRoot doc t = none) {k : Nat} (hk : Visited doc k) :
    ¬ t < adjustedTabIndex doc k ∧ adjustedTabIndex doc k ≠ 0 := by
  obtain ⟨hgreater, hexact⟩ := Option.or_eq_none_iff.mp h
  exact ⟨greater_none hgreater k hk, exact_none hexact k (mem_walkerFrom_root.mpr hk.lt) hk⟩

theorem next_start {j : Nat} (h : nextFocusableNode doc none = some j) : First doc (Visited doc) j := by
  obtain ⟨hj, hfirst⟩ := fromTheRoot_some (Int.le_refl 0) h
  refine ⟨hj.1, ?_⟩
  intro k hk
  have hrange := hk.inRange
  exact hfirst k ⟨hk, by omega⟩

theorem next_start_none (h : nextFocusableNode doc none = none) {k : Nat} (hk : Visited doc k) : False := by
  have hnot := fromTheRoot_none h hk
  have hrange := hk.inRange
  omega

section
variable {i : Nat} (hi : Visited doc i)
include hi

theorem next_eq : nextFocusableNode doc (some i) =
    (findNodeWithExactTabIndex doc (nextNode doc i) (adjustedTabIndex doc i) .forward).or
      (if adjustedTabIndex doc i = 0 then none else fromTheRoot doc (adjustedTabIndex doc i)) := by
  have hrange := hi.inRange
  rw [nextFocusableNode, if_neg (by omega), Option.none_or]

theorem next_some {j : Nat} (h : nextFocusableNode doc (some i) = some j) :
    First doc (fun k => Visited doc k ∧ Before doc i k) j := by
  have hrange := hi.inRange
  rw [next_eq hi] at h
  rcases Option.or_eq_some_iff.mp h with hexact | ⟨hnone, hroot⟩
  · obtain ⟨hmem, hj, heq, hfirst⟩ := exact_some hexact
    have hlt := (mem_walkerFrom_next.mp hmem).1
    have hrank := rank_of_tabIndex heq
    refine ⟨⟨hj, Or.inr ⟨hrank.symm, hlt⟩⟩, ?_⟩
    rintro k ⟨hk, hbefore | ⟨hsame, hik⟩⟩
    · exact Or.inr (Or.inl (by omega))
    · have hkt := tabIndex_of_rank hk hi hsame.symm
      rcases hfirst k (mem_walkerFrom_next.mpr ⟨hik, hk.lt⟩) hk hkt with rfl | hjk
      · exact Or.inl rfl
      · exact Or.inr (Or.inr ⟨by omega, hjk⟩)
  · have hpos : adjustedTabIndex doc i ≠ 0 := by
      intro hzero
      rw [if_pos hzero] at hroot
      cases hroot
    rw [if_neg hpos] at hroot
    obtain ⟨⟨hj, hjt⟩, hfirst⟩ := fromTheRoot_some hrange.1 hroot
    have hbefore : ∀ {k : Nat}, Visited doc k →
        (Before doc i k ↔ adjustedTabIndex doc i < adjustedTabIndex doc k ∨ adjustedTabIndex doc k = 0) := by
      intro k hk
      have hkrange := hk.inRange
      have hafter : i < k → adjustedTabIndex doc k ≠ adjustedTabIndex doc i :=
        fun hik => exact_none hnone k (mem_walkerFrom_next.mpr ⟨hik, hk.lt⟩) hk
      unfold Before rank
      rw [if_neg hpos]
      split <;> omega
    exact ⟨⟨hj, (hbefore hj).mpr hjt⟩, fun k hk => hfirst k ⟨hk.1, (hbefore hk.1).mp hk.2⟩⟩

theorem next_none (h : nextFocusableNode doc (some i) = none) {k : Nat} (hk : Visited doc k) : ¬ Before doc i k := by
  have hrange := hi.inRange
  have hkrange := hk.inRange
  rw [next_eq hi] at h
  obtain ⟨hexact, hroot⟩ := Option.or_eq_none_iff.mp h
  have hafter : i < k → adjustedTabIndex doc k ≠ adjustedTabIndex doc i :=
    fun hik => exact_none hexact k (mem_walkerFrom_next.mpr ⟨hik, hk.lt⟩) hk
  unfold Before rank
  by_cases hzero : adjustedTabIndex doc i = 0
  · rw [if_pos hzero]
    split <;> omega
  · rw [if_neg hzero] at hroot ⊢
    have hnot := fromTheRoot_none hroot hk
    rw [if_neg hnot.2]
    omega

theorem next_iff {j : Nat} :
    nextFocusableNode doc (some i) = some j ↔ First doc (fun k => Visited doc k ∧ Before doc i k) j := by
  constructor
  · exact next_some hi
  · intro hj
    cases h : nextFocusableNode doc (some i) with
    | none => exact absurd hj.1.2 (next_none hi h hj.1.1)
    | some k => rw [(next_some hi h).unique hj]

theorem previous_eq : previousFocusableNode doc (some i) =
    (findNodeWithExactTabIndex doc (previousNode i) (adjustedTabIndex doc i) .backward).or
      (previousNodeWithLowerTabIndex doc (some (last doc))
        (if adjustedTabIndex doc i ≠ 0 then adjustedTabIndex doc i else 32767)) := by
  have hrange := hi.inRange
  rw [previousFocusableNode, if_neg (by omega), Option.none_or]
  simp

/-- index 32767 is not found from the first node with index 0 -/
def Limited (doc : Document) (i : Nat) : Prop :=
  adjustedTabIndex doc i = 0 → ∀ k, Visited doc k → adjustedTabIndex doc k ≠ 32767

theorem previous_some {j : Nat} (h : previousFocusableNode doc (some i) = some j) :
    (Visited doc j ∧ Before doc j i) ∧
      (Limited doc i → ∀ k, Visited doc k → Before doc k i → k = j ∨ Before doc k j) := by
  have hrange := hi.inRange
  rw [previous_eq hi] at h
  rcases Option.or_eq_some_iff.mp h with hexact | ⟨hnone, hlower⟩
  · obtain ⟨hmem, hj, heq, hlast⟩ := exact_some hexact
    have hlt := mem_walkerFrom_previous.mp hmem
    have hrank := rank_of_tabIndex heq
    refine ⟨⟨hj, Or.inr ⟨hrank, hlt⟩⟩, ?_⟩
    rintro - k hk (hbefore | ⟨hsame, hki⟩)
    · exact Or.inr (Or.inl (by omega))
    · have hkt := tabIndex_of_rank hk hi hsame
      rcases hlast k (mem_walkerFrom_previous.mpr hki) hk hkt with rfl | hjk
      · exact Or.inl rfl
      · exact Or.inr (Or.inr ⟨by omega, hjk⟩)
  · obtain ⟨hj, hjt, hpos, hlast⟩ := lower_some hlower
    have hjrank : rank doc j = adjustedTabIndex doc j := if_neg (by omega)
    have hji : adjustedTabIndex doc j < rank doc i := by
      unfold rank
      split
      · omega
      · rename_i hne
        rwa [if_pos hne] at hjt
    refine ⟨⟨hj, Or.inl (by omega)⟩, ?_⟩
    intro hlimit k hk hki
    have hkrange := hk.inRange
    have hkt : adjustedTabIndex doc k < if adjustedTabIndex doc i ≠ 0 then adjustedTabIndex doc i else 32767 := by
      have hbefore : k < i → adjustedTabIndex doc k ≠ adjustedTabIndex doc i :=
        fun hlt => exact_none hnone k (mem_walkerFrom_previous.mpr hlt) hk
      unfold Before rank at hki
      split
      · rename_i hne
        rw [if_neg hne] at hki
        split at hki <;> omega
      · rename_i hzero
        have hne := hlimit (Decidable.not_not.mp hzero) k hk
        omega
    rcases hlast k hk hkt with rfl | hlt | ⟨heq, hlt⟩
    · exact Or.inl rfl
    · refine Or.inr ?_
      have hbefore : k < i → adjustedTabIndex doc k ≠ adjustedTabIndex doc i :=
        fun hlt => exact_none hnone k (mem_walkerFrom_previous.mpr hlt) hk
      have hk0 : adjustedTabIndex doc k ≠ 0 := by
        intro hzero
        unfold Before rank at hki
        rw [if_pos hzero] at hki
        split at hki <;> omega
      refine Or.inl ?_
      rw [hjrank, rank, if_neg hk0]
      exact hlt
    · exact Or.inr (Or.inr ⟨rank_of_tabIndex heq.symm, hlt⟩)

theorem previous_none (hlimit : Limited doc i) (h : previousFocusableNode doc (some i) = none) {k : Nat}
    (hk : Visited doc k) : ¬ Before doc k i := by
  have hrange := hi.inRange
  have hkrange := hk.inRange
  rw [previous_eq hi] at h
  obtain ⟨hexact, hlower⟩ := Option.or_eq_none_iff.mp h
  have hbefore : k < i → adjustedTabIndex doc k ≠ adjustedTabIndex doc i :=
    fun hlt => exact_none hexact k (mem_walkerFrom_previous.mpr hlt) hk
  have hnot := lower_none hlower k hk
  intro hki
  unfold Before rank at hki
  by_cases hzero : adjustedTabIndex doc i = 0
  · have hne := hlimit hzero k hk
    simp only [hzero, ne_eq, not_true, if_false, if_true] at hki hnot hbefore
    split at hki <;> omega
  · simp only [hzero, ne_eq, not_false_iff, if_false, if_true] at hki hnot
    split at hki <;> omega

theorem previous_iff (hlimit : Limited doc i) {j : Nat} :
    previousFocusableNode doc (some i) = some j ↔ Last doc (fun k => Visited doc k ∧ Before doc k i) j := by
  have hlast {j : Nat} (h : previousFocusableNode doc (some i) = some j) :
      Last doc (fun k => Visited doc k ∧ Before doc k i) j :=
    ⟨(previous_some hi h).1, fun k hk => (previous_some hi h).2 hlimit k hk.1 hk.2⟩
  constructor
  · exact hlast
  · intro hj
    cases h : previousFocusableNode doc (some i) with
    | none => exact absurd hj.1.2 (previous_none hi hlimit h hj.1.1)
    | some k => rw [(hlast h).unique hj]

end

theorem first_iff_last {i j : Nat} (hi : Visited doc i) (hj : Visited doc j) :
    First doc (fun k => Visited doc k ∧ Before doc i k) j ↔ Last doc (fun k => Visited doc k ∧ Before doc k j) i := by
  constructor
  · rintro ⟨⟨-, hij⟩, hfirst⟩
    refine ⟨⟨hi, hij⟩, ?_⟩
    rintro k ⟨hk, hkj⟩
    by_contra hnot
    rw [not_or] at hnot
    have hik := (before_total hnot.1).resolve_left hnot.2
    rcases hfirst k ⟨hk, hik⟩ with rfl | hjk
    · exact hkj.asymm hkj
    · exact hkj.asymm hjk
  · rintro ⟨⟨-, hij⟩, hlast⟩
    refine ⟨⟨hj, hij⟩, ?_⟩
    rintro k ⟨hk, hik⟩
    by_contra hnot
    rw [not_or] at hnot
    have hkj := (before_total hnot.1).resolve_right hnot.2
    rcases hlast k ⟨hk, hkj⟩ with rfl | hki
    · exact hik.asymm hik
    · exact hik.asymm hki

/-- where the greatest index and index 0 do not meet -/
def Apart (doc : Document) : Prop :=
  ∀ i j, Visited doc i → Visited doc j → adjustedTabIndex doc i = 32767 → adjustedTabIndex doc j ≠ 0

theorem inverse_of_apart (h : Apart doc) {i j : Nat} (hi : Visited doc i) (hj : Visited doc j) :
    nextFocusableNode doc (some i) = some j ↔ previousFocusableNode doc (some j) = some i := by
  have hlimit : Limited doc j := fun hzero k hk hmax => h k j hk hj hmax hzero
  rw [next_iff hi, previous_iff hj hlimit]
  exact first_iff_last hi hj

/-- Else the last node with index 32767 comes before the first one with index 0, and is not found from there. -/
theorem apart_of_inverse (h : ∀ i j, Visited doc i → Visited doc j →
    (nextFocusableNode doc (some i) = some j ↔ previousFocusableNode doc (some j) = some i)) : Apart doc := by
  intro m z hm hz hmax hzero
  obtain ⟨z', hz'⟩ : ∃ z', findNodeWithExactTabIndex doc (some 0) 0 .forward = some z' := by
    apply Option.ne_none_iff_exists'.mp
    exact fun hnone => exact_none hnone z (mem_walkerFrom_root.mpr hz.lt) hz hzero
  obtain ⟨m', hm'⟩ : ∃ m', findNodeWithExactTabIndex doc (some (last doc)) 32767 .backward = some m' := by
    apply Option.ne_none_iff_exists'.mp
    exact fun hnone => exact_none hnone m (mem_walkerFrom_last.mpr hm.lt) hm hmax
  obtain ⟨-, hz, hzero, hfirst⟩ := exact_some hz'
  obtain ⟨-, hm, hmax, hlast⟩ := exact_some hm'
  have hzrank : rank doc z' = 32768 := if_pos hzero
  have hmrank : rank doc m' = 32767 := by rw [rank, if_neg (by omega), hmax]
  have hnext : nextFocusableNode doc (some m') = some z' := by
    rw [next_iff hm]
    refine ⟨⟨hz, Or.inl (by omega)⟩, ?_⟩
    rintro k ⟨hk, hmk⟩
    have hkrange := hk.inRange
    have hk0 : adjustedTabIndex doc k = 0 := by
      by_contra hne
      have hkrank : rank doc k = adjustedTabIndex doc k := if_neg hne
      rcases hmk with hlt | ⟨heq, hlt⟩
      · omega
      · rcases hlast k (mem_walkerFrom_last.mpr hk.lt) hk (by omega) with rfl | hleads
        · exact Nat.lt_irrefl _ hlt
        · exact Nat.lt_asymm hlt hleads
    have hkrank : rank doc k = 32768 := if_pos hk0
    rcases hfirst k (mem_walkerFrom_root.mpr hk.lt) hk hk0 with rfl | hlt
    · exact Or.inl rfl
    · exact Or.inr (Or.inr ⟨by omega, hlt⟩)
  have hprevious := (h m' z' hm hz).mp hnext
  rw [previous_eq hz] at hprevious
  rcases Option.or_eq_some_iff.mp hprevious with hexact | ⟨-, hlower⟩
  · have heq := (exact_some hexact).2.2.1
    omega
  · have hlt := (lower_some hlower).2.1
    rw [if_neg (fun hne => hne hzero)] at hlt
    omega

/-! ## the order -/

theorem mem_withTabIndex {t : Int} {i : Nat} : i ∈ withTabIndex doc t ↔ Visited doc i ∧ adjustedTabIndex doc i = t := by
  rw [withTabIndex, List.mem_filter, List.mem_range, Bool.and_eq_true, beq_iff_eq]
  constructor
  · exact fun h => h.2
  · exact fun h => ⟨h.1.lt, h⟩

theorem withTabIndex_pairwise (t : Int) : (withTabIndex doc t).Pairwise (Before doc) := by
  have hrange : (withTabIndex doc t).Pairwise (· < ·) := List.pairwise_lt_range.filter _
  refine hrange.imp_of_mem ?_
  intro i j hi hj hlt
  have hsame := (mem_withTabIndex.mp hi).2.trans (mem_withTabIndex.mp hj).2.symm
  exact Or.inr ⟨rank_of_tabIndex hsame, hlt⟩

theorem mem_byTabIndex {i : Nat} : i ∈ byTabIndex doc ↔ Visited doc i := by
  rw [byTabIndex, List.mem_append, List.mem_flatMap, mem_withTabIndex]
  constructor
  · rintro (⟨t, -, hi⟩ | hi)
    · exact (mem_withTabIndex.mp hi).1
    · exact hi.1
  · intro hi
    have hrange := hi.inRange
    by_cases hzero : adjustedTabIndex doc i = 0
    · exact Or.inr ⟨hi, hzero⟩
    · refine Or.inl ⟨(adjustedTabIndex doc i).toNat, ?_, mem_withTabIndex.mpr ⟨hi, by omega⟩⟩
      rw [List.mem_range'_1]
      omega

theorem byTabIndex_pairwise : (byTabIndex doc).Pairwise (Before doc) := by
  rw [byTabIndex, List.pairwise_append]
  refine ⟨List.pairwise_flatMap.mpr ⟨fun t _ => withTabIndex_pairwise t, ?_⟩, withTabIndex_pairwise 0, ?_⟩
  · have hrange : (List.range' 1 32767).Pairwise (· < ·) := List.pairwise_lt_range'
    refine hrange.imp_of_mem ?_
    intro t t' ht ht' hlt i hi j hj
    rw [List.mem_range'_1] at ht ht'
    have hit := (mem_withTabIndex.mp hi).2
    have hjt := (mem_withTabIndex.mp hj).2
    refine Or.inl ?_
    rw [rank, rank, if_neg (by omega), if_neg (by omega)]
    omega
  · intro i hi j hj
    obtain ⟨t, ht, hi⟩ := List.mem_flatMap.mp hi
    rw [List.mem_range'_1] at ht
    have hit := (mem_withTabIndex.mp hi).2
    have hjt := (mem_withTabIndex.mp hj).2
    refine Or.inl ?_
    rw [rank, rank, if_neg (by omega), if_pos hjt]
    omega

theorem before_irrefl (i : Nat) : ¬ Before doc i i := fun h => h.asymm h

theorem getElem_before {k m i j : Nat} (hk : (byTabIndex doc)[k]? = some i) (hm : (byTabIndex doc)[m]? = some j) :
    Before doc i j ↔ k < m := by
  obtain ⟨hkl, hi⟩ := List.getElem?_eq_some_iff.mp hk
  obtain ⟨hml, hj⟩ := List.getElem?_eq_some_iff.mp hm
  have hpairs := List.pairwise_iff_getElem.mp (@byTabIndex_pairwise doc)
  constructor
  · intro hij
    by_contra hnot
    rcases Nat.lt_or_eq_of_le (Nat.not_lt.mp hnot) with hlt | heq
    · have hji := hpairs m k hml hkl hlt
      rw [hi, hj] at hji
      exact hij.asymm hji
    · subst heq
      rw [hi] at hj
      rw [← hj] at hij
      exact before_irrefl i hij
  · intro hlt
    have hij := hpairs k m hkl hml hlt
    rwa [hi, hj] at hij

theorem next_getElem {k i : Nat} (hk : (byTabIndex doc)[k]? = some i) :
    nextFocusableNode doc (some i) = (byTabIndex doc)[k + 1]? := by
  have hi : Visited doc i := mem_byTabIndex.mp (List.mem_of_getElem? hk)
  cases h : nextFocusableNode doc (some i) with
  | some j =>
    obtain ⟨⟨hj, hij⟩, hfirst⟩ := next_some hi h
    obtain ⟨m, hm⟩ := List.mem_iff_getElem?.mp (mem_byTabIndex.mpr hj)
    have hkm := (getElem_before hk hm).mp hij
    -- nothing lies between them
    by_cases hnext : m = k + 1
    · rw [← hnext, hm]
    · have hlt : k + 1 < (byTabIndex doc).length := by
        obtain ⟨hml, -⟩ := List.getElem?_eq_some_iff.mp hm
        omega
      have hbetween : (byTabIndex doc)[k + 1]? = some (byTabIndex doc)[k + 1] := List.getElem?_eq_getElem hlt
      have hvisited : Visited doc (byTabIndex doc)[k + 1] := mem_byTabIndex.mp (List.getElem_mem hlt)
      rcases hfirst _ ⟨hvisited, (getElem_before hk hbetween).mpr (Nat.lt_succ_self k)⟩ with heq | hbefore
      · rw [hbetween, heq]
      · have hback := (getElem_before hm hbetween).mp hbefore
        omega
  | none =>
    symm
    rw [List.getElem?_eq_none_iff]
    by_contra hlt
    have hat : (byTabIndex doc)[k + 1]? = some (byTabIndex doc)[k + 1] := List.getElem?_eq_getElem (Nat.not_le.mp hlt)
    have hvisited : Visited doc (byTabIndex doc)[k + 1] := mem_byTabIndex.mp (List.getElem_mem (Nat.not_le.mp hlt))
    exact next_none hi h hvisited ((getElem_before hk hat).mpr (Nat.lt_succ_self k))

theorem next_head : nextFocusableNode doc none = (byTabIndex doc).head? := by
  cases h : nextFocusableNode doc none with
  | none =>
    cases hlist : byTabIndex doc with
    | nil => rfl
    | cons i rest =>
      have hi : Visited doc i := mem_byTabIndex.mp (by rw [hlist]; exact List.mem_cons_self)
      exact (next_start_none h hi).elim
  | some j =>
    obtain ⟨hj, hfirst⟩ := next_start h
    obtain ⟨m, hm⟩ := List.mem_iff_getElem?.mp (mem_byTabIndex.mpr hj)
    rw [List.head?_eq_getElem?]
    by_cases hzero : m = 0
    · rw [← hzero, hm]
    · have hlt : 0 < (byTabIndex doc).length := by
        obtain ⟨hml, -⟩ := List.getElem?_eq_some_iff.mp hm
        omega
      have hat : (byTabIndex doc)[0]? = some (byTabIndex doc)[0] := List.getElem?_eq_getElem hlt
      have hvisited : Visited doc (byTabIndex doc)[0] := mem_byTabIndex.mp (List.getElem_mem hlt)
      rcases hfirst _ hvisited with heq | hbefore
      · rw [hat, heq]
      · have hback := (getElem_before hm hat).mp hbefore
        omega

/-! ## the loop -/

theorem find_visited {direction : Direction} {start : Option Nat} {j : Nat}
    (h : findFocusableNode doc direction start = some j) : Visited doc j := by
  have htree : ∀ {node : Option Nat}, inTreeOrder doc node direction = some j → Visited doc j := by
    intro node h
    have hp := List.find?_some h
    rw [Bool.and_eq_true] at hp
    exact hp.1
  have hroot : ∀ {t : Int}, fromTheRoot doc t = some j → Visited doc j := by
    intro t h
    rcases Option.or_eq_some_iff.mp h with h | ⟨-, h⟩
    · exact (greater_some h).1
    · exact (exact_some h).2.1
  cases direction with
  | forward =>
    cases start with
    | none => exact hroot h
    | some i =>
      rcases Option.or_eq_some_iff.mp h with h | ⟨-, h⟩
      · split at h
        · exact htree h
        · cases h
      · rcases Option.or_eq_some_iff.mp h with h | ⟨-, h⟩
        · exact (exact_some h).2.1
        · split at h
          · cases h
          · exact hroot h
  | backward =>
    have hsearches : ∀ {node : Option Nat} {t t' : Int}, (findNodeWithExactTabIndex doc node t .backward).or
        (previousNodeWithLowerTabIndex doc (some (last doc)) t') = some j → Visited doc j := by
      intro node t t' h
      rcases Option.or_eq_some_iff.mp h with h | ⟨-, h⟩
      · exact (exact_some h).2.1
      · exact (lower_some h).1
    cases start with
    | none => exact hsearches h
    | some i =>
      rcases Option.or_eq_some_iff.mp h with h | ⟨-, h⟩
      · dsimp only at h
        split at h
        · exact htree h
        · cases h
      · exact hsearches h

theorem loop_turn {direction : Direction} {node : Option Nat} {j : Nat}
    (h : findFocusableNode doc direction node = some j)
    (hrest : ∃ fuel found, findNeighboringEditableNode doc direction fuel (some j) = some found) :
    ∃ fuel found, findNeighboringEditableNode doc direction fuel node = some found := by
  obtain ⟨fuel, found, hrest⟩ := hrest
  by_cases hfound : (nodes doc)[j]?.any Node.isElementNode = true ∧
      (nodes doc)[j]?.any (fun a => a.isTextFormControl || a.isContentEditable) = true
  · exact ⟨1, some j, by rw [findNeighboringEditableNode, h]; simp only [hfound.1, hfound.2, if_true]⟩
  · refine ⟨fuel + 1, found, ?_⟩
    rw [findNeighboringEditableNode, h]
    dsimp only
    split
    · rename_i helement
      rw [if_neg (fun heditable => hfound ⟨helement, heditable⟩), hrest]
    · exact hrest

theorem loop_ends {direction : Direction} (distance : Nat → Nat)
    (hstep : ∀ i j, Visited doc i → findFocusableNode doc direction (some i) = some j → distance j < distance i)
    (node : Option Nat) : ∃ fuel found, findNeighboringEditableNode doc direction fuel node = some found := by
  have hvisited : ∀ n i, distance i = n → Visited doc i →
      ∃ fuel found, findNeighboringEditableNode doc direction fuel (some i) = some found := by
    intro n
    induction n using Nat.strong_induction_on with
    | _ n ih =>
      intro i hn hi
      cases h : findFocusableNode doc direction (some i) with
      | none => exact ⟨1, none, by rw [findNeighboringEditableNode, h]⟩
      | some j => exact loop_turn h (ih (distance j) (hn ▸ hstep i j hi h) j rfl (find_visited h))
  cases h : findFocusableNode doc direction node with
  | none => exact ⟨1, none, by rw [findNeighboringEditableNode, h]⟩
  | some j => exact loop_turn h (hvisited _ j rfl (find_visited h))

theorem idxOf_before {i j : Nat} (hi : Visited doc i) (hj : Visited doc j) :
    Before doc i j ↔ (byTabIndex doc).idxOf i < (byTabIndex doc).idxOf j :=
  getElem_before (List.getElem?_idxOf (mem_byTabIndex.mpr hi)) (List.getElem?_idxOf (mem_byTabIndex.mpr hj))

theorem ends (direction : Direction) (node : Option Nat) :
    ∃ fuel found, findNeighboringEditableNode doc direction fuel node = some found := by
  cases direction with
  | forward =>
    refine loop_ends (fun i => (byTabIndex doc).length - (byTabIndex doc).idxOf i) ?_ node
    intro i j hi h
    have hj := find_visited h
    have hlt := (idxOf_before hi hj).mp (next_some hi h).1.2
    have hin := List.idxOf_lt_length_iff.mpr (mem_byTabIndex.mpr hj)
    show _ - _ < _ - _
    omega
  | backward =>
    refine loop_ends (fun i => (byTabIndex doc).idxOf i) ?_ node
    intro i j hi h
    exact (idxOf_before (find_visited h) hi).mp (previous_some hi h).1.2

end

/-- everything holds exactly where index 32767 and index 0 do not meet -/
theorem tab_order_iff (doc : Document) : InTabOrder doc ↔ Apart doc := by
  constructor
  · intro h
    exact apart_of_inverse h.inverse
  · intro h
    refine ⟨⟨?_, fun i => mem_byTabIndex, next_head, fun k i hk => next_getElem hk⟩,
      fun i j hi hj => inverse_of_apart h hi hj, fun direction node _ => ends direction node⟩
    refine byTabIndex_pairwise.imp ?_
    rintro i j hij rfl
    exact before_irrefl i hij

/-- a node with index 32767, and one with index 0 behind it -/
def maximal : Document where
  root := ⟨false, 0, false, false, false, by decide⟩
  others := [⟨true, 32767, true, true, false, by decide⟩, ⟨true, 0, true, true, false, by decide⟩]

/-- Forward it goes from the first one to the second; back from there, to none. -/
theorem back_from_index_zero : nextFocusableNode maximal (some 1) = some 2 ∧
    previousFocusableNode maximal (some 2) = none ∧ ¬ InTabOrder maximal := by
  have hnext : nextFocusableNode maximal (some 1) = some 2 := by decide
  have hprevious : previousFocusableNode maximal (some 2) = none := by decide
  refine ⟨hnext, hprevious, ?_⟩
  intro h
  have hback := (h.inverse 1 2 rfl rfl).mp hnext
  rw [hprevious] at hback
  cases hback

end Wkc.TabOrder
