import WkcBrowser.Focus.Search
import Mathlib.Data.List.Perm.Basic

/-!
# The candidate that is picked

* `Picks`              the node left in `closest` is eligible, and no other beats it, all measured as at the start;
* `picks_of_steady`    so it is in a steady search, and then the order of the nodes does not matter;
* `plainPage`, `link`, `container`   small pages;
* `later_container`    a search that is not steady: the second container is measured from what the first has left.
-/

namespace Wkc.Focus
open Canvas Walks

section
variable (q : Query) (nodes : Forest Node) (memory : Memory)

/-- the candidate that the outermost call leaves -/
def picked : Option FocusCandidate := (findFocusableNodeInDirection q nodes { memory := memory }).closest

/-- Nothing is picked if nothing is eligible, else an eligible node that none beats, from the position at the start. -/
def Picks : Prop :=
  (picked q nodes memory = none → ∀ a ∈ visits (shape q) nodes, measured q (current q memory) a = none) ∧
    ∀ c, picked q nodes memory = some c → ∃ a ∈ visits (shape q) nodes, c.focusableNode = a ∧
      ∃ k, measured q (current q memory) a = some k ∧
        ∀ a' ∈ visits (shape q) nodes, ∀ k', measured q (current q memory) a' = some k' → ¬ Beats k' k

/-- no two eligible nodes have the same key -/
def KeysDiffer : Prop :=
  ∀ a ∈ visits (shape q) nodes, ∀ a' ∈ visits (shape q) nodes, ∀ k k', measured q (current q memory) a = some k →
    measured q (current q memory) a' = some k' → ¬ Beats k k' → ¬ Beats k' k → a = a'

variable {q nodes memory}

theorem picks_of_best (h : picked q nodes memory = bestFrom q (current q memory) (visits (shape q) nodes)) :
    Picks q nodes memory := by
  unfold Picks
  rw [h]
  refine ⟨(bestFrom_eq_none q).mp, fun c hc => ?_⟩
  obtain ⟨a, ha, hmeasured⟩ := mem_of_bestFrom q hc
  refine ⟨a, ha, (eligible_of_measured q hmeasured).1.node, c, hmeasured, fun a' ha' k' hk' => ?_⟩
  rw [← key_lt_iff]
  exact Best.best_unbeaten key (onTop q.page) hc k' (List.mem_filterMap.mpr ⟨a', ha', hk'⟩)

theorem bestFrom_perm (hkeys : KeysDiffer q nodes memory) {l : List Node} (hl : l.Perm (visits (shape q) nodes)) :
    bestFrom q (current q memory) l = bestFrom q (current q memory) (visits (shape q) nodes) := by
  have hperm := hl.filterMap (measured q (current q memory))
  cases hbest : bestFrom q (current q memory) l with
  | none =>
    rw [bestFrom_eq_none] at hbest
    rw [eq_comm, bestFrom_eq_none]
    exact fun a ha => hbest a (hl.mem_iff.mpr ha)
  | some c =>
    have hmem := hperm.mem_iff.mp (Best.best_mem key (onTop q.page) hbest)
    have hunbeaten := Best.best_unbeaten key (onTop q.page) hbest
    refine (Best.best_unique key (onTop q.page) ?_ hmem fun c' hc' => hunbeaten c' (hperm.mem_iff.mpr hc')).symm
    intro k hk k' hk' hsame
    obtain ⟨a, ha, hmeasured⟩ := List.mem_filterMap.mp hk
    obtain ⟨a', ha', hmeasured'⟩ := List.mem_filterMap.mp hk'
    obtain rfl := hkeys a ha a' ha' k k' hmeasured hmeasured' (by rw [← key_lt_iff, hsame]; exact lt_irrefl _)
      (by rw [← key_lt_iff, hsame]; exact lt_irrefl _)
    exact Option.some.inj (hmeasured.symm.trans hmeasured')

/-- A steady search picks an eligible node that none beats, the same one in every order of the nodes if the keys differ. -/
theorem picks_of_steady (q : Query) (nodes : Forest Node) (memory : Memory)
    (hsteady : Steady q (current q memory) nodes memory) :
    Picks q nodes memory ∧ (KeysDiffer q nodes memory → ∀ nodes' : Forest Node,
      (visits (shape q) nodes').Perm (visits (shape q) nodes) → Steady q (current q memory) nodes' memory →
        picked q nodes' memory = picked q nodes memory) := by
  have hbest := find_eq_best q hsteady
  refine ⟨picks_of_best hbest, fun hkeys nodes' hperm hsteady' => ?_⟩
  have hbest' := find_eq_best q hsteady'
  show (findFocusableNodeInDirection q nodes' _).closest = (findFocusableNodeInDirection q nodes _).closest
  rw [hbest, hbest', bestFrom_perm hkeys hperm]

end

/-! ## small pages -/

/-- the largest number up to a bound whose square is at most `n` -/
def root (n : Nat) : Nat → Nat
  | 0 => 0
  | s + 1 => if (s + 1) * (s + 1) ≤ n then s + 1 else root n s

/-- `llroundf(distanceDataBetweenPoints(..))` -/
def roundedDistance (d : FocusDirection) (exitPoint entryPoint : IntPoint) : Int :=
  let dx := entryPoint.x - exitPoint.x
  let dy := entryPoint.y - exitPoint.y
  let n := (dx * dx + dy * dy).toNat
  let s := root n (dx.natAbs + dy.natAbs)
  let euclidianDistance : Int := if s < n - s * s then s + 1 else s
  match d with
  | .left => euclidianDistance - dx + 2 * dy.natAbs
  | .right => euclidianDistance + dx + 2 * dy.natAbs
  | .up => euclidianDistance - dy + 2 * dx.natAbs
  | .down => euclidianDistance + dy + 2 * dx.natAbs

def plainPage : Page where
  viewSize := ⟨1000, 1000⟩
  distance := roundedDistance
  hit _ _ := false

def link (id : Nat) (bounding : IntRect) (quads : List IntRect) : Node where
  id := id
  isElementNode := true
  isKeyboardFocusable := true
  isFrameOwnerElement := false
  canScrollInDirection _ := false
  isScrollableContainer := false
  isTextArea := false
  hasContentFrame := false
  tabIndex := 0
  offscreen := false
  area := none
  bounding := bounding
  border := ⟨0, 0, 0, 0⟩
  visible := some
    { id := id
      isFrameOwnerElement := false
      hasATag := true
      quads := quads
      offscreen := false
      offscreenAfterScrolling _ := false }

/-- a box that can be scrolled -/
def container (id : Nat) (bounding : IntRect) : Node :=
  { link id bounding [bounding] with isKeyboardFocusable := false, isScrollableContainer := true }

def withChildren (a : Node) (children next : Forest Node) : Forest Node := .node a children .nil next

/-- the focused node is large -/
def downFromAbove : Query where
  page := plainPage
  direction := .down
  startingRect := ⟨0, 0, 100, 100⟩
  contentsRect := none
  focused := some 0

def linkAt (id : Nat) (y : Int) : Node := link id ⟨0, y, 100, 10⟩ [⟨0, y, 100, 10⟩]

/-- links below the focused node, most of them in containers -/
def linksBelow : Forest Node :=
  withChildren (container 1 ⟨0, 200, 100, 30⟩)
    (withChildren (linkAt 2 200) .nil (withChildren (linkAt 3 220) .nil .nil))
    (withChildren (linkAt 4 150) .nil
      (withChildren (container 5 ⟨0, 120, 100, 10⟩) (withChildren (linkAt 6 120) .nil .nil) .nil))

/-- What the first container leaves in the memory changes no measure behind it. -/
theorem steady_linksBelow : Steady downFromAbove (current downFromAbove {}) linksBelow {} := by
  have hsame : (trail downFromAbove (current downFromAbove {}) linksBelow {}).measuredFrom.map
        (fun p => measured downFromAbove p.1 p.2) =
      (trail downFromAbove (current downFromAbove {}) linksBelow {}).measuredFrom.map
        (fun p => measured downFromAbove (current downFromAbove {}) p.2) := rfl
  intro p hp
  exact List.map_inj_left.mp hsame p hp

theorem picks_of_steady_linksBelow : Picks downFromAbove linksBelow {} ∧ (KeysDiffer downFromAbove linksBelow {} →
    ∀ nodes' : Forest Node, (visits (shape downFromAbove) nodes').Perm (visits (shape downFromAbove) linksBelow) →
      Steady downFromAbove (current downFromAbove {}) nodes' {} →
        picked downFromAbove nodes' {} = picked downFromAbove linksBelow {}) :=
  picks_of_steady downFromAbove linksBelow {} steady_linksBelow

def farther : Node := linkAt 2 50
def nearer : Node := linkAt 4 10

/-- two containers with a link each, all on the focused node -/
def twoContainers : Forest Node :=
  withChildren (container 1 ⟨0, 50, 100, 10⟩) (withChildren farther .nil .nil)
    (withChildren (container 3 ⟨0, 10, 100, 10⟩) (withChildren nearer .nil .nil) .nil)

/-- The link of the second container is nearer, but not in the direction of the first one. -/
theorem later_container : ¬ Picks downFromAbove twoContainers {} := by
  rintro ⟨-, hpicked⟩
  have hid : (picked downFromAbove twoContainers {}).map (fun c => c.focusableNode.id) = some 2 := by decide
  obtain ⟨c, hc, hid⟩ := Option.map_eq_some_iff.mp hid
  obtain ⟨a, ha, hnode, k, hk, hbest⟩ := hpicked c hc
  have hvisits : visits (shape downFromAbove) twoContainers = [farther, nearer] := rfl
  rw [hvisits] at ha hbest
  rw [hnode] at hid
  obtain ⟨k', hk', hbeats⟩ : ∃ k', measured downFromAbove (current downFromAbove {}) nearer = some k' ∧
      ∃ kf, measured downFromAbove (current downFromAbove {}) farther = some kf ∧ Beats k' kf := by
    refine ⟨_, rfl, _, rfl, Or.inr ⟨?_, Or.inl ?_⟩⟩ <;> decide
  obtain ⟨kf, hkf, hbeats⟩ := hbeats
  rcases List.mem_pair.mp ha with rfl | rfl
  · rw [Option.some.inj (hk.symm.trans hkf)] at hbest
    exact hbest nearer (by simp) k' hk' hbeats
  · exact absurd hid (by decide)

end Wkc.Focus
