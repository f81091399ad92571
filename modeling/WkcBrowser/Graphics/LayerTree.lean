import WkcBrowser.Lib.Runs
import Mathlib.Data.List.Chain
import Mathlib.Data.List.Perm.Basic
import Mathlib.Data.List.Nodup
import Mathlib.Logic.Function.Basic

/-!
# What a layer is told of the tree it is in

* `Tree`                  the parent and the children of each layer, and the calls its platform layer has had;
* `removeFromParent`, `addChild` .. `setChildren`      the overrides of `GraphicsLayerWKC` round the functions of
  `GraphicsLayer`, which remove a child by the override;
* `Linked`                a layer is among the children of its parent, once, and of no other layer;
* `Mirrored`              the calls alternate, and the last one says whether there is a parent;
* `add_mirrored_iff`      adding a layer keeps this unless the layer is at its parent already;
* `notified_iff`          a whole run.
-/

set_option linter.unusedSectionVars false

namespace Wkc
namespace LayerTree
open Runs Function

inductive TreeCall where
  | layerDidAttachToTree
  | layerDidDetachFromTree
  deriving DecidableEq

/-- `calls`: those of the layer's own `GraphicsLayerPrivate` -/
structure Tree (Layer : Type*) where
  parent : Layer → Option Layer
  m_children : Layer → List Layer
  calls : Layer → List TreeCall

section
variable {Layer : Type*}

/-- layers that have just been made -/
def Tree.new : Tree Layer := { parent := fun _ => none, m_children := fun _ => [], calls := fun _ => [] }

variable [DecidableEq Layer]

/-! ## the functions of the source -/

def tell (s : Tree Layer) (c : Layer) (call : TreeCall) : Tree Layer :=
  { s with calls := update s.calls c (s.calls c ++ [call]) }

/-- `GraphicsLayer::removeFromParent` -/
def unlink (s : Tree Layer) (c : Layer) : Tree Layer :=
  match s.parent c with
  | none => s
  | some m_parent =>
    { s with
      m_children := update s.m_children m_parent ((s.m_children m_parent).erase c)
      parent := update s.parent c none }

def removeFromParent (s : Tree Layer) (c : Layer) : Tree Layer :=
  let changed := (s.parent c).isSome
  let s := unlink s c
  if changed then tell s c .layerDidDetachFromTree else s

/-- the end of the functions of `GraphicsLayer` that add a child: `place` puts it among the others -/
def link (s : Tree Layer) (p c : Layer) (place : List Layer → List Layer) : Tree Layer :=
  { s with parent := update s.parent c (some p), m_children := update s.m_children p (place (s.m_children p)) }

/-- the end of the overrides: what was the parent before is what counts -/
def tellAttached (before s : Tree Layer) (p c : Layer) : Tree Layer :=
  let changed := before.parent c ≠ some p
  if changed then tell s c .layerDidAttachToTree else s

def addChild (s : Tree Layer) (p c : Layer) : Tree Layer :=
  let removed := if (s.parent c).isSome then removeFromParent s c else s
  tellAttached s (link removed p c fun l => l ++ [c]) p c

def addChildAtIndex (s : Tree Layer) (p c : Layer) (index : Nat) : Tree Layer :=
  let removed := if (s.parent c).isSome then removeFromParent s c else s
  tellAttached s (link removed p c fun l => l.insertIdx index c) p c

/-- before the sibling, or at the end where it is not found -/
def insertBelow (sibling c : Layer) : List Layer → List Layer
  | [] => [c]
  | x :: rest => if sibling = x then c :: x :: rest else x :: insertBelow sibling c rest

def insertAbove (sibling c : Layer) : List Layer → List Layer
  | [] => [c]
  | x :: rest => if sibling = x then x :: c :: rest else x :: insertAbove sibling c rest

def addChildAbove (s : Tree Layer) (p c sibling : Layer) : Tree Layer :=
  tellAttached s (link (removeFromParent s c) p c (insertAbove sibling c)) p c

def addChildBelow (s : Tree Layer) (p c sibling : Layer) : Tree Layer :=
  tellAttached s (link (removeFromParent s c) p c (insertBelow sibling c)) p c

def replaceChild (s : Tree Layer) (p oldChild newChild : Layer) : Tree Layer :=
  if oldChild ∈ s.m_children p then
    let replaced :=
      { s with
        m_children := update s.m_children p ((s.m_children p).replace oldChild newChild)
        parent := update s.parent oldChild none }
    let replaced := removeFromParent replaced newChild
    let replaced := { replaced with parent := update replaced.parent newChild (some p) }
    tellAttached s (tell replaced oldChild .layerDidDetachFromTree) p newChild
  else s

/-- `n` turns of the loop: the first child is removed -/
def removeChildren (p : Layer) : Nat → Tree Layer → Tree Layer
  | 0, s => s
  | n + 1, s =>
    match s.m_children p with
    | [] => s
    | curLayer :: _ => removeChildren p n (removeFromParent s curLayer)

def removeAllChildren (s : Tree Layer) (p : Layer) : Tree Layer := removeChildren p (s.m_children p).length s

def setChildren (s : Tree Layer) (p : Layer) (newChildren : List Layer) : Tree Layer :=
  if newChildren = s.m_children p then s
  else newChildren.foldl (fun s c => addChild s p c) (removeAllChildren s p)

/-- `willBeDestroyed`, in the destructor of the override -/
def destroy (s : Tree Layer) (p : Layer) : Tree Layer := removeFromParent (removeAllChildren s p) p

inductive Op (Layer : Type*) where
  | addChild (p c : Layer)
  | addChildAtIndex (p c : Layer) (index : Nat)
  | addChildAbove (p c sibling : Layer)
  | addChildBelow (p c sibling : Layer)
  | replaceChild (p oldChild newChild : Layer)
  | removeFromParent (c : Layer)
  | setChildren (p : Layer) (newChildren : List Layer)
  | removeAllChildren (p : Layer)
  | destroy (p : Layer)

def step (s : Tree Layer) : Op Layer → Tree Layer
  | .addChild p c => addChild s p c
  | .addChildAtIndex p c index => addChildAtIndex s p c index
  | .addChildAbove p c sibling => addChildAbove s p c sibling
  | .addChildBelow p c sibling => addChildBelow s p c sibling
  | .replaceChild p oldChild newChild => replaceChild s p oldChild newChild
  | .removeFromParent c => removeFromParent s c
  | .setChildren p newChildren => setChildren s p newChildren
  | .removeAllChildren p => removeAllChildren s p
  | .destroy p => destroy s p

/-! ## what is wanted -/

/-- one after the other, beginning with `layerDidAttachToTree` -/
def Alternates (calls : List TreeCall) : Prop :=
  calls.IsChain (· ≠ ·) ∧ calls.head? ≠ some .layerDidDetachFromTree

def Mirrors (calls : List TreeCall) (attached : Bool) : Prop :=
  Alternates calls ∧ (attached = true ↔ calls.getLast? = some .layerDidAttachToTree)

def Mirrored (s : Tree Layer) : Prop := ∀ c, Mirrors (s.calls c) (s.parent c).isSome

/-- what the assertions ask for: an index in the children that are left, and a new child without a parent -/
def Asserted (s : Tree Layer) : Op Layer → Prop
  | .addChildAtIndex p c index => index ≤ ((removeFromParent s c).m_children p).length
  | .replaceChild _ _ newChild => s.parent newChild = none
  | _ => True

instance Asserted.decidable (s : Tree Layer) : ∀ op, Decidable (Asserted s op)
  | .addChildAtIndex p c index => inferInstanceAs (Decidable (index ≤ ((removeFromParent s c).m_children p).length))
  | .replaceChild _ _ newChild => inferInstanceAs (Decidable (s.parent newChild = none))
  | .addChild _ _ | .addChildAbove _ _ _ | .addChildBelow _ _ _ | .removeFromParent _ | .setChildren _ _
  | .removeAllChildren _ | .destroy _ => instDecidableTrue

/-- No layer is added where it is. -/
def Moves (s : Tree Layer) : Op Layer → Prop
  | .addChild p c => s.parent c ≠ some p
  | .addChildAtIndex p c _ => s.parent c ≠ some p
  | .addChildAbove p c _ => s.parent c ≠ some p
  | .addChildBelow p c _ => s.parent c ≠ some p
  | .setChildren _ newChildren => newChildren.Nodup
  | _ => True

instance Moves.decidable (s : Tree Layer) : ∀ op, Decidable (Moves s op)
  | .addChild p c | .addChildAtIndex p c _ | .addChildAbove p c _ | .addChildBelow p c _ =>
    inferInstanceAs (Decidable (s.parent c ≠ some p))
  | .setChildren _ newChildren => inferInstanceAs (Decidable newChildren.Nodup)
  | .replaceChild _ _ _ | .removeFromParent _ | .removeAllChildren _ | .destroy _ => instDecidableTrue

/-- A layer is among the children of its parent, and of no other. -/
structure Linked (s : Tree Layer) : Prop where
  mem : ∀ p c, c ∈ s.m_children p ↔ s.parent c = some p
  nodup : ∀ p, (s.m_children p).Nodup

/-! ## calls -/

theorem Alternates.concat {calls : List TreeCall} {call : TreeCall} (h : Alternates calls)
    (hlast : calls.getLast? ≠ some call) (hnil : calls = [] → call = .layerDidAttachToTree) :
    Alternates (calls ++ [call]) := by
  constructor
  · rw [List.isChain_append]
    refine ⟨h.1, List.isChain_singleton _, ?_⟩
    intro x hx y hy hxy
    obtain rfl : call = y := by simpa using hy
    rw [← hxy] at hlast
    exact hlast hx
  · cases calls with
    | nil =>
      rw [hnil rfl]
      simp
    | cons x rest => exact h.2

theorem mirrors_nil : Mirrors [] false := ⟨⟨List.isChain_nil, by simp⟩, by simp⟩

theorem Mirrors.attach {calls : List TreeCall} (h : Mirrors calls false) :
    Mirrors (calls ++ [.layerDidAttachToTree]) true := by
  refine ⟨h.1.concat (fun hlast => ?_) fun _ => rfl, by simp⟩
  exact absurd (h.2.mpr hlast) (by simp)

theorem Mirrors.detach {calls : List TreeCall} (h : Mirrors calls true) :
    Mirrors (calls ++ [.layerDidDetachFromTree]) false := by
  have hlast := h.2.mp rfl
  refine ⟨h.1.concat ?_ ?_, by simp⟩
  · rw [hlast]
    simp
  · rintro rfl
    exact absurd hlast (by simp)

/-! ## a child is removed -/

variable {s : Tree Layer} {p c : Layer} {place : List Layer → List Layer}

theorem removeFromParent_of_none (h : s.parent c = none) : removeFromParent s c = s := by
  unfold removeFromParent unlink
  rw [h]
  rfl

theorem removeFromParent_parent (s : Tree Layer) (c : Layer) : (removeFromParent s c).parent = update s.parent c none := by
  unfold removeFromParent unlink
  cases h : s.parent c with
  | none =>
    show s.parent = _
    rw [← h, update_eq_self]
  | some q => rfl

theorem removeFromParent_calls (s : Tree Layer) (c : Layer) :
    (removeFromParent s c).calls =
      if (s.parent c).isSome then update s.calls c (s.calls c ++ [.layerDidDetachFromTree]) else s.calls := by
  unfold removeFromParent unlink
  cases s.parent c <;> rfl

theorem removeFromParent_children (h : Linked s) (c q : Layer) :
    (removeFromParent s c).m_children q = (s.m_children q).erase c := by
  have hout : ∀ q, s.parent c ≠ some q → (s.m_children q).erase c = s.m_children q := fun q hq =>
    List.erase_of_not_mem fun hmem => hq ((h.mem q c).mp hmem)
  cases hparent : s.parent c with
  | none =>
    rw [removeFromParent_of_none hparent, hout q (by simp [hparent])]
  | some m_parent =>
    unfold removeFromParent unlink
    rw [hparent]
    show update s.m_children m_parent ((s.m_children m_parent).erase c) q = _
    rcases eq_or_ne q m_parent with rfl | hne
    · rw [update_self]
    · rw [update_of_ne hne, hout q]
      rw [hparent]
      exact fun heq => hne (Option.some.inj heq).symm

theorem Linked.removeFromParent (h : Linked s) (c : Layer) : Linked (removeFromParent s c) := by
  constructor
  · intro q d
    rw [removeFromParent_children h, removeFromParent_parent, (h.nodup q).mem_erase_iff, h.mem]
    rcases eq_or_ne d c with rfl | hne
    · simp
    · simp [hne]
  · intro q
    rw [removeFromParent_children h]
    exact (h.nodup q).erase c

theorem Mirrored.removeFromParent (h : Mirrored s) (c : Layer) : Mirrored (removeFromParent s c) := by
  intro d
  rw [removeFromParent_parent, removeFromParent_calls]
  rcases eq_or_ne d c with rfl | hne
  · have hd := h d
    rw [update_self]
    cases hparent : (s.parent d).isSome with
    | true =>
      rw [hparent] at hd
      rw [if_pos rfl, update_self]
      exact hd.detach
    | false =>
      rw [hparent] at hd
      exact hd
  · rw [update_of_ne hne]
    split
    · rw [update_of_ne hne]
      exact h d
    · exact h d

/-! ## a child is added -/

/-- what the four functions that add a child do -/
def added (s : Tree Layer) (p c : Layer) (place : List Layer → List Layer) : Tree Layer :=
  tellAttached s (link (removeFromParent s c) p c place) p c

theorem removed_eq (s : Tree Layer) (c : Layer) :
    (if (s.parent c).isSome then removeFromParent s c else s) = removeFromParent s c := by
  split
  · rfl
  · next hnone => exact (removeFromParent_of_none (by simpa using hnone)).symm

theorem addChild_eq (s : Tree Layer) (p c : Layer) : addChild s p c = added s p c fun l => l ++ [c] := by
  unfold addChild
  rw [removed_eq]
  rfl

theorem addChildAtIndex_eq (s : Tree Layer) (p c : Layer) (index : Nat) :
    addChildAtIndex s p c index = added s p c fun l => l.insertIdx index c := by
  unfold addChildAtIndex
  rw [removed_eq]
  rfl

theorem tellAttached_parent (before s : Tree Layer) (p c : Layer) : (tellAttached before s p c).parent = s.parent := by
  unfold tellAttached
  dsimp only
  split <;> rfl

theorem tellAttached_children (before s : Tree Layer) (p c : Layer) :
    (tellAttached before s p c).m_children = s.m_children := by
  unfold tellAttached
  dsimp only
  split <;> rfl

theorem added_parent (s : Tree Layer) (p c : Layer) (place : List Layer → List Layer) :
    (added s p c place).parent = update s.parent c (some p) := by
  unfold added
  rw [tellAttached_parent]
  show update (removeFromParent s c).parent c (some p) = _
  rw [removeFromParent_parent, update_idem]

theorem added_calls (s : Tree Layer) (p c : Layer) (place : List Layer → List Layer) :
    (added s p c place).calls =
      if s.parent c ≠ some p then
        update (removeFromParent s c).calls c ((removeFromParent s c).calls c ++ [.layerDidAttachToTree])
      else (removeFromParent s c).calls := by
  unfold added tellAttached
  dsimp only
  split <;> rfl

theorem Linked.added (h : Linked s)
    (hplace : (place ((s.m_children p).erase c)).Perm (c :: (s.m_children p).erase c)) : Linked (added s p c place) := by
  have hremoved := h.removeFromParent c
  have hchildren : ∀ q, (LayerTree.added s p c place).m_children q =
      if q = p then place ((s.m_children p).erase c) else (s.m_children q).erase c := by
    intro q
    unfold LayerTree.added
    rw [tellAttached_children]
    show update (LayerTree.removeFromParent s c).m_children p _ q = _
    rw [removeFromParent_children h]
    split
    · next heq => rw [heq, update_self]
    · next hne => rw [update_of_ne hne, removeFromParent_children h]
  have hout : ∀ q, c ∉ (s.m_children q).erase c := fun q hmem => ((h.nodup q).mem_erase_iff.mp hmem).1 rfl
  constructor
  · intro q d
    have hold := hremoved.mem q d
    rw [removeFromParent_children h, removeFromParent_parent] at hold
    rw [hchildren, added_parent]
    rcases eq_or_ne d c with rfl | hne
    · rw [update_self]
      split
      · next heq =>
        rw [heq, hplace.mem_iff]
        simp
      · next hq =>
        refine ⟨fun hmem => absurd hmem (hout q), fun heq => ?_⟩
        exact absurd (Option.some.inj heq).symm hq
    · rw [update_of_ne hne] at hold ⊢
      split
      · next heq =>
        subst heq
        rw [hplace.mem_iff, ← hold]
        simp [hne]
      · exact hold
  · intro q
    rw [hchildren]
    split
    · rw [hplace.nodup_iff, List.nodup_cons]
      exact ⟨hout p, (h.nodup p).erase c⟩
    · exact (h.nodup q).erase c

theorem Mirrored.added (h : Mirrored s) (hmoves : s.parent c ≠ some p) : Mirrored (added s p c place) := by
  have hremoved := h.removeFromParent c
  intro d
  have hd := hremoved d
  rw [removeFromParent_parent] at hd
  rw [added_parent, added_calls, if_pos hmoves]
  rcases eq_or_ne d c with rfl | hne
  · rw [update_self] at hd
    rw [update_self, update_self]
    exact hd.attach
  · rw [update_of_ne hne] at hd
    rw [update_of_ne hne, update_of_ne hne]
    exact hd

/-- some child of `p` was last told that it has no parent -/
def Missed (s : Tree Layer) (p : Layer) : Prop :=
  ∃ c, s.parent c = some p ∧ (s.calls c).getLast? = some .layerDidDetachFromTree

theorem Missed.not_mirrored (h : Missed s p) : ¬ Mirrored s := by
  obtain ⟨c, hparent, hlast⟩ := h
  intro hmirrored
  have hattached := (hmirrored c).2.mp (by rw [hparent]; rfl)
  rw [hlast] at hattached
  exact absurd hattached (by simp)

theorem missed_added (hstays : s.parent c = some p) : Missed (added s p c place) p := by
  refine ⟨c, by rw [added_parent, update_self], ?_⟩
  rw [added_calls, if_neg (not_not.mpr hstays), removeFromParent_calls, if_pos (by rw [hstays]; rfl), update_self]
  simp

theorem add_mirrored_iff (h : Mirrored s) : Mirrored (added s p c place) ↔ s.parent c ≠ some p :=
  ⟨fun hadded hstays => (missed_added hstays).not_mirrored hadded, h.added⟩

/-! ### the four places -/

theorem insertBelow_perm (sibling c : Layer) (l : List Layer) : (insertBelow sibling c l).Perm (c :: l) := by
  induction l with
  | nil => exact List.Perm.refl _
  | cons x rest ih =>
    unfold insertBelow
    split
    · exact List.Perm.refl _
    · exact (ih.cons x).trans (List.Perm.swap c x rest)

theorem insertAbove_perm (sibling c : Layer) (l : List Layer) : (insertAbove sibling c l).Perm (c :: l) := by
  induction l with
  | nil => exact List.Perm.refl _
  | cons x rest ih =>
    unfold insertAbove
    split
    · exact List.Perm.swap c x rest
    · exact (ih.cons x).trans (List.Perm.swap c x rest)

theorem linked_addChild (h : Linked s) (p c : Layer) : Linked (addChild s p c) := by
  rw [addChild_eq]
  exact h.added List.perm_append_comm

theorem replace_perm {old new : Layer} {l : List Layer} (hold : old ∈ l) : (l.replace old new).Perm (new :: l.erase old) := by
  induction l with
  | nil => exact absurd hold List.not_mem_nil
  | cons x rest ih =>
    rcases eq_or_ne x old with rfl | hne
    · rw [List.replace_cons_self, List.erase_cons_head]
    · have hmem : old ∈ rest := (List.mem_cons.mp hold).resolve_left hne.symm
      rw [List.replace_cons, beq_false_of_ne hne.symm, List.erase_cons_tail (by simpa using hne)]
      exact ((ih hmem).cons x).trans (List.Perm.swap new x _)

theorem replaceChild_eq {old new : Layer} (h : Linked s) (hold : old ∈ s.m_children p) (hnew : s.parent new = none) :
    replaceChild s p old new =
      added (removeFromParent s old) p new fun _ => (s.m_children p).replace old new := by
  have hparent : s.parent old = some p := (h.mem p old).mp hold
  have hne : new ≠ old := by
    rintro rfl
    rw [hparent] at hnew
    exact absurd hnew (by simp)
  have hremoved : removeFromParent s old =
      { s with
        m_children := update s.m_children p ((s.m_children p).erase old)
        parent := update s.parent old none
        calls := update s.calls old (s.calls old ++ [.layerDidDetachFromTree]) } := by
    unfold removeFromParent unlink
    rw [hparent]
    rfl
  have hfree : update s.parent old none new = none := by rw [update_of_ne hne, hnew]
  unfold replaceChild added
  rw [if_pos hold, hremoved]
  dsimp only
  rw [removeFromParent_of_none hfree, removeFromParent_of_none hfree]
  unfold tellAttached tell link
  dsimp only
  rw [if_pos (by rw [hnew]; simp), if_pos (by rw [hfree]; simp), update_idem]

/-! ## all children -/

theorem removeChildren_spec {n : Nat} (h : Linked s) (hn : (s.m_children p).length = n) :
    Linked (removeChildren p n s) ∧ (removeChildren p n s).m_children p = [] ∧
      (Mirrored s → Mirrored (removeChildren p n s)) := by
  induction n generalizing s with
  | zero => exact ⟨h, List.length_eq_zero_iff.mp hn, id⟩
  | succ n ih =>
    unfold removeChildren
    cases hchildren : s.m_children p with
    | nil =>
      rw [hchildren] at hn
      exact absurd hn (by simp)
    | cons c rest =>
      have hlength : ((removeFromParent s c).m_children p).length = n := by
        rw [removeFromParent_children h, hchildren, List.erase_cons_head]
        rw [hchildren] at hn
        exact Nat.succ.inj hn
      obtain ⟨hlinked, hnone, hmirrored⟩ := ih (h.removeFromParent c) hlength
      exact ⟨hlinked, hnone, fun hs => hmirrored (hs.removeFromParent c)⟩

theorem Linked.removeAllChildren (h : Linked s) (p : Layer) : Linked (removeAllChildren s p) :=
  (removeChildren_spec h rfl).1

theorem Mirrored.removeAllChildren (hs : Mirrored s) (h : Linked s) (p : Layer) : Mirrored (removeAllChildren s p) :=
  (removeChildren_spec h rfl).2.2 hs

theorem removeAllChildren_parent_ne (h : Linked s) (p c : Layer) : (removeAllChildren s p).parent c ≠ some p := by
  obtain ⟨hlinked, hnone, -⟩ := removeChildren_spec (p := p) h rfl
  intro hparent
  have hmem := (hlinked.mem p c).mpr hparent
  rw [hnone] at hmem
  exact List.not_mem_nil hmem

/-! ### a list of children -/

theorem linked_addAll (h : Linked s) (p : Layer) (l : List Layer) : Linked (l.foldl (fun s c => addChild s p c) s) := by
  induction l generalizing s with
  | nil => exact h
  | cons c rest ih => exact ih (linked_addChild h p c)

theorem Missed.addAll (h : Missed s p) (l : List Layer) : Missed (l.foldl (fun s c => addChild s p c) s) p := by
  induction l generalizing s with
  | nil => exact h
  | cons d rest ih =>
    apply ih
    show Missed (addChild s p d) p
    rw [addChild_eq]
    obtain ⟨c, hparent, hlast⟩ := h
    by_cases hd : s.parent d = some p
    · exact missed_added hd
    · have hne : c ≠ d := by
        rintro rfl
        exact hd hparent
      refine ⟨c, by rw [added_parent, update_of_ne hne, hparent], ?_⟩
      rw [added_calls, if_pos hd, update_of_ne hne, removeFromParent_calls]
      split
      · rw [update_of_ne hne, hlast]
      · exact hlast

theorem addAll_mirrored_iff (h : Mirrored s) (l : List Layer) :
    Mirrored (l.foldl (fun s c => addChild s p c) s) ↔ l.Nodup ∧ ∀ c ∈ l, s.parent c ≠ some p := by
  induction l generalizing s with
  | nil => exact ⟨fun _ => ⟨List.nodup_nil, fun c hc => absurd hc List.not_mem_nil⟩, fun _ => h⟩
  | cons c rest ih =>
    rw [List.foldl_cons, List.nodup_cons, List.forall_mem_cons]
    by_cases hstays : s.parent c = some p
    · have hmissed : Missed (addChild s p c) p := by
        rw [addChild_eq]
        exact missed_added hstays
      refine ⟨fun hall => absurd hall (hmissed.addAll rest).not_mirrored, fun hall => absurd hstays hall.2.1⟩
    · have hnext : Mirrored (addChild s p c) := by
        rw [addChild_eq]
        exact h.added hstays
      have hparent : (addChild s p c).parent = update s.parent c (some p) := by rw [addChild_eq, added_parent]
      rw [ih hnext, hparent]
      constructor
      · rintro ⟨hnodup, hrest⟩
        have hnotMem : c ∉ rest := fun hmem => hrest c hmem (update_self c (some p) s.parent)
        refine ⟨⟨hnotMem, hnodup⟩, hstays, fun d hd => ?_⟩
        have hne : d ≠ c := fun heq => hnotMem (heq ▸ hd)
        have hd' := hrest d hd
        rw [update_of_ne hne] at hd'
        exact hd'
      · rintro ⟨⟨hnotMem, hnodup⟩, -, hrest⟩
        refine ⟨hnodup, fun d hd => ?_⟩
        have hne : d ≠ c := fun heq => hnotMem (heq ▸ hd)
        rw [update_of_ne hne]
        exact hrest d hd

/-! ## a step -/

theorem linked_new : Linked (Tree.new : Tree Layer) := ⟨fun _ _ => ⟨fun h => absurd h List.not_mem_nil, nofun⟩, fun _ => List.nodup_nil⟩

theorem mirrored_new : Mirrored (Tree.new : Tree Layer) := fun _ => mirrors_nil

theorem linked_step (s : Tree Layer) (op : Op Layer) (hop : Asserted s op) (h : Linked s) : Linked (step s op) := by
  cases op with
  | addChild p c => exact linked_addChild h p c
  | addChildAtIndex p c index =>
    show Linked (addChildAtIndex s p c index)
    rw [addChildAtIndex_eq]
    apply h.added
    rw [← removeFromParent_children h]
    exact List.perm_insertIdx c _ hop
  | addChildAbove p c sibling => exact h.added (insertAbove_perm sibling c _)
  | addChildBelow p c sibling => exact h.added (insertBelow_perm sibling c _)
  | replaceChild p oldChild newChild =>
    show Linked (replaceChild s p oldChild newChild)
    by_cases hold : oldChild ∈ s.m_children p
    · rw [replaceChild_eq h hold hop]
      have hout : newChild ∉ (s.m_children p).erase oldChild := by
        intro hmem
        have hparent := (h.mem p newChild).mp (List.mem_of_mem_erase hmem)
        rw [show s.parent newChild = none from hop] at hparent
        exact absurd hparent (by simp)
      apply (h.removeFromParent oldChild).added
      rw [removeFromParent_children h, List.erase_of_not_mem hout]
      exact replace_perm hold
    · unfold replaceChild
      rw [if_neg hold]
      exact h
  | removeFromParent c => exact h.removeFromParent c
  | setChildren p newChildren =>
    show Linked (setChildren s p newChildren)
    unfold setChildren
    split
    · exact h
    · exact linked_addAll (h.removeAllChildren p) p newChildren
  | removeAllChildren p => exact h.removeAllChildren p
  | destroy p => exact (h.removeAllChildren p).removeFromParent p

theorem mirrored_step (s : Tree Layer) (op : Op Layer) (hop : Asserted s op) (h : Linked s) (hs : Mirrored s) :
    Mirrored (step s op) ↔ Moves s op := by
  cases op with
  | addChild p c =>
    show Mirrored (addChild s p c) ↔ _
    rw [addChild_eq]
    exact add_mirrored_iff hs
  | addChildAtIndex p c index =>
    show Mirrored (addChildAtIndex s p c index) ↔ _
    rw [addChildAtIndex_eq]
    exact add_mirrored_iff hs
  | addChildAbove | addChildBelow => exact add_mirrored_iff hs
  | replaceChild p oldChild newChild =>
    refine iff_of_true ?_ trivial
    show Mirrored (replaceChild s p oldChild newChild)
    by_cases hold : oldChild ∈ s.m_children p
    · rw [replaceChild_eq h hold hop]
      apply (hs.removeFromParent oldChild).added
      rw [removeFromParent_parent]
      have hnew : s.parent newChild = none := hop
      intro hparent
      rcases eq_or_ne newChild oldChild with rfl | hne
      · rw [update_self] at hparent
        exact absurd hparent (by simp)
      · rw [update_of_ne hne, hnew] at hparent
        exact absurd hparent (by simp)
    · unfold replaceChild
      rw [if_neg hold]
      exact hs
  | removeFromParent c => exact iff_of_true (hs.removeFromParent c) trivial
  | setChildren p newChildren =>
    show Mirrored (setChildren s p newChildren) ↔ newChildren.Nodup
    unfold setChildren
    split
    · next hsame => exact iff_of_true hs (hsame ▸ h.nodup p)
    · rw [addAll_mirrored_iff (hs.removeAllChildren h p)]
      exact and_iff_left fun c _ => removeAllChildren_parent_ne h p c
  | removeAllChildren p => exact iff_of_true (hs.removeAllChildren h p) trivial
  | destroy p => exact iff_of_true ((hs.removeAllChildren h p).removeFromParent p) trivial

end

section
variable {Layer : Type*} [DecidableEq Layer]

/-- In a run that keeps the assertions, the layers are told all of the tree exactly as long as none is added where it
is. -/
theorem notified_iff (ops : List (Op Layer)) (hasserted : Along step Asserted (Tree.new : Tree Layer) ops) :
    (∀ pre, pre <+: ops → Mirrored (run step Tree.new pre)) ↔ Along step Moves Tree.new ops :=
  prefix_iff_along_of linked_step mirrored_step linked_new mirrored_new hasserted

/-- a child that changes its place by way of another parent -/
theorem notified_iff_moved :
    let ops : List (Op (Fin 4)) :=
      [.addChild 0 1, .addChildAtIndex 0 2 1, .addChildBelow 3 1 2, .setChildren 0 [1, 2], .replaceChild 0 2 3, .destroy 0]
    Along step Asserted (Tree.new : Tree (Fin 4)) ops ∧ ∀ pre, pre <+: ops → Mirrored (run step Tree.new pre) := by
  intro ops
  have hasserted : Along step Asserted (Tree.new : Tree (Fin 4)) ops := by decide
  have hmoves : Along step Moves (Tree.new : Tree (Fin 4)) ops := by decide
  exact ⟨hasserted, (notified_iff ops hasserted).mpr hmoves⟩

/-- A child that is put to the front of its parent has the parent, and was last told that it has none. -/
theorem reordered_child_detached :
    let ops : List (Op (Fin 3)) := [.addChild 0 1, .addChild 0 2, .addChildAtIndex 0 2 0]
    let s := run step (Tree.new : Tree (Fin 3)) ops
    Along step Asserted Tree.new ops ∧ s.parent 2 = some 0 ∧
      s.calls 2 = [.layerDidAttachToTree, .layerDidDetachFromTree] ∧ ¬ Mirrored s := by
  intro ops s
  have hparent : s.parent 2 = some 0 := by decide
  have hcalls : s.calls 2 = [.layerDidAttachToTree, .layerDidDetachFromTree] := by decide
  refine ⟨by decide, hparent, hcalls, fun h => ?_⟩
  have hattached := (h 2).2.mp (by rw [hparent]; rfl)
  rw [hcalls] at hattached
  exact absurd hattached (by decide)

end

end LayerTree
end Wkc
