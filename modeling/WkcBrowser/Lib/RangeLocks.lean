import Mathlib.Data.Fintype.Defs
import WkcBrowser.Lib.Tables

/-!
# Locks on ranges, taken by calls that can be interrupted

Handles `H` hold shared and exclusive locks on disjoint ranges `R`.  A call is a program of single lock and
unlock requests; between two requests of one handle the others may run.

* `Table`, `Grants`, `Compatible`   who holds what, and when a request is granted;
* `Call`                            a program of requests;
* `System`, `step`                  handles that make calls, one request at a time;
* `Tame`, `Steady`                  what a call keeps, and the invariant of the system.
-/

set_option linter.unusedSectionVars false

namespace Locks

inductive Kind where
  | shared
  | exclusive
  deriving DecidableEq

/-- what one handle holds -/
abbrev Held (R : Type*) := R → Option Kind

abbrev Table (H R : Type*) := H → Held R

/-- the lock requests and releases of a call; `done` ends it -/
inductive Call (R α : Type*) where
  | done (a : α)
  | lock (k : Kind) (r : R) (next : Bool → Call R α)
  | unlock (r : R) (next : Call R α)

section
variable {H R α : Type*} [DecidableEq H] [DecidableEq R]

/-- no other handle holds a conflicting lock -/
def Grants (t : Table H R) (i : H) (k : Kind) (r : R) : Prop :=
  ∀ j, j ≠ i → t j r = none ∨ (k = .shared ∧ t j r = some .shared)

instance [Fintype H] (t : Table H R) (i : H) (k : Kind) (r : R) : Decidable (Grants t i k r) :=
  inferInstanceAs (Decidable (∀ _, _))

def Held.set (x : Held R) (r : R) (k : Option Kind) : Held R := Function.update x r k

def Table.set (t : Table H R) (i : H) (x : Held R) : Table H R := Function.update t i x

/-- who holds a range exclusively is alone on it -/
def Compatible (t : Table H R) : Prop :=
  ∀ i j r, i ≠ j → t i r = some .exclusive → t j r = none

theorem Table.set_self (t : Table H R) (i : H) (x : Held R) : t.set i x i = x := Function.update_self ..

theorem Table.set_ne (t : Table H R) {i j : H} (h : j ≠ i) (x : Held R) : t.set i x j = t j :=
  Function.update_of_ne h ..

theorem Held.set_self (x : Held R) (r : R) (k : Option Kind) : x.set r k r = k := Function.update_self ..

theorem Held.set_ne (x : Held R) {r r' : R} (h : r' ≠ r) (k : Option Kind) : x.set r k r' = x r' :=
  Function.update_of_ne h ..

variable {t : Table H R} {i j : H} {k : Kind} {r : R}

theorem Compatible.lock (h : Compatible t) (hg : Grants t i k r) :
    Compatible (t.set i ((t i).set r (some k))) := by
  intro a b s hab ha
  by_cases hai : a = i
  · subst hai
    rw [Table.set_ne _ (Ne.symm hab)]
    rw [Table.set_self] at ha
    by_cases hs : s = r
    · subst hs
      rw [Held.set_self] at ha
      rcases hg b (Ne.symm hab) with hnone | ⟨hk, _⟩
      · exact hnone
      · rw [hk] at ha
        cases ha
    · rw [Held.set_ne _ hs] at ha
      exact h a b s hab ha
  · rw [Table.set_ne _ hai] at ha
    by_cases hbi : b = i
    · subst hbi
      rw [Table.set_self]
      by_cases hs : s = r
      · subst hs
        rcases hg a hai with hnone | ⟨_, hshared⟩
        · rw [hnone] at ha
          cases ha
        · rw [hshared] at ha
          cases ha
      · rw [Held.set_ne _ hs]
        exact h a b s hab ha
    · rw [Table.set_ne _ hbi]
      exact h a b s hab ha

theorem Compatible.unlock (h : Compatible t) : Compatible (t.set i ((t i).set r none)) := by
  intro a b s hab ha
  have hsub : ∀ c, t.set i ((t i).set r none) c s = t c s ∨ t.set i ((t i).set r none) c s = none := by
    intro c
    by_cases hci : c = i
    · subst hci
      rw [Table.set_self]
      by_cases hs : s = r
      · subst hs
        exact .inr (Held.set_self ..)
      · exact .inl (Held.set_ne _ hs _)
    · exact .inl (by rw [Table.set_ne _ hci])
  have ha' : t a s = some .exclusive := by
    rcases hsub a with hsame | hnone
    · rw [← hsame]
      exact ha
    · rw [hnone] at ha
      cases ha
  rcases hsub b with hsame | hnone
  · rw [hsame]
    exact h a b s hab ha'
  · exact hnone

/-! ## handles that make calls -/

/-- `level` is what a handle remembers between its calls -/
structure System (H R α : Type*) where
  table : Table H R
  level : H → α
  call : H → Option (Call R α)

variable [Fintype H]

/-- the next request of the call that `i` is in -/
def System.advance (m : System H R α) (i : H) : System H R α :=
  match m.call i with
  | none => m
  | some (.done a) => { m with level := Function.update m.level i a, call := Function.update m.call i none }
  | some (.lock k r next) =>
    if Grants m.table i k r then
      { m with
        table := m.table.set i ((m.table i).set r (some k))
        call := Function.update m.call i (some (next true)) }
    else { m with call := Function.update m.call i (some (next false)) }
  | some (.unlock r next) =>
    { m with
      table := m.table.set i ((m.table i).set r none)
      call := Function.update m.call i (some next) }

/-- a call is made -/
def System.start (m : System H R α) (i : H) (c : Call R α) : System H R α :=
  { m with call := Function.update m.call i (some c) }

/-- Whatever happens to its requests, the call ends as `End` says, and on the way what is held satisfies `P`.
A refusal that `Refusable` rules out need not be considered. -/
def Tame (P : Held R → Prop) (Refusable : Held R → Kind → R → Prop) (End : Held R → α → Prop) :
    Call R α → Held R → Prop
  | .done a, x => P x ∧ End x a
  | .lock k r next, x => P x ∧ Tame P Refusable End (next true) (x.set r (some k)) ∧
      (Refusable x k r → Tame P Refusable End (next false) x)
  | .unlock r next, x => P x ∧ Tame P Refusable End next (x.set r none)

/-- the invariant of the system -/
structure Steady (P : Held R → Prop) (Refusable : Held R → Kind → R → Prop) (End : Held R → α → Prop)
    (m : System H R α) : Prop where
  compatible : Compatible m.table
  idle : ∀ i, m.call i = none → P (m.table i) ∧ End (m.table i) (m.level i)
  busy : ∀ i c, m.call i = some c → Tame P Refusable End c (m.table i)

variable {P : Held R → Prop} {Refusable : Held R → Kind → R → Prop} {End : Held R → α → Prop}
  {m : System H R α}

theorem Tame.holds {c : Call R α} {x : Held R} (h : Tame P Refusable End c x) : P x := by
  cases c with
  | done | lock | unlock => exact h.1

theorem Steady.holds (h : Steady P Refusable End m) (i : H) : P (m.table i) := by
  cases hc : m.call i with
  | none => exact (h.idle i hc).1
  | some c => exact (h.busy i c hc).holds

/-- one request of one handle; only `i` is looked at -/
theorem Steady.replace (h : Steady P Refusable End m) {i : H} {t : Table H R} {c : Call R α}
    (hcompatible : Compatible t) (ht : ∀ j, j ≠ i → t j = m.table j) (hc : Tame P Refusable End c (t i)) :
    Steady P Refusable End { m with table := t, call := Function.update m.call i (some c) } := by
  refine ⟨hcompatible, ?_, ?_⟩
  · intro j hj
    have hj' : Function.update m.call i (some c) j = none := hj
    by_cases hji : j = i
    · subst hji
      rw [Function.update_self] at hj'
      cases hj'
    · rw [Function.update_of_ne hji] at hj'
      show P (t j) ∧ End (t j) (m.level j)
      rw [ht j hji]
      exact h.idle j hj'
  · intro j d hj
    have hj' : Function.update m.call i (some c) j = some d := hj
    show Tame P Refusable End d (t j)
    by_cases hji : j = i
    · subst hji
      rw [Function.update_self] at hj'
      obtain rfl := Option.some.inj hj'
      exact hc
    · rw [Function.update_of_ne hji] at hj'
      rw [ht j hji]
      exact h.busy j d hj'

theorem Steady.start (h : Steady P Refusable End m) {i : H} {c : Call R α}
    (hc : Tame P Refusable End c (m.table i)) : Steady P Refusable End (m.start i c) :=
  h.replace h.compatible (fun _ _ => rfl) hc

theorem Steady.advance (h : Steady P Refusable End m) {i : H}
    (href : ∀ k r next, m.call i = some (.lock k r next) → ¬ Grants m.table i k r →
      Refusable (m.table i) k r) : Steady P Refusable End (m.advance i) := by
  unfold System.advance
  cases hcall : m.call i with
  | none => exact h
  | some c =>
    have htame := h.busy i c hcall
    cases c with
    | done a =>
      refine ⟨h.compatible, ?_, ?_⟩
      · intro j hj
        by_cases hji : j = i
        · subst hji
          show P (m.table j) ∧ End (m.table j) (Function.update m.level j a j)
          rw [Function.update_self]
          exact htame
        · have hj' : Function.update m.call i none j = none := hj
          rw [Function.update_of_ne hji] at hj'
          show P (m.table j) ∧ End (m.table j) (Function.update m.level i a j)
          rw [Function.update_of_ne hji]
          exact h.idle j hj'
      · intro j d hj
        exact h.busy j d (Tables.update_taken hj).2
    | lock k r next =>
      dsimp only
      split
      · next hg =>
        refine h.replace (h.compatible.lock hg) (fun j hji => Table.set_ne _ hji _) ?_
        rw [Table.set_self]
        exact htame.2.1
      · next hg => exact h.replace h.compatible (fun _ _ => rfl) (htame.2.2 (href k r next hcall hg))
    | unlock r next =>
      refine h.replace h.compatible.unlock (fun j hji => Table.set_ne _ hji _) ?_
      rw [Table.set_self]
      exact htame.2

end

end Locks
