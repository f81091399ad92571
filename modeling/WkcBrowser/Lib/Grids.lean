import WkcBrowser.Lib.Bytes
import Mathlib.Tactic.Linarith

/-!
# Loops over a grid

* `forLoop n body`     `body 0`, .., `body (n - 1)`, as long as none of them fails;
* `forLoop_total`      an invariant under which no turn fails;
* `forLoop_kept`       an invariant of the turns that do not fail;
* `gridLoop`           rows of columns;
* `Grid`               places of `k` bytes in a buffer, none of which overlap;
* `gridLoop_stores`    a loop that stores at every place once leaves the rest alone, also if it reads the place first;
* `gridLoop_first`     what the first turn stores is not overwritten.
-/

namespace Loops
open Buf
variable {σ : Type*}

def forLoop (n : Nat) (body : Nat → σ → Option σ) (s : σ) : Option σ :=
  match n with
  | 0 => some s
  | n + 1 => (forLoop n body s).bind (body n)

section
variable {n : Nat} {body : Nat → σ → Option σ} {s t : σ} (I : Nat → σ → Prop)

theorem forLoop_total (h0 : I 0 s) (hstep : ∀ i s, i < n → I i s → ∃ t, body i s = some t ∧ I (i + 1) t) :
    ∃ t, forLoop n body s = some t ∧ I n t := by
  induction n with
  | zero => exact ⟨s, rfl, h0⟩
  | succ n ih =>
    obtain ⟨u, hu, hI⟩ := ih fun i s hi => hstep i s (Nat.lt_succ_of_lt hi)
    obtain ⟨t, ht, hI'⟩ := hstep n u (Nat.lt_succ_self n) hI
    exact ⟨t, by rw [forLoop, hu, Option.bind_some, ht], hI'⟩

theorem forLoop_kept (h0 : I 0 s) (hstep : ∀ i s t, i < n → I i s → body i s = some t → I (i + 1) t)
    (hloop : forLoop n body s = some t) : I n t := by
  induction n generalizing t with
  | zero =>
    obtain rfl := Option.some.inj hloop
    exact h0
  | succ n ih =>
    obtain ⟨u, hu, ht⟩ := Option.bind_eq_some_iff.mp hloop
    exact hstep n u t (Nat.lt_succ_self n) (ih (fun i s t hi => hstep i s t (Nat.lt_succ_of_lt hi)) hu) ht

end

def gridLoop (rows columns : Nat) (body : Nat → Nat → σ → Option σ) (s : σ) : Option σ :=
  forLoop rows (fun y => forLoop columns (body y)) s

theorem forLoop_congr {n : Nat} {body body' : Nat → σ → Option σ} (h : ∀ i s, i < n → body i s = body' i s) (s : σ) :
    forLoop n body s = forLoop n body' s := by
  induction n with
  | zero => rfl
  | succ n ih =>
    rw [forLoop, forLoop, ih fun i s hi => h i s (Nat.lt_succ_of_lt hi)]
    cases forLoop n body' s with
    | none => rfl
    | some u => exact h n u (Nat.lt_succ_self n)

theorem gridLoop_congr {rows columns : Nat} {body body' : Nat → Nat → σ → Option σ}
    (h : ∀ y x s, y < rows → x < columns → body y x s = body' y x s) (s : σ) :
    gridLoop rows columns body s = gridLoop rows columns body' s :=
  forLoop_congr (fun y s hy => forLoop_congr (fun x s hx => h y x s hy hx) s) s

theorem gridLoop_empty {rows columns : Nat} (h : rows = 0 ∨ columns = 0) (body : Nat → Nat → σ → Option σ) (s : σ) :
    gridLoop rows columns body s = some s := by
  rcases h with rfl | rfl
  · rfl
  · induction rows with
    | zero => rfl
    | succ rows ih =>
      show (gridLoop rows 0 body s).bind _ = _
      rw [ih]
      rfl

/-! ## places -/

/-- where the places of a grid are, in a buffer of `size` bytes -/
structure Grid (k rows columns size : Nat) where
  place : Nat → Nat → Int
  inside : ∀ y x, y < rows → x < columns → 0 ≤ place y x ∧ place y x + k ≤ size
  apart : ∀ y x y' x', y < rows → x < columns → y' < rows → x' < columns → (y, x) ≠ (y', x') →
    place y x + k ≤ place y' x' ∨ place y' x' + k ≤ place y x

namespace Grid
variable {k rows columns size : Nat} (grid : Grid k rows columns size)

/-- rows that are `pitch` apart -/
def pitched {base pitch : Int} (hbase : 0 ≤ base) (hpitch : k * columns ≤ pitch)
    (hsize : base + pitch * (rows - 1) + k * columns ≤ size) : Grid k rows columns size where
  place y x := base + pitch * y + k * x
  inside y x hy hx := by
    have hp : 0 ≤ pitch := (by positivity : (0 : Int) ≤ k * columns).trans hpitch
    have hrow : pitch * y ≤ pitch * (rows - 1) := Int.mul_le_mul_of_nonneg_left (by omega) hp
    have hcolumn : (k : Int) * (x + 1) ≤ k * columns := Int.mul_le_mul_of_nonneg_left (by omega) (by omega)
    constructor
    · positivity
    · linarith
  apart y x y' x' hy hx hy' hx' hne := by
    have hp : 0 ≤ pitch := (by positivity : (0 : Int) ≤ k * columns).trans hpitch
    have hrow : ∀ {i j : Nat}, i < j → pitch * i + pitch ≤ pitch * j := by
      intro i j hij
      have h := Int.mul_le_mul_of_nonneg_left (show ((i + 1 : Nat) : Int) ≤ j by omega) hp
      push_cast at h
      linarith
    have hcolumn : ∀ {i j : Nat}, i < j → (k : Int) * i + k ≤ k * j := by
      intro i j hij
      have h := Int.mul_le_mul_of_nonneg_left (show ((i + 1 : Nat) : Int) ≤ j by omega) (show (0 : Int) ≤ k by omega)
      push_cast at h
      linarith
    have hnonneg : ∀ i : Nat, (0 : Int) ≤ k * i := fun i => by positivity
    rcases Nat.lt_trichotomy y y' with hlt | rfl | hlt
    · left
      have h1 := hrow hlt
      have h2 := hcolumn hx
      have h3 := hnonneg x'
      linarith
    · rcases Nat.lt_trichotomy x x' with hlt | rfl | hlt
      · left
        have h := hcolumn hlt
        linarith
      · exact absurd rfl hne
      · right
        have h := hcolumn hlt
        linarith
    · right
      have h1 := hrow hlt
      have h2 := hcolumn hx'
      have h3 := hnonneg x
      linarith

/-- `(y', x')` is a place of the grid, and it comes before `(y, x)` -/
def Before (rows columns y x y' x' : Nat) : Prop := y' < rows ∧ x' < columns ∧ (y' < y ∨ y' = y ∧ x' < x)

theorem before_row {y y' x' : Nat} : Before rows columns y columns y' x' ↔ Before rows columns (y + 1) 0 y' x' := by
  unfold Before
  omega

theorem before_next {y x y' x' : Nat} (h : Before rows columns y (x + 1) y' x') :
    Before rows columns y x y' x' ∨ (y', x') = (y, x) := by
  obtain ⟨hy, hx, h⟩ := h
  by_cases heq : y' = y ∧ x' = x
  · exact Or.inr (Prod.ext heq.1 heq.2)
  · exact Or.inl ⟨hy, hx, by omega⟩

theorem before_ne {y x y' x' : Nat} (h : Before rows columns y x y' x') : (y', x') ≠ (y, x) := by
  intro heq
  obtain ⟨rfl, rfl⟩ := Prod.mk.inj heq
  obtain ⟨-, -, h⟩ := h
  omega

/-- what a loop that stores `v` leaves when it has come to `(y, x)` -/
structure Stored (dst : Bytes) (v : Nat → Nat → Bytes) (y x : Nat) (buf : Bytes) : Prop where
  length : buf.length = dst.length
  written : ∀ y' x', Before rows columns y x y' x' → loadAt buf (grid.place y' x') k = some (v y' x')
  kept : ∀ off : Int, (∀ y' x', Before rows columns y x y' x' →
    off + k ≤ grid.place y' x' ∨ grid.place y' x' + k ≤ off) → loadAt buf off k = loadAt dst off k

section
variable {dst buf out : Bytes} {v : Nat → Nat → Bytes} {y x : Nat}

theorem Stored.zero (dst : Bytes) (v : Nat → Nat → Bytes) : grid.Stored dst v 0 0 dst where
  length := rfl
  written y' x' h := absurd h.2.2 (by omega)
  kept _ _ := rfl

theorem Stored.row (h : grid.Stored dst v y columns buf) : grid.Stored dst v (y + 1) 0 buf where
  length := h.length
  written y' x' hb := h.written y' x' (before_row.mpr hb)
  kept off hoff := h.kept off fun y' x' hb => hoff y' x' (before_row.mp hb)

theorem Stored.next (h : grid.Stored dst v y x buf) (hy : y < rows) (hx : x < columns) :
    loadAt buf (grid.place y x) k = loadAt dst (grid.place y x) k := by
  refine h.kept _ ?_
  intro y' x' hb
  exact grid.apart y x y' x' hy hx hb.1 hb.2.1 (before_ne hb).symm

theorem Stored.store (h : grid.Stored dst v y x buf) (hy : y < rows) (hx : x < columns) (hv : (v y x).length = k)
    (hout : storeAt buf (grid.place y x) (v y x) = some out) : grid.Stored dst v y (x + 1) out where
  length := (length_storeAt hout).trans h.length
  written y' x' hb := by
    rcases before_next hb with hb | heq
    · have hapart := grid.apart y' x' y x hb.1 hb.2.1 hy hx (before_ne hb)
      rw [loadAt_storeAt_apart hout (by rw [hv]; exact hapart)]
      exact h.written y' x' hb
    · obtain ⟨rfl, rfl⟩ := Prod.mk.inj heq
      exact loadAt_storeAt hout hv
  kept off hoff := by
    have hself := hoff y x ⟨hy, hx, by omega⟩
    rw [loadAt_storeAt_apart hout (by rw [hv]; exact hself)]
    refine h.kept off ?_
    intro y' x' hb
    exact hoff y' x' ⟨hb.1, hb.2.1, by have hlt := hb.2.2; omega⟩

end

/-- A loop that stores `v` at every place fails nowhere.  It may read the place that it stores at. -/
theorem gridLoop_stores {dst : Bytes} (hsize : dst.length = size) {v : Nat → Nat → Bytes}
    (hv : ∀ y x, y < rows → x < columns → (v y x).length = k) {body : Nat → Nat → Bytes → Option Bytes}
    (hbody : ∀ y x buf, y < rows → x < columns → buf.length = dst.length →
      loadAt buf (grid.place y x) k = loadAt dst (grid.place y x) k →
      body y x buf = storeAt buf (grid.place y x) (v y x)) :
    ∃ out, gridLoop rows columns body dst = some out ∧ grid.Stored dst v rows 0 out := by
  refine forLoop_total (fun y buf => grid.Stored dst v y 0 buf) (Stored.zero grid dst v) ?_
  intro y buf hy hbuf
  have hrow : ∃ out, forLoop columns (body y) buf = some out ∧ grid.Stored dst v y columns out := by
    refine forLoop_total (fun x buf => grid.Stored dst v y x buf) hbuf ?_
    intro x buf hx hbuf
    obtain ⟨h0, hle⟩ := grid.inside y x hy hx
    have hin : grid.place y x + (v y x).length ≤ buf.length := by
      rw [hv y x hy hx, hbuf.length, hsize]
      exact hle
    obtain ⟨out, hout⟩ := storeAt_inside h0 hin
    rw [hbody y x buf hy hx hbuf.length (hbuf.next grid hy hx)]
    exact ⟨out, hout, hbuf.store grid hy hx (hv y x hy hx) hout⟩
  obtain ⟨out, hout, hI⟩ := hrow
  exact ⟨out, hout, hI.row grid⟩

section
variable {dst first : Bytes}

/-- nothing has happened, or the first place has been written -/
def HasFirst (dst first : Bytes) (y x : Nat) (buf : Bytes) : Prop :=
  (y = 0 ∧ x = 0 → buf = dst) ∧ (¬ (y = 0 ∧ x = 0) → loadAt buf (grid.place 0 0) k = some first)

/-- What is stored in the first turn is still there at the end, if every turn stores at its own place. -/
theorem gridLoop_first {out : Bytes} {body : Nat → Nat → Bytes → Option Bytes}
    (hbody : ∀ y x buf buf', y < rows → x < columns → body y x buf = some buf' →
      ∃ w, w.length = k ∧ storeAt buf (grid.place y x) w = some buf')
    (hfirst : ∀ buf', body 0 0 dst = some buf' → storeAt dst (grid.place 0 0) first = some buf') (hlength : first.length = k)
    (hrows : 0 < rows) (hcolumns : 0 < columns) (hloop : gridLoop rows columns body dst = some out) :
    loadAt out (grid.place 0 0) k = some first := by
  have hturn : ∀ y x buf buf', y < rows → x < columns → grid.HasFirst dst first y x buf → body y x buf = some buf' →
      grid.HasFirst dst first y (x + 1) buf' := by
    intro y x buf buf' hy hx ⟨hzero, hstored⟩ hb
    refine ⟨fun h => absurd h.2 (by omega), fun _ => ?_⟩
    by_cases h : y = 0 ∧ x = 0
    · obtain ⟨rfl, rfl⟩ := h
      rw [hzero ⟨rfl, rfl⟩] at hb
      exact loadAt_storeAt (hfirst buf' hb) hlength
    · obtain ⟨w, hw, hstore⟩ := hbody y x buf buf' hy hx hb
      have hne : ((0 : Nat), (0 : Nat)) ≠ (y, x) := by
        intro heq
        obtain ⟨rfl, rfl⟩ := Prod.mk.inj heq
        exact h ⟨rfl, rfl⟩
      have hapart := grid.apart 0 0 y x hrows hcolumns hy hx hne
      rw [loadAt_storeAt_apart hstore (by rw [hw]; exact hapart), hstored h]
  have hend : grid.HasFirst dst first rows 0 out := by
    refine forLoop_kept (fun y buf => grid.HasFirst dst first y 0 buf) ⟨fun _ => rfl, fun h => absurd ⟨rfl, rfl⟩ h⟩ ?_ hloop
    intro y buf buf' hy hbuf hrow
    obtain ⟨-, hstored⟩ := forLoop_kept (fun x buf => grid.HasFirst dst first y x buf) hbuf
      (fun x s t hx => hturn y x s t hy hx) hrow
    exact ⟨fun h => absurd h.1 (by omega), fun _ => hstored (by omega)⟩
  exact hend.2 (by omega)

end

end Grid

end Loops
