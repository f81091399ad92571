import Mathlib.Data.List.Basic
import Mathlib.Algebra.Order.Group.Nat
import Mathlib.Tactic.Ring

/-!
# A sequence in segments of one size, the last one not full

A cell holds a value, or nothing that was ever written.

* `Holds k segs xs`    the segments, of `k` cells each, hold `xs` from their start;
* `place seg off ys`   write `ys` into a segment;
* `Holds.append_new`   one more segment, when the others are full;
* `Holds.place_last`   more in the last one;
* `Holds.piece`        what is read in one segment.
-/

namespace Segments

variable {α : Type*} {k : Nat}

structure Holds (k : Nat) (segs : List (List (Option α))) (xs : List α) : Prop where
  width : ∀ seg ∈ segs, seg.length = k
  flat : segs.flatten.take xs.length = xs.map some
  least : segs.length * k < xs.length + k
  enough : xs.length ≤ segs.length * k

def place (seg : List (Option α)) (off : Nat) (ys : List (Option α)) : List (Option α) :=
  seg.take off ++ ys ++ seg.drop (off + ys.length)

theorem length_place {seg ys : List (Option α)} {off : Nat} (h : off + ys.length ≤ seg.length) :
    (place seg off ys).length = seg.length := by
  simp only [place, List.length_append, List.length_take, List.length_drop]
  omega

theorem take_place {seg ys : List (Option α)} {off : Nat} (h : off ≤ seg.length) :
    (place seg off ys).take (off + ys.length) = seg.take off ++ ys := by
  have hlen : (seg.take off ++ ys).length = off + ys.length := by
    rw [List.length_append, List.length_take]
    omega
  rw [place, ← hlen, List.take_left]

theorem length_flatten {segs : List (List (Option α))} (h : ∀ seg ∈ segs, seg.length = k) :
    segs.flatten.length = segs.length * k := by
  induction segs with
  | nil => simp
  | cons seg segs ih =>
    have hseg := h seg List.mem_cons_self
    have hsegs := ih (fun s hs => h s (List.mem_cons_of_mem seg hs))
    rw [List.flatten_cons, List.length_append, hseg, hsegs, List.length_cons]
    ring

section
variable {segs : List (List (Option α))} {xs ys : List α}

theorem Holds.nil (hk : 0 < k) : Holds k ([] : List (List (Option α))) [] :=
  ⟨by simp, rfl, by simpa using hk, by simp⟩

theorem Holds.full (h : Holds k segs xs) (hfull : xs.length % k = 0) : segs.length * k = xs.length := by
  obtain ⟨q, hq⟩ := Nat.dvd_of_mod_eq_zero hfull
  have hleast := h.least
  have henough := h.enough
  rw [hq] at hleast henough ⊢
  have hkpos : 0 < k := by
    by_contra hzero
    have hk : k = 0 := by omega
    simp [hk] at hleast
  have hlt : segs.length < q + 1 := by
    apply Nat.lt_of_mul_lt_mul_right (a := k)
    calc segs.length * k < k * q + k := hleast
      _ = (q + 1) * k := by ring
  have hge : q ≤ segs.length := by
    apply Nat.le_of_mul_le_mul_right _ hkpos
    calc q * k = k * q := Nat.mul_comm q k
      _ ≤ segs.length * k := henough
  rw [show segs.length = q by omega]
  ring

theorem Holds.flatten_eq (h : Holds k segs xs) (hfull : segs.length * k = xs.length) :
    segs.flatten = xs.map some := by
  rw [← h.flat, ← hfull, ← length_flatten h.width, List.take_length]

theorem Holds.append_new (h : Holds k segs xs) (hfull : segs.length * k = xs.length) {seg : List (Option α)}
    (hseg : seg.length = k) (hys : seg.take ys.length = ys.map some) (hpos : 0 < ys.length) (hle : ys.length ≤ k) :
    Holds k (segs ++ [seg]) (xs ++ ys) where
  width s hs := by
    rcases List.mem_append.mp hs with hs | hs
    · exact h.width s hs
    · rw [List.mem_singleton.mp hs]
      exact hseg
  flat := by
    have hlen : (xs ++ ys).length = segs.flatten.length + ys.length := by
      rw [List.length_append, length_flatten h.width, hfull]
    rw [List.flatten_append, List.flatten_singleton, hlen, List.take_length_add_append, hys, h.flatten_eq hfull,
      List.map_append]
  least := by
    simp only [List.length_append, List.length_singleton, Nat.add_mul, Nat.one_mul]
    omega
  enough := by
    simp only [List.length_append, List.length_singleton, Nat.add_mul, Nat.one_mul]
    omega

theorem Holds.length_eq {last : List (Option α)} (h : Holds k (segs ++ [last]) xs) (hp : xs.length % k ≠ 0) :
    xs.length = segs.length * k + xs.length % k := by
  have hleast := h.least
  have henough := h.enough
  rw [List.length_append, List.length_singleton, Nat.add_mul, Nat.one_mul] at hleast henough
  have hsplit := Nat.div_add_mod xs.length k
  have hkpos : 0 < k := by
    by_contra hzero
    have hk : k = 0 := by omega
    rw [hk, Nat.mul_zero] at hleast henough
    omega
  rw [Nat.mul_comm] at hsplit
  have hge : segs.length ≤ xs.length / k := by
    rw [Nat.le_div_iff_mul_le hkpos]
    omega
  have hle : xs.length / k < segs.length + 1 := by
    rw [Nat.div_lt_iff_lt_mul hkpos, Nat.add_mul, Nat.one_mul]
    apply Nat.lt_of_le_of_ne henough
    intro heq
    rw [heq, ← Nat.succ_mul, Nat.mul_mod_left] at hp
    exact hp rfl
  rw [show xs.length / k = segs.length by omega] at hsplit
  exact hsplit.symm

theorem Holds.place_last {last : List (Option α)} (h : Holds k (segs ++ [last]) xs) {p : Nat}
    (hp : xs.length = segs.length * k + p) (hpos : 0 < p) (hle : p + ys.length ≤ k) :
    Holds k (segs ++ [place last p (ys.map some)]) (xs ++ ys) := by
  have hlast : last.length = k := h.width last (by simp)
  have hwidth : ∀ seg ∈ segs, seg.length = k := fun seg hseg => h.width seg (List.mem_append_left _ hseg)
  have hplaced : (place last p (ys.map some)).length = k := by
    rw [length_place (by rw [List.length_map]; omega), hlast]
  have hflat := h.flat
  rw [hp, List.flatten_append, List.flatten_singleton, ← length_flatten hwidth, List.take_length_add_append] at hflat
  have htake : (place last p (ys.map some)).take (p + ys.length) = last.take p ++ ys.map some := by
    have hput : (place last p (ys.map some)).take (p + (ys.map some).length) = last.take p ++ ys.map some :=
      take_place (by omega)
    rwa [List.length_map] at hput
  have hcount : (segs ++ [place last p (ys.map some)]).length * k = segs.length * k + k := by
    rw [List.length_append, List.length_singleton]
    ring
  refine ⟨?_, ?_, ?_, ?_⟩
  · intro seg hseg
    rcases List.mem_append.mp hseg with hseg | hseg
    · exact hwidth seg hseg
    · rw [List.mem_singleton.mp hseg]
      exact hplaced
  · rw [List.length_append, hp, Nat.add_assoc, List.flatten_append, List.flatten_singleton, ← length_flatten hwidth,
      List.take_length_add_append, htake, ← List.append_assoc, hflat, List.map_append]
  · rw [hcount, List.length_append]
    omega
  · rw [hcount, List.length_append]
    omega

theorem getElem_segment (h : ∀ seg ∈ segs, seg.length = k) {i : Nat} (hi : i < segs.length) :
    segs[i] = (segs.flatten.drop (i * k)).take k := by
  induction segs generalizing i with
  | nil => exact absurd hi (Nat.not_lt_zero i)
  | cons seg segs ih =>
    have hseg := h seg List.mem_cons_self
    cases i with
    | zero => simp [← hseg]
    | succ i =>
      have hmul : (i + 1) * k = seg.length + i * k := by
        rw [hseg]
        ring
      rw [List.getElem_cons_succ, ih (fun s hs => h s (List.mem_cons_of_mem seg hs)), List.flatten_cons, hmul,
        List.drop_length_add_append]

theorem Holds.piece (h : Holds k segs xs) {p n : Nat} (hi : p / k < segs.length) (hn : p % k + n ≤ k)
    (hend : p + n ≤ xs.length) : (segs[p / k].drop (p % k)).take n = ((xs.drop p).take n).map some := by
  have hp : p / k * k + p % k = p := by
    rw [Nat.mul_comm]
    exact Nat.div_add_mod p k
  rw [getElem_segment h.width hi, List.drop_take, List.drop_drop, hp, List.take_take, Nat.min_eq_left (by omega),
    List.map_take, List.map_drop, ← h.flat, List.drop_take, List.take_take, Nat.min_eq_left (by omega)]

end

end Segments
