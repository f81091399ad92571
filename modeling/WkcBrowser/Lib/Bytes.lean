import Mathlib.Data.List.Basic
import Mathlib.Algebra.Order.Group.Nat
import Mathlib.Tactic.Ring

/-!
# Byte buffers: little-endian words, checked stores and loads, alignment

* `toLE w n`, `ofLE`     the `w` low bytes of `n`, least significant first, and back;
* `store buf off bs`     write `bs` at `off`; `none` if a byte would fall outside;
* `load buf off n`       read `n` bytes at `off`; `none` if one lies outside;
* `storeAt`, `loadAt`    the same through a pointer, which may also point before the buffer;
* `roundUp n k`          the least multiple of `k` that is at least `n`;
* `asInt32 n`, `minus`   an unsigned size as a signed number of 32 bits, and the difference of two.

`store_zeros` is the rule for a writer that fills a zeroed buffer from the left, `store_inside` the one for a store
anywhere; `load_inside` and `load_front` are those for a reader.
-/

abbrev Bytes := List UInt8

namespace Buf

/-! ## little-endian words -/

def toLE : Nat → Nat → Bytes
  | 0, _ => []
  | w + 1, n => UInt8.ofNat n :: toLE w (n / 256)

def ofLE : Bytes → Nat
  | [] => 0
  | b :: bs => b.toNat + 256 * ofLE bs

@[simp] theorem toLE_length (w n : Nat) : (toLE w n).length = w := by
  induction w generalizing n with
  | zero => rfl
  | succ w ih => rw [toLE, List.length_cons, ih]

theorem ofLE_toLE (w n : Nat) : ofLE (toLE w n) = n % 256 ^ w := by
  induction w generalizing n with
  | zero => simp [toLE, ofLE, Nat.mod_one]
  | succ w ih =>
    show (UInt8.ofNat n).toNat + 256 * ofLE (toLE w (n / 256)) = _
    rw [ih, UInt8.toNat_ofNat', pow_succ 256 w, Nat.mul_comm (256 ^ w) 256, Nat.mod_mul]

theorem ofLE_lt (bs : Bytes) : ofLE bs < 256 ^ bs.length := by
  induction bs with
  | nil => simp [ofLE]
  | cons b bs ih =>
    have hb : b.toNat < 256 := b.toNat_lt_size
    rw [ofLE, List.length_cons, pow_succ]
    omega

theorem toLE_ofLE (bs : Bytes) : toLE bs.length (ofLE bs) = bs := by
  induction bs with
  | nil => rfl
  | cons b bs ih =>
    have hb : b.toNat < 256 := b.toNat_lt_size
    have hdiv : (b.toNat + 256 * ofLE bs) / 256 = ofLE bs := by omega
    show UInt8.ofNat (b.toNat + 256 * ofLE bs) :: toLE bs.length ((b.toNat + 256 * ofLE bs) / 256) = _
    rw [hdiv, ih]
    congr 1
    apply UInt8.toNat_inj.mp
    rw [UInt8.toNat_ofNat']
    omega

/-! ## checked memory -/

def store (buf : Bytes) (off : Nat) (bs : Bytes) : Option Bytes :=
  if off + bs.length ≤ buf.length then
    some (buf.take off ++ bs ++ buf.drop (off + bs.length))
  else none

def load (buf : Bytes) (off n : Nat) : Option Bytes :=
  if off + n ≤ buf.length then some ((buf.drop off).take n) else none

def zeros (n : Nat) : Bytes := List.replicate n 0

@[simp] theorem zeros_length (n : Nat) : (zeros n).length = n := List.length_replicate

theorem zeros_add (m n : Nat) : zeros (m + n) = zeros m ++ zeros n := List.replicate_add ..

theorem store_zeros (pre bs : Bytes) (n : Nat) :
    store (pre ++ zeros (bs.length + n)) pre.length bs = some (pre ++ bs ++ zeros n) := by
  have hlen : pre.length + bs.length ≤ (pre ++ zeros (bs.length + n)).length := by
    rw [List.length_append, zeros_length]; omega
  rw [store, if_pos hlen, List.take_left, zeros_add, ← List.append_assoc,
    List.drop_left' (by rw [List.length_append, zeros_length])]

theorem store_within {buf bs out : Bytes} {off : Nat} (h : store buf off bs = some out) :
    off + bs.length ≤ buf.length := by
  unfold store at h
  split at h
  · next hle => exact hle
  · cases h

theorem store_inside {buf bs : Bytes} {off : Nat} (h : off + bs.length ≤ buf.length) :
    ∃ out, store buf off bs = some out ∧ out.length = buf.length ∧
      out.take (off + bs.length) = buf.take off ++ bs := by
  have hoff : (buf.take off ++ bs).length = off + bs.length := by
    rw [List.length_append, List.length_take]
    omega
  refine ⟨_, if_pos h, ?_, ?_⟩
  · rw [List.length_append, hoff, List.length_drop]
    omega
  · rw [← hoff, List.take_left]

theorem length_store {buf bs out : Bytes} {off : Nat} (h : store buf off bs = some out) : out.length = buf.length := by
  obtain ⟨out', hout', hlength, _⟩ := store_inside (store_within h)
  rw [Option.some.inj (h.symm.trans hout'), hlength]

theorem load_within {buf bs : Bytes} {off n : Nat} (h : load buf off n = some bs) : off + n ≤ buf.length := by
  unfold load at h
  split at h
  · next hle => exact hle
  · cases h

theorem load_inside {buf : Bytes} {off n : Nat} (h : off + n ≤ buf.length) : ∃ bs, load buf off n = some bs :=
  ⟨_, if_pos h⟩

theorem load_front {front buf : Bytes} (h : front <+: buf) {off n : Nat} (hin : off + n ≤ front.length) :
    load front off n = load buf off n := by
  obtain ⟨rest, rfl⟩ := h
  rw [load, load, if_pos hin, if_pos (by rw [List.length_append]; omega), List.drop_append_of_le_length (by omega),
    List.take_append_of_le_length (by rw [List.length_drop]; omega)]

theorem getElem?_store {buf bs out : Bytes} {off : Nat} (h : store buf off bs = some out) (i : Nat) :
    out[i]? = if off ≤ i ∧ i < off + bs.length then bs[i - off]? else buf[i]? := by
  have hwithin := store_within h
  rw [store, if_pos hwithin, Option.some.injEq] at h
  subst h
  rw [List.append_assoc, List.getElem?_append, List.getElem?_append, List.length_take, Nat.min_eq_left (by omega),
    List.getElem?_take, List.getElem?_drop]
  by_cases hi : i < off
  · rw [if_pos hi, if_pos hi, if_neg (by omega)]
  · rw [if_neg hi]
    by_cases hin : i - off < bs.length
    · rw [if_pos hin, if_pos (by omega)]
    · rw [if_neg hin, if_neg (by omega)]
      congr 1
      omega

theorem load_congr {buf out : Bytes} {off n : Nat} (hlength : out.length = buf.length)
    (h : ∀ i < n, out[off + i]? = buf[off + i]?) : load out off n = load buf off n := by
  unfold load
  rw [hlength]
  split
  · congr 1
    apply List.ext_getElem?
    intro i
    rw [List.getElem?_take, List.getElem?_take, List.getElem?_drop, List.getElem?_drop]
    split
    · next hi => exact h i hi
    · rfl
  · rfl

theorem load_store {buf bs out : Bytes} {off : Nat} (h : store buf off bs = some out) :
    load out off bs.length = some bs := by
  have hwithin := store_within h
  rw [load, if_pos (by rw [length_store h]; exact hwithin)]
  congr 1
  apply List.ext_getElem?
  intro i
  rw [List.getElem?_take, List.getElem?_drop, getElem?_store h]
  split
  · next hi => rw [if_pos (by omega), Nat.add_sub_cancel_left]
  · next hi => rw [List.getElem?_eq_none (by omega)]

theorem load_store_apart {buf bs out : Bytes} {off : Nat} (h : store buf off bs = some out) {off' n : Nat}
    (hapart : off' + n ≤ off ∨ off + bs.length ≤ off') : load out off' n = load buf off' n := by
  refine load_congr (length_store h) ?_
  intro i hi
  rw [getElem?_store h, if_neg (by omega)]

/-! ## through pointers -/

def storeAt (buf : Bytes) (off : Int) (bs : Bytes) : Option Bytes := if 0 ≤ off then store buf off.toNat bs else none

def loadAt (buf : Bytes) (off : Int) (n : Nat) : Option Bytes := if 0 ≤ off then load buf off.toNat n else none

theorem loadAt_inside {buf : Bytes} {off : Int} {n : Nat} (hoff : 0 ≤ off) (h : off + n ≤ buf.length) :
    ∃ bs, loadAt buf off n = some bs ∧ bs.length = n := by
  rw [loadAt, if_pos hoff, load, if_pos (by omega)]
  exact ⟨_, rfl, by rw [List.length_take, List.length_drop]; omega⟩

theorem loadAt_within {buf bs : Bytes} {off : Int} {n : Nat} (h : loadAt buf off n = some bs) :
    0 ≤ off ∧ off + n ≤ buf.length := by
  unfold loadAt at h
  split at h
  · next hoff =>
    have hle := load_within h
    omega
  · cases h

theorem storeAt_inside {buf bs : Bytes} {off : Int} (hoff : 0 ≤ off) (h : off + bs.length ≤ buf.length) :
    ∃ out, storeAt buf off bs = some out := by
  have hin : off.toNat + bs.length ≤ buf.length := by omega
  obtain ⟨out, hout, -⟩ := store_inside hin
  exact ⟨out, (if_pos hoff).trans hout⟩

theorem storeAt_store {buf bs out : Bytes} {off : Int} (h : storeAt buf off bs = some out) :
    0 ≤ off ∧ store buf off.toNat bs = some out := by
  unfold storeAt at h
  split at h
  · next hoff => exact ⟨hoff, h⟩
  · cases h

theorem length_storeAt {buf bs out : Bytes} {off : Int} (h : storeAt buf off bs = some out) :
    out.length = buf.length := length_store (storeAt_store h).2

theorem loadAt_storeAt {buf bs out : Bytes} {off : Int} (h : storeAt buf off bs = some out) {n : Nat}
    (hn : bs.length = n) : loadAt out off n = some bs := by
  obtain ⟨hoff, hstore⟩ := storeAt_store h
  rw [loadAt, if_pos hoff, ← hn, load_store hstore]

theorem loadAt_storeAt_apart {buf bs out : Bytes} {off : Int} (h : storeAt buf off bs = some out) {off' : Int} {n : Nat}
    (hapart : off' + n ≤ off ∨ off + bs.length ≤ off') : loadAt out off' n = loadAt buf off' n := by
  obtain ⟨hoff, hstore⟩ := storeAt_store h
  unfold loadAt
  split
  · exact load_store_apart hstore (by omega)
  · rfl

theorem loadAt_zeros {size : Nat} {off : Int} {n : Nat} (hoff : 0 ≤ off) (h : off + n ≤ size) :
    loadAt (zeros size) off n = some (zeros n) := by
  rw [loadAt, if_pos hoff, load, if_pos (by rw [zeros_length]; omega), zeros, List.drop_replicate, List.take_replicate,
    Nat.min_eq_left (by omega)]
  rfl

/-! ## alignment -/

def roundUp (n k : Nat) : Nat := (n + (k - 1)) / k * k

theorem roundUp_four_mod (n : Nat) : roundUp n 4 % 4 = 0 := by unfold roundUp; omega
theorem le_roundUp_four (n : Nat) : n ≤ roundUp n 4 := by unfold roundUp; omega
theorem roundUp_four_lt (n : Nat) : roundUp n 4 < n + 4 := by unfold roundUp; omega
theorem roundUp_four_add (n : Nat) : roundUp (n + 4) 4 = roundUp n 4 + 4 := by unfold roundUp; omega
theorem roundUp_four_eq {n : Nat} (h : n % 4 = 0) : roundUp n 4 = n := by unfold roundUp; omega

/-! ## sizes as signed numbers -/

def asInt32 (n : Nat) : Int := (BitVec.ofNat 32 n).toInt

theorem asInt32_le (n : Nat) : asInt32 n ≤ n := by
  have hcond := BitVec.toInt_eq_toNat_cond (BitVec.ofNat 32 n)
  have hmod := Nat.mod_le n (2 ^ 32)
  rw [BitVec.toNat_ofNat] at hcond
  unfold asInt32
  split at hcond <;> omega

theorem asInt32_eq {n : Nat} (h : n < 2 ^ 31) : asInt32 n = n := by
  have hcond := BitVec.toInt_eq_toNat_cond (BitVec.ofNat 32 n)
  rw [BitVec.toNat_ofNat, Nat.mod_eq_of_lt (by omega), if_pos (by omega)] at hcond
  exact hcond

theorem asInt32_eq_of_lt {n : Nat} (h : n < 2 ^ 32) : asInt32 n = if n < 2 ^ 31 then (n : Int) else n - 2 ^ 32 := by
  have hcond := BitVec.toInt_eq_toNat_cond (BitVec.ofNat 32 n)
  rw [BitVec.toNat_ofNat, Nat.mod_eq_of_lt h] at hcond
  unfold asInt32
  split at hcond <;> split <;> omega

/-- subtraction of `unsigned` -/
def minus (a b : Nat) : Nat := (a + (2 ^ 32 - b)) % 2 ^ 32

theorem minus_eq {a b : Nat} (hb : b ≤ a) (ha : a < 2 ^ 32) : minus a b = a - b := by
  unfold minus
  omega

end Buf
