import Mathlib.Algebra.BigOperators.Group.Finset.Basic
import Mathlib.Algebra.Order.BigOperators.Group.Finset
import Mathlib.Data.Int.GCD
import Mathlib.Data.Nat.Prime.Basic
import Mathlib.Data.Set.Card

/-!
# Open addressing

The buckets below `n` are empty, deleted or full; a value with the key `x` is put along the sequence of
positions `p x 0`, `p x 1`, ...

* `Covers`                 the sequence of every key meets every bucket;
* `Stops`                  where a search for a key ends: at a value with that key, or at an empty bucket;
* `Sound`                  every value is met by the search for its key, and no key is there twice;
* `Stops.full_iff`         the search finds exactly what is there;
* `Sound.insert`, `Sound.delete`   putting a value where the search allows it, and taking one out;
* `total`                  counting buckets;
* `stride_covers`          an odd stride in a table whose size is a power of two.
-/

namespace OpenAddressing
open Function

inductive Bucket (V : Type*)
  | empty
  | deleted
  | full (v : V)

section
variable {K V : Type*} (key : V → K) (p : K → Nat → Nat) (n : Nat)

def Covers (p : K → Nat → Nat) (n : Nat) : Prop := ∀ x, (∀ j, p x j < n) ∧ ∀ b, b < n → ∃ j, j < n ∧ p x j = b

/-- the search for `x` goes on at this bucket -/
def Passes (x : K) : Bucket V → Prop
  | .empty => False
  | .deleted => True
  | .full v => key v ≠ x

/-- it goes on until `J`, and not from there -/
structure Stops (t : Nat → Bucket V) (x : K) (J : Nat) : Prop where
  passes : ∀ j, j < J → Passes key x (t (p x j))
  stops : ¬ Passes key x (t (p x J))

structure Sound (t : Nat → Bucket V) : Prop where
  reach : ∀ b, b < n → ∀ v, t b = .full v → ∃ j, p (key v) j = b ∧ ∀ i, i < j → t (p (key v) i) ≠ .empty
  unique : ∀ b b', b < n → b' < n → ∀ v v', t b = .full v → t b' = .full v' → key v = key v' → b = b'

/-- what the buckets hold -/
def Holds (t : Nat → Bucket V) (v : V) : Prop := ∃ b, b < n ∧ t b = .full v

variable {key p n}

theorem sound_empty : Sound key p n (fun _ => .empty) where
  reach _ _ _ h := absurd h nofun
  unique _ _ _ _ _ _ h := absurd h nofun

variable (key) in
theorem stops_exists (hcov : Covers p n) {t : Nat → Bucket V} (hempty : ∃ b, b < n ∧ t b = .empty) (x : K) :
    ∃ J, J < n ∧ Stops key p t x J := by
  obtain ⟨b, hb, hbe⟩ := hempty
  obtain ⟨j, hj, hpj⟩ := (hcov x).2 b hb
  have hex : ∃ j, ¬ Passes key x (t (p x j)) := by
    refine ⟨j, ?_⟩
    rw [hpj, hbe]
    exact id
  classical
  refine ⟨Nat.find hex, ?_, fun i hi => not_not.mp (Nat.find_min hex hi), Nat.find_spec hex⟩
  refine lt_of_le_of_lt (Nat.find_min' hex ?_) hj
  rw [hpj, hbe]
  exact id

theorem not_passes {x : K} {c : Bucket V} (h : ¬ Passes key x c) : c = .empty ∨ ∃ v, c = .full v ∧ key v = x := by
  cases c with
  | empty => exact Or.inl rfl
  | deleted => exact absurd trivial h
  | full v => exact Or.inr ⟨v, rfl, not_not.mp h⟩

theorem Passes.ne_empty {x : K} {c : Bucket V} (h : Passes key x c) : c ≠ .empty := by
  rintro rfl
  exact h

section
variable {t : Nat → Bucket V} {x : K} {J : Nat}

theorem Stops.at_full (h : Stops key p t x J) (hs : Sound key p n t) (hcov : Covers p n) {b : Nat} (hb : b < n) {v : V}
    (hv : t b = .full v) (hx : key v = x) : p x J = b := by
  obtain ⟨j, hj, hbefore⟩ := hs.reach b hb v hv
  rw [hx] at hj hbefore
  have hle : J ≤ j := by
    by_contra hlt
    have hpass := h.passes j (by omega)
    rw [hj, hv] at hpass
    exact hpass hx
  rcases Nat.lt_or_eq_of_le hle with hlt | rfl
  · rcases not_passes h.stops with he | ⟨v', hv', hx'⟩
    · exact absurd he (hbefore J hlt)
    · exact hs.unique _ _ ((hcov x).1 J) hb v' v hv' hv (hx'.trans hx.symm)
  · exact hj

theorem Stops.full_iff (h : Stops key p t x J) (hs : Sound key p n t) (hcov : Covers p n) {v : V} :
    t (p x J) = .full v ↔ Holds n t v ∧ key v = x := by
  constructor
  · intro hv
    refine ⟨⟨_, (hcov x).1 J, hv⟩, ?_⟩
    rcases not_passes h.stops with he | ⟨v', hv', hx'⟩
    · rw [he] at hv
      exact absurd hv nofun
    · rw [hv'] at hv
      cases hv
      exact hx'
  · rintro ⟨⟨b, hb, hv⟩, hx⟩
    rw [h.at_full hs hcov hb hv hx]
    exact hv

theorem Stops.empty_iff (h : Stops key p t x J) (hs : Sound key p n t) (hcov : Covers p n) :
    t (p x J) = .empty ↔ ∀ v, Holds n t v → key v ≠ x := by
  constructor
  · intro he v hv hx
    rw [(h.full_iff hs hcov).mpr ⟨hv, hx⟩] at he
    exact absurd he nofun
  · intro hnone
    rcases not_passes h.stops with he | ⟨v, hv, hx⟩
    · exact he
    · exact absurd hx (hnone v ⟨_, (hcov x).1 J, hv⟩)

theorem update_ne_empty {i : Nat} {c : Bucket V} (hc : c ≠ .empty) (b : Nat) (hb : t b ≠ .empty) :
    update t i c b ≠ .empty := by
  rw [update_apply]
  split
  · exact hc
  · exact hb

/-- a value may be put at the empty bucket where the search ends, or at any one before it -/
theorem Sound.insert (hs : Sound key p n t) (hcov : Covers p n) {v : V} (h : Stops key p t (key v) J)
    (he : t (p (key v) J) = .empty) {i : Nat} (hi : i ≤ J) : Sound key p n (update t (p (key v) i) (.full v)) := by
  have hnone := (h.empty_iff hs hcov).mp he
  have hkeep := update_ne_empty (t := t) (i := p (key v) i) (c := .full v) nofun
  constructor
  · intro b hb v' hv'
    rw [update_apply] at hv'
    split at hv'
    · rename_i hbi
      cases hv'
      exact ⟨i, hbi.symm, fun i' hi' => hkeep _ (h.passes i' (by omega)).ne_empty⟩
    · obtain ⟨j, hj, hbefore⟩ := hs.reach b hb v' hv'
      exact ⟨j, hj, fun i' hi' => hkeep _ (hbefore i' hi')⟩
  · intro b b' hb hb' v₁ v₂ h₁ h₂ hkey
    rw [update_apply] at h₁ h₂
    split at h₁ <;> split at h₂
    · rename_i h₁' h₂'
      rw [h₁', h₂']
    · cases h₁
      exact absurd hkey.symm (hnone v₂ ⟨b', hb', h₂⟩)
    · cases h₂
      exact absurd hkey (hnone v₁ ⟨b, hb, h₁⟩)
    · exact hs.unique b b' hb hb' v₁ v₂ h₁ h₂ hkey

theorem Sound.of_back {t' : Nat → Bucket V} (hs : Sound key p n t) (hkeep : ∀ b, t b ≠ .empty → t' b ≠ .empty)
    (hback : ∀ b w, t' b = .full w → ∃ w', t b = .full w' ∧ key w' = key w) : Sound key p n t' := by
  constructor
  · intro b hb w hw
    obtain ⟨w', hw', hk⟩ := hback b w hw
    obtain ⟨j, hj, hbefore⟩ := hs.reach b hb w' hw'
    rw [hk] at hj hbefore
    exact ⟨j, hj, fun i hi => hkeep _ (hbefore i hi)⟩
  · intro b₁ b₂ hb₁ hb₂ v₁ v₂ h₁ h₂ hk
    obtain ⟨w₁, hw₁, hk₁⟩ := hback b₁ v₁ h₁
    obtain ⟨w₂, hw₂, hk₂⟩ := hback b₂ v₂ h₂
    exact hs.unique b₁ b₂ hb₁ hb₂ w₁ w₂ hw₁ hw₂ (by rw [hk₁, hk₂, hk])

theorem Sound.delete (hs : Sound key p n t) (b : Nat) : Sound key p n (update t b .deleted) := by
  refine hs.of_back (update_ne_empty nofun) fun b' w hw => ?_
  rw [update_apply] at hw
  split at hw
  · exact absurd hw nofun
  · exact ⟨w, hw, rfl⟩

theorem Sound.replace (hs : Sound key p n t) {b : Nat} {v v' : V} (hv : t b = .full v) (hkey : key v' = key v) :
    Sound key p n (update t b (.full v')) := by
  refine hs.of_back (update_ne_empty nofun) fun b' w hw => ?_
  rw [update_apply] at hw
  split at hw
  · rename_i hb'
    cases hw
    exact ⟨v, hb' ▸ hv, hkey.symm⟩
  · exact ⟨w, hw, rfl⟩

/-! ## what the buckets hold -/

theorem holds_succ {v : V} : Holds (n + 1) t v ↔ Holds n t v ∨ t n = .full v := by
  constructor
  · rintro ⟨b, hb, hv⟩
    rcases Nat.lt_succ_iff_lt_or_eq.mp hb with hlt | rfl
    · exact Or.inl ⟨b, hlt, hv⟩
    · exact Or.inr hv
  · rintro (⟨b, hb, hv⟩ | hv)
    · exact ⟨b, Nat.lt_succ_of_lt hb, hv⟩
    · exact ⟨n, Nat.lt_succ_self n, hv⟩

theorem holds_succ_free (hfree : ∀ v, t n ≠ .full v) (v : V) : Holds (n + 1) t v ↔ Holds n t v := by
  rw [holds_succ]
  exact or_iff_left (hfree v)

theorem holds_succ_full {v : V} (hv : t n = .full v) (w : V) : Holds (n + 1) t w ↔ w = v ∨ Holds n t w := by
  rw [holds_succ, hv, or_comm, Bucket.full.injEq, eq_comm]

theorem holds_insert {b : Nat} (hb : b < n) (hfree : ∀ w, t b ≠ .full w) (v w : V) :
    Holds n (update t b (.full v)) w ↔ w = v ∨ Holds n t w := by
  constructor
  · rintro ⟨b', hb', hw⟩
    rw [update_apply] at hw
    split at hw
    · cases hw
      exact Or.inl rfl
    · exact Or.inr ⟨b', hb', hw⟩
  · rintro (rfl | ⟨b', hb', hw⟩)
    · exact ⟨b, hb, update_self ..⟩
    · refine ⟨b', hb', ?_⟩
      rw [update_of_ne]
      · exact hw
      · rintro rfl
        exact hfree w hw

theorem holds_update (hs : Sound key p n t) {b : Nat} (hb : b < n) {v : V} (hv : t b = .full v) (c : Bucket V) (w : V) :
    Holds n (update t b c) w ↔ c = .full w ∨ Holds n t w ∧ key w ≠ key v := by
  constructor
  · rintro ⟨b', hb', hw⟩
    rw [update_apply] at hw
    split at hw
    · exact Or.inl hw
    · rename_i hne
      exact Or.inr ⟨⟨b', hb', hw⟩, fun hkey => hne (hs.unique b' b hb' hb w v hw hv hkey)⟩
  · rintro (rfl | ⟨⟨b', hb', hw⟩, hkey⟩)
    · exact ⟨b, hb, update_self ..⟩
    · refine ⟨b', hb', ?_⟩
      rw [update_of_ne]
      · exact hw
      · rintro rfl
        rw [hv] at hw
        cases hw
        exact hkey rfl

theorem holds_delete (hs : Sound key p n t) {b : Nat} (hb : b < n) {v : V} (hv : t b = .full v) (w : V) :
    Holds n (update t b .deleted) w ↔ Holds n t w ∧ key w ≠ key v := by
  rw [holds_update hs hb hv]
  exact or_iff_right nofun

theorem holds_replace (hs : Sound key p n t) {b : Nat} (hb : b < n) {v v' : V} (hv : t b = .full v) (w : V) :
    Holds n (update t b (.full v')) w ↔ w = v' ∨ Holds n t w ∧ key w ≠ key v := by
  rw [holds_update hs hb hv, Bucket.full.injEq, eq_comm (a := w)]

end

/-! ## counting -/

def Bucket.fulls : Bucket V → Nat
  | .full _ => 1
  | _ => 0

def Bucket.deleteds : Bucket V → Nat
  | .deleted => 1
  | _ => 0

def total (w : Bucket V → Nat) (n : Nat) (t : Nat → Bucket V) : Nat := ∑ b ∈ Finset.range n, w (t b)

theorem total_update (w : Bucket V → Nat) {t : Nat → Bucket V} {b : Nat} (hb : b < n) (c : Bucket V) :
    total w n (update t b c) + w (t b) = total w n t + w c := by
  have hmem : b ∈ Finset.range n := Finset.mem_range.mpr hb
  have hcomp : (fun i => w (update t b c i)) = update (fun i => w (t i)) b (w c) := by
    funext i
    rw [update_apply, update_apply]
    split <;> rfl
  have h1 := Finset.sum_update_of_mem hmem (fun i => w (t i)) (w c)
  have h2 := Finset.sum_update_of_mem hmem (fun i => w (t i)) (w (t b))
  rw [update_eq_self] at h2
  unfold total
  rw [hcomp, h1, h2]
  omega

theorem total_succ (w : Bucket V → Nat) (n : Nat) (t : Nat → Bucket V) : total w (n + 1) t = total w n t + w (t n) :=
  Finset.sum_range_succ _ _

theorem total_mono (w : Bucket V → Nat) (t : Nat → Bucket V) {m n : Nat} (h : m ≤ n) : total w m t ≤ total w n t :=
  Finset.sum_le_sum_of_subset (Finset.range_subset_range.mpr h)

theorem total_empty (w : Bucket V → Nat) (hw : w .empty = 0) : total w n (fun _ => (.empty : Bucket V)) = 0 := by
  unfold total
  exact Finset.sum_eq_zero fun _ _ => hw

theorem exists_empty {t : Nat → Bucket V} (h : total Bucket.fulls n t + total Bucket.deleteds n t < n) :
    ∃ b, b < n ∧ t b = .empty := by
  by_contra hnone
  have hone : ∀ b, b ∈ Finset.range n → 1 ≤ (t b).fulls + (t b).deleteds := by
    intro b hb
    cases htb : t b with
    | empty => exact absurd ⟨b, Finset.mem_range.mp hb, htb⟩ hnone
    | deleted | full => exact le_refl _
  have hsum := Finset.sum_le_sum hone
  rw [Finset.sum_add_distrib, ← Finset.card_eq_sum_ones, Finset.card_range] at hsum
  unfold total at h
  omega

theorem stride_covers (m : Nat) (h k : K → Nat) (hk : ∀ x, k x % 2 = 1) :
    Covers (fun x j => (h x + j * k x) % 2 ^ m) (2 ^ m) := by
  intro x
  have hpos : 0 < 2 ^ m := Nat.two_pow_pos m
  refine ⟨fun j => Nat.mod_lt _ hpos, fun b hb => ?_⟩
  have hcoprime : Nat.Coprime (k x) (2 ^ m) :=
    Nat.Coprime.pow_right m (Nat.coprime_two_right.mpr (Nat.odd_iff.mpr (hk x)))
  rcases Nat.lt_or_ge 1 (2 ^ m) with h1 | h1
  · obtain ⟨u, -, hu⟩ := Nat.exists_mul_mod_eq_one_of_coprime hcoprime h1
    have hlt := Nat.mod_lt (h x) hpos
    refine ⟨((b + (2 ^ m - h x % 2 ^ m)) * u) % 2 ^ m, Nat.mod_lt _ hpos, ?_⟩
    have hstep : ((b + (2 ^ m - h x % 2 ^ m)) * u) % 2 ^ m * k x ≡ b + (2 ^ m - h x % 2 ^ m) [MOD 2 ^ m] := by
      calc ((b + (2 ^ m - h x % 2 ^ m)) * u) % 2 ^ m * k x
          ≡ (b + (2 ^ m - h x % 2 ^ m)) * u * k x [MOD 2 ^ m] := (Nat.mod_modEq _ _).mul_right _
        _ ≡ (b + (2 ^ m - h x % 2 ^ m)) * 1 [MOD 2 ^ m] := by
            rw [Nat.mul_assoc, Nat.mul_comm u]
            exact Nat.ModEq.mul_left _ (hu.trans (Nat.mod_eq_of_lt h1).symm)
        _ ≡ b + (2 ^ m - h x % 2 ^ m) [MOD 2 ^ m] := by rw [Nat.mul_one]
    have hsum : h x + ((b + (2 ^ m - h x % 2 ^ m)) * u) % 2 ^ m * k x ≡ b [MOD 2 ^ m] := by
      calc h x + ((b + (2 ^ m - h x % 2 ^ m)) * u) % 2 ^ m * k x
          ≡ h x % 2 ^ m + (b + (2 ^ m - h x % 2 ^ m)) [MOD 2 ^ m] := (Nat.mod_modEq _ _).symm.add hstep
        _ = b + 2 ^ m := by omega
        _ ≡ b [MOD 2 ^ m] := Nat.add_modEq_right
    exact Eq.trans hsum (Nat.mod_eq_of_lt hb)
  · have hm : 2 ^ m = 1 := by omega
    refine ⟨0, hpos, ?_⟩
    show (h x + 0 * k x) % 2 ^ m = b
    rw [hm, Nat.mod_one]
    omega

end
end OpenAddressing
