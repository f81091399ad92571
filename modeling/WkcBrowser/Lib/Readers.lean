import Mathlib.Data.List.Infix

/-!
# Readers and what they read

A language says which words denote which values; a reader takes a word off the front of its input.

* `Sound`          what is read off an input is a word, and the rest is what stands behind it;
* `Covers`         if the input begins with a word, no less is read, and the same value if no more;
* `Longest`        the longest word that the input begins with;
* `longest_iff`    a sound reader that covers its language reads the longest word;
* `reads_iff`      and reads anything exactly if the input begins with a word.
-/

namespace Readers
variable {σ α : Type*}

abbrev Lang (σ α : Type*) : Type _ := List σ → α → Prop

abbrev Reader (σ α : Type*) : Type _ := List σ → Option (α × List σ)

def Sound (g : Lang σ α) (r : Reader σ α) (s : List σ) : Prop := ∀ a t, r s = some (a, t) → ∃ p, s = p ++ t ∧ g p a

def Covers (g : Lang σ α) (r : Reader σ α) : Prop :=
  ∀ p a t, g p a → ∃ q b u, r (p ++ t) = some (b, u) ∧ t = q ++ u ∧ (q = [] → b = a)

/-- `a` is what the longest word in front of `s` denotes, and `t` is what stands behind it -/
def Longest (g : Lang σ α) (s : List σ) (a : α) (t : List σ) : Prop :=
  ∃ p, s = p ++ t ∧ g p a ∧ ∀ p' a', p' <+: s → g p' a' → p'.length ≤ p.length

section
variable {g : Lang σ α} {r : Reader σ α} {s t : List σ} {a : α}

theorem longest_iff (hs : Sound g r s) (hc : Covers g r) : r s = some (a, t) ↔ Longest g s a t := by
  constructor
  · intro h
    obtain ⟨p, rfl, hp⟩ := hs a t h
    refine ⟨p, rfl, hp, ?_⟩
    rintro p' a' ⟨t', ht'⟩ hp'
    obtain ⟨q, b, u, hr, rfl, _⟩ := hc p' a' t' hp'
    rw [ht', h] at hr
    obtain ⟨-, rfl⟩ := Prod.mk.inj (Option.some.inj hr)
    have hlength := congrArg List.length ht'
    simp only [List.length_append] at hlength
    omega
  · rintro ⟨p, rfl, hp, hlongest⟩
    obtain ⟨q, b, u, hr, rfl, hsame⟩ := hc p a t hp
    obtain ⟨p', hp', hg⟩ := hs b u hr
    have hle := hlongest p' b ⟨u, hp'.symm⟩ hg
    have hlength := congrArg List.length hp'
    simp only [List.length_append] at hlength
    obtain rfl : q = [] := List.eq_nil_of_length_eq_zero (by omega)
    rw [hr, hsame rfl]
    rfl

theorem reads_iff (hs : Sound g r s) (hc : Covers g r) : (r s).isSome ↔ ∃ p a, p <+: s ∧ g p a := by
  constructor
  · intro h
    obtain ⟨⟨a, t⟩, hr⟩ := Option.isSome_iff_exists.mp h
    obtain ⟨p, rfl, hp⟩ := hs a t hr
    exact ⟨p, a, ⟨t, rfl⟩, hp⟩
  · rintro ⟨p, a, ⟨t, rfl⟩, hp⟩
    obtain ⟨q, b, u, hr, -, -⟩ := hc p a t hp
    rw [hr]
    rfl

end

end Readers
