import WkcBrowser.Wtf.Text
import Mathlib.Data.List.Lex
import Mathlib.Data.Prod.Lex
import Mathlib.Algebra.Order.Ring.Int

/-!
# The collator

* `collate`            the comparison of the source;
* `key`, `keys`        what it compares a unit and a string by: the folded unit first, the unit itself after it;
* `collate_keys`       it is the lexicographic comparison of the keys;
* `collate_total`      and so a total order, for every folding function and both settings of the flag.
-/

namespace Wkc
namespace Collator

inductive Result where
  | Equal
  | Greater
  | Less
  deriving DecidableEq

/-- The units of a string, which are a block of less than `2 ^ 32` bytes. -/
@[ext]
structure Chars where
  units : WString
  length_lt : units.length < 2 ^ 31
  deriving DecidableEq

section
variable (m_lowerFirst : Bool) (wkcUnicodeFoldCasePeer : UInt16 → Int)

/-! ## the function of the source -/

/-- the first loop: what is left of the two strings, and `l` -/
def skip (lmin : Int) : WString → WString → Int → WString × WString × Int
  | lv :: lhs, rv :: rhs, l => if l < lmin ∧ lv = rv then skip lmin lhs rhs (l + 1) else (lv :: lhs, rv :: rhs, l)
  | lhs, rhs, l => (lhs, rhs, l)

def collateLengths (lhsLength rhsLength : Nat) : Result :=
  if lhsLength = rhsLength then .Equal else if lhsLength > rhsLength then .Greater else .Less

def collateUnits (lv rv : UInt16) : Result :=
  let lf := wkcUnicodeFoldCasePeer lv
  let rf := wkcUnicodeFoldCasePeer rv
  if lf = rf then
    if m_lowerFirst then if rv > lv then .Greater else .Less
    else if lv > rv then .Greater else .Less
  else if lf > rf then .Greater else .Less

/-- what comes behind the loop -/
def collateRest (lmin : Int) (lhsLength rhsLength : Nat) : WString × WString × Int → Result
  | (lv :: _, rv :: _, l) =>
    if l < lmin then collateUnits m_lowerFirst wkcUnicodeFoldCasePeer lv rv else collateLengths lhsLength rhsLength
  | _ => collateLengths lhsLength rhsLength

def collate (lhs rhs : Chars) : Result :=
  let lhsLength := lhs.units.length
  let rhsLength := rhs.units.length
  -- an `int` gets the smaller `size_t`
  let lmin := Buf.asInt32 (if lhsLength < rhsLength then lhsLength else rhsLength)
  collateRest m_lowerFirst wkcUnicodeFoldCasePeer lmin lhsLength rhsLength (skip lmin lhs.units rhs.units 0)

/-! ## the order -/

def key (c : UInt16) : ℤ ×ₗ ℤ :=
  toLex (wkcUnicodeFoldCasePeer c, if m_lowerFirst then -(c.toNat : ℤ) else c.toNat)

def keys (s : WString) : List (ℤ ×ₗ ℤ) := s.map (key m_lowerFirst wkcUnicodeFoldCasePeer)

variable {m_lowerFirst wkcUnicodeFoldCasePeer} {lv rv : UInt16} {lhs rhs : WString}

theorem key_injective : Function.Injective (key m_lowerFirst wkcUnicodeFoldCasePeer) := by
  intro a b h
  have hsecond := congrArg (fun k => (ofLex k).2) h
  apply UInt16.toNat_inj.mp
  cases m_lowerFirst with
  | false => exact Int.ofNat.inj hsecond
  | true => exact Int.ofNat.inj (Int.neg_inj.mp hsecond)

theorem keys_injective : Function.Injective (keys m_lowerFirst wkcUnicodeFoldCasePeer) :=
  List.map_injective_iff.mpr key_injective

/-- which of three answers goes with an order -/
inductive Agrees {β : Type*} [LT β] (a b : β) : Result → Prop
  | equal : a = b → Agrees a b .Equal
  | greater : b < a → Agrees a b .Greater
  | less : a < b → Agrees a b .Less

theorem collateUnits_key (hne : lv ≠ rv) :
    Agrees (key m_lowerFirst wkcUnicodeFoldCasePeer lv) (key m_lowerFirst wkcUnicodeFoldCasePeer rv)
      (collateUnits m_lowerFirst wkcUnicodeFoldCasePeer lv rv) := by
  have hne' : lv.toNat ≠ rv.toNat := fun h => hne (UInt16.toNat_inj.mp h)
  unfold collateUnits
  dsimp only
  split
  · next hfold =>
    -- the unit itself decides
    cases m_lowerFirst with
    | false =>
      rw [if_neg (by simp)]
      split
      · next hgt => exact .greater (Prod.Lex.toLex_lt_toLex.mpr (.inr ⟨hfold.symm, Int.ofNat_lt.mpr hgt⟩))
      · next hgt =>
        exact .less (Prod.Lex.toLex_lt_toLex.mpr (.inr ⟨hfold, Int.ofNat_lt.mpr (lt_of_le_of_ne (Nat.le_of_not_lt hgt) hne')⟩))
    | true =>
      rw [if_pos rfl]
      split
      · next hgt => exact .greater (Prod.Lex.toLex_lt_toLex.mpr (.inr ⟨hfold.symm, Int.neg_lt_neg (Int.ofNat_lt.mpr hgt)⟩))
      · next hgt =>
        refine .less (Prod.Lex.toLex_lt_toLex.mpr (.inr ⟨hfold, Int.neg_lt_neg (Int.ofNat_lt.mpr ?_)⟩))
        exact lt_of_le_of_ne (Nat.le_of_not_lt hgt) (Ne.symm hne')
  · next hfold =>
    split
    · next hgt => exact .greater (Prod.Lex.toLex_lt_toLex.mpr (.inl hgt))
    · next hgt => exact .less (Prod.Lex.toLex_lt_toLex.mpr (.inl (lt_of_le_of_ne (not_lt.mp hgt) hfold)))

theorem Agrees.cons {β : Type*} [LinearOrder β] {l m : List β} {r : Result} (h : Agrees l m r) (a : β) :
    Agrees (a :: l) (a :: m) r := by
  cases h with
  | equal h => exact .equal (congrArg (List.cons a) h)
  | greater h => exact .greater (List.Lex.cons h)
  | less h => exact .less (List.Lex.cons h)

theorem Agrees.head {β : Type*} [LinearOrder β] {a b : β} {r : Result} (h : Agrees a b r) (hne : a ≠ b) (l m : List β) :
    Agrees (a :: l) (b :: m) r := by
  cases h with
  | equal h => exact absurd h hne
  | greater h => exact .greater (List.Lex.rel h)
  | less h => exact .less (List.Lex.rel h)

section
variable {β : Type*} [LinearOrder β] {a b : β} {r : Result}

theorem Agrees.equal_iff (h : Agrees a b r) : r = .Equal ↔ a = b := by
  cases h with
  | equal h => exact iff_of_true rfl h
  | greater h => exact iff_of_false nofun h.ne'
  | less h => exact iff_of_false nofun h.ne

theorem Agrees.greater_iff (h : Agrees a b r) : r = .Greater ↔ b < a := by
  cases h with
  | equal h => exact iff_of_false nofun (not_lt_of_ge h.le)
  | greater h => exact iff_of_true rfl h
  | less h => exact iff_of_false nofun (lt_asymm h)

theorem Agrees.less_iff (h : Agrees a b r) : r = .Less ↔ a < b := by
  cases h with
  | equal h => exact iff_of_false nofun (not_lt_of_ge h.ge)
  | greater h => exact iff_of_false nofun (lt_asymm h)
  | less h => exact iff_of_true rfl h

end

theorem collateRest_skip (lhs rhs : WString) (l : Nat) :
    Agrees (keys m_lowerFirst wkcUnicodeFoldCasePeer lhs) (keys m_lowerFirst wkcUnicodeFoldCasePeer rhs)
      (collateRest m_lowerFirst wkcUnicodeFoldCasePeer ((l + min lhs.length rhs.length : Nat) : Int) (l + lhs.length)
        (l + rhs.length) (skip ((l + min lhs.length rhs.length : Nat) : Int) lhs rhs l)) := by
  induction lhs generalizing rhs l with
  | nil =>
    cases rhs with
    | nil =>
      rw [skip, collateRest, collateLengths, if_pos rfl]
      · exact .equal rfl
      all_goals simp
    | cons rv rhs =>
      rw [skip, collateRest, collateLengths, if_neg (by simp), if_neg (by simp)]
      · exact .less List.Lex.nil
      all_goals simp
  | cons lv lhs ih =>
    cases rhs with
    | nil =>
      rw [skip, collateRest, collateLengths, if_neg (by simp), if_pos (by simp)]
      · exact .greater List.Lex.nil
      all_goals simp
    | cons rv rhs =>
      have hinside : (l : Int) < ((l + min (lv :: lhs).length (rv :: rhs).length : Nat) : Int) := by
        rw [List.length_cons, List.length_cons]
        omega
      rw [skip]
      by_cases hsame : lv = rv
      · subst hsame
        rw [if_pos ⟨hinside, rfl⟩]
        have hrest := (ih rhs (l + 1)).cons (key m_lowerFirst wkcUnicodeFoldCasePeer lv)
        rw [List.length_cons, List.length_cons, Nat.succ_min_succ, Nat.add_succ, Nat.add_succ, Nat.add_succ]
        rw [Nat.succ_add, Nat.succ_add, Nat.succ_add] at hrest
        exact hrest
      · rw [if_neg fun h => hsame h.2, collateRest, if_pos hinside]
        exact (collateUnits_key hsame).head (fun h => hsame (key_injective h)) _ _

theorem collate_keys (lhs rhs : Chars) :
    Agrees (keys m_lowerFirst wkcUnicodeFoldCasePeer lhs.units) (keys m_lowerFirst wkcUnicodeFoldCasePeer rhs.units)
      (collate m_lowerFirst wkcUnicodeFoldCasePeer lhs rhs) := by
  have hrest := @collateRest_skip m_lowerFirst wkcUnicodeFoldCasePeer lhs.units rhs.units 0
  have hlmin : Buf.asInt32 (if lhs.units.length < rhs.units.length then lhs.units.length else rhs.units.length) =
      ((0 + min lhs.units.length rhs.units.length : Nat) : Int) := by
    have hl := lhs.length_lt
    have hr := rhs.length_lt
    split
    · rw [Buf.asInt32_eq hl]
      omega
    · rw [Buf.asInt32_eq hr]
      omega
  unfold collate
  dsimp only
  rw [hlmin]
  simpa only [Nat.zero_add, Nat.cast_zero] using hrest

end

/-- `Less` is the strict part of a total order whose equality is that of strings. -/
theorem collate_total (m_lowerFirst : Bool) (wkcUnicodeFoldCasePeer : UInt16 → Int) :
    (∀ a b, collate m_lowerFirst wkcUnicodeFoldCasePeer a b = .Equal ↔ a = b) ∧
      (∀ a b, collate m_lowerFirst wkcUnicodeFoldCasePeer a b = .Greater ↔
        collate m_lowerFirst wkcUnicodeFoldCasePeer b a = .Less) ∧
      ∀ a b c, collate m_lowerFirst wkcUnicodeFoldCasePeer a b = .Less →
        collate m_lowerFirst wkcUnicodeFoldCasePeer b c = .Less → collate m_lowerFirst wkcUnicodeFoldCasePeer a c = .Less := by
  refine ⟨fun a b => ?_, fun a b => ?_, fun a b c hab hbc => ?_⟩
  · rw [(collate_keys a b).equal_iff, keys_injective.eq_iff]
    exact Chars.ext_iff.symm
  · rw [(collate_keys a b).greater_iff, (collate_keys b a).less_iff]
  · rw [(collate_keys a b).less_iff] at hab
    rw [(collate_keys b c).less_iff] at hbc
    rw [(collate_keys a c).less_iff]
    exact lt_trans hab hbc

example : collate true (fun _ => 0) ⟨[0x41], by decide⟩ ⟨[0x61], by decide⟩ = .Greater := by decide

end Collator
end Wkc
