import Mathlib.Data.List.Infix

/-!
# Texts that come in pieces

A lexer says what the first token of a text is, as soon as no more text can change it.

* `Lexer`          the first token and its length, or that too little is there;
* `lex`            the tokens of a text; at its end, what is too little is taken letter by letter;
* `lex_append`     a text in two pieces: what is left of the first goes before the second.
-/

namespace Tokens

structure Lexer (α β : Type*) where
  first : List α → Option (β × Nat)
  /-- a letter that stays alone at the end of the text -/
  stub : α → β
  pos : ∀ {xs b n}, first xs = some (b, n) → 0 < n ∧ n ≤ xs.length
  decided : ∀ {xs r} (ys : List α), first xs = some r → first (xs ++ ys) = some r

section
variable {α β : Type*} (L : Lexer α β) (ended : Bool)

theorem Lexer.first_nil : L.first [] = none := by
  cases h : L.first [] with
  | none => rfl
  | some r =>
    obtain ⟨hpos, hle⟩ := L.pos h
    have hlen : ([] : List α).length = 0 := rfl
    omega

/-- with what is left -/
def lexAux : Nat → List α → List β × List α
  | 0, xs => ([], xs)
  | fuel + 1, xs =>
    match L.first xs with
    | some (b, n) => ((b :: (lexAux fuel (xs.drop n)).1), (lexAux fuel (xs.drop n)).2)
    | none =>
      match xs with
      | [] => ([], [])
      | x :: xs' => if ended then (L.stub x :: (lexAux fuel xs').1, (lexAux fuel xs').2) else ([], x :: xs')

def lex (xs : List α) : List β × List α := lexAux L ended xs.length xs

theorem lexAux_fuel (fuel : Nat) (xs : List α) (h : xs.length ≤ fuel) : lexAux L ended fuel xs = lex L ended xs := by
  have hall : ∀ k m (ys : List α), ys.length ≤ k → ys.length ≤ m → lexAux L ended k ys = lexAux L ended m ys := by
    intro k
    induction k with
    | zero =>
      intro m ys hk _
      obtain rfl := List.length_eq_zero_iff.mp (Nat.le_zero.mp hk)
      cases m with
      | zero => rfl
      | succ m =>
        unfold lexAux
        rw [L.first_nil]
    | succ k ih =>
      intro m ys hk hm
      cases m with
      | zero =>
        obtain rfl := List.length_eq_zero_iff.mp (Nat.le_zero.mp hm)
        unfold lexAux
        rw [L.first_nil]
      | succ m =>
        unfold lexAux
        cases hfirst : L.first ys with
        | some r =>
          obtain ⟨hpos, hle⟩ := L.pos hfirst
          have hdrop : (ys.drop r.2).length = ys.length - r.2 := List.length_drop
          have hrec := ih m (ys.drop r.2) (by omega) (by omega)
          show (r.1 :: (lexAux L ended k (ys.drop r.2)).1, (lexAux L ended k (ys.drop r.2)).2) = _
          rw [hrec]
        | none =>
          cases ys with
          | nil => rfl
          | cons y ys =>
            rw [List.length_cons] at hk hm
            have hrec := ih m ys (by omega) (by omega)
            show (if ended then (L.stub y :: (lexAux L ended k ys).1, (lexAux L ended k ys).2) else _) = _
            rw [hrec]
  exact hall _ _ xs h (Nat.le_refl _)

theorem lex_some {xs : List α} {b : β} {n : Nat} (h : L.first xs = some (b, n)) :
    lex L ended xs = (b :: (lex L ended (xs.drop n)).1, (lex L ended (xs.drop n)).2) := by
  obtain ⟨hpos, hle⟩ := L.pos h
  obtain ⟨k, hk⟩ : ∃ k, xs.length = k + 1 := ⟨xs.length - 1, by omega⟩
  have hdrop : (xs.drop n).length = xs.length - n := List.length_drop
  have hrec := lexAux_fuel L ended k (xs.drop n) (by omega)
  unfold lex at hrec ⊢
  rw [hk]
  simp only [lexAux, h]
  rw [hrec]

theorem lex_none {xs : List α} (h : L.first xs = none) : lex L false xs = ([], xs) := by
  cases xs with
  | nil => rfl
  | cons x xs =>
    unfold lex
    rw [List.length_cons]
    simp only [lexAux, h]
    rfl

theorem lex_stub {x : α} {xs : List α} (h : L.first (x :: xs) = none) :
    lex L true (x :: xs) = (L.stub x :: (lex L true xs).1, (lex L true xs).2) := by
  unfold lex
  rw [List.length_cons]
  simp only [lexAux, h]
  rfl

/-- the cases of `lex`: what holds of them holds of every text -/
theorem lex_induction {P : List α → Prop} (hsome : ∀ xs b n, L.first xs = some (b, n) → P (xs.drop n) → P xs)
    (hnil : P []) (hnone : ∀ x xs, L.first (x :: xs) = none → P xs → P (x :: xs)) (xs : List α) : P xs := by
  obtain ⟨k, hk⟩ : ∃ k, xs.length ≤ k := ⟨_, Nat.le_refl _⟩
  induction k generalizing xs with
  | zero =>
    obtain rfl := List.length_eq_zero_iff.mp (Nat.le_zero.mp hk)
    exact hnil
  | succ k ih =>
    cases hfirst : L.first xs with
    | some r =>
      obtain ⟨hpos, hle⟩ := L.pos hfirst
      exact hsome xs r.1 r.2 hfirst (ih _ (by rw [List.length_drop]; omega))
    | none =>
      cases xs with
      | nil => exact hnil
      | cons x xs => exact hnone x xs hfirst (ih xs (by rw [List.length_cons] at hk; omega))

theorem lex_rest (xs : List α) : L.first (lex L false xs).2 = none := by
  induction xs using lex_induction L with
  | hsome xs b n h ih =>
    rw [lex_some L false h]
    exact ih
  | hnil => exact L.first_nil
  | hnone x xs h _ =>
    rw [lex_none L h]
    exact h

theorem lex_ended (xs : List α) : (lex L true xs).2 = [] := by
  induction xs using lex_induction L with
  | hsome xs b n h ih =>
    rw [lex_some L true h]
    exact ih
  | hnil => rfl
  | hnone x xs h ih =>
    rw [lex_stub L h]
    exact ih

theorem lex_suffix (xs : List α) : (lex L ended xs).2 <:+ xs := by
  induction xs using lex_induction L with
  | hsome xs b n h ih =>
    rw [lex_some L ended h]
    exact ih.trans (List.drop_suffix n xs)
  | hnil => exact List.suffix_refl _
  | hnone x xs h ih =>
    cases ended with
    | false => rw [lex_none L h]
    | true =>
      rw [lex_stub L h]
      exact ih.trans (List.suffix_cons x xs)

/-- what is left of the first piece goes before the second -/
theorem lex_append (xs ys : List α) :
    lex L ended (xs ++ ys) = ((lex L false xs).1 ++ (lex L ended ((lex L false xs).2 ++ ys)).1,
      (lex L ended ((lex L false xs).2 ++ ys)).2) := by
  induction xs using lex_induction L with
  | hsome xs b n h ih =>
    have hle := (L.pos h).2
    rw [lex_some L ended (L.decided ys h), lex_some L false h, List.drop_append_of_le_length hle, ih]
    rfl
  | hnil => rfl
  | hnone x xs h _ =>
    rw [lex_none L h]
    rfl

end
end Tokens
