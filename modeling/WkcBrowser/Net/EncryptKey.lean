import WkcBrowser.Lib.Bytes
import Mathlib.Logic.Equiv.Defs

/-!
# `encrypt_key`: the passwords of client certificates in memory

* `Evp`, `Cipher`, `Padded`    what the calls of the cipher library leave behind, and what is known of them;
* `encrypt_key`                the function, with checked stores;
* `Survives`                   a password that goes through both directions inside the buffers;
* `survives_iff`               the lengths for which it does;
* `ecb`, `blockwise`           a permutation of blocks, one after the other, with padding: AES-128 under a key is one.

`fastMalloc` does not return null.
-/

namespace Wkc
namespace Ssl
open Buf

def RHMSSL_AES_LEN : Nat := 16

/-! ## the cipher -/

/-- `update` is what the first call of a direction writes, and `resultlen` what it says so; `final` is what the second
one writes -/
structure Evp where
  update : Bytes
  resultlen : Nat
  final : Bytes

namespace Evp

/-- what is there after both calls -/
def output (evp : Evp) : Bytes := evp.update.take evp.resultlen ++ evp.final

/-- what is counted has been written, at most a block more than was given -/
def Counts (evp : Evp) (inl : Nat) : Prop :=
  evp.resultlen ≤ evp.update.length ∧ evp.update.length ≤ inl + RHMSSL_AES_LEN

theorem length_output {evp : Evp} {inl : Nat} (h : evp.Counts inl) :
    evp.output.length = evp.resultlen + evp.final.length := by
  rw [output, List.length_append, List.length_take, Nat.min_eq_left h.1]

end Evp

/-- The calls of both directions; a decryption that fails leaves `tmplen` without a value. -/
structure Cipher where
  EVP_Encrypt : Bytes → Evp
  EVP_Decrypt : Bytes → Option Evp

/-- blocks and PKCS#7: whole blocks, the next number of them, and the way back -/
structure Cipher.Padded (cipher : Cipher) : Prop where
  encryptCounts : ∀ bs, (cipher.EVP_Encrypt bs).Counts bs.length
  decryptCounts : ∀ bs evp, cipher.EVP_Decrypt bs = some evp → evp.Counts bs.length
  blocks : ∀ bs, (cipher.EVP_Encrypt bs).output.length = (bs.length / RHMSSL_AES_LEN + 1) * RHMSSL_AES_LEN
  undone : ∀ bs, ∃ evp, cipher.EVP_Decrypt (cipher.EVP_Encrypt bs).output = some evp ∧ evp.output = bs

/-! ## the function -/

/-- the two outputs and the zero behind them, in a zeroed buffer -/
def Evp.fill (evp : Evp) (size : Nat) : Option (Bytes × Nat) := do
  let newkey ← store (zeros size) 0 evp.update
  let newkey ← store newkey evp.resultlen evp.final
  let newkey ← store newkey (evp.resultlen + evp.final.length) [0]
  return (newkey, evp.resultlen + evp.final.length)

section
variable (cipher : Cipher)

/-- the buffer and `*out_len`; `none` where a byte is read or written outside, or `in_keylen + RHMSSL_AES_LEN` is not
an `int` -/
def encrypt_key (in_key : Bytes) (in_keylen : Nat) (isEncrypt : Bool) : Option (Bytes × Nat) := do
  let input ← load in_key 0 in_keylen
  if 2 ^ 31 ≤ in_keylen + RHMSSL_AES_LEN then none
  else
    let evp ← if isEncrypt then some (cipher.EVP_Encrypt input) else cipher.EVP_Decrypt input
    evp.fill (in_keylen + RHMSSL_AES_LEN)

/-- the password is there again after both directions -/
def Survives (password : Bytes) : Prop :=
  ∃ c m key k, encrypt_key cipher password password.length true = some (c, m) ∧
    encrypt_key cipher c m false = some (key, k) ∧ k = password.length ∧ key.take (k + 1) = password ++ [0]

end

/-! ## the buffer -/

theorem Evp.fill_inside {evp : Evp} {inl : Nat} (h : evp.Counts inl) (hfits : evp.output.length < inl + RHMSSL_AES_LEN) :
    ∃ key, evp.fill (inl + RHMSSL_AES_LEN) = some (key, evp.output.length) ∧
      key.take (evp.output.length + 1) = evp.output ++ [0] := by
  have hlength := length_output h
  have hresult := h.1
  have hupdate := h.2
  obtain ⟨b₁, h₁, hlen₁, htake₁⟩ := @store_inside (zeros (inl + RHMSSL_AES_LEN)) evp.update 0
    (by rw [zeros_length]; omega)
  rw [zeros_length] at hlen₁
  rw [Nat.zero_add, List.take_zero, List.nil_append] at htake₁
  obtain ⟨b₂, h₂, hlen₂, htake₂⟩ := @store_inside b₁ evp.final evp.resultlen (by omega)
  obtain ⟨b₃, h₃, _, htake₃⟩ := @store_inside b₂ [0] (evp.resultlen + evp.final.length)
    (by rw [List.length_singleton]; omega)
  have hfront : b₁.take evp.resultlen = evp.update.take evp.resultlen := by
    rw [← htake₁, List.take_take, Nat.min_eq_left hresult]
  rw [hlength]
  refine ⟨b₃, ?_, ?_⟩
  · unfold fill
    rw [h₁]
    show (store b₁ evp.resultlen evp.final).bind _ = _
    rw [h₂]
    show (store b₂ (evp.resultlen + evp.final.length) [0]).bind _ = _
    rw [h₃]
    rfl
  · rw [List.length_singleton] at htake₃
    rw [htake₃, htake₂, hfront]
    rfl

theorem Evp.fill_outside {evp : Evp} {inl : Nat} (h : evp.Counts inl) (hover : inl + RHMSSL_AES_LEN ≤ evp.output.length) :
    evp.fill (inl + RHMSSL_AES_LEN) = none := by
  have hlength := length_output h
  refine Option.eq_none_iff_forall_ne_some.mpr fun key hkey => ?_
  obtain ⟨b₁, h₁, hkey⟩ := Option.bind_eq_some_iff.mp hkey
  obtain ⟨b₂, h₂, hkey⟩ := Option.bind_eq_some_iff.mp hkey
  obtain ⟨b₃, h₃, _⟩ := Option.bind_eq_some_iff.mp hkey
  have hlen₁ := length_store h₁
  have hlen₂ := length_store h₂
  have hin := store_within h₃
  rw [zeros_length] at hlen₁
  rw [List.length_singleton] at hin
  omega

/-! ## the two directions -/

theorem load_all (bs : Bytes) : load bs 0 bs.length = some bs := by
  rw [load, if_pos (by omega), List.drop_zero, List.take_length]

section
variable {cipher : Cipher}

theorem encrypt_key_encrypts (h : cipher.Padded) {password : Bytes} (hint : password.length + RHMSSL_AES_LEN < 2 ^ 31)
    (hleft : password.length % RHMSSL_AES_LEN ≠ 0) :
    ∃ c, encrypt_key cipher password password.length true = some (c, (cipher.EVP_Encrypt password).output.length) ∧
      c.take (cipher.EVP_Encrypt password).output.length = (cipher.EVP_Encrypt password).output := by
  have hblocks := h.blocks password
  have hdiv := Nat.div_add_mod' password.length RHMSSL_AES_LEN
  rw [Nat.succ_mul] at hblocks
  obtain ⟨c, hc, htake⟩ := Evp.fill_inside (h.encryptCounts password) (by omega)
  refine ⟨c, ?_, ?_⟩
  · unfold encrypt_key
    rw [load_all]
    show (if _ then none else (cipher.EVP_Encrypt password).fill _) = _
    rw [if_neg (by omega), hc]
  · have hfront := congrArg (List.take (cipher.EVP_Encrypt password).output.length) htake
    rwa [List.take_take, Nat.min_eq_left (Nat.le_succ _), List.take_left] at hfront

theorem encrypt_key_decrypts (h : cipher.Padded) {password c : Bytes}
    (hint : (cipher.EVP_Encrypt password).output.length + RHMSSL_AES_LEN < 2 ^ 31)
    (hc : c.take (cipher.EVP_Encrypt password).output.length = (cipher.EVP_Encrypt password).output) :
    ∃ key, encrypt_key cipher c (cipher.EVP_Encrypt password).output.length false = some (key, password.length) ∧
      key.take (password.length + 1) = password ++ [0] := by
  have hload : load c 0 (cipher.EVP_Encrypt password).output.length = some (cipher.EVP_Encrypt password).output := by
    have hlen := congrArg List.length hc
    rw [List.length_take] at hlen
    rw [load, if_pos (by omega), List.drop_zero, hc]
  have hblocks := h.blocks password
  have hdiv := Nat.div_add_mod' password.length RHMSSL_AES_LEN
  rw [Nat.succ_mul] at hblocks
  have hmod : password.length % RHMSSL_AES_LEN < RHMSSL_AES_LEN := Nat.mod_lt _ (by decide)
  obtain ⟨evp, hevp, houtput⟩ := h.undone password
  obtain ⟨key, hkey, hfront⟩ := Evp.fill_inside (h.decryptCounts _ evp hevp) (by rw [houtput]; omega)
  rw [houtput] at hkey hfront
  refine ⟨key, ?_, hfront⟩
  unfold encrypt_key
  rw [hload]
  show (if _ then none else (cipher.EVP_Decrypt (cipher.EVP_Encrypt password).output).bind fun evp => evp.fill _) = _
  rw [if_neg (by omega), hevp]
  exact hkey

theorem encrypt_key_int {in_key : Bytes} {in_keylen : Nat} {isEncrypt : Bool} {key : Bytes × Nat}
    (h : encrypt_key cipher in_key in_keylen isEncrypt = some key) : in_keylen + RHMSSL_AES_LEN < 2 ^ 31 := by
  obtain ⟨input, _, h⟩ := Option.bind_eq_some_iff.mp h
  split at h
  · cases h
  · next hint => exact not_le.mp hint

theorem encrypt_key_outside (h : cipher.Padded) {password : Bytes}
    (hbad : password.length % RHMSSL_AES_LEN = 0 ∨ 2 ^ 31 ≤ password.length + RHMSSL_AES_LEN) :
    encrypt_key cipher password password.length true = none := by
  unfold encrypt_key
  rw [load_all]
  show (if _ then none else (cipher.EVP_Encrypt password).fill _) = _
  split
  · rfl
  · next hint =>
    have hzero := hbad.resolve_right hint
    have hblocks := h.blocks password
    have hdiv := Nat.div_add_mod' password.length RHMSSL_AES_LEN
    rw [Nat.succ_mul] at hblocks
    exact Evp.fill_outside (h.encryptCounts password) (by omega)

end

/-- **A password survives** both directions exactly if its last block is not a whole one and the sizes are `int`s. -/
theorem survives_iff {cipher : Cipher} (h : cipher.Padded) (password : Bytes) :
    Survives cipher password ↔
      password.length % RHMSSL_AES_LEN ≠ 0 ∧ password.length < 2 ^ 31 - 2 * RHMSSL_AES_LEN := by
  have hblocks := h.blocks password
  constructor
  · rintro ⟨c, m, key, k, hc, hkey, rfl, _⟩
    have hfirst : password.length % RHMSSL_AES_LEN ≠ 0 ∧ password.length + RHMSSL_AES_LEN < 2 ^ 31 := by
      by_contra hnot
      rw [encrypt_key_outside h (by omega)] at hc
      cases hc
    obtain ⟨c', hc', _⟩ := encrypt_key_encrypts h hfirst.2 hfirst.1
    have hm : m = (cipher.EVP_Encrypt password).output.length := congrArg Prod.snd (Option.some.inj (hc.symm.trans hc'))
    have hsecond := encrypt_key_int hkey
    rw [hm, hblocks] at hsecond
    unfold RHMSSL_AES_LEN at *
    omega
  · rintro ⟨hleft, hint⟩
    have hlen : RHMSSL_AES_LEN = 16 := rfl
    obtain ⟨c, hc, htake⟩ := encrypt_key_encrypts h (by omega) hleft
    obtain ⟨key, hkey, hfront⟩ := encrypt_key_decrypts h (by rw [hblocks]; unfold RHMSSL_AES_LEN at *; omega) htake
    exact ⟨c, _, key, _, hc, hkey, rfl, hfront⟩

/-! ## permutations of blocks -/

abbrev Block := { bs : Bytes // bs.length = RHMSSL_AES_LEN }

/-- on bytes that are not a block, the identity -/
def onBlock (σ : Equiv.Perm Block) (bs : Bytes) : Bytes :=
  if h : bs.length = RHMSSL_AES_LEN then (σ ⟨bs, h⟩).1 else bs

/-- so many blocks, each on its own -/
def ecb (σ : Equiv.Perm Block) : Nat → Bytes → Bytes
  | 0, _ => []
  | n + 1, bs => onBlock σ (bs.take RHMSSL_AES_LEN) ++ ecb σ n (bs.drop RHMSSL_AES_LEN)

/-- a whole block of padding, if nothing is left over -/
def pad (rest : Bytes) : Bytes :=
  rest ++ List.replicate (RHMSSL_AES_LEN - rest.length) (UInt8.ofNat (RHMSSL_AES_LEN - rest.length))

def unpad (last : Bytes) : Option Bytes :=
  let n := (last.getLast?.getD 0).toNat
  if 1 ≤ n ∧ n ≤ RHMSSL_AES_LEN ∧ last.drop (RHMSSL_AES_LEN - n) = List.replicate n (UInt8.ofNat n) then
    some (last.take (RHMSSL_AES_LEN - n))
  else none

/-- The last block that is decrypted is written at once but only counted by the second call. -/
def blockwise (σ : Equiv.Perm Block) : Cipher where
  EVP_Encrypt input :=
    let n := input.length / RHMSSL_AES_LEN
    let update := ecb σ n input
    { update := update, resultlen := update.length, final := onBlock σ (pad (input.drop (n * RHMSSL_AES_LEN))) }
  EVP_Decrypt input :=
    let n := input.length / RHMSSL_AES_LEN
    if input.length % RHMSSL_AES_LEN ≠ 0 ∨ n = 0 then none
    else
      let update := ecb σ.symm n input
      (unpad (update.drop ((n - 1) * RHMSSL_AES_LEN))).map fun final =>
        { update := update, resultlen := (n - 1) * RHMSSL_AES_LEN, final := final }

theorem length_onBlock (σ : Equiv.Perm Block) (bs : Bytes) : (onBlock σ bs).length = bs.length := by
  unfold onBlock
  split
  · next h => exact (σ ⟨bs, h⟩).2.trans h.symm
  · rfl

theorem onBlock_symm (σ : Equiv.Perm Block) (bs : Bytes) : onBlock σ.symm (onBlock σ bs) = bs := by
  by_cases h : bs.length = RHMSSL_AES_LEN
  · have honce : onBlock σ bs = (σ ⟨bs, h⟩).1 := dif_pos h
    rw [honce, onBlock, dif_pos (σ ⟨bs, h⟩).2]
    show (σ.symm (σ ⟨bs, h⟩)).1 = bs
    rw [Equiv.symm_apply_apply]
  · have honce : onBlock σ bs = bs := dif_neg h
    rw [honce, onBlock, dif_neg h]

theorem length_ecb (σ : Equiv.Perm Block) (n : Nat) : ∀ bs : Bytes, n * RHMSSL_AES_LEN ≤ bs.length →
    (ecb σ n bs).length = n * RHMSSL_AES_LEN := by
  induction n with
  | zero => intro bs _; rw [Nat.zero_mul]; rfl
  | succ n ih =>
    intro bs hlen
    rw [Nat.succ_mul] at hlen ⊢
    rw [ecb, List.length_append, length_onBlock, List.length_take, ih _ (by rw [List.length_drop]; omega)]
    omega

theorem ecb_symm (σ : Equiv.Perm Block) (n : Nat) {last : Bytes} (hlast : last.length = RHMSSL_AES_LEN) :
    ∀ bs : Bytes, n * RHMSSL_AES_LEN ≤ bs.length →
      ecb σ.symm (n + 1) (ecb σ n bs ++ onBlock σ last) = bs.take (n * RHMSSL_AES_LEN) ++ last := by
  induction n with
  | zero =>
    intro bs _
    have hlength := length_onBlock σ last
    show onBlock σ.symm ((onBlock σ last).take RHMSSL_AES_LEN) ++ [] = _
    rw [List.take_of_length_le (by omega), onBlock_symm, Nat.zero_mul, List.take_zero, List.append_nil,
      List.nil_append]
  | succ n ih =>
    intro bs hlen
    rw [Nat.succ_mul] at hlen
    have hfirst : (onBlock σ (bs.take RHMSSL_AES_LEN)).length = RHMSSL_AES_LEN := by
      rw [length_onBlock, List.length_take]
      omega
    have htake : bs.take ((n + 1) * RHMSSL_AES_LEN) =
        bs.take RHMSSL_AES_LEN ++ (bs.drop RHMSSL_AES_LEN).take (n * RHMSSL_AES_LEN) := by
      rw [Nat.succ_mul, Nat.add_comm, List.take_add]
    have hsplit : ecb σ (n + 1) bs ++ onBlock σ last =
        onBlock σ (bs.take RHMSSL_AES_LEN) ++ (ecb σ n (bs.drop RHMSSL_AES_LEN) ++ onBlock σ last) := by
      rw [ecb, List.append_assoc]
    rw [ecb, hsplit, List.take_left' hfirst, List.drop_left' hfirst, onBlock_symm,
      ih _ (by rw [List.length_drop]; omega), htake, List.append_assoc]

theorem length_pad {rest : Bytes} (h : rest.length < RHMSSL_AES_LEN) : (pad rest).length = RHMSSL_AES_LEN := by
  rw [pad, List.length_append, List.length_replicate]
  omega

theorem unpad_pad {rest : Bytes} (h : rest.length < RHMSSL_AES_LEN) : unpad (pad rest) = some rest := by
  obtain ⟨n, hn⟩ : ∃ n, RHMSSL_AES_LEN - rest.length = n + 1 := ⟨RHMSSL_AES_LEN - rest.length - 1, by omega⟩
  have hle : n + 1 ≤ RHMSSL_AES_LEN := by omega
  have hlen : RHMSSL_AES_LEN - (n + 1) = rest.length := by omega
  have hlast : ((pad rest).getLast?.getD 0).toNat = n + 1 := by
    rw [pad, hn, List.replicate_succ', ← List.append_assoc, List.getLast?_append_of_ne_nil _ (List.cons_ne_nil _ _)]
    show (UInt8.ofNat (n + 1)).toNat = n + 1
    rw [UInt8.toNat_ofNat', Nat.mod_eq_of_lt (by unfold RHMSSL_AES_LEN at hle; omega)]
  have hpad : pad rest = rest ++ List.replicate (n + 1) (UInt8.ofNat (n + 1)) := by rw [pad, hn]
  unfold unpad
  dsimp only
  rw [hlast, hlen, hpad, List.drop_left, List.take_left, if_pos ⟨Nat.succ_pos n, hle, rfl⟩]

theorem blockwise_padded (σ : Equiv.Perm Block) : (blockwise σ).Padded := by
  have hlength : ∀ (bs : Bytes) (τ : Equiv.Perm Block), (ecb τ (bs.length / RHMSSL_AES_LEN) bs).length =
      bs.length / RHMSSL_AES_LEN * RHMSSL_AES_LEN := fun bs τ => length_ecb τ _ bs (Nat.div_mul_le_self _ _)
  have hpad : ∀ bs : Bytes, (pad (bs.drop (bs.length / RHMSSL_AES_LEN * RHMSSL_AES_LEN))).length = RHMSSL_AES_LEN := by
    intro bs
    have hdiv := Nat.div_add_mod' bs.length RHMSSL_AES_LEN
    have hmod : bs.length % RHMSSL_AES_LEN < RHMSSL_AES_LEN := Nat.mod_lt _ (by decide)
    exact length_pad (by rw [List.length_drop]; omega)
  have houtput : ∀ bs, ((blockwise σ).EVP_Encrypt bs).output = ecb σ (bs.length / RHMSSL_AES_LEN) bs ++
      onBlock σ (pad (bs.drop (bs.length / RHMSSL_AES_LEN * RHMSSL_AES_LEN))) := by
    intro bs
    show (ecb σ (bs.length / RHMSSL_AES_LEN) bs).take (ecb σ (bs.length / RHMSSL_AES_LEN) bs).length ++ _ = _
    rw [List.take_length]
    rfl
  have hblocks : ∀ bs, ((blockwise σ).EVP_Encrypt bs).output.length =
      (bs.length / RHMSSL_AES_LEN + 1) * RHMSSL_AES_LEN := by
    intro bs
    rw [houtput, List.length_append, hlength, length_onBlock, hpad, Nat.succ_mul]
  refine ⟨fun bs => ⟨Nat.le_refl _, ?_⟩, fun bs evp h => ?_, hblocks, fun bs => ?_⟩
  · show (ecb σ (bs.length / RHMSSL_AES_LEN) bs).length ≤ _
    have hle := Nat.div_mul_le_self bs.length RHMSSL_AES_LEN
    rw [hlength]
    omega
  · unfold blockwise at h
    dsimp only at h
    split at h
    · cases h
    · obtain ⟨final, -, rfl⟩ := Option.map_eq_some_iff.mp h
      have hle := Nat.div_mul_le_self bs.length RHMSSL_AES_LEN
      have hprev : (bs.length / RHMSSL_AES_LEN - 1) * RHMSSL_AES_LEN ≤ bs.length / RHMSSL_AES_LEN * RHMSSL_AES_LEN :=
        Nat.mul_le_mul_right _ (Nat.sub_le _ _)
      show (bs.length / RHMSSL_AES_LEN - 1) * RHMSSL_AES_LEN ≤ (ecb σ.symm _ bs).length ∧ (ecb σ.symm _ bs).length ≤ _
      rw [hlength]
      omega
  · have hdiv : ((blockwise σ).EVP_Encrypt bs).output.length / RHMSSL_AES_LEN = bs.length / RHMSSL_AES_LEN + 1 := by
      rw [hblocks]
      exact Nat.mul_div_cancel _ (by decide)
    have hmod : ((blockwise σ).EVP_Encrypt bs).output.length % RHMSSL_AES_LEN = 0 := by
      rw [hblocks]
      exact Nat.mul_mod_left _ _
    have hplain := ecb_symm σ (bs.length / RHMSSL_AES_LEN) (hpad bs) bs (Nat.div_mul_le_self _ _)
    rw [← houtput] at hplain
    have htake : (bs.take (bs.length / RHMSSL_AES_LEN * RHMSSL_AES_LEN)).length =
        bs.length / RHMSSL_AES_LEN * RHMSSL_AES_LEN := by
      rw [List.length_take, Nat.min_eq_left (Nat.div_mul_le_self _ _)]
    have hleft : (bs.drop (bs.length / RHMSSL_AES_LEN * RHMSSL_AES_LEN)).length < RHMSSL_AES_LEN := by
      have hsum := Nat.div_add_mod' bs.length RHMSSL_AES_LEN
      have hless : bs.length % RHMSSL_AES_LEN < RHMSSL_AES_LEN := Nat.mod_lt _ (by decide)
      rw [List.length_drop]
      omega
    unfold blockwise at hdiv hmod hplain ⊢
    dsimp only at hdiv hmod hplain ⊢
    rw [hdiv, if_neg (by rw [hmod]; simp), Nat.add_sub_cancel, hplain, List.drop_left' htake, unpad_pad hleft]
    refine ⟨_, rfl, ?_⟩
    show (bs.take _ ++ pad _).take _ ++ _ = bs
    rw [List.take_left' htake, List.take_append_drop]

theorem survives_iff_letter : Survives (blockwise (Equiv.refl Block)) [0x61] :=
  (survives_iff (blockwise_padded (Equiv.refl Block)) [0x61]).mpr (by decide)

/-- the empty password: one block of padding, and no place for the zero -/
theorem encrypt_key_overruns : ¬∃ cipher : Cipher, cipher.Padded ∧ Survives cipher [] := by
  rintro ⟨cipher, h, c, m, key, k, hc, _⟩
  have hnone : encrypt_key cipher [] 0 true = none := encrypt_key_outside h (.inl rfl)
  cases hnone.symm.trans hc

end Ssl
end Wkc
