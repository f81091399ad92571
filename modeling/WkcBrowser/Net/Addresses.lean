import WkcBrowser.Net.ProxyFilters
import Mathlib.Data.List.Induction
import Mathlib.Data.List.TakeWhile

/-!
# `ProxyFilter::convertIPStringToChar`: what it writes, and what addresses it reads

* `writeIPv6`, `writeIPv4`, `writeIPString`   the function with its 16 bytes of output as checked memory;
* `writeIPv6_inside`        no part is written outside, whatever the text;
* `IPv4Text`, `IPv6Text`    the two notations;
* `convertIPv6_groups`      groups in a row are bytes in a row;
* `convertIPString_addresses`   the addresses of all texts in these notations;
* `Address`                 these notations, and that of an IPv6 address with an IPv4 one at its end;
* `setIPNetwork_match`      what a filter for a network matches.
-/

namespace Wkc
namespace ProxyFilter
open Buf

/-! ## the output as memory -/

/-- the loop over the parts of an IPv6 address, and whether it comes to its end; `none` if a byte falls outside -/
def writeIPv6 (size : Nat) : List WString → Nat → Nat → Bytes → Option (Bool × Bytes)
  | [], _, _, ip => some (true, ip)
  | part :: parts, i, pos, ip =>
    if 4 < part.length then some (false, ip)
    else if part = [0x23] then writeIPv6 size parts (i + 1) (8 - (size - i) + 1) ip
    else if part.all isASCII = false then some (false, ip)
    else do
      let ip ← store ip (pos * 2) [digitAt part 4 <<< 4 ||| digitAt part 3]
      let ip ← store ip (pos * 2 + 1) [digitAt part 2 <<< 4 ||| digitAt part 1]
      writeIPv6 size parts (i + 1) (pos + 1) ip

section
variable (u : Unicode)

/-- the loop over the parts of an IPv4 address -/
def writeIPv4 : List WString → Nat → Bytes → Option (Bool × Bytes)
  | [], _, ip => some (true, ip)
  | part :: parts, i, ip =>
    match toInt u part with
    | none => some (false, ip)
    | some num =>
      if num < 0 ∨ 255 < num then some (false, ip)
      else do
        let ip ← store ip i [UInt8.ofNat num.toNat]
        writeIPv4 parts (i + 1) ip

/-- what is returned if not 0, and the output afterwards -/
def writeIPString (host : WString) (ip : Bytes) : Option (Option IPVersion × Bytes) := do
  let ip ← store ip 0 (zeros 16)
  if host.contains colon then
    let IPs := split colon (markZeros (removeBrackets host))
    if 8 < IPs.length then return (none, ip)
    else
      let (done, ip) ← writeIPv6 IPs.length IPs 0 0 ip
      return (if done then some .IPv6 else none, ip)
  else if host.contains dot then
    if host.length < 7 then return (none, ip)
    else
      let IPs := split dot host
      if IPs.length ≠ 4 then return (none, ip)
      else
        let (done, ip) ← writeIPv4 u IPs 0 ip
        return (if done then some .IPv4 else none, ip)
  else return (none, ip)

end

theorem store_byte {ip : Bytes} {k : Nat} (b : UInt8) (h : k < ip.length) : store ip k [b] = some (ip.set k b) := by
  rw [store, if_pos (show k + [b].length ≤ ip.length from h), List.set_eq_take_append_cons_drop, if_pos h,
    List.append_assoc]
  rfl

theorem writeIPv6_inside {size : Nat} (hsize : size ≤ 8) (parts : List WString) :
    ∀ (i pos : Nat) (ip : Bytes), i + parts.length = size → pos + parts.length ≤ 8 → ip.length = 16 →
      ∃ done out, writeIPv6 size parts i pos ip = some (done, out) ∧ out.length = 16 ∧
        convertIPv6 size parts i pos ip = if done then some out else none := by
  induction parts with
  | nil =>
    intro i pos ip _ _ hip
    exact ⟨true, ip, rfl, hip, rfl⟩
  | cons part parts ih =>
    intro i pos ip hi hpos hip
    rw [List.length_cons] at hi hpos
    rw [writeIPv6, convertIPv6]
    by_cases hlong : 4 < part.length
    · rw [if_pos hlong, if_pos hlong]
      exact ⟨false, ip, rfl, hip, rfl⟩
    rw [if_neg hlong, if_neg hlong]
    by_cases hmark : part = [0x23]
    · rw [if_pos hmark, if_pos hmark]
      exact ih (i + 1) (8 - (size - i) + 1) ip (by omega) (by omega) hip
    rw [if_neg hmark, if_neg hmark]
    by_cases hascii : part.all isASCII = false
    · rw [if_pos hascii, if_pos hascii]
      exact ⟨false, ip, rfl, hip, rfl⟩
    rw [if_neg hascii, if_neg hascii, store_byte _ (by omega)]
    show ∃ done out, (store (ip.set _ _) _ _ >>= _) = _ ∧ _
    rw [store_byte _ (by rw [List.length_set]; omega)]
    exact ih (i + 1) (pos + 1) _ (by omega) (by omega) (by rw [List.length_set, List.length_set, hip])

section
variable {u : Unicode}

theorem writeIPv4_inside (parts : List WString) :
    ∀ (front back : Bytes), parts.length ≤ back.length →
      ∃ done out, writeIPv4 u parts front.length (front ++ back) = some (done, out) ∧
        out.length = (front ++ back).length ∧
        (convertIPv4 u parts).map (fun ip => front ++ ip ++ back.drop parts.length) =
          if done then some out else none := by
  induction parts with
  | nil =>
    intro front back _
    refine ⟨true, front ++ back, rfl, rfl, ?_⟩
    show some (front ++ [] ++ back.drop 0) = _
    rw [List.append_nil, List.drop_zero]
    rfl
  | cons part parts ih =>
    intro front back hback
    obtain ⟨first, back, rfl⟩ := List.exists_cons_of_ne_nil
      (List.ne_nil_of_length_pos (Nat.lt_of_lt_of_le (Nat.succ_pos _) hback))
    rw [writeIPv4, convertIPv4]
    cases hnum : toInt u part with
    | none => exact ⟨false, front ++ first :: back, rfl, rfl, rfl⟩
    | some num =>
      by_cases hrange : num < 0 ∨ 255 < num
      · simp only [if_pos hrange]
        exact ⟨false, front ++ first :: back, rfl, rfl, by simp [hrange]⟩
      · have hlength : (front ++ [UInt8.ofNat num.toNat]).length = front.length + 1 := by simp
        have hset : (front ++ first :: back).set front.length (UInt8.ofNat num.toNat) =
            front ++ [UInt8.ofNat num.toNat] ++ back := by simp
        obtain ⟨done, out, hout, hlen, hconvert⟩ :=
          ih (front ++ [UInt8.ofNat num.toNat]) back (Nat.le_of_succ_le_succ hback)
        rw [hlength] at hout
        simp only [if_neg hrange]
        rw [store_byte _ (by simp), hset]
        refine ⟨done, out, hout, ?_, ?_⟩
        · rw [hlen]
          simp
        · rw [← hconvert]
          cases hrest : convertIPv4 u parts with
          | none => simp
          | some rest => simp [hrange]

theorem writeIPString_inside (host : WString) {ip : Bytes} (hip : ip.length = 16) :
    ∃ out, writeIPString u host ip = some ((convertIPStringToChar u host).map Prod.fst, out) ∧ out.length = 16 ∧
      ∀ v bytes, convertIPStringToChar u host = some (v, bytes) → out = bytes := by
  have hclear : store ip 0 (zeros 16) = some (zeros 16) := by
    have hdrop : ip.drop (0 + (zeros 16).length) = [] := List.drop_eq_nil_of_le (by rw [hip, zeros_length])
    rw [store, if_pos (by rw [hip, zeros_length]), hdrop, List.append_nil]
    rfl
  have hzeros : (zeros 16).length = 16 := zeros_length 16
  unfold writeIPString convertIPStringToChar
  rw [hclear]
  simp only [Option.bind_eq_bind, Option.bind_some]
  by_cases hcolon : host.contains colon = true
  · simp only [if_pos hcolon]
    by_cases hmany : 8 < (split colon (markZeros (removeBrackets host))).length
    · simp only [if_pos hmany]
      exact ⟨zeros 16, rfl, hzeros, fun _ _ h => by cases h⟩
    · obtain ⟨done, out, hout, hlen, hconvert⟩ := writeIPv6_inside (Nat.le_of_not_lt hmany)
        (split colon (markZeros (removeBrackets host))) 0 0 (zeros 16) (Nat.zero_add _) (by omega) hzeros
      simp only [if_neg hmany, hconvert]
      rw [hout]
      cases done with
      | true => exact ⟨out, rfl, hlen, fun v bytes h => (Prod.mk.inj (Option.some.inj h)).2⟩
      | false => exact ⟨out, rfl, hlen, fun _ _ h => by cases h⟩
  simp only [if_neg hcolon]
  by_cases hdot : host.contains dot = true
  · simp only [if_pos hdot]
    by_cases hshort : host.length < 7
    · simp only [if_pos hshort]
      exact ⟨zeros 16, rfl, hzeros, fun _ _ h => by cases h⟩
    simp only [if_neg hshort]
    by_cases hfour : (split dot host).length ≠ 4
    · simp only [if_pos hfour]
      exact ⟨zeros 16, rfl, hzeros, fun _ _ h => by cases h⟩
    · rw [Ne, Classical.not_not] at hfour
      obtain ⟨done, out, hout, hlen, hconvert⟩ := @writeIPv4_inside u (split dot host) [] (zeros 16) (by omega)
      have hrest : (zeros 16).drop (split dot host).length = zeros 12 := by rw [hfour]; rfl
      rw [hrest] at hconvert
      have hsame : (convertIPv4 u (split dot host)).map (fun ip => (IPVersion.IPv4, ip ++ zeros 12)) =
          if done then some (.IPv4, out) else none := by
        have hmap := congrArg (Option.map (Prod.mk IPVersion.IPv4)) hconvert
        rw [Option.map_map] at hmap
        rw [show (fun ip => (IPVersion.IPv4, ip ++ zeros 12)) =
          Prod.mk IPVersion.IPv4 ∘ fun ip => [] ++ ip ++ zeros 12 from rfl, hmap]
        cases done <;> rfl
      simp only [hfour, ne_eq, not_true_eq_false, if_false]
      rw [hsame]
      rw [show writeIPv4 u (split dot host) 0 (zeros 16) = some (done, out) from hout]
      cases done with
      | true => exact ⟨out, rfl, hlen, fun v bytes h => (Prod.mk.inj (Option.some.inj h)).2⟩
      | false => exact ⟨out, rfl, hlen, fun _ _ h => by cases h⟩
  · simp only [if_neg hdot]
    exact ⟨zeros 16, rfl, hzeros, fun _ _ h => by cases h⟩

end

/-! ## the notations -/

def decimal (digits : WString) : Nat := digits.foldl (fun value c => 10 * value + (c.toNat - 0x30)) 0

structure IPv4Text where
  parts : List WString
  four : parts.length = 4
  digits : ∀ part ∈ parts, part ≠ [] ∧ part.all isASCIIDigit = true
  octets : ∀ part ∈ parts, decimal part ≤ 255

namespace IPv4Text
def text (a : IPv4Text) : WString := joinWords dot a.parts
def bytes (a : IPv4Text) : Bytes := a.parts.map (fun part => UInt8.ofNat (decimal part))
end IPv4Text

def isASCIIHexDigit (c : UInt16) : Bool :=
  isASCIIDigit c || (0x61 ≤ c.toNat && c.toNat ≤ 0x66) || (0x41 ≤ c.toNat && c.toNat ≤ 0x46)

def hexValue (c : UInt16) : Nat :=
  if isASCIIDigit c then c.toNat - 0x30 else if 0x61 ≤ c.toNat then c.toNat - 0x61 + 10 else c.toNat - 0x41 + 10

def groupValue (group : WString) : Nat := group.foldl (fun value c => 16 * value + hexValue c) 0

/-- the high byte first -/
def groupBytes (group : WString) : Bytes :=
  [UInt8.ofNat (groupValue group / 256), UInt8.ofNat (groupValue group % 256)]

def IsGroup (group : WString) : Prop := group ≠ [] ∧ group.length ≤ 4 ∧ group.all isASCIIHexDigit = true

/-- eight groups, or fewer with a `::` for the groups of zeros -/
inductive IPv6Text where
  | full (groups : List WString) (hgroups : ∀ group ∈ groups, IsGroup group) (eight : groups.length = 8)
  | elided (left right : List WString) (hleft : ∀ group ∈ left, IsGroup group)
      (hright : ∀ group ∈ right, IsGroup group)
      (fits : left.length + right.length ≤ 7)

namespace IPv6Text

def text : IPv6Text → WString
  | full groups _ _ => joinWords colon groups
  | elided left right _ _ _ => joinWords colon left ++ colon :: colon :: joinWords colon right

def bytes : IPv6Text → Bytes
  | full groups _ _ => groups.flatMap groupBytes
  | elided left right _ _ _ =>
    left.flatMap groupBytes ++ zeros (2 * (8 - left.length - right.length)) ++ right.flatMap groupBytes

end IPv6Text

def inBrackets (brackets : Bool) (s : WString) : WString := if brackets then 0x5B :: s ++ [0x5D] else s

/-! ## IPv4 -/

theorem digit_range {c : UInt16} (h : isASCIIDigit c = true) : 0x30 ≤ c.toNat ∧ c.toNat ≤ 0x39 := by
  simpa [isASCIIDigit] using h

theorem not_mem_of_all {p : UInt16 → Bool} {c : UInt16} (hc : p c = false) {s : WString} (h : s.all p = true) :
    c ∉ s := by
  intro hmem
  have hp : p c = true := List.all_eq_true.mp h c hmem
  rw [hc] at hp
  cases hp

theorem toInt_digits (u : Unicode) {part : WString} (hne : part ≠ []) (h : part.all isASCIIDigit = true)
    (hsmall : decimal part ≤ 255) : toInt u part = some (decimal part : Int) := by
  obtain ⟨c, cs, rfl⟩ := List.exists_cons_of_ne_nil hne
  have hc := digit_range (List.all_eq_true.mp h c List.mem_cons_self)
  have hspace : u.isSpaceOrNewline c = false := by
    rw [u.isSpaceOrNewline_ascii c (by simp [isASCII]; omega), isASCIISpace]
    simp only [Bool.and_eq_false_iff, decide_eq_false_iff_not]
    left
    omega
  have hsign : c ≠ 0x2D ∧ c ≠ 0x2B := by
    constructor <;> (intro heq; rw [heq] at hc; exact absurd hc.1 (by decide))
  have hdigits : (c :: cs).takeWhile isASCIIDigit = c :: cs := List.takeWhile_eq_self_iff.mpr (List.all_eq_true.mp h)
  unfold toInt
  rw [List.dropWhile_cons_of_neg (by simp [hspace])]
  simp only [List.head?_cons, Option.some.injEq, hsign.1, hsign.2, or_self, if_false, hdigits, reduceCtorEq]
  exact if_pos (Nat.lt_of_le_of_lt hsmall (by decide))

theorem convertIPv4_octets (u : Unicode) (parts : List WString)
    (hdigits : ∀ part ∈ parts, part ≠ [] ∧ part.all isASCIIDigit = true)
    (hoctets : ∀ part ∈ parts, decimal part ≤ 255) :
    convertIPv4 u parts = some (parts.map (fun part => UInt8.ofNat (decimal part))) := by
  induction parts with
  | nil => rfl
  | cons part parts ih =>
    have hsmall := hoctets part List.mem_cons_self
    have hrest := ih (fun part h => hdigits part (List.mem_cons_of_mem _ h))
      (fun part h => hoctets part (List.mem_cons_of_mem _ h))
    have hrange : ¬ ((decimal part : Int) < 0 ∨ 255 < (decimal part : Int)) := by omega
    obtain ⟨hne, hall⟩ := hdigits part List.mem_cons_self
    rw [convertIPv4, toInt_digits u hne hall hsmall, hrest]
    simp only [Option.bind_eq_bind, Option.bind_some, if_neg hrange, Int.toNat_natCast, List.map_cons]
    rfl

theorem split_join {separator : UInt16} {words : List WString} (h : ∀ word ∈ words, word ≠ [] ∧ separator ∉ word) :
    split separator (joinWords separator words) = words := by
  rw [split_joinWords]
  induction words with
  | nil => rfl
  | cons word words ih =>
    obtain ⟨hne, hmem⟩ := h word List.mem_cons_self
    rw [List.flatMap_cons, split_word hmem hne, ih (fun word hword => h word (List.mem_cons_of_mem _ hword))]
    rfl

theorem length_joinWords {separator : UInt16} {words : List WString} (h : ∀ word ∈ words, word ≠ []) :
    2 * words.length ≤ (joinWords separator words).length + 1 := by
  induction words with
  | nil => exact Nat.zero_le _
  | cons word words ih =>
    have hword : 0 < word.length := List.length_pos_of_ne_nil (h word List.mem_cons_self)
    have hrest := ih (fun word hword => h word (List.mem_cons_of_mem _ hword))
    cases words with
    | nil =>
      rw [joinWords, List.flatMap_nil, List.append_nil, List.length_singleton]
      omega
    | cons next words =>
      rw [List.length_cons] at hrest ⊢
      rw [joinWords_cons word (List.cons_ne_nil next words), List.length_append, List.length_cons]
      rw [List.length_cons]
      omega

theorem mem_joinWords {separator c : UInt16} {words : List WString} (h : c ∈ joinWords separator words) :
    c = separator ∨ ∃ word ∈ words, c ∈ word := by
  cases words with
  | nil => cases h
  | cons word words =>
    rw [joinWords, List.mem_append, List.mem_flatMap] at h
    rcases h with h | ⟨next, hnext, h⟩
    · exact Or.inr ⟨word, List.mem_cons_self, h⟩
    · rcases List.mem_cons.mp h with rfl | h
      · exact Or.inl rfl
      · exact Or.inr ⟨next, List.mem_cons_of_mem _ hnext, h⟩

theorem IPv4Text.converted (u : Unicode) (a : IPv4Text) :
    convertIPStringToChar u a.text = some (.IPv4, a.bytes ++ zeros 12) := by
  have hparts : ∀ part ∈ a.parts, part ≠ [] ∧ dot ∉ part := fun part hpart =>
    ⟨(a.digits part hpart).1, not_mem_of_all (by decide) (a.digits part hpart).2⟩
  have hsplit : split dot a.text = a.parts := split_join hparts
  have hcolon : a.text.contains colon = false := by
    rw [← Bool.not_eq_true, List.contains_iff_mem]
    intro hmem
    rcases mem_joinWords hmem with heq | ⟨part, hpart, hmem⟩
    · exact absurd heq (by decide)
    · exact not_mem_of_all (by decide) (a.digits part hpart).2 hmem
  have hlength := @length_joinWords dot a.parts (fun part hpart => (hparts part hpart).1)
  have hdot : a.text.contains dot = true := by
    obtain ⟨p, q, parts, hlist⟩ : ∃ p q parts, a.parts = p :: q :: parts := by
      match hlist : a.parts, a.four with
      | p :: q :: parts, _ => exact ⟨p, q, parts, rfl⟩
    rw [List.contains_iff_mem, IPv4Text.text, hlist, joinWords_cons p (List.cons_ne_nil q parts)]
    exact List.mem_append_right _ List.mem_cons_self
  unfold convertIPStringToChar
  rw [hcolon, hdot, hsplit, if_neg Bool.false_ne_true, if_pos rfl,
    if_neg (by rw [a.four] at hlength; show ¬ (joinWords dot a.parts).length < 7; omega)]
  show (if a.parts.length ≠ 4 then none else (convertIPv4 u a.parts).map fun ip =>
    (IPVersion.IPv4, ip ++ zeros 12)) = _
  rw [if_neg (not_not_intro a.four), convertIPv4_octets u a.parts a.digits a.octets]
  rfl

/-! ## IPv6 -/

theorem hexDigit_small {c : UInt16} (h : isASCIIHexDigit c = true) : c.toNat < 0x67 := by
  rw [isASCIIHexDigit, isASCIIDigit] at h
  simp only [Bool.or_eq_true, Bool.and_eq_true, decide_eq_true_eq] at h
  omega

theorem CONV_hex {c : UInt16} (h : isASCIIHexDigit c = true) :
    hexValue c < 16 ∧ CONV c.toUInt8 = UInt8.ofNat (hexValue c) := by
  have hall : ∀ n < 0x67, isASCIIHexDigit (UInt16.ofNat n) = true →
      hexValue (UInt16.ofNat n) < 16 ∧ CONV (UInt16.ofNat n).toUInt8 = UInt8.ofNat (hexValue (UInt16.ofNat n)) := by
    decide +kernel
  have hc := hall c.toNat (hexDigit_small h)
  rw [UInt16.ofNat_toNat] at hc
  exact hc h

theorem nibbles : ∀ x < 16, ∀ y < 16, UInt8.ofNat x <<< 4 ||| UInt8.ofNat y = UInt8.ofNat (16 * x + y) := by
  decide +kernel

theorem group_bytes {group : WString} (h : IsGroup group) :
    [digitAt group 4 <<< 4 ||| digitAt group 3, digitAt group 2 <<< 4 ||| digitAt group 1] = groupBytes group := by
  obtain ⟨hne, hlength, hall⟩ := h
  have hhex : ∀ c ∈ group, hexValue c < 16 ∧ CONV c.toUInt8 = UInt8.ofNat (hexValue c) := fun c hc =>
    CONV_hex (List.all_eq_true.mp hall c hc)
  have hpair : ∀ {x y hi lo value : Nat}, x < 16 → y < 16 → hi < 16 → lo < 16 →
      value = 256 * (16 * hi + lo) + (16 * x + y) →
      [UInt8.ofNat hi <<< 4 ||| UInt8.ofNat lo, UInt8.ofNat x <<< 4 ||| UInt8.ofNat y] =
        [UInt8.ofNat (value / 256), UInt8.ofNat (value % 256)] := by
    intro x y hi lo value hx hy hhi hlo hvalue
    have hdiv : value / 256 = 16 * hi + lo := by omega
    have hmod : value % 256 = 16 * x + y := by omega
    rw [nibbles hi hhi lo hlo, nibbles x hx y hy, hdiv, hmod]
  match group, hne, hlength, hhex with
  | [a], _, _, hhex =>
    obtain ⟨ha, hconv⟩ := hhex a (by simp)
    have hsame := @hpair 0 (hexValue a) 0 0 (groupValue [a]) (by decide) ha (by decide) (by decide)
      (by simp [groupValue])
    rw [groupBytes, ← hsame, ← hconv]
    rfl
  | [a, b], _, _, hhex =>
    obtain ⟨ha, hconva⟩ := hhex a (by simp)
    obtain ⟨hb, hconvb⟩ := hhex b (by simp)
    have hsame := @hpair (hexValue a) (hexValue b) 0 0 (groupValue [a, b]) ha hb (by decide) (by decide)
      (by simp [groupValue])
    rw [groupBytes, ← hsame, ← hconva, ← hconvb]
    rfl
  | [a, b, c], _, _, hhex =>
    obtain ⟨ha, hconva⟩ := hhex a (by simp)
    obtain ⟨hb, hconvb⟩ := hhex b (by simp)
    obtain ⟨hc, hconvc⟩ := hhex c (by simp)
    have hsame := @hpair (hexValue b) (hexValue c) 0 (hexValue a) (groupValue [a, b, c]) hb hc (by decide) ha
      (by simp [groupValue]; omega)
    rw [groupBytes, ← hsame, ← hconva, ← hconvb, ← hconvc]
    rfl
  | [a, b, c, d], _, _, hhex =>
    obtain ⟨ha, hconva⟩ := hhex a (by simp)
    obtain ⟨hb, hconvb⟩ := hhex b (by simp)
    obtain ⟨hc, hconvc⟩ := hhex c (by simp)
    obtain ⟨hd, hconvd⟩ := hhex d (by simp)
    have hsame := @hpair (hexValue c) (hexValue d) (hexValue a) (hexValue b) (groupValue [a, b, c, d]) hc hd ha hb
      (by simp [groupValue]; omega)
    rw [groupBytes, ← hsame, ← hconva, ← hconvb, ← hconvc, ← hconvd]
    rfl

theorem IsGroup.not_mem {group : WString} (h : IsGroup group) {c : UInt16} (hc : isASCIIHexDigit c = false) : c ∉ group :=
  not_mem_of_all hc h.2.2

theorem IsGroup.ne_mark {group : WString} (h : IsGroup group) : group ≠ [0x23] := by
  intro heq
  exact h.not_mem (by decide : isASCIIHexDigit 0x23 = false) (heq ▸ List.mem_cons_self)

theorem IsGroup.ascii {group : WString} (h : IsGroup group) : group.all isASCII = true := by
  refine List.all_eq_true.mpr fun c hc => ?_
  have hsmall := hexDigit_small (List.all_eq_true.mp h.2.2 c hc)
  simp only [isASCII, decide_eq_true_eq]
  omega

theorem IsGroup.word {group : WString} (h : IsGroup group) : group ≠ [] ∧ colon ∉ group :=
  ⟨h.1, h.not_mem (by decide)⟩

theorem convertIPv6_groups {size : Nat} (rest : List WString) (groups : List WString) :
    ∀ (i pos : Nat) (front mid back : Bytes), (∀ group ∈ groups, IsGroup group) → front.length = 2 * pos →
      mid.length = 2 * groups.length →
      convertIPv6 size (groups ++ rest) i pos (front ++ mid ++ back) =
        convertIPv6 size rest (i + groups.length) (pos + groups.length)
          (front ++ groups.flatMap groupBytes ++ back) := by
  induction groups with
  | nil =>
    intro i pos front mid back _ _ hmid
    rw [List.eq_nil_of_length_eq_zero hmid]
    rfl
  | cons group groups ih =>
    intro i pos front mid back hgroups hfront hmid
    have hgroup := hgroups group List.mem_cons_self
    obtain ⟨hi, lo, mid, rfl⟩ : ∃ hi lo rest, mid = hi :: lo :: rest := by
      match mid, hmid with
      | hi :: lo :: rest, _ => exact ⟨hi, lo, rest, rfl⟩
    have hmid : mid.length = 2 * groups.length := by simp at hmid; omega
    have hbytes := group_bytes hgroup
    have hset : ∀ x y : UInt8, ((front ++ hi :: lo :: mid ++ back).set (pos * 2) x).set (pos * 2 + 1) y =
        front ++ [x, y] ++ mid ++ back := by
      intro x y
      have hpos : pos * 2 = front.length := by omega
      rw [hpos, List.append_assoc, List.set_append_right _ _ (Nat.le_refl _), Nat.sub_self,
        List.set_append_right _ _ (Nat.le_add_right _ 1), Nat.add_sub_cancel_left]
      simp
    rw [List.cons_append, convertIPv6, if_neg (Nat.not_lt.mpr hgroup.2.1), if_neg hgroup.ne_mark,
      if_neg (by rw [hgroup.ascii]; decide), hset, hbytes,
      ih (i + 1) (pos + 1) _ mid back (fun group h => hgroups group (List.mem_cons_of_mem _ h))
        (by rw [List.length_append, hfront]; show _ + 2 = _; omega) hmid,
      List.flatMap_cons, List.length_cons, List.append_assoc front, Nat.add_right_comm, Nat.add_right_comm pos]
    rfl

/-! ## the mark for the groups of zeros -/

theorem markZeros_cons {c : UInt16} (hc : c ≠ colon) (s : WString) : markZeros (c :: s) = c :: markZeros s := by
  cases s with
  | nil => rfl
  | cons d s => rw [markZeros, if_neg (fun h => hc h.1)]

theorem markZeros_word {word : WString} (h : colon ∉ word) (s : WString) :
    markZeros (word ++ s) = word ++ markZeros s := by
  induction word with
  | nil => rfl
  | cons c word ih =>
    have hc : c ≠ colon := fun heq => h (heq ▸ List.mem_cons_self)
    rw [List.cons_append, markZeros_cons hc, ih (fun hmem => h (List.mem_cons_of_mem c hmem)), List.cons_append]

theorem markZeros_colon {word : WString} (h : word ≠ [] ∧ colon ∉ word) (s : WString) :
    markZeros (colon :: word ++ s) = colon :: word ++ markZeros s := by
  obtain ⟨c, cs, rfl⟩ := List.exists_cons_of_ne_nil h.1
  have hc : c ≠ colon := fun heq => h.2 (heq ▸ List.mem_cons_self)
  rw [List.cons_append, List.cons_append, markZeros, if_neg (fun heq => hc heq.2), ← List.cons_append,
    markZeros_word h.2]
  rfl

theorem markZeros_joinWords {groups : List WString} (h : ∀ group ∈ groups, group ≠ [] ∧ colon ∉ group) (s : WString) :
    markZeros (joinWords colon groups ++ s) = joinWords colon groups ++ markZeros s := by
  have htail : ∀ groups : List WString, (∀ group ∈ groups, group ≠ [] ∧ colon ∉ group) →
      markZeros (groups.flatMap (fun group => colon :: group) ++ s) =
        groups.flatMap (fun group => colon :: group) ++ markZeros s := by
    intro groups h
    induction groups with
    | nil => rfl
    | cons group groups ih =>
      rw [List.flatMap_cons, List.append_assoc, markZeros_colon (h group List.mem_cons_self),
        ih (fun group hgroup => h group (List.mem_cons_of_mem _ hgroup)), List.append_assoc]
  cases groups with
  | nil => rfl
  | cons group groups =>
    rw [joinWords, List.append_assoc, markZeros_word (h group List.mem_cons_self).2,
      htail groups (fun group hgroup => h group (List.mem_cons_of_mem _ hgroup)), List.append_assoc]

namespace IPv6Text

/-- the parts the text is split into -/
def parts : IPv6Text → List WString
  | full groups _ _ => groups
  | elided left right _ _ _ => left ++ [0x23] :: right

theorem length_parts (a : IPv6Text) : a.parts.length ≤ 8 := by
  cases a with
  | full groups _ eight => exact Nat.le_of_eq eight
  | elided left right _ _ fits =>
    show (left ++ [0x23] :: right).length ≤ 8
    rw [List.length_append, List.length_cons]
    omega

theorem split_text (a : IPv6Text) : split colon (markZeros a.text) = a.parts := by
  cases a with
  | full groups hgroups _ =>
    have hwords : ∀ group ∈ groups, group ≠ [] ∧ colon ∉ group := fun group h => (hgroups group h).word
    have hmark : markZeros (joinWords colon groups) = joinWords colon groups := by
      simpa [markZeros] using markZeros_joinWords hwords []
    show split colon (markZeros (joinWords colon groups)) = groups
    rw [hmark, split_join hwords]
  | elided left right hleft hright _ =>
    have hwords : ∀ group ∈ left, group ≠ [] ∧ colon ∉ group := fun group h => (hleft group h).word
    have hwords' : ∀ group ∈ right, group ≠ [] ∧ colon ∉ group := fun group h => (hright group h).word
    have hmark' : markZeros (joinWords colon right) = joinWords colon right := by
      simpa [markZeros] using markZeros_joinWords hwords' []
    have hmark : markZeros (colon :: colon :: joinWords colon right) =
        colon :: 0x23 :: colon :: joinWords colon right := by
      rw [markZeros, if_pos ⟨rfl, rfl⟩, hmark']
    show split colon (markZeros (joinWords colon left ++ colon :: colon :: joinWords colon right)) =
      left ++ [0x23] :: right
    have hbehind : split colon (0x23 :: colon :: joinWords colon right) = [0x23] :: right := by
      have happend := @split_append colon [0x23] (joinWords colon right)
      rw [split_join hwords'] at happend
      exact happend
    rw [markZeros_joinWords hwords, hmark, split_append, split_join hwords, hbehind]

theorem converted (a : IPv6Text) : convertIPv6 a.parts.length a.parts 0 0 (zeros 16) = some a.bytes := by
  cases a with
  | full groups hgroups eight =>
    have hall := @convertIPv6_groups groups.length [] groups 0 0 [] (zeros 16) [] hgroups rfl
      (by rw [zeros_length, eight])
    rw [List.append_nil, List.append_nil, List.append_nil] at hall
    exact hall
  | elided left right hleft hright fits =>
    have hlength : (left ++ [0x23] :: right).length = left.length + right.length + 1 := by
      rw [List.length_append, List.length_cons]
      omega
    have hsplit : zeros 16 = [] ++ zeros (2 * left.length) ++ zeros (16 - 2 * left.length) := by
      rw [List.nil_append, ← zeros_add, Nat.add_sub_cancel' (by omega)]
    have hrest : [] ++ left.flatMap groupBytes ++ zeros (16 - 2 * left.length) =
        left.flatMap groupBytes ++ zeros (2 * (8 - left.length - right.length)) ++
          zeros (2 * right.length) ++ [] := by
      rw [List.nil_append, List.append_nil, List.append_assoc, ← zeros_add]
      congr 2
      omega
    have hbytes : ∀ groups : List WString, (groups.flatMap groupBytes).length = 2 * groups.length := by
      intro groups
      induction groups with
      | nil => rfl
      | cons group groups ih =>
        rw [List.flatMap_cons, List.length_append, ih, List.length_cons]
        show 2 + _ = _
        omega
    show convertIPv6 (left ++ [0x23] :: right).length (left ++ [0x23] :: right) 0 0 (zeros 16) = _
    rw [hsplit, convertIPv6_groups _ left 0 0 [] _ _ hleft rfl (zeros_length _), convertIPv6,
      if_neg (by decide : ¬ 4 < [(0x23 : UInt16)].length), if_pos rfl, hrest]
    have hright' := @convertIPv6_groups (left ++ [0x23] :: right).length [] right (0 + left.length + 1)
      (8 - ((left ++ [0x23] :: right).length - (0 + left.length)) + 1)
      (left.flatMap groupBytes ++ zeros (2 * (8 - left.length - right.length))) (zeros (2 * right.length)) [] hright
      (by rw [List.length_append, hbytes, zeros_length, hlength]; omega) (zeros_length _)
    rw [List.append_nil right] at hright'
    rw [hright', List.append_nil]
    rfl

theorem head_text (a : IPv6Text) : a.text.head? ≠ some 0x5B := by
  intro hhead
  have hjoin : ∀ groups : List WString, (∀ group ∈ groups, IsGroup group) →
      (0x5B : UInt16) ∉ joinWords colon groups := by
    intro groups hgroups hmem
    rcases mem_joinWords hmem with heq | ⟨group, hgroup, hmem⟩
    · exact absurd heq (by decide)
    · exact (hgroups group hgroup).not_mem (by decide) hmem
  have hmem := List.mem_of_head? hhead
  cases a with
  | full groups hgroups _ => exact hjoin groups hgroups hmem
  | elided left right hleft hright _ =>
    rcases List.mem_append.mp hmem with hmem | hmem
    · exact hjoin left hleft hmem
    · rcases List.mem_cons.mp hmem with heq | hmem
      · exact absurd heq (by decide)
      rcases List.mem_cons.mp hmem with heq | hmem
      · exact absurd heq (by decide)
      · exact hjoin right hright hmem

theorem colon_mem_text (a : IPv6Text) : colon ∈ a.text := by
  cases a with
  | full groups _ eight =>
    match groups, eight with
    | group :: next :: groups, _ =>
      show colon ∈ joinWords colon (group :: next :: groups)
      rw [joinWords_cons group (List.cons_ne_nil next groups)]
      exact List.mem_append_right _ List.mem_cons_self
  | elided left right _ _ _ => exact List.mem_append_right _ List.mem_cons_self

end IPv6Text

theorem removeBrackets_inBrackets (brackets : Bool) {s : WString} (h : s.head? ≠ some 0x5B) :
    removeBrackets (inBrackets brackets s) = s := by
  cases brackets with
  | true =>
    have hb : bracketed (0x5B :: s ++ [0x5D]) = true := by
      rw [bracketed, Bool.and_eq_true, List.isPrefixOf_iff_prefix, List.isSuffixOf_iff_suffix]
      exact ⟨⟨s ++ [0x5D], rfl⟩, ⟨0x5B :: s, rfl⟩⟩
    show removeBrackets (0x5B :: s ++ [0x5D]) = s
    rw [removeBrackets, if_pos hb, List.cons_append, List.drop_one, List.tail_cons]
    exact List.take_left' (by simp)
  | false =>
    have hb : bracketed s ≠ true := by
      intro hb
      rw [bracketed, Bool.and_eq_true, List.isPrefixOf_iff_prefix] at hb
      obtain ⟨⟨rest, hrest⟩, _⟩ := hb
      rw [← hrest] at h
      exact h rfl
    exact if_neg hb

theorem IPv6Text.converted_text (u : Unicode) (a : IPv6Text) (brackets : Bool) :
    convertIPStringToChar u (inBrackets brackets a.text) = some (.IPv6, a.bytes) := by
  have hcolon : (inBrackets brackets a.text).contains colon = true := by
    rw [List.contains_iff_mem]
    cases brackets with
    | true => exact List.mem_append_left _ (List.mem_cons_of_mem _ a.colon_mem_text)
    | false => exact a.colon_mem_text
  unfold convertIPStringToChar
  rw [if_pos hcolon, removeBrackets_inBrackets brackets a.head_text, a.split_text]
  show (if 8 < a.parts.length then none else (convertIPv6 a.parts.length a.parts 0 0 (zeros 16)).map _) = _
  rw [if_neg (Nat.not_lt.mpr a.length_parts), a.converted]
  rfl

/-- whatever the text, nothing is written outside the 16 bytes; the texts of addresses give their bytes -/
theorem convertIPString_addresses (u : Unicode) :
    (∀ (host : WString) (ip : { ip : Bytes // ip.length = 16 }), ∃ out,
      writeIPString u host ip.1 = some ((convertIPStringToChar u host).map Prod.fst, out) ∧ out.length = 16 ∧
        ∀ v bytes, convertIPStringToChar u host = some (v, bytes) → out = bytes) ∧
    (∀ a : IPv4Text, convertIPStringToChar u a.text = some (.IPv4, a.bytes ++ zeros 12)) ∧
    ∀ (a : IPv6Text) (brackets : Bool), convertIPStringToChar u (inBrackets brackets a.text) =
      some (.IPv6, a.bytes) :=
  ⟨fun host ip => writeIPString_inside host ip.2, IPv4Text.converted u, IPv6Text.converted_text u⟩

/-- `1::a` -/
example : convertIPStringToChar .latin [0x31, 0x3A, 0x3A, 0x61] = some (.IPv6, 0 :: 1 :: (zeros 13 ++ [10])) := by
  decide +kernel

/-! ## networks -/

/-- the notations that `convertIPStringToChar` reads -/
inductive PlainAddress : WString → IPVersion → Bytes → Prop where
  | v4 (a : IPv4Text) : PlainAddress a.text .IPv4 (a.bytes ++ zeros 12)
  | v6 (a : IPv6Text) (brackets : Bool) : PlainAddress (inBrackets brackets a.text) .IPv6 a.bytes

/-- an IPv6 address whose last two groups are written as an IPv4 one -/
inductive MixedAddress : WString → Bytes → Prop where
  | intro (a : IPv6Text) (front first second : WString) (last : IPv4Text) (brackets : Bool) :
      a.text = front ++ colon :: (first ++ colon :: second) → IsGroup first → IsGroup second →
      groupBytes first ++ groupBytes second = last.bytes →
      MixedAddress (inBrackets brackets (front ++ colon :: last.text)) a.bytes

inductive Address (host : WString) (v : IPVersion) (ip : Bytes) : Prop where
  | plain : PlainAddress host v ip → Address host v ip
  | mixed : MixedAddress host ip → v = .IPv6 → Address host v ip

/-- an address of the same version with the same leading bits -/
def InNetwork (ipver : IPVersion) (a : Bytes) (mask : Int) (host : WString) : Prop :=
  ∃ ip, Address host ipver ip ∧ ∀ k : Nat, (k : Int) < mask → bit ip k = bit a k

/-- The hosts that are judged rightly: the text of an address lacks a bit that is set in the network, or is in it; one
with an IPv4 notation at its end is not; and what is no address is not read as one that has all these bits. -/
structure Judged (u : Unicode) (ipver : IPVersion) (a : Bytes) (mask : Int) (host : WString) : Prop where
  plain : ∀ v ip, PlainAddress host v ip → (∃ k : Nat, (k : Int) < mask ∧ bit a k = true ∧ bit ip k = false) ∨
    v = ipver ∧ ∀ k : Nat, (k : Int) < mask → bit ip k = bit a k
  mixed : ∀ ip, MixedAddress host ip → ipver = .IPv6 → ∃ k : Nat, (k : Int) < mask ∧ bit ip k ≠ bit a k
  other : (∀ v ip, ¬ Address host v ip) → ∀ v ip, convertIPStringToChar u host = some (v, ip) →
    ∃ k : Nat, (k : Int) < mask ∧ bit a k = true ∧ bit ip k = false

theorem convertIPv6_long {size : Nat} {part : WString} (hlong : 4 < part.length) {parts : List WString}
    (h : part ∈ parts) : ∀ (i pos : Nat) (ip : Bytes), convertIPv6 size parts i pos ip = none := by
  induction parts with
  | nil => cases h
  | cons p parts ih =>
    intro i pos ip
    rw [convertIPv6]
    rcases List.mem_cons.mp h with rfl | h
    · exact if_pos hlong
    · simp only [ih h, ite_self]

theorem markZeros_last {word : WString} (h : word ≠ [] ∧ colon ∉ word) (s : WString) :
    ∃ t, markZeros (s ++ colon :: word) = t ++ colon :: word := by
  have hnil : markZeros [] = [] := rfl
  have hword : markZeros word = word := by
    have hmark := markZeros_word h.2 []
    rwa [List.append_nil, hnil, List.append_nil] at hmark
  have hlast : markZeros (colon :: word) = colon :: word := by
    have hmark := markZeros_colon h []
    rwa [List.append_nil, hnil, List.append_nil] at hmark
  induction s using List.twoStepInduction with
  | nil => exact ⟨[], hlast⟩
  | singleton a =>
    rw [List.cons_append, List.nil_append, markZeros]
    split
    · exact ⟨[colon, 0x23], by rw [hword]; rfl⟩
    · exact ⟨[a], by rw [hlast]; rfl⟩
  | cons_cons a b rest ih ih' =>
    rw [List.cons_append, List.cons_append, markZeros]
    split
    · obtain ⟨t, ht⟩ := ih
      exact ⟨colon :: 0x23 :: colon :: t, by rw [ht]; rfl⟩
    · obtain ⟨t, ht⟩ := ih' b
      exact ⟨a :: t, by rw [← List.cons_append, ht]; rfl⟩

theorem IPv4Text.word (a : IPv4Text) : 7 ≤ a.text.length ∧ colon ∉ a.text := by
  constructor
  · have hlength := @length_joinWords dot a.parts (fun part hpart => (a.digits part hpart).1)
    rw [a.four] at hlength
    show 7 ≤ (joinWords dot a.parts).length
    omega
  · intro hmem
    rcases mem_joinWords hmem with heq | ⟨part, hpart, hmem⟩
    · exact absurd heq (by decide)
    · exact not_mem_of_all (by decide) (a.digits part hpart).2 hmem

theorem MixedAddress.unread (u : Unicode) {host : WString} {ip : Bytes} (h : MixedAddress host ip) :
    convertIPStringToChar u host = none := by
  obtain ⟨a, front, first, second, last, brackets, htext, -, -, -⟩ := h
  obtain ⟨hlength, hcolon⟩ := last.word
  have hne : last.text ≠ [] := fun heq => by rw [heq] at hlength; exact absurd hlength (by decide)
  have hhead : (front ++ colon :: last.text).head? ≠ some 0x5B := by
    cases front with
    | nil => exact fun heq => absurd (Option.some.inj heq) (by decide)
    | cons c front =>
      have hfirst := a.head_text
      rw [htext] at hfirst
      exact hfirst
  have hin : (inBrackets brackets (front ++ colon :: last.text)).contains colon = true := by
    rw [List.contains_iff_mem]
    have hmem : colon ∈ front ++ colon :: last.text := List.mem_append_right _ List.mem_cons_self
    cases brackets with
    | true => exact List.mem_append_left _ (List.mem_cons_of_mem _ hmem)
    | false => exact hmem
  obtain ⟨t, ht⟩ := markZeros_last ⟨hne, hcolon⟩ front
  have hpart : last.text ∈ split colon (t ++ colon :: last.text) := by
    rw [split_append, split_word hcolon hne]
    exact List.mem_append_right _ List.mem_cons_self
  unfold convertIPStringToChar
  rw [if_pos hin, removeBrackets_inBrackets brackets hhead, ht]
  dsimp only
  rw [convertIPv6_long (Nat.lt_of_lt_of_le (by decide) hlength) hpart]
  exact ite_self _

theorem PlainAddress.read (u : Unicode) {host : WString} {v : IPVersion} {ip : Bytes} (h : PlainAddress host v ip) :
    convertIPStringToChar u host = some (v, ip) := by
  cases h with
  | v4 a => exact a.converted u
  | v6 a brackets => exact a.converted_text u brackets

section
variable {u : Unicode} {filter : WString} {ipver : IPVersion} {a : Bytes} {mask : Int}

/-- **A filter for a network** matches exactly the hosts of the network as long as they are such that they are judged
rightly. -/
theorem setIPNetwork_match (h : networkOf u filter = some (ipver, a, mask)) {host : WString}
    (hhost : alwaysDirect host = false) :
    (isMatchProxyFilter u (setIPNetwork u filter []).2 host = true ↔ InNetwork ipver a mask host) ↔
      Judged u ipver a mask host := by
  rw [isMatch_network h hhost]
  -- what is read has all the bits of the network, or lacks one
  have hbits : ∀ ip, (∃ k : Nat, (k : Int) < mask ∧ bit a k = true ∧ bit ip k = false) ∨
      ∀ k : Nat, (k : Int) < mask → bit a k = true → bit ip k = true := by
    intro ip
    by_cases hlacks : ∃ k : Nat, (k : Int) < mask ∧ bit a k = true ∧ bit ip k = false
    · exact .inl hlacks
    · exact .inr (fun k hk ha => Bool.eq_true_of_not_eq_false (fun hip => hlacks ⟨k, hk, ha, hip⟩))
  constructor
  · intro hiff
    refine ⟨fun v ip hplain => ?_, fun ip hmixed hver => ?_, fun hnone v ip hread => ?_⟩
    · rcases hbits ip with hlacks | hall
      · exact .inl hlacks
      · obtain ⟨ip', haddress, hsame⟩ := hiff.mp ⟨v, ip, hplain.read u, hall⟩
        cases haddress with
        | plain hplain' =>
          obtain ⟨rfl, rfl⟩ := Prod.mk.inj (Option.some.inj ((hplain.read u).symm.trans (hplain'.read u)))
          exact .inr ⟨rfl, hsame⟩
        | mixed hmixed _ => exact nomatch (hplain.read u).symm.trans (hmixed.unread u)
    · by_contra hnot
      obtain ⟨v, ip', hread, -⟩ := hiff.mpr
        ⟨ip, .mixed hmixed hver, fun k hk => by_contra (fun hne => hnot ⟨k, hk, hne⟩)⟩
      exact nomatch hread.symm.trans (hmixed.unread u)
    · rcases hbits ip with hlacks | hall
      · exact hlacks
      · obtain ⟨ip', haddress, -⟩ := hiff.mp ⟨v, ip, hread, hall⟩
        exact absurd haddress (hnone ipver ip')
  · intro hjudged
    constructor
    · rintro ⟨v, ip, hread, hall⟩
      have hhas : ¬ ∃ k : Nat, (k : Int) < mask ∧ bit a k = true ∧ bit ip k = false := by
        rintro ⟨k, hk, ha, hip⟩
        rw [hall k hk ha] at hip
        cases hip
      by_cases haddress : ∃ v' ip', Address host v' ip'
      · obtain ⟨v', ip', hplain | ⟨hmixed, -⟩⟩ := haddress
        · obtain ⟨rfl, rfl⟩ := Prod.mk.inj (Option.some.inj (hread.symm.trans (hplain.read u)))
          obtain ⟨rfl, hsame⟩ := (hjudged.plain v ip hplain).resolve_left hhas
          exact ⟨ip, .plain hplain, hsame⟩
        · exact nomatch hread.symm.trans (hmixed.unread u)
      · exact absurd (hjudged.other (fun v' ip' h => haddress ⟨v', ip', h⟩) v ip hread) hhas
    · rintro ⟨ip, haddress, hsame⟩
      cases haddress with
      | plain hplain => exact ⟨ipver, ip, hplain.read u, fun k hk ha => (hsame k hk).trans ha⟩
      | mixed hmixed hver =>
        obtain ⟨k, hk, hne⟩ := hjudged.mixed ip hmixed hver
        exact absurd (hsame k hk) hne

end

namespace Sample

/-- `10.0.0.0/8` -/
def network : WString := [0x31, 0x30, 0x2E, 0x30, 0x2E, 0x30, 0x2E, 0x30, 0x2F, 0x38]

/-- `10.0.0.1` -/
def inside : WString := [0x31, 0x30, 0x2E, 0x30, 0x2E, 0x30, 0x2E, 0x31]

/-- `26.0.0.1` -/
def outside : WString := [0x32, 0x36, 0x2E, 0x30, 0x2E, 0x30, 0x2E, 0x31]

end Sample

open ProxyFilter.Sample

theorem setIPNetwork_match_inside :
    (isMatchProxyFilter .latin (setIPNetwork .latin network []).2 inside = true ↔
      InNetwork .IPv4 (10 :: zeros 15) 8 inside) ↔ Judged .latin .IPv4 (10 :: zeros 15) 8 inside :=
  setIPNetwork_match (by decide +kernel) (by decide)

/-- the bits of 10 are all set in 26 -/
theorem setIPNetwork_outside :
    networkOf .latin network = some (.IPv4, 10 :: zeros 15, 8) ∧ alwaysDirect outside = false ∧
    isMatchProxyFilter .latin (setIPNetwork .latin network []).2 outside = true ∧
    ¬ InNetwork .IPv4 (10 :: zeros 15) 8 outside := by
  refine ⟨by decide +kernel, by decide, by decide +kernel, ?_⟩
  rintro ⟨ip, haddress, hsame⟩
  have hread : convertIPStringToChar .latin outside = some (.IPv4, 26 :: 0 :: 0 :: 1 :: zeros 12) := by decide +kernel
  cases haddress with
  | plain hplain =>
    obtain ⟨-, rfl⟩ := Prod.mk.inj (Option.some.inj (hread.symm.trans (hplain.read .latin)))
    exact absurd (hsame 3 (by decide)) (by decide)
  | mixed hmixed _ => exact nomatch hread.symm.trans (hmixed.unread .latin)

end ProxyFilter
end Wkc
