import WkcBrowser.Wtf.Words

/-!
# `ProxyFilter`: the hosts that are not reached through the proxy

A text of filters is taken apart, each of them is tried against four recognisers, and a host is compared with what
they have stored.

* `convertIPStringToChar`      addresses, as 16 bytes;
* `setDomain`, `setIPAddress`, `setIPNetwork`, `setFQDN`   the recognisers;
* `setProxyFilters`, `isMatchProxyFilter`                  the calls;
* `isMatch_network`            how a filter for a network is compared;
* `setProxyFilters_domains`    what filters for domains match.

IDN is off, as in the sources: nothing defines `WKC_ENABLE_I18N_IDN_SUPPORT`.
-/

namespace Wkc
namespace ProxyFilter
open Buf

inductive ProxyFilterType where
  | NONE | FQDN | Domain | IPAddress | IPMask
  deriving DecidableEq

structure Filter where
  type : ProxyFilterType
  filter : WString
  maskd : Bytes := zeros 16
  deriving DecidableEq

def dot : UInt16 := 0x2E
def colon : UInt16 := 0x3A
def bracketed (s : WString) : Bool := [0x5B].isPrefixOf s && [0x5D].isSuffixOf s

/-- without the brackets of an IPv6 address -/
def removeBrackets (s : WString) : WString := if bracketed s then (s.drop 1).take (s.length - 2) else s

/-! ## addresses -/

/-- the macro, on a `char` -/
def CONV (c : UInt8) : UInt8 := (if c &&& 0x10 ≠ 0 then c else c + 9) &&& 0x0F

/-- the digit so many places from the end; 0 if there are not so many -/
def digitAt (part : WString) (back : Nat) : UInt8 :=
  if back ≤ part.length then CONV (part.getD (part.length - back) 0).toUInt8 else 0

/-- `"::"` becomes `":#:"` -/
def markZeros : WString → WString
  | a :: b :: rest => if a = colon ∧ b = colon then colon :: 0x23 :: colon :: markZeros rest else a :: markZeros (b :: rest)
  | s => s

/-- the loop over the parts of an IPv6 address, `i` of `size` of which are done -/
def convertIPv6 (size : Nat) : List WString → Nat → Nat → Bytes → Option Bytes
  | [], _, _, ip => some ip
  | part :: parts, i, pos, ip =>
    if 4 < part.length then none
    else if part = [0x23] then convertIPv6 size parts (i + 1) (8 - (size - i) + 1) ip
    else if part.all isASCII = false then none
    else convertIPv6 size parts (i + 1) (pos + 1)
      ((ip.set (pos * 2) (digitAt part 4 <<< 4 ||| digitAt part 3)).set (pos * 2 + 1)
        (digitAt part 2 <<< 4 ||| digitAt part 1))

section
variable (u : Unicode)

/-- the loop over the parts of an IPv4 address -/
def convertIPv4 : List WString → Option Bytes
  | [] => some []
  | part :: parts => do
    let num ← toInt u part
    if num < 0 ∨ 255 < num then none
    else
      let rest ← convertIPv4 parts
      return UInt8.ofNat num.toNat :: rest

/-- what `convertIPStringToChar` returns if not 0 -/
inductive IPVersion where
  | IPv4 | IPv6
  deriving DecidableEq

def convertIPStringToChar (host : WString) : Option (IPVersion × Bytes) :=
  if host.contains colon then
    let IPs := split colon (markZeros (removeBrackets host))
    if 8 < IPs.length then none
    else (convertIPv6 IPs.length IPs 0 0 (zeros 16)).map (fun ip => (.IPv6, ip))
  else if host.contains dot then
    if host.length < 7 then none
    else
      let IPs := split dot host
      if IPs.length ≠ 4 then none
      else (convertIPv4 u IPs).map (fun ip => (.IPv4, ip ++ zeros 12))
  else none

/-! ## the recognisers -/

def prohibited (c : UInt16) : Bool :=
  [0x21, 0x22, 0x24, 0x25, 0x26, 0x27, 0x28, 0x29, 0x2A, 0x2B, 0x2C, 0x2E, 0x2F, 0x3A, 0x3B, 0x3C, 0x3D, 0x3E, 0x3F,
    0x40, 0x5B, 0x5C, 0x5D, 0x5E, 0x60, 0x7B, 0x7C, 0x7D, 0x7E].contains c.toNat

def hasProhibitCharactor (filter : WString) : Bool :=
  let Parts := split dot filter
  if Parts.length < 2 then true
  else Parts.any (fun part => [0x2D].isPrefixOf part || [0x2D].isSuffixOf part || part.any prohibited)

/-- a filter that is there already is not added again -/
def append (filters : List Filter) (newfilter : Filter) : List Filter :=
  if filters.contains newfilter then filters else filters ++ [newfilter]

/-- The text behind `buf[0]`: `strncpy` copies 510 bytes at most, and ends them only if there are fewer.  `stale` is
what follows on the stack, up to a zero. -/
def copied (stale s : Bytes) : WString :=
  fromLatin1 ((s.take 510 ++ (if s.length < 510 then [0] else stale)).takeWhile (fun b => b ≠ 0))

variable (stale : Bytes)

/-- the trailing full stop stays: the result of `left` is not used -/
def setFQDN (filter : WString) (filters : List Filter) : Bool × List Filter :=
  if filter.contains dot = false then (false, filters)
  else if hasProhibitCharactor filter then (false, filters)
  else
    let buf := copied stale (utf8 filter)
    (true, append (append filters { type := .FQDN, filter := buf }) { type := .Domain, filter := dot :: buf })

/-- here too -/
def setDomain (filter : WString) (filters : List Filter) : Bool × List Filter :=
  if [dot].isPrefixOf filter = false then (false, filters)
  else if hasProhibitCharactor filter then (false, filters)
  else
    let buf := copied stale (utf8 (right filter (filter.length - 1)))
    (true, append (append filters { type := .Domain, filter := dot :: buf }) { type := .FQDN, filter := buf })

def setIPAddress (filter : WString) (filters : List Filter) : Bool × List Filter :=
  if filter.contains 0x2F then (false, filters)
  else
    match convertIPStringToChar u filter with
    | none => (false, filters)
    | some _ => (true, append filters { type := .IPAddress, filter := removeBrackets filter })

/-- the body of the loop that clears what is not of the network -/
def maskByte (mask : Int) (b : UInt8) : UInt8 :=
  if mask < 8 then UInt8.ofNat (b.toNat &&& (0xFF <<< (8 - mask).toNat)) else b

def maskBytes : Int → Bytes → Bytes
  | _, [] => []
  | mask, b :: bs =>
    let mask := if mask < 0 then 0 else mask
    maskByte mask b :: maskBytes (mask - 8) bs

/-- the lengths of networks -/
def allowedMask (ipver : IPVersion) (mask : Int) : Bool :=
  match ipver with
  | .IPv4 => 8 ≤ mask && mask ≤ 32
  | .IPv6 => mask == 48 || mask == 64

/-- the address, and the length of the network -/
def networkOf (filter : WString) : Option (IPVersion × Bytes × Int) :=
  if filter.contains 0x2F = false then none
  else
    match split 0x2F filter with
    | [address, length] => do
      let (ipver, ipaddr) ← convertIPStringToChar u address
      let mask ← toInt u length
      if allowedMask ipver mask then some (ipver, ipaddr, mask) else none
    | _ => none

def setIPNetwork (filter : WString) (filters : List Filter) : Bool × List Filter :=
  match networkOf u filter with
  | none => (false, filters)
  | some (_, ipaddr, mask) => (true, append filters { type := .IPMask, filter := [], maskd := maskBytes mask ipaddr })

/-! ## the calls -/

def setProxyFilter (filters : List Filter) (filter : WString) : List Filter :=
  if filter.contains 0x20 then filters
  else
    match setDomain stale filter filters with
    | (true, filters) => filters
    | (false, filters) =>
      match setIPAddress u filter filters with
      | (true, filters) => filters
      | (false, filters) =>
        match setIPNetwork u filter filters with
        | (true, filters) => filters
        | (false, filters) => (setFQDN stale filter filters).2

/-- the filters of a text -/
def items (filters : WString) : List WString := (split 0x2C (u.lower filters)).map (stripWhiteSpace u)

/-- `none` is the null string -/
def setProxyFilters (filters : Option WString) : List Filter :=
  match filters with
  | none => []
  | some filters => (items u filters).foldl (setProxyFilter u stale) []

/-- the bits of the network are all set in the address -/
def covers (maskd ipaddr : Bytes) : Bool :=
  (List.range 16).all (fun j => ipaddr.getD j 0 &&& maskd.getD j 0 == maskd.getD j 0)

/-- `127.0.0.1` and `localhost` -/
def alwaysDirect (host : WString) : Bool :=
  host == [0x31, 0x32, 0x37, 0x2E, 0x30, 0x2E, 0x30, 0x2E, 0x31] ||
    host == [0x6C, 0x6F, 0x63, 0x61, 0x6C, 0x68, 0x6F, 0x73, 0x74]

def matchesFilter (host : WString) (filter : Filter) : Bool :=
  let lowerHost := if bracketed host then removeBrackets host else u.lower host
  let hostLen := if bracketed host then lowerHost.length else host.length
  match filter.type with
  | .FQDN | .IPAddress => filter.filter == lowerHost
  | .Domain => decide (filter.filter.length < hostLen) && filter.filter == right lowerHost filter.filter.length
  | .IPMask | .NONE =>
    match convertIPStringToChar u host with
    | none => false
    | some (_, ipaddr) => covers filter.maskd ipaddr

def isMatchProxyFilter (filters : List Filter) (host : WString) : Bool :=
  alwaysDirect host || filters.any (matchesFilter u host)

end

/-! ## networks -/

/-- a bit of an address, from the first one on -/
def bit (ip : Bytes) (k : Nat) : Bool := (ip.getD (k / 8) 0).toNat.testBit (7 - k % 8)

theorem maskByte_zero (mask : Int) : maskByte mask 0 = 0 := by
  unfold maskByte
  split <;> simp

theorem maskBytes_getD (bs : Bytes) : ∀ (mask : Int) (j : Nat),
    (maskBytes mask bs).getD j 0 = maskByte (if mask - 8 * j < 0 then 0 else mask - 8 * j) (bs.getD j 0) := by
  induction bs with
  | nil => intro mask j; simp [maskBytes, maskByte_zero]
  | cons b bs ih =>
    intro mask j
    cases j with
    | zero => simp [maskBytes]
    | succ j =>
      have hmask : (if (if mask < 0 then 0 else mask) - 8 - 8 * (j : Int) < 0 then 0
          else (if mask < 0 then 0 else mask) - 8 - 8 * (j : Int))
          = if mask - 8 * ((j + 1 : Nat) : Int) < 0 then 0 else mask - 8 * ((j + 1 : Nat) : Int) := by
        split <;> split <;> omega
      rw [maskBytes]
      simp only [List.getD_cons_succ]
      rw [ih, hmask]

theorem testBit_maskByte {mask : Int} (h : 0 ≤ mask) (b : UInt8) {i : Nat} (hi : i < 8) :
    (maskByte mask b).toNat.testBit (7 - i) = (b.toNat.testBit (7 - i) && decide ((i : Int) < mask)) := by
  unfold maskByte
  split
  · rw [UInt8.toNat_ofNat', Nat.testBit_mod_two_pow, Nat.testBit_and, Nat.testBit_shiftLeft]
    have hff : ∀ n, (0xFF : Nat).testBit n = decide (n < 8) := fun n => Nat.testBit_two_pow_sub_one 8 n
    rw [hff, decide_eq_true (by omega : 7 - i < 8), Bool.true_and]
    congr 1
    rw [Bool.eq_iff_iff]
    simp only [ge_iff_le, Bool.and_eq_true, decide_eq_true_eq]
    omega
  · rw [decide_eq_true (by omega), Bool.and_true]

theorem bit_maskBytes (mask : Int) (bs : Bytes) (k : Nat) :
    bit (maskBytes mask bs) k = (bit bs k && decide ((k : Int) < mask)) := by
  unfold bit
  rw [maskBytes_getD, testBit_maskByte (by split <;> omega) _ (Nat.mod_lt k (by decide))]
  congr 1
  rw [Bool.eq_iff_iff, decide_eq_true_eq, decide_eq_true_eq]
  split <;> omega

theorem and_eq_self (x y : UInt8) :
    x &&& y = y ↔ ∀ i < 8, y.toNat.testBit (7 - i) = true → x.toNat.testBit (7 - i) = true := by
  constructor
  · intro h i _ hy
    have hbit := congrArg (fun z : UInt8 => z.toNat.testBit (7 - i)) h
    simpa [hy] using hbit
  · intro h
    apply UInt8.toNat_inj.mp
    apply Nat.eq_of_testBit_eq
    intro i
    rw [UInt8.toNat_and, Nat.testBit_and]
    rcases Nat.lt_or_ge i 8 with hi | hi
    · have hle := h (7 - i) (by omega)
      rw [Nat.sub_sub_self (by omega)] at hle
      cases hy : y.toNat.testBit i with
      | false => exact Bool.and_false _
      | true => rw [hle hy]; rfl
    · have hy : y.toNat.testBit i = false :=
        Nat.testBit_lt_two_pow (Nat.lt_of_lt_of_le y.toNat_lt (Nat.pow_le_pow_right (by decide) hi))
      rw [hy, Bool.and_false]

theorem covers_iff (maskd ip : Bytes) : covers maskd ip = true ↔ ∀ k < 128, bit maskd k = true → bit ip k = true := by
  unfold covers bit
  simp only [List.all_eq_true, List.mem_range, beq_iff_eq, and_eq_self]
  constructor
  · intro h k hk
    exact h (k / 8) (by omega) (k % 8) (Nat.mod_lt k (by decide))
  · intro h j hj i hi
    have hk := h (8 * j + i) (by omega)
    have hdiv : (8 * j + i) / 8 = j := by omega
    have hmod : (8 * j + i) % 8 = i := by omega
    rw [hdiv, hmod] at hk
    exact hk

theorem covers_maskBytes {mask : Int} (hmask : mask ≤ 128) (a ip : Bytes) :
    covers (maskBytes mask a) ip = true ↔ ∀ k : Nat, (k : Int) < mask → bit a k = true → bit ip k = true := by
  rw [covers_iff]
  constructor
  · intro h k hk ha
    refine h k (by omega) ?_
    rw [bit_maskBytes, ha, decide_eq_true hk]
    rfl
  · intro h k _ hbit
    rw [bit_maskBytes, Bool.and_eq_true, decide_eq_true_eq] at hbit
    exact h k hbit.2 hbit.1

section
variable {u : Unicode}

theorem networkOf_mask {filter : WString} {ipver : IPVersion} {a : Bytes} {mask : Int}
    (h : networkOf u filter = some (ipver, a, mask)) : mask ≤ 128 := by
  unfold networkOf at h
  split at h
  · cases h
  · split at h
    · next address length _ =>
      obtain ⟨⟨ipver', a'⟩, _, h⟩ := Option.bind_eq_some_iff.mp h
      obtain ⟨mask', _, h⟩ := Option.bind_eq_some_iff.mp h
      split at h
      · next hallowed =>
        obtain ⟨rfl, rfl, rfl⟩ : ipver' = ipver ∧ a' = a ∧ mask' = mask := by simpa using h
        cases ipver' with
        | IPv4 =>
          simp only [allowedMask, Bool.and_eq_true, decide_eq_true_eq] at hallowed
          omega
        | IPv6 =>
          simp only [allowedMask, Bool.or_eq_true, beq_iff_eq] at hallowed
          omega
      · cases h
    · cases h

theorem isMatch_network {filter : WString} {ipver : IPVersion} {a : Bytes} {mask : Int}
    (h : networkOf u filter = some (ipver, a, mask)) {host : WString} (hhost : alwaysDirect host = false) :
    isMatchProxyFilter u (setIPNetwork u filter []).2 host = true ↔
      ∃ v ip, convertIPStringToChar u host = some (v, ip) ∧
        ∀ k : Nat, (k : Int) < mask → bit a k = true → bit ip k = true := by
  unfold isMatchProxyFilter setIPNetwork append
  rw [h, hhost]
  simp only [List.contains_nil, Bool.false_eq_true, if_false, List.nil_append, List.any_cons, List.any_nil,
    Bool.or_false, Bool.false_or, matchesFilter]
  cases hconvert : convertIPStringToChar u host with
  | none => simp
  | some p =>
    obtain ⟨v, ip⟩ := p
    simp only [covers_maskBytes (networkOf_mask h)]
    constructor
    · exact fun hcovers => ⟨v, ip, rfl, hcovers⟩
    · rintro ⟨v', ip', heq, hcovers⟩
      obtain ⟨rfl, rfl⟩ := Prod.mk.inj (Option.some.inj heq)
      exact hcovers

end

/-! ## domains -/

/-- `d`, `.d`, `d.` or `.d.` for a dotted name `d` -/
structure DomainFilter where
  name : WString
  leading : Bool
  trailing : Bool
  visible : name.all (fun c => 0x20 < c.toNat && c.toNat < 0x7F) = true
  short : name.length ≤ 253
  allowed : hasProhibitCharactor name = false
  start : [dot].isPrefixOf name = false
  finish : [dot].isSuffixOf name = false

namespace DomainFilter

/-- the name, with its trailing full stop -/
def tail (f : DomainFilter) : WString := f.name ++ (if f.trailing then [dot] else [])

def text (f : DomainFilter) : WString := (if f.leading then [dot] else []) ++ f.tail

theorem split_tail (f : DomainFilter) : split dot f.tail = split dot f.name := by
  unfold tail
  cases f.trailing with
  | true => exact split_snoc f.name
  | false => simp

theorem split_text (f : DomainFilter) : split dot f.text = split dot f.name := by
  rw [← f.split_tail]
  unfold text
  cases f.leading with
  | true => exact split_cons f.tail
  | false => rfl

theorem text_allowed (f : DomainFilter) : hasProhibitCharactor f.text = false := by
  rw [← f.allowed, hasProhibitCharactor, hasProhibitCharactor, f.split_text]

theorem two_parts (f : DomainFilter) : 2 ≤ (split dot f.name).length := by
  by_contra hfew
  have hall := f.allowed
  rw [hasProhibitCharactor, if_pos (by omega)] at hall
  cases hall

theorem dotted (f : DomainFilter) : dot ∈ f.name := by
  have htwo := f.two_parts
  by_contra hnone
  by_cases hempty : f.name = []
  · rw [hempty, split_nil] at htwo
    simp at htwo
  · rw [split_word hnone hempty] at htwo
    simp at htwo

theorem ne_nil (f : DomainFilter) : f.name ≠ [] := List.ne_nil_of_mem f.dotted

theorem not_mem_text (f : DomainFilter) {c : UInt16} (hc : prohibited c = true) (hdot : c ≠ dot) : c ∉ f.text := by
  intro hmem
  obtain ⟨word, hword, hin⟩ := split_mem hmem hdot
  have hall := f.text_allowed
  rw [hasProhibitCharactor] at hall
  split at hall
  · cases hall
  · have hpart := List.any_eq_false.mp hall word hword
    simp only [Bool.or_eq_true, not_or, Bool.not_eq_true] at hpart
    exact List.any_eq_false.mp hpart.2 c hin hc

theorem visible_tail (f : DomainFilter) : ∀ c ∈ f.tail, 0x20 < c.toNat ∧ c.toNat < 0x7F := by
  intro c hc
  rcases List.mem_append.mp hc with hc | hc
  · have hvisible := List.all_eq_true.mp f.visible c hc
    simpa using hvisible
  · have hdot : c = dot := by
      split at hc
      · simpa using hc
      · cases hc
    rw [hdot]
    decide

theorem no_blank (f : DomainFilter) : f.text.contains 0x20 = false := by
  rw [List.contains_eq_mem, decide_eq_false_iff_not]
  intro hmem
  rcases List.mem_append.mp hmem with h | h
  · split at h
    · exact absurd (List.mem_singleton.mp h) (by decide)
    · cases h
  · exact absurd (f.visible_tail _ h).1 (by decide)

theorem copied_tail (f : DomainFilter) (stale : Bytes) : copied stale (utf8 f.tail) = f.tail := by
  have hascii : f.tail.all isASCII = true := by
    rw [List.all_eq_true]
    intro c hc
    exact decide_eq_true (Nat.lt_trans (f.visible_tail c hc).2 (by decide))
  have hlength : (f.tail.map UInt16.toUInt8).length < 510 := by
    have hshort := f.short
    rw [List.length_map, tail, List.length_append]
    split <;> simp <;> omega
  have hzero : ∀ b ∈ f.tail.map UInt16.toUInt8, decide (b ≠ 0) = true := by
    intro b hb
    obtain ⟨c, hc, rfl⟩ := List.mem_map.mp hb
    have hvisible := f.visible_tail c hc
    refine decide_eq_true (fun heq => ?_)
    have hnat : c.toNat % 2 ^ 8 = 0 := congrArg UInt8.toNat heq
    omega
  rw [copied, utf8_ascii hascii, List.take_of_length_le (by omega), if_pos hlength, List.takeWhile_append_of_pos hzero]
  simp [fromLatin1_ascii hascii]

/-- without a leading full stop, a name of four parts that begin with numbers is taken for an address -/
def taken (f : DomainFilter) (u : Unicode) : Bool := !f.leading && (convertIPStringToChar u f.text).isSome

/-- what the filter stores -/
def fqdn (f : DomainFilter) : Filter := { type := .FQDN, filter := f.tail }

def domain (f : DomainFilter) : Filter := { type := .Domain, filter := dot :: f.tail }

def address (f : DomainFilter) : Filter := { type := .IPAddress, filter := f.tail }

def stored (f : DomainFilter) (u : Unicode) : List Filter :=
  if f.leading then [f.domain, f.fqdn] else if f.taken u then [f.address] else [f.fqdn, f.domain]

theorem no_slash (f : DomainFilter) : f.text.contains 0x2F = false := by
  rw [List.contains_eq_mem, decide_eq_false_iff_not]
  exact f.not_mem_text (by decide) (by decide)

theorem setIPNetwork_skips (f : DomainFilter) (u : Unicode) (filters : List Filter) :
    setIPNetwork u f.text filters = (false, filters) := by
  rw [setIPNetwork, networkOf, f.no_slash]
  rfl

theorem setDomain_leading {f : DomainFilter} (hleading : f.leading = true) (stale : Bytes) (filters : List Filter) :
    setDomain stale f.text filters = (true, append (append filters f.domain) f.fqdn) := by
  have htext : f.text = dot :: f.tail := by rw [text, hleading]; rfl
  have hright : right (dot :: f.tail) ((dot :: f.tail).length - 1) = f.tail := by simp [right]
  rw [setDomain, f.text_allowed, htext, hright, f.copied_tail]
  simp [fqdn, domain]

section
variable {f : DomainFilter} (hleading : f.leading = false)
include hleading

theorem text_eq_tail : f.text = f.tail := by rw [text, hleading]; rfl

theorem setDomain_skips (stale : Bytes) (filters : List Filter) :
    setDomain stale f.text filters = (false, filters) := by
  have hstart : [dot].isPrefixOf f.text = false := by
    rw [text_eq_tail hleading, tail]
    cases hname : f.name with
    | nil => exact absurd hname f.ne_nil
    | cons c rest =>
      have hstart := f.start
      rw [hname] at hstart
      exact hstart
  rw [setDomain, if_pos hstart]

theorem setIPAddress_eq (u : Unicode) (filters : List Filter) :
    setIPAddress u f.text filters = if f.taken u then (true, append filters f.address) else (false, filters) := by
  have hbracketed : bracketed f.text = false := by
    have hopen : (0x5B : UInt16) ∉ f.text := f.not_mem_text (by decide) (by decide)
    cases htext : f.text with
    | nil => rfl
    | cons c rest =>
      rw [htext] at hopen
      have hc : ((0x5B : UInt16) == c) = false := beq_false_of_ne (fun heq => hopen (heq ▸ List.mem_cons_self))
      simp [bracketed, List.isPrefixOf, hc]
  have hfilter : removeBrackets f.text = f.tail := by
    rw [removeBrackets, hbracketed, text_eq_tail hleading]
    rfl
  unfold setIPAddress taken
  rw [f.no_slash, hleading, hfilter]
  cases convertIPStringToChar u f.text with
  | none | some => rfl

theorem setFQDN_stores (stale : Bytes) (filters : List Filter) :
    setFQDN stale f.text filters = (true, append (append filters f.fqdn) f.domain) := by
  have hdot : f.text.contains dot = true := by
    rw [List.contains_eq_mem, decide_eq_true_eq, text_eq_tail hleading]
    exact List.mem_append_left _ f.dotted
  rw [setFQDN, hdot, f.text_allowed, text_eq_tail hleading, f.copied_tail]
  simp [fqdn, domain]

end

theorem setProxyFilter_eq (f : DomainFilter) (u : Unicode) (stale : Bytes) (filters : List Filter) :
    setProxyFilter u stale filters f.text = (f.stored u).foldl append filters := by
  unfold setProxyFilter stored
  rw [f.no_blank, if_neg Bool.false_ne_true]
  cases hleading : f.leading with
  | true => rw [setDomain_leading hleading]; rfl
  | false =>
    simp only [setDomain_skips hleading, setIPAddress_eq hleading, f.setIPNetwork_skips, setFQDN_stores hleading]
    cases f.taken u <;> rfl

end DomainFilter

theorem mem_append {filters : List Filter} {newfilter x : Filter} :
    x ∈ append filters newfilter ↔ x ∈ filters ∨ x = newfilter := by
  unfold append
  split
  · next hcontains =>
    have hmem : newfilter ∈ filters := by simpa using hcontains
    constructor
    · exact .inl
    · rintro (h | rfl)
      · exact h
      · exact hmem
  · simp

theorem mem_foldl_append {x : Filter} (new : List Filter) :
    ∀ filters, x ∈ new.foldl append filters ↔ x ∈ filters ∨ x ∈ new := by
  induction new with
  | nil => simp
  | cons newfilter new ih =>
    intro filters
    rw [List.foldl_cons, ih, mem_append, List.mem_cons, or_assoc]

theorem mem_setProxyFilters (u : Unicode) (stale : Bytes) {x : Filter} (F : List DomainFilter) :
    ∀ filters, x ∈ (F.map DomainFilter.text).foldl (setProxyFilter u stale) filters ↔
      x ∈ filters ∨ ∃ f ∈ F, x ∈ f.stored u := by
  induction F with
  | nil => simp
  | cons f F ih =>
    intro filters
    rw [List.map_cons, List.foldl_cons, ih, f.setProxyFilter_eq, mem_foldl_append]
    simp only [List.mem_cons, exists_eq_or_imp, or_assoc]

/-- a name of a host, rather than an address in brackets -/
structure HostName (host : WString) : Prop where
  ascii : host.all isASCII = true
  name : bracketed host = false

/-- the host, or a host below it -/
def Covers (name host : WString) : Prop := host = name ∨ (dot :: name) <:+ host

/-- what is compared: an address only as a whole, and a domain not with itself -/
def Reaches (taken : Bool) (name host : WString) : Prop :=
  host = name ∨ taken = false ∧ (dot :: name) <:+ host ∧ host ≠ dot :: name

theorem Reaches.covers {taken : Bool} {name host : WString} (h : Reaches taken name host) : Covers name host :=
  h.imp id (fun h => h.2.1)

theorem eq_right_iff {t x : WString} (h : t.length ≤ x.length) : t = right x t.length ↔ t <:+ x := by
  rw [right, if_pos h, List.suffix_iff_eq_drop]

section
variable {u : Unicode} {host : WString}

theorem HostName.length_lower (h : HostName host) : (u.lower host).length = host.length := by
  rw [u.lower_ascii host h.ascii, List.length_map]

theorem HostName.matches_whole (h : HostName host) {filter : Filter}
    (htype : filter.type = .FQDN ∨ filter.type = .IPAddress) :
    matchesFilter u host filter = true ↔ u.lower host = filter.filter := by
  unfold matchesFilter
  rw [h.name]
  have hcomm : filter.filter = u.lower host ↔ u.lower host = filter.filter := eq_comm
  rcases htype with htype | htype <;> simp [htype, hcomm]

theorem HostName.matches_domain (h : HostName host) (f : DomainFilter) :
    matchesFilter u host f.domain = true ↔ (dot :: f.tail) <:+ u.lower host ∧ u.lower host ≠ dot :: f.tail := by
  unfold matchesFilter
  rw [h.name]
  simp only [DomainFilter.domain, Bool.false_eq_true, if_false, Bool.and_eq_true, decide_eq_true_eq, beq_iff_eq]
  rw [← h.length_lower (u := u)]
  constructor
  · rintro ⟨hlt, heq⟩
    exact ⟨(eq_right_iff (Nat.le_of_lt hlt)).mp heq, fun hwhole => by rw [hwhole] at hlt; exact Nat.lt_irrefl _ hlt⟩
  · rintro ⟨hsuffix, hne⟩
    refine ⟨Nat.lt_of_le_of_ne hsuffix.length_le (fun hlen => hne (hsuffix.eq_of_length hlen).symm), ?_⟩
    exact (eq_right_iff hsuffix.length_le).mpr hsuffix

theorem HostName.matches_stored (h : HostName host) (f : DomainFilter) :
    (∃ x ∈ f.stored u, matchesFilter u host x = true) ↔ Reaches (f.taken u) f.tail (u.lower host) := by
  have hfqdn : matchesFilter u host f.fqdn = true ↔ u.lower host = f.tail := h.matches_whole (.inl rfl)
  have haddress : matchesFilter u host f.address = true ↔ u.lower host = f.tail := h.matches_whole (.inr rfl)
  have hdomain := h.matches_domain (u := u) f
  have hleading : f.leading = true → f.taken u = false := fun hleading => by simp [DomainFilter.taken, hleading]
  unfold DomainFilter.stored Reaches
  split
  · next hl =>
    simp only [List.mem_cons, List.not_mem_nil, or_false, exists_eq_or_imp, exists_eq_left, hfqdn, hdomain, hleading hl,
      true_and]
    exact or_comm
  · split
    · next htaken => simp [haddress, htaken]
    · next htaken => simp [hfqdn, hdomain, htaken]

theorem HostName.isMatch (h : HostName host) {stale : Bytes} {filters : WString} {F : List DomainFilter}
    (hitems : items u filters = F.map DomainFilter.text) :
    isMatchProxyFilter u (setProxyFilters u stale (some filters)) host = true ↔
      alwaysDirect host = true ∨ ∃ f ∈ F, Reaches (f.taken u) f.tail (u.lower host) := by
  rw [isMatchProxyFilter, setProxyFilters, hitems, Bool.or_eq_true, List.any_eq_true]
  simp only [mem_setProxyFilters, List.not_mem_nil, false_or, ← h.matches_stored]
  constructor
  · rintro (halways | ⟨x, ⟨f, hf, hx⟩, hmatch⟩)
    · exact .inl halways
    · exact .inr ⟨f, hf, x, hx, hmatch⟩
  · rintro (halways | ⟨f, hf, x, hx, hmatch⟩)
    · exact .inl halways
    · exact .inr ⟨x, ⟨f, hf, hx⟩, hmatch⟩

end

/-! a full stop at the end of a host -/

def chop (host : WString) : WString := if [dot].isSuffixOf host then host.dropLast else host

theorem chop_snoc (y : WString) : chop (y ++ [dot]) = y := by
  have hend : [dot].isSuffixOf (y ++ [dot]) = true := List.isSuffixOf_iff_suffix.mpr (List.suffix_append y [dot])
  rw [chop, if_pos hend, List.dropLast_concat]

theorem suffix_snoc {t y : WString} : (t ++ [dot]) <:+ (y ++ [dot]) ↔ t <:+ y := by
  constructor
  · rintro ⟨r, hr⟩
    rw [← List.append_assoc] at hr
    exact ⟨r, List.append_cancel_right hr⟩
  · rintro ⟨r, rfl⟩
    exact ⟨r, by rw [List.append_assoc]⟩

theorem reaches_snoc {taken : Bool} {name y : WString} :
    Reaches taken (name ++ [dot]) (y ++ [dot]) ↔ Reaches taken name y := by
  unfold Reaches
  rw [← List.cons_append, suffix_snoc]
  simp only [ne_eq, List.append_left_inj]

theorem Covers.ends {name host : WString} (h : Covers (name ++ [dot]) host) : ∃ y, host = y ++ [dot] := by
  rcases h with rfl | ⟨r, rfl⟩
  · exact ⟨name, rfl⟩
  · exact ⟨r ++ dot :: name, by simp⟩

theorem DomainFilter.not_covers_snoc (f : DomainFilter) (y : WString) : ¬ Covers f.name (y ++ [dot]) := by
  intro h
  have hsuffix : f.name <:+ y ++ [dot] := by
    rcases h with heq | ⟨r, heq⟩
    · exact heq ▸ List.suffix_refl _
    · exact ⟨r ++ [dot], by rw [← heq]; simp⟩
  obtain ⟨r, hr⟩ := hsuffix
  obtain ⟨front, c, hname⟩ := List.eq_nil_or_concat f.name |>.resolve_left f.ne_nil
  rw [hname, List.concat_eq_append, ← List.append_assoc] at hr
  obtain ⟨-, hc⟩ := List.append_inj' hr rfl
  have hfinish := f.finish
  rw [hname, List.concat_eq_append, hc] at hfinish
  rw [List.isSuffixOf_iff_suffix.mpr (List.suffix_append front [dot])] at hfinish
  cases hfinish

theorem DomainFilter.tail_trailing {f : DomainFilter} (h : f.trailing = true) : f.tail = f.name ++ [dot] := by
  rw [tail, if_pos h]

theorem DomainFilter.tail_plain {f : DomainFilter} (h : f.trailing = false) : f.tail = f.name := by
  rw [tail, h, if_neg Bool.false_ne_true, List.append_nil]

theorem DomainFilter.reaches_snoc (f : DomainFilter) {taken : Bool} {y : WString} :
    Reaches taken f.tail (y ++ [dot]) ↔ f.trailing = true ∧ Reaches taken f.name y := by
  cases h : f.trailing with
  | true =>
    rw [f.tail_trailing h, ProxyFilter.reaches_snoc]
    exact ⟨fun hreaches => ⟨rfl, hreaches⟩, fun hreaches => hreaches.2⟩
  | false =>
    rw [f.tail_plain h]
    exact ⟨fun hreaches => absurd hreaches.covers (f.not_covers_snoc y), fun hreaches => nomatch hreaches.1⟩

theorem DomainFilter.reaches_plain (f : DomainFilter) {taken : Bool} {x : WString} (hx : ¬ ∃ y, x = y ++ [dot]) :
    Reaches taken f.tail x ↔ f.trailing = false ∧ Reaches taken f.name x := by
  cases h : f.trailing with
  | true =>
    rw [f.tail_trailing h]
    exact ⟨fun hreaches => absurd hreaches.covers.ends hx, fun hreaches => nomatch hreaches.1⟩
  | false =>
    rw [f.tail_plain h]
    exact ⟨fun hreaches => ⟨rfl, hreaches⟩, fun hreaches => hreaches.2⟩

theorem chop_plain {x : WString} (hx : ¬ ∃ y, x = y ++ [dot]) : chop x = x := by
  rw [chop, if_neg]
  intro hend
  obtain ⟨y, hy⟩ := List.isSuffixOf_iff_suffix.mp hend
  exact hx ⟨y, hy.symm⟩

/-- **Filters for domains** match a host that is one of the domains or below one exactly as long as one of them that
has no trailing full stop reaches it, or it is in none of the domains and, without a full stop at its end, is reached
by none that has one. -/
theorem setProxyFilters_domains {u : Unicode} {stale : Bytes} {filters : WString} {F : List DomainFilter}
    (hitems : items u filters = F.map DomainFilter.text) {host : WString} (hhost : HostName host) :
    (isMatchProxyFilter u (setProxyFilters u stale (some filters)) host = true ↔
        alwaysDirect host = true ∨ ∃ f ∈ F, Covers f.name (u.lower host)) ↔
      alwaysDirect host = true ∨
      (∃ f ∈ F, f.trailing = false ∧ Reaches (f.taken u) f.name (u.lower host)) ∨
      ∀ f ∈ F, ¬ Covers f.name (u.lower host) ∧
        (f.trailing = true → ¬ Reaches (f.taken u) f.name (chop (u.lower host))) := by
  rw [hhost.isMatch hitems]
  cases alwaysDirect host with
  | true => simp
  | false =>
    simp only [Bool.false_eq_true, false_or]
    generalize u.lower host = x
    by_cases hdot : ∃ y, x = y ++ [dot]
    · -- no domain covers the host
      obtain ⟨y, rfl⟩ := hdot
      simp only [chop_snoc, DomainFilter.reaches_snoc]
      constructor
      · intro hiff
        refine .inr (fun f hf => ⟨f.not_covers_snoc y, fun htrailing hreaches => ?_⟩)
        obtain ⟨g, _, hcovers⟩ := hiff.mp ⟨f, hf, htrailing, hreaches⟩
        exact g.not_covers_snoc y hcovers
      · rintro (⟨f, _, _, hreaches⟩ | hnone)
        · exact absurd hreaches.covers (f.not_covers_snoc y)
        · constructor
          · rintro ⟨f, hf, htrailing, hreaches⟩
            exact absurd hreaches ((hnone f hf).2 htrailing)
          · rintro ⟨f, _, hcovers⟩
            exact absurd hcovers (f.not_covers_snoc y)
    · -- filters with a full stop at their end do not reach the host
      simp only [chop_plain hdot, DomainFilter.reaches_plain _ hdot]
      constructor
      · intro hiff
        by_cases hsome : ∃ f ∈ F, f.trailing = false ∧ Reaches (f.taken u) f.name x
        · exact .inl hsome
        · refine .inr (fun f hf => ?_)
          have hnot : ¬ Covers f.name x := fun hcovers => hsome (hiff.mpr ⟨f, hf, hcovers⟩)
          exact ⟨hnot, fun _ hreaches => hnot hreaches.covers⟩
      · rintro (⟨f, hf, hreaches⟩ | hnone)
        · exact ⟨fun _ => ⟨f, hf, hreaches.2.covers⟩, fun _ => ⟨f, hf, hreaches⟩⟩
        · constructor
          · rintro ⟨f, hf, _, hreaches⟩
            exact ⟨f, hf, hreaches.covers⟩
          · rintro ⟨f, hf, hcovers⟩
            exact absurd hcovers (hnone f hf).1

namespace Sample

/-- `a.b` -/
def name : WString := [0x61, 0x2E, 0x62]

def domainFilter (leading trailing : Bool) : DomainFilter where
  name := name
  leading := leading
  trailing := trailing
  visible := by decide
  short := by decide
  allowed := by decide
  start := by decide
  finish := by decide

end Sample

open ProxyFilter.Sample

theorem setProxyFilters_domains_below :
    (isMatchProxyFilter .latin (setProxyFilters .latin [] (some (dot :: name))) (0x63 :: dot :: name) = true ↔
        alwaysDirect (0x63 :: dot :: name) = true ∨
          ∃ f ∈ [domainFilter true false], Covers f.name (Unicode.latin.lower (0x63 :: dot :: name))) ↔
      alwaysDirect (0x63 :: dot :: name) = true ∨
      (∃ f ∈ [domainFilter true false],
        f.trailing = false ∧ Reaches (f.taken .latin) f.name (Unicode.latin.lower (0x63 :: dot :: name))) ∨
      ∀ f ∈ [domainFilter true false], ¬ Covers f.name (Unicode.latin.lower (0x63 :: dot :: name)) ∧
        (f.trailing = true →
          ¬ Reaches (f.taken .latin) f.name (chop (Unicode.latin.lower (0x63 :: dot :: name)))) :=
  setProxyFilters_domains (by decide) ⟨by decide, by decide⟩

/-- `a.b.` does not match `a.b` -/
theorem setProxyFilters_domains_trailing :
    items .latin (name ++ [dot]) = [domainFilter false true].map DomainFilter.text ∧ HostName name ∧
    isMatchProxyFilter .latin (setProxyFilters .latin [] (some (name ++ [dot]))) name = false ∧
    Covers (domainFilter false true).name (Unicode.latin.lower name) :=
  ⟨by decide, ⟨by decide, by decide⟩, by decide +kernel, .inl (by decide)⟩

end ProxyFilter
end Wkc
