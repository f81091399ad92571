import WkcBrowser.Net.Cookies

/-!
# The cookies of a URL as a text for the application (`WKCWebKitCookieGet`)

* `writeCookie`, `getCookies`   one turn of the loop and the loop; a write outside the buffer is `none`;
* `WKCWebKitCookieGet`          the call, with the list that `getRawCookies` has left;
* `fitting`                     the cookies that go into a buffer;
* `cookieGet_text`              the answer and the buffer, for all lists and all buffers.
-/

namespace Wkc.CookieText
open Buf

/-- The name and the value in UTF-8; they were C strings. -/
structure Cookie where
  name : Bytes
  value : Bytes
  name_noNul : 0 ∉ name
  value_noNul : 0 ∉ value
  deriving DecidableEq

/-- `name=value`, and the `;` or the NUL -/
def Cookie.size (c : Cookie) : Nat := c.name.length + c.value.length + 2

def totalSize (cookies : List Cookie) : Nat := (cookies.map Cookie.size).sum

/-- What `getRawCookies` leaves: the names and values lie in memory with their NULs, and once more in the jar. -/
structure RawCookies where
  list : List Cookie
  inMemory : totalSize list < 2 ^ 31

def strncpy (src : Bytes) (n : Nat) : Bytes :=
  ((src.take n).takeWhile (fun b => b != 0)) ++ List.replicate (n - ((src.take n).takeWhile (fun b => b != 0)).length) 0

/-- `pbuf`: the buffer, and how far it is written -/
structure Out where
  buf : Bytes
  pos : Nat
  deriving DecidableEq

structure State where
  out : Option Out
  remaining_buf_len : Nat
  cookies_len : Nat := 0
  deriving DecidableEq

/-- what the loop does to the buffer with a cookie that fits -/
def writeCookie (c : Cookie) (o : Out) (remaining : Nat) : Option (Out × Nat) := do
  let name_len := c.name.length
  let value_len := c.value.length
  let buf ← store o.buf o.pos (strncpy c.name name_len)
  let buf ← store buf (o.pos + name_len) [0x3D]
  let pos := o.pos + (name_len + 1)
  let remaining := minus remaining (name_len + 1)
  let (buf, pos, remaining) ←
    if 0 < value_len then do
      let buf ← store buf pos (strncpy c.value value_len)
      pure (buf, pos + value_len, minus remaining value_len)
    else pure (buf, pos, remaining)
  let buf ← store buf pos [0x3B]
  pure (⟨buf, pos + 1⟩, minus remaining 1)

def getCookies : List Cookie → State → Option State
  | [], s => some s
  | c :: rest, s =>
    let cookie_len := (c.name.length + c.value.length + 2) % 2 ^ 32
    if c.name.length = 0 then getCookies rest s
    else
      let cookies_len := (s.cookies_len + cookie_len) % 2 ^ 32
      match s.out with
      | none => getCookies rest { s with cookies_len := cookies_len }
      | some o =>
        if s.remaining_buf_len < cookie_len then some { s with cookies_len := cookies_len }
        else do
          let (o, remaining) ← writeCookie c o s.remaining_buf_len
          getCookies rest ⟨some o, remaining, cookies_len⟩

/-- the answer, and the buffer -/
def WKCWebKitCookieGet (rawCookies : Option (List Cookie)) (buf : Option Bytes) (len : Nat) :
    Option (Int × Option Bytes) :=
  match rawCookies with
  | none => some (0, buf)
  | some rawCookiesList => do
    let s ← getCookies rawCookiesList ⟨buf.map fun buf => ⟨buf, 0⟩, len, 0⟩
    match s.out with
    | none => some (asInt32 s.cookies_len, none)
    | some o =>
      if 0 < o.pos then do
        let buf ← store o.buf (o.pos - 1) [0]
        some (asInt32 (o.pos - 1), some buf)
      else some (asInt32 o.pos, some o.buf)

/-! ## what is meant -/

def named (cookies : List Cookie) : List Cookie := cookies.filter fun c => !c.name.isEmpty

def Cookie.text (c : Cookie) : Bytes := c.name ++ 0x3D :: c.value

def text (cookies : List Cookie) : Bytes := List.intercalate [0x3B] (cookies.map Cookie.text)

/-- those that go into the buffer, from the first one on -/
def fitting : Nat → List Cookie → List Cookie
  | _, [] => []
  | len, c :: cookies => if c.size ≤ len then c :: fitting (len - c.size) cookies else []

theorem totalSize_cons (c : Cookie) (cookies : List Cookie) : totalSize (c :: cookies) = c.size + totalSize cookies := by
  simp [totalSize]

theorem totalSize_append (a b : List Cookie) : totalSize (a ++ b) = totalSize a + totalSize b := by
  simp [totalSize]

theorem totalSize_named (cookies : List Cookie) : totalSize (named cookies) ≤ totalSize cookies := by
  induction cookies with
  | nil => exact Nat.le_refl _
  | cons c cookies ih =>
    rw [named, List.filter_cons, totalSize_cons]
    split
    · rw [totalSize_cons]
      exact Nat.add_le_add_left ih _
    · exact Nat.le_trans ih (Nat.le_add_left _ _)

theorem named_cons_empty {c : Cookie} (h : c.name.length = 0) (cookies : List Cookie) :
    named (c :: cookies) = named cookies := by
  have hnil := List.length_eq_zero_iff.mp h
  simp [named, hnil]

theorem named_cons {c : Cookie} (h : ¬ c.name.length = 0) (cookies : List Cookie) :
    named (c :: cookies) = c :: named cookies := by
  have hne : c.name ≠ [] := fun hnil => h (by rw [hnil]; rfl)
  simp [named, hne]

theorem fitting_front (len : Nat) (cookies : List Cookie) : fitting len cookies <+: cookies := by
  induction cookies generalizing len with
  | nil => exact List.prefix_rfl
  | cons c cookies ih =>
    rw [fitting]
    split
    · exact List.cons_prefix_cons.mpr ⟨rfl, ih _⟩
    · exact List.nil_prefix

theorem fitting_size (len : Nat) (cookies : List Cookie) : totalSize (fitting len cookies) ≤ len := by
  induction cookies generalizing len with
  | nil => exact Nat.zero_le _
  | cons c cookies ih =>
    rw [fitting]
    split
    · have hrest := ih (len - c.size)
      rw [totalSize_cons]
      omega
    · exact Nat.zero_le _

theorem fitting_longest {len : Nat} {cookies pre : List Cookie} (hpre : pre <+: cookies) (hsize : totalSize pre ≤ len) :
    pre <+: fitting len cookies := by
  induction cookies generalizing len pre with
  | nil => exact hpre
  | cons c cookies ih =>
    cases pre with
    | nil => exact List.nil_prefix
    | cons d pre =>
      obtain ⟨rfl, hrest⟩ := List.cons_prefix_cons.mp hpre
      rw [totalSize_cons] at hsize
      rw [fitting, if_pos (by omega)]
      exact List.cons_prefix_cons.mpr ⟨rfl, ih hrest (by omega)⟩

/-! ## the loop -/

theorem getCookies_none (cookies : List Cookie) {len n : Nat} (h : n + totalSize cookies < 2 ^ 31) :
    getCookies cookies ⟨none, len, n⟩ = some ⟨none, len, n + totalSize (named cookies)⟩ := by
  induction cookies generalizing n with
  | nil => rfl
  | cons c cookies ih =>
    rw [totalSize_cons] at h
    rw [getCookies]
    dsimp only
    by_cases hname : c.name.length = 0
    · rw [if_pos hname, named_cons_empty hname, ih (by omega)]
    · have hsum : (n + (c.name.length + c.value.length + 2) % 2 ^ 32) % 2 ^ 32 = n + c.size := by
        unfold Cookie.size at *
        omega
      rw [if_neg hname, named_cons hname, hsum, ih (by omega), totalSize_cons, Nat.add_assoc]

theorem strncpy_eq {src : Bytes} (h : 0 ∉ src) : strncpy src src.length = src := by
  have hall : src.takeWhile (fun b => b != 0) = src := by
    rw [List.takeWhile_eq_self_iff]
    intro b hb
    simpa using fun hzero : b = 0 => h (hzero ▸ hb)
  rw [strncpy, List.take_length, hall]
  simp

theorem store_behind (done rest bs : Bytes) (pos : Nat) (hpos : pos = done.length) (h : bs.length ≤ rest.length) :
    store (done ++ rest) pos bs = some ((done ++ bs) ++ rest.drop bs.length) := by
  rw [hpos, CookieJar.store_next _ _ _ h]

theorem writeCookie_eq (c : Cookie) (done rest : Bytes) {remaining : Nat} (hfits : c.size ≤ remaining)
    (hroom : c.size ≤ rest.length) (hlen : remaining < 2 ^ 32) :
    writeCookie c ⟨done ++ rest, done.length⟩ remaining =
      some (⟨(done ++ (c.text ++ [0x3B])) ++ rest.drop c.size, done.length + c.size⟩, remaining - c.size) := by
  have hsize : c.size = c.name.length + c.value.length + 2 := rfl
  have hname := store_behind done rest c.name done.length rfl (by omega)
  have hequals := store_behind (done ++ c.name) (rest.drop c.name.length) [0x3D] (done.length + c.name.length)
    List.length_append.symm (by simp; omega)
  have hvalue := store_behind (done ++ c.name ++ [0x3D]) ((rest.drop c.name.length).drop 1) c.value
    (done.length + (c.name.length + 1)) (by simp) (by simp; omega)
  have hdrop : (((rest.drop c.name.length).drop 1).drop c.value.length).drop 1 = rest.drop c.size := by
    rw [List.drop_drop, List.drop_drop, List.drop_drop]
    congr 1
    omega
  have hend := store_behind (done ++ c.name ++ [0x3D] ++ c.value) (((rest.drop c.name.length).drop 1).drop c.value.length)
    [0x3B] (done.length + (c.name.length + 1) + c.value.length) (by simp; omega) (by simp; omega)
  have hfirst : minus remaining (c.name.length + 1) = remaining - (c.name.length + 1) := minus_eq (by omega) hlen
  have hsecond : minus (remaining - (c.name.length + 1)) c.value.length =
      remaining - (c.name.length + 1) - c.value.length := minus_eq (by omega) (by omega)
  have hthird : minus (remaining - (c.name.length + 1) - c.value.length) 1 = remaining - c.size := by
    rw [minus_eq (by omega) (by omega)]
    omega
  have htext : done ++ c.name ++ [0x3D] ++ c.value ++ [0x3B] ++
      ((((rest.drop c.name.length).drop 1).drop c.value.length).drop 1) =
        done ++ (c.text ++ [0x3B]) ++ rest.drop c.size := by
    rw [hdrop]
    simp [Cookie.text]
  have hpos : done.length + (c.name.length + 1) + c.value.length + 1 = done.length + c.size := by omega
  rw [writeCookie]
  simp only [strncpy_eq c.name_noNul, strncpy_eq c.value_noNul, hname, Option.bind_eq_bind, Option.bind_some]
  rw [hequals]
  simp only [hfirst, Option.bind_some]
  split
  · simp only [List.length_singleton, hvalue, Option.bind_some, Option.pure_def, hsecond, hend, htext, hpos, hthird]
  · rename_i hnone
    have hzero : c.value.length = 0 := Nat.eq_zero_of_not_pos hnone
    have hnil : c.value = [] := List.length_eq_zero_iff.mp hzero
    rw [hnil] at hend htext hsecond hthird hpos
    simp only [List.append_nil, List.length_nil, List.drop_zero, Nat.add_zero, Nat.sub_zero] at hend htext hthird hpos
    simp only [List.length_singleton, Option.pure_def, Option.bind_some, hend, htext, hpos, hthird]

theorem getCookies_some (cookies : List Cookie) (done rest : Bytes) {len n : Nat} (hlen : len < 2 ^ 32)
    (hroom : len ≤ rest.length) (h : n + totalSize cookies < 2 ^ 31) :
    ∃ remaining m, getCookies cookies ⟨some ⟨done ++ rest, done.length⟩, len, n⟩ =
      some ⟨some ⟨done ++ (fitting len (named cookies)).flatMap (fun c => c.text ++ [0x3B]) ++
          rest.drop (totalSize (fitting len (named cookies))),
        done.length + totalSize (fitting len (named cookies))⟩, remaining, m⟩ := by
  induction cookies generalizing done rest len n with
  | nil => exact ⟨len, n, by simp [getCookies, named, fitting, totalSize]⟩
  | cons c cookies ih =>
    rw [totalSize_cons] at h
    rw [getCookies]
    dsimp only
    by_cases hname : c.name.length = 0
    · rw [if_pos hname, named_cons_empty hname]
      exact ih done rest hlen hroom (by omega)
    · have hwords : (c.name.length + c.value.length + 2) % 2 ^ 32 = c.size := by
        unfold Cookie.size at *
        omega
      rw [if_neg hname, hwords, named_cons hname, fitting]
      by_cases hfits : c.size ≤ len
      · rw [if_neg (Nat.not_lt.mpr hfits), if_pos hfits, writeCookie_eq c done rest hfits (by omega) hlen]
        have hdone : done.length + c.size = (done ++ (c.text ++ [0x3B])).length := by
          simp [Cookie.text, Cookie.size]
          omega
        have hmod : (n + c.size) % 2 ^ 32 = n + c.size := by omega
        obtain ⟨remaining, m, heq⟩ := ih (done ++ (c.text ++ [0x3B])) (rest.drop c.size)
          (show len - c.size < 2 ^ 32 by omega) (by rw [List.length_drop]; omega)
          (show n + c.size + totalSize cookies < 2 ^ 31 by omega)
        refine ⟨remaining, m, ?_⟩
        simp only [Option.bind_eq_bind, Option.bind_some, hmod]
        rw [hdone, heq, ← hdone, totalSize_cons, List.flatMap_cons, List.drop_drop, List.append_assoc done,
          Nat.add_assoc]
      · rw [if_pos (Nat.not_le.mp hfits), if_neg hfits]
        refine ⟨len, (n + c.size) % 2 ^ 32, ?_⟩
        simp [totalSize]

/-! ## the call -/

theorem text_cons (c : Cookie) (cookies : List Cookie) (hne : cookies ≠ []) :
    text (c :: cookies) = c.text ++ 0x3B :: text cookies := by
  obtain ⟨d, rest, rfl⟩ := List.exists_cons_of_ne_nil hne
  simp [text, List.intercalate]

theorem texts_eq {cookies : List Cookie} (hne : cookies ≠ []) :
    cookies.flatMap (fun c => c.text ++ [0x3B]) = text cookies ++ [0x3B] := by
  induction cookies with
  | nil => exact absurd rfl hne
  | cons c cookies ih =>
    by_cases hrest : cookies = []
    · simp [hrest, text, List.intercalate]
    · rw [List.flatMap_cons, ih hrest, text_cons c cookies hrest]
      simp

theorem length_text {cookies : List Cookie} (hne : cookies ≠ []) : (text cookies).length + 1 = totalSize cookies := by
  induction cookies with
  | nil => exact absurd rfl hne
  | cons c cookies ih =>
    have hc : c.text.length + 1 = c.size := by
      simp [Cookie.text, Cookie.size]
      omega
    rw [totalSize_cons]
    by_cases hrest : cookies = []
    · simpa [hrest, text, List.intercalate, totalSize] using hc
    · have htail := ih hrest
      rw [text_cons c cookies hrest, List.length_append, List.length_cons]
      omega

theorem store_last (a b : Bytes) (x y : UInt8) : store (a ++ [x] ++ b) a.length [y] = some (a ++ [y] ++ b) := by
  have hput := store_behind a ([x] ++ b) [y] a.length rfl (by simp)
  rw [List.append_assoc, hput]
  simp

theorem get_query (raw : RawCookies) (len : UInt32) :
    WKCWebKitCookieGet (some raw.list) none len.toNat = some ((totalSize (named raw.list) : Int), none) := by
  have hlen := raw.inMemory
  have hnamed := totalSize_named raw.list
  have hsum : getCookies raw.list ⟨none, len.toNat, 0⟩ = some ⟨none, len.toNat, 0 + totalSize (named raw.list)⟩ :=
    getCookies_none raw.list (by omega)
  rw [WKCWebKitCookieGet]
  simp only [Option.map_none, hsum, Option.bind_eq_bind, Option.bind_some, Nat.zero_add]
  rw [asInt32_eq (by omega)]

theorem get_text (raw : RawCookies) (len : UInt32) (buf : Bytes) (hbuf : len.toNat ≤ buf.length) :
    WKCWebKitCookieGet (some raw.list) (some buf) len.toNat =
      if fitting len.toNat (named raw.list) = [] then some (0, some buf)
      else some (((text (fitting len.toNat (named raw.list))).length : Int),
        some (text (fitting len.toNat (named raw.list)) ++ [0] ++
          buf.drop (totalSize (fitting len.toNat (named raw.list))))) := by
  have hmem := raw.inMemory
  have hnamed := totalSize_named raw.list
  obtain ⟨remaining, m, hloop⟩ := getCookies_some raw.list [] buf len.toNat_lt hbuf (show 0 + totalSize raw.list < 2 ^ 31 by omega)
  have hle : totalSize (fitting len.toNat (named raw.list)) ≤ totalSize (named raw.list) := by
    obtain ⟨post, hpost⟩ := fitting_front len.toNat (named raw.list)
    have hboth := congrArg totalSize hpost
    rw [totalSize_append] at hboth
    omega
  generalize fitting len.toNat (named raw.list) = pre at *
  simp only [List.nil_append, List.length_nil, Nat.zero_add] at hloop
  rw [WKCWebKitCookieGet]
  simp only [Option.map_some, hloop, Option.bind_eq_bind, Option.bind_some]
  by_cases hnil : pre = []
  · rw [if_pos hnil, hnil]
    simp [totalSize, asInt32_eq]
  · have hsize := length_text hnil
    have hpos : totalSize pre - 1 = (text pre).length := by omega
    rw [if_neg hnil, if_pos (by omega), texts_eq hnil, hpos, store_last]
    simp only [Option.bind_some]
    rw [asInt32_eq (by omega)]

/-- what goes into a buffer is the longest part that fits -/
theorem cookieGet_text (raw : RawCookies) (len : UInt32) :
    WKCWebKitCookieGet (some raw.list) none len.toNat = some ((totalSize (named raw.list) : Int), none) ∧
    ∀ buf : Bytes, len.toNat ≤ buf.length →
      ∃ pre, pre <+: named raw.list ∧ totalSize pre ≤ len.toNat ∧
        (∀ other, other <+: named raw.list → totalSize other ≤ len.toNat → other <+: pre) ∧
        (totalSize (named raw.list) ≤ len.toNat → pre = named raw.list) ∧
        WKCWebKitCookieGet (some raw.list) (some buf) len.toNat =
          if pre = [] then some (0, some buf)
          else some (((text pre).length : Int), some (text pre ++ [0] ++ buf.drop ((text pre).length + 1))) := by
  refine ⟨get_query raw len, ?_⟩
  intro buf hbuf
  have hlongest {other : List Cookie} (h : other <+: named raw.list) (hsize : totalSize other ≤ len.toNat) :
      other <+: fitting len.toNat (named raw.list) := fitting_longest h hsize
  refine ⟨fitting len.toNat (named raw.list), fitting_front _ _, fitting_size _ _,
    fun other h hsize => hlongest h hsize, ?_, ?_⟩
  · intro hall
    exact (fitting_front _ _).eq_of_length_le (hlongest List.prefix_rfl hall).length_le
  · rw [get_text raw len buf hbuf]
    split
    · rfl
    · rename_i hne
      rw [length_text hne]

example :
    WKCWebKitCookieGet (some [⟨[0x61], [0x31], by decide, by decide⟩, ⟨[], [0x32], by decide, by decide⟩,
      ⟨[0x62], [], by decide, by decide⟩]) (some (List.replicate 8 0xFF)) 7 =
        some (6, some [0x61, 0x3D, 0x31, 0x3B, 0x62, 0x3D, 0, 0xFF]) := by decide

end Wkc.CookieText
