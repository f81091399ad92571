import Mathlib.Data.List.Induction
import Mathlib.Data.List.TakeWhile
import WkcBrowser.Lib.Bytes

/-!
# The cookie jar, saved and restored

`CookieSerialize` writes the newest cookies that fit into the buffer, one on a line, and ends them with a
NUL; `CookieDeserialize` sets a cookie for each line.

* `newest`, `writeCookies`   the backward scan and the forward walk;
* `CookieSerialize`, `CookieDeserialize`   the calls; a write outside the buffer is `none`;
* `jarText`, `jarSize`       the text of a list of cookies, and its length;
* `cookies_saved`            both calls, for all lists and all buffers.

`curl_share_cookie_list` gives the cookies as C strings, oldest first, and `curl_share_cookie_num` tells how
many they are.  Lengths are natural numbers: the list lies in memory, and its size fits an `int`.
-/

namespace Wkc
namespace CookieJar

def CR : UInt8 := 0x0D
def LF : UInt8 := 0x0A

def isEndOfLine (b : UInt8) : Bool := b == CR || b == LF

/-- the length asked for with a null buffer -/
def queryLength : List Bytes → Nat
  | [] => 0
  | cookie :: rest => cookie.length + 2 + (if rest.isEmpty then 1 else 0) + queryLength rest

/-- the scan over `cookie_array` from its end: `older` is still to come, newest first, `current` is kept -/
def newest (bufflen : Nat) : Nat → List Bytes → List Bytes → List Bytes
  | _, [], current => current
  | totalLen, cookie :: older, current =>
    let totalLen := totalLen + cookie.length + 2
    if bufflen < totalLen + 1 then current else newest bufflen totalLen older (cookie :: current)

/-- the buffer and the remaining length after the walk; the NUL does not move `pos` -/
def writeCookies : Bytes → Nat → Int → List Bytes → Option (Bytes × Int)
  | buff, _, remaining, [] => some (buff, remaining)
  | buff, pos, remaining, cookie :: rest => do
    let buff ← Buf.store buff pos cookie
    let pos := pos + cookie.length
    let buff ← Buf.store buff pos [CR]
    let pos := pos + 1
    let buff ← Buf.store buff pos [LF]
    let pos := pos + 1
    let remaining := remaining - (cookie.length + 2)
    if rest.isEmpty then
      let buff ← Buf.store buff pos [0]
      writeCookies buff pos (remaining - 1) rest
    else writeCookies buff pos remaining rest

/-- the answer, and the buffer -/
def CookieSerialize (cookies : List Bytes) (buff : Option Bytes) (bufflen : Nat) :
    Option (Int × Option Bytes) :=
  match buff with
  | none => some (queryLength cookies, none)
  | some buff =>
    if cookies.length ≤ 0 then some (0, some buff)
    else do
      let current := newest bufflen 0 cookies.reverse []
      let (buff, remaining) ← writeCookies buff 0 bufflen current
      some (bufflen - remaining, some buff)

inductive CookieType where
  | COOKIELIST
  | COOKIELIST_ALL
  deriving DecidableEq

def skipEndOfLine (buff : Bytes) : Bytes := buff.dropWhile isEndOfLine

/-- `strcspn(buff, "\\r\\n")`, or the whole string if it is 0 -/
def span (buff : Bytes) : Nat :=
  let n := (buff.takeWhile (fun b => !isEndOfLine b)).length
  if n = 0 then buff.length else n

theorem span_pos {buff : Bytes} (h : 0 < buff.length) : 0 < span buff := by
  unfold span
  dsimp only
  split
  · exact h
  · next hne => exact Nat.pos_of_ne_zero hne

/-- the cookies of the string, from the start of a line -/
def readCookies (buff : Bytes) : List Bytes :=
  if _h : 0 < buff.length then
    buff.take (span buff) :: readCookies (skipEndOfLine (buff.drop (span buff)))
  else []
termination_by buff.length
decreasing_by
  have hpos := span_pos _h
  have hskip : (skipEndOfLine (buff.drop (span buff))).length ≤ (buff.drop (span buff)).length :=
    List.length_dropWhile_le _ _
  rw [List.length_drop] at hskip
  omega

/-- the string at the start of a buffer -/
def cString (buff : Bytes) : Bytes := buff.takeWhile (fun b => b != 0)

/-- the calls of `curl_share_set_cookie` -/
def CookieDeserialize (buff : Bytes) (restart : Bool) : List (Bytes × CookieType) :=
  (readCookies (skipEndOfLine (cString buff))).map
    (fun cookie => (cookie, if restart then .COOKIELIST_ALL else .COOKIELIST))

/-! ## the text of a list of cookies -/

def lines (cookies : List Bytes) : Bytes := cookies.flatMap (fun cookie => cookie ++ [CR, LF])

def jarText (cookies : List Bytes) : Bytes := lines cookies ++ [0]

def jarSize (cookies : List Bytes) : Nat := (jarText cookies).length

theorem lines_cons (cookie : Bytes) (cookies : List Bytes) :
    lines (cookie :: cookies) = cookie ++ [CR, LF] ++ lines cookies := List.flatMap_cons

theorem jarSize_cons (cookie : Bytes) (cookies : List Bytes) :
    jarSize (cookie :: cookies) = cookie.length + 2 + jarSize cookies := by
  unfold jarSize jarText
  rw [lines_cons]
  simp
  omega

theorem jarSize_append (older newer : List Bytes) : jarSize newer ≤ jarSize (older ++ newer) := by
  induction older with
  | nil => exact Nat.le_refl _
  | cons cookie older ih =>
    rw [List.cons_append, jarSize_cons]
    omega

theorem queryLength_eq {cookies : List Bytes} (h : cookies ≠ []) :
    queryLength cookies = jarSize cookies := by
  induction cookies with
  | nil => exact absurd rfl h
  | cons cookie rest ih =>
    rw [queryLength, jarSize_cons]
    cases rest with
    | nil => rfl
    | cons next rest =>
      rw [ih (List.cons_ne_nil _ _)]
      rfl

/-! ## the scan -/

theorem newest_spec (bufflen : Nat) (older current : List Bytes) {totalLen : Nat}
    (hlen : totalLen + 1 = jarSize current) (hfits : current = [] ∨ jarSize current ≤ bufflen) :
    ∃ kept, newest bufflen totalLen older.reverse current = kept ∧ kept <:+ older ++ current ∧
      (kept = [] ∨ jarSize kept ≤ bufflen) ∧
      ∀ other, other <:+ older ++ current → other ≠ [] → jarSize other ≤ bufflen →
        other.length ≤ kept.length := by
  induction older using List.reverseRecOn generalizing current totalLen with
  | nil =>
    refine ⟨current, rfl, List.suffix_refl _, hfits, ?_⟩
    intro other hother _ _
    exact hother.length_le
  | append_singleton older cookie ih =>
    rw [List.reverse_append, List.reverse_singleton, List.singleton_append, newest]
    have hnext : totalLen + cookie.length + 2 + 1 = jarSize (cookie :: current) := by
      rw [jarSize_cons]
      omega
    have hlist : older ++ [cookie] ++ current = older ++ cookie :: current := by simp
    rw [hlist]
    by_cases hlong : bufflen < totalLen + cookie.length + 2 + 1
    · refine ⟨current, if_pos hlong, ?_, hfits, ?_⟩
      · exact (List.suffix_cons cookie current).trans (List.suffix_append older _)
      · -- a longer suffix has this cookie, too
        intro other hother _ hsize
        by_contra hmore
        have hcons : cookie :: current <:+ other := by
          apply List.suffix_of_suffix_length_le (List.suffix_append older _) hother
          rw [List.length_cons]
          omega
        obtain ⟨pre, rfl⟩ := hcons
        have hle := jarSize_append pre (cookie :: current)
        omega
    · obtain ⟨kept, heq, hsuffix, hkept, hmost⟩ := ih (cookie :: current) hnext (.inr (by omega))
      exact ⟨kept, by rw [if_neg hlong]; exact heq, hsuffix, hkept, hmost⟩

/-! ## the walk -/

theorem store_next (pre bs post : Bytes) (h : bs.length ≤ post.length) :
    Buf.store (pre ++ post) pre.length bs = some (pre ++ bs ++ post.drop bs.length) := by
  have hlen : pre.length + bs.length ≤ (pre ++ post).length := by
    rw [List.length_append]
    omega
  rw [Buf.store, if_pos hlen, List.take_left, List.drop_append, List.drop_eq_nil_of_le (by omega),
    List.nil_append, Nat.add_sub_cancel_left]

theorem writeCookies_eq {cookies : List Bytes} (hne : cookies ≠ []) (pre post : Bytes) (remaining : Int)
    (h : jarSize cookies ≤ post.length) :
    writeCookies (pre ++ post) pre.length remaining cookies =
      some (pre ++ (jarText cookies ++ post.drop (jarSize cookies)), remaining - jarSize cookies) := by
  induction cookies generalizing pre post remaining with
  | nil => exact absurd rfl hne
  | cons cookie rest ih =>
    rw [jarSize_cons] at h
    have hmin : 1 ≤ jarSize rest := by
      unfold jarSize jarText
      rw [List.length_append]
      exact Nat.le_add_left _ _
    have hcr : (pre ++ cookie).length = pre.length + cookie.length := List.length_append
    have hlf : (pre ++ cookie ++ [CR]).length = pre.length + cookie.length + 1 := by
      rw [List.length_append, hcr, List.length_singleton]
    have hend : (pre ++ cookie ++ [CR] ++ [LF]).length = pre.length + cookie.length + 1 + 1 := by
      rw [List.length_append, hlf, List.length_singleton]
    have hdrop : ((post.drop cookie.length).drop [CR].length).drop [LF].length =
        post.drop (cookie.length + 2) := by
      rw [List.drop_drop, List.drop_drop]
      rfl
    have hstore₁ := store_next pre cookie post (by omega)
    have hstore₂ := store_next (pre ++ cookie) [CR] (post.drop cookie.length)
      (by rw [List.length_drop, List.length_singleton]; omega)
    have hstore₃ := store_next (pre ++ cookie ++ [CR]) [LF] ((post.drop cookie.length).drop [CR].length)
      (by rw [List.length_drop, List.length_drop, List.length_singleton, List.length_singleton]; omega)
    rw [hcr] at hstore₂
    rw [hlf, hdrop] at hstore₃
    rw [writeCookies, hstore₁]
    simp only [Option.bind_eq_bind, Option.bind_some]
    rw [hstore₂, Option.bind_some, hstore₃, Option.bind_some]
    cases rest with
    | nil =>
      have hnul := store_next (pre ++ cookie ++ [CR] ++ [LF]) [0] (post.drop (cookie.length + 2))
        (by rw [List.length_drop, List.length_singleton]; omega)
      rw [hend] at hnul
      rw [List.isEmpty_nil, if_pos rfl, hnul, Option.bind_some, writeCookies, jarSize_cons]
      have htext : jarText [cookie] = cookie ++ [CR] ++ [LF] ++ [0] := by
        simp [jarText, lines]
      have hone : jarSize [] = 1 := rfl
      rw [htext, hone, List.drop_drop, List.length_singleton]
      simp only [List.append_assoc]
      congr 2
      omega
    | cons next rest =>
      have hrest := ih (List.cons_ne_nil _ _) (pre ++ cookie ++ [CR] ++ [LF])
        (post.drop (cookie.length + 2)) (remaining - (cookie.length + 2))
        (by rw [List.length_drop]; omega)
      have htext : jarText (cookie :: next :: rest) =
          cookie ++ [CR] ++ [LF] ++ jarText (next :: rest) := by
        unfold jarText
        rw [lines_cons]
        simp
      rw [hend] at hrest
      rw [List.isEmpty_cons, if_neg Bool.false_ne_true, hrest, jarSize_cons cookie, htext, List.drop_drop]
      simp only [List.append_assoc]
      congr 2
      push_cast
      omega

/-! ## the way back -/

/-- a cookie as a line: not empty, without CR, LF and NUL -/
structure Line (cookie : Bytes) : Prop where
  ne : cookie ≠ []
  plain : ∀ b ∈ cookie, isEndOfLine b = false ∧ b ≠ 0

theorem cString_jarText {cookies : List Bytes} (h : ∀ cookie ∈ cookies, Line cookie) (post : Bytes) :
    cString (jarText cookies ++ post) = lines cookies := by
  have hall : ∀ b ∈ lines cookies, (b != 0) = true := by
    intro b hb
    obtain ⟨cookie, hcookie, hb⟩ := List.mem_flatMap.mp hb
    rcases List.mem_append.mp hb with hb | hb
    · rw [bne_iff_ne]
      exact ((h cookie hcookie).plain b hb).2
    · rcases List.mem_cons.mp hb with rfl | hb
      · rfl
      · rw [List.mem_singleton.mp hb]
        rfl
  unfold cString jarText
  rw [List.append_assoc, List.takeWhile_append_of_pos hall]
  simp

theorem skipEndOfLine_lines {cookies : List Bytes} (h : ∀ cookie ∈ cookies, Line cookie) :
    skipEndOfLine (lines cookies) = lines cookies := by
  cases cookies with
  | nil => rfl
  | cons cookie rest =>
    have hline := h cookie List.mem_cons_self
    obtain ⟨b, tail, rfl⟩ := List.exists_cons_of_ne_nil hline.ne
    have hb := (hline.plain b List.mem_cons_self).1
    rw [lines_cons, skipEndOfLine]
    simp [hb]

theorem readCookies_lines {cookies : List Bytes} (h : ∀ cookie ∈ cookies, Line cookie) :
    readCookies (lines cookies) = cookies := by
  induction cookies with
  | nil =>
    rw [readCookies]
    rfl
  | cons cookie rest ih =>
    have hline := h cookie List.mem_cons_self
    have hrest : ∀ c ∈ rest, Line c := fun c hc => h c (List.mem_cons_of_mem _ hc)
    have htake : (lines (cookie :: rest)).takeWhile (fun b => !isEndOfLine b) = cookie := by
      rw [lines_cons, List.append_assoc, List.takeWhile_append_of_pos]
      · simp [isEndOfLine]
      · intro b hb
        rw [(hline.plain b hb).1]
        rfl
    have hpos : 0 < cookie.length := List.length_pos_iff.mpr hline.ne
    have hspan : span (lines (cookie :: rest)) = cookie.length := by
      unfold span
      rw [htake]
      exact if_neg (by omega)
    have hlen : 0 < (lines (cookie :: rest)).length := by
      rw [lines_cons, List.length_append, List.length_append]
      omega
    have hskip : skipEndOfLine ([CR, LF] ++ lines rest) = lines rest := by
      have hboth : skipEndOfLine ([CR, LF] ++ lines rest) = skipEndOfLine (lines rest) := rfl
      rw [hboth, skipEndOfLine_lines hrest]
    rw [readCookies, dif_pos hlen, hspan, lines_cons, List.append_assoc, List.take_left, List.drop_left,
      hskip, ih hrest]

/-! ## both calls -/

/-- **Saved and restored.**  The longest list of newest cookies that fits is written, its size is the
answer, and the cookies come back in their order; the size asked for first is enough for all. -/
theorem cookies_saved {cookies : List Bytes} (h : ∀ cookie ∈ cookies, Line cookie) :
    (∃ n, (∀ bufflen, CookieSerialize cookies none bufflen = some (n, none)) ∧
      ∀ buff : Bytes, n ≤ buff.length → cookies ≠ [] → CookieSerialize cookies (some buff) buff.length =
        some ((jarSize cookies : Int), some (jarText cookies ++ buff.drop (jarSize cookies)))) ∧
    ∀ buff : Bytes, ∃ kept, kept <:+ cookies ∧ (kept = [] ∨ jarSize kept ≤ buff.length) ∧
      (∀ other, other <:+ cookies → other ≠ [] → jarSize other ≤ buff.length →
        other.length ≤ kept.length) ∧
      (kept = [] → CookieSerialize cookies (some buff) buff.length = some (0, some buff)) ∧
      (kept ≠ [] → CookieSerialize cookies (some buff) buff.length =
        some ((jarSize kept : Int), some (jarText kept ++ buff.drop (jarSize kept)))) ∧
      (kept ≠ [] → ∀ restart, (CookieDeserialize (jarText kept ++ buff.drop (jarSize kept)) restart).map
        Prod.fst = kept) := by
  have hall : ∀ buff : Bytes, ∃ kept, kept <:+ cookies ∧ (kept = [] ∨ jarSize kept ≤ buff.length) ∧
      (∀ other, other <:+ cookies → other ≠ [] → jarSize other ≤ buff.length →
        other.length ≤ kept.length) ∧
      (kept = [] → CookieSerialize cookies (some buff) buff.length = some (0, some buff)) ∧
      (kept ≠ [] → CookieSerialize cookies (some buff) buff.length =
        some ((jarSize kept : Int), some (jarText kept ++ buff.drop (jarSize kept)))) := by
    intro buff
    obtain ⟨kept, heq, hsuffix, hfits, hmost⟩ := newest_spec buff.length cookies []
      (show 0 + 1 = jarSize [] from rfl) (.inl rfl)
    rw [List.append_nil] at hsuffix hmost
    refine ⟨kept, hsuffix, hfits, hmost, ?_, ?_⟩
    · intro hnil
      unfold CookieSerialize
      dsimp only
      split
      · rfl
      · rw [heq, hnil, writeCookies]
        simp
    · intro hne
      have hsize := hfits.resolve_left hne
      have hpos : ¬ cookies.length ≤ 0 := by
        intro hzero
        have hle := hsuffix.length_le
        exact hne (List.length_eq_zero_iff.mp (by omega))
      have hwrite := writeCookies_eq hne [] buff buff.length hsize
      rw [List.nil_append, List.length_nil, List.nil_append] at hwrite
      unfold CookieSerialize
      dsimp only
      rw [if_neg hpos, heq, hwrite]
      simp
  refine ⟨⟨queryLength cookies, fun _ => rfl, ?_⟩, ?_⟩
  · intro buff hlen hne
    obtain ⟨kept, hsuffix, hfits, hmost, hnone, hsome⟩ := hall buff
    rw [queryLength_eq hne] at hlen
    have hle := hmost cookies (List.suffix_refl _) hne (by exact_mod_cast hlen)
    have hkept : kept = cookies := hsuffix.eq_of_length_le hle
    rw [hkept] at hsome
    exact hsome hne
  · intro buff
    obtain ⟨kept, hsuffix, hfits, hmost, hnone, hsome⟩ := hall buff
    refine ⟨kept, hsuffix, hfits, hmost, hnone, hsome, ?_⟩
    intro hne restart
    have hlines : ∀ cookie ∈ kept, Line cookie := fun cookie hc => h cookie (hsuffix.subset hc)
    unfold CookieDeserialize
    rw [cString_jarText hlines, skipEndOfLine_lines hlines, readCookies_lines hlines, List.map_map]
    exact List.map_id _

/-- of two cookies only the newer one has a place -/
theorem cookies_saved_newer : CookieSerialize [[0x61], [0x62, 0x63]] (some [1, 1, 1, 1, 1, 1]) 6 =
    some (5, some [0x62, 0x63, 0x0D, 0x0A, 0, 1]) := by
  have hlines : ∀ cookie ∈ [[0x61], [0x62, 0x63]], Line cookie := by
    intro cookie hcookie
    rcases List.mem_pair.mp hcookie with rfl | rfl <;> exact ⟨List.cons_ne_nil _ _, by simp [isEndOfLine, CR, LF]⟩
  obtain ⟨kept, hsuffix, hfits, hmost, -, hsome, -⟩ := (cookies_saved hlines).2 [1, 1, 1, 1, 1, 1]
  have hone : 1 ≤ kept.length := hmost [[0x62, 0x63]] ⟨[[0x61]], rfl⟩ (List.cons_ne_nil _ _) (by decide)
  rcases List.suffix_cons_iff.mp hsuffix with rfl | hsuffix
  · exact absurd (hfits.resolve_left (List.cons_ne_nil _ _)) (by decide)
  · obtain rfl : kept = [[0x62, 0x63]] := hsuffix.eq_of_length_le hone
    exact hsome (List.cons_ne_nil _ _)

end CookieJar
end Wkc
