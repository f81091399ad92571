import WkcBrowser.Lib.Json
import WkcBrowser.Net.AuthenticateHeader
import WkcBrowser.Net.ServerCertChain

/-!
# The page list of the inspector server (`WebInspectorServer::buildPageList`)

The titles and URLs of the pages are appended to the text as they are.

* `Page`, `entry`, `pageList`   the pages and the text of the builder;
* `buildPageList`               the answer, plain or wrapped into a call;
* `Lists`                       the answer is JSON for the pages, and in the wrapped form nothing else is in the script;
* `value_entry`                 when a page is read back from its entry;
* `page_list_iff`               the pages that are listed as they should be.
-/

namespace Wkc
namespace Inspector
open AuthenticateHeader (wide)
open Ssl (number)
open Json hiding number

/-- A client of `m_clientMap` under its id.  The title and the URL are C strings; a null one is empty. -/
structure Page where
  id : UInt32
  title : WString
  uri : Bytes
  title_noNul : 0 ∉ title
  uri_noNul : 0 ∉ uri

namespace Page

def inspectorUrl (p : Page) : WString := wide "inspector.html?page=" ++ number p.id.toNat

def entry (p : Page) : WString :=
  wide "\x7b \"id\": " ++ number p.id.toNat
    ++ (wide ", \"title\": \"" ++ p.title
    ++ (wide "\", \"url\": \"" ++ fromLatin1 p.uri
    ++ (wide "\", \"inspectorUrl\": \"" ++ p.inspectorUrl
    ++ wide "\" \x7d")))

/-- what the entry should say -/
def object (p : Page) : Value :=
  .object [(wide "id", .number p.id.toNat 0), (wide "title", .string p.title), (wide "url", .string (fromLatin1 p.uri)),
    (wide "inspectorUrl", .string p.inspectorUrl)]

end Page

/-- the loop, before or behind the first page -/
def entries : Bool → List Page → WString
  | _, [] => []
  | first, p :: pages => (if first then [] else wide ", ") ++ (p.entry ++ entries false pages)

/-- what the builder holds without the call around it -/
def pageList (pages : List Page) : WString := wide "[ " ++ (entries true pages ++ wide " ]")

def pageListText (jsonp : Bool) (pages : List Page) : WString :=
  if jsonp then wide "showPageList(" ++ (pageList pages ++ wide ");") else pageList pages

structure Resource where
  data : Bytes
  contentType : WString
  deriving DecidableEq

def buildPageList (jsonp : Bool) (pages : List Page) : Resource where
  data := utf8 (pageListText jsonp pages)
  contentType := wide "application/json; charset=utf-8"

/-! ## what the list should be -/

/-- the text of some data in UTF-8 -/
def Encodes (data : Bytes) (text : WString) : Prop := wellFormed text = true ∧ utf8 text = data

def Lists (jsonp : Bool) (pages : List Page) (data : Bytes) : Prop :=
  ∃ text, Encodes data text ∧
    if jsonp then ∃ list, text = wide "showPageList(" ++ list ∧ Reads list (.array (pages.map Page.object)) (wide ");")
    else ∃ rest, Reads text (.array (pages.map Page.object)) rest ∧ skip rest = []

/-! ## ids -/

theorem toDigits_head (n : Nat) : (Nat.toDigits 10 n).head? = some '0' → Nat.toDigits 10 n = ['0'] := by
  induction n using Nat.strong_induction_on with
  | _ n ih =>
    intro h
    rw [Nat.toDigits_eq_if (by decide)] at h ⊢
    by_cases hn : n < 10
    · rw [if_pos hn] at h ⊢
      exact congrArg (fun c => [c]) (Option.some.inj h)
    · rw [if_neg hn, List.head?_append, Option.or_of_isSome (List.isSome_head?.mpr Nat.toDigits_ne_nil)] at h
      -- a leading zero would be the whole of what stands before the last digit
      have hzero : Nat.toDigits 10 (n / 10) = ['0'] := ih (n / 10) (by omega) h
      have hvalue : Nat.ofDigitChars 10 (Nat.toDigits 10 (n / 10)) 0 = n / 10 := Nat.ofDigitChars_ten_toDigits
      rw [hzero] at hvalue
      have hnothing : Nat.ofDigitChars 10 ['0'] 0 = 0 := rfl
      omega

theorem digit_unit {c : Char} (h : c.isDigit = true) :
    0x30 ≤ c.toNat ∧ c.toNat ≤ 0x39 ∧ (UInt16.ofNat c.toNat).toNat = c.toNat := by
  have hc : 0x30 ≤ c.toNat ∧ c.toNat ≤ 0x39 := Char.isDigit_iff_toNat.mp h
  exact ⟨hc.1, hc.2, ofNat16 (by omega)⟩

theorem isDigit_number {n : Nat} {c : UInt16} (h : c ∈ number n) : isDigit c = true := by
  obtain ⟨d, hd, rfl⟩ := List.mem_map.mp h
  obtain ⟨h1, h2, h3⟩ := digit_unit (Nat.isDigit_of_mem_toDigits (by decide) (by decide) hd)
  simp only [isDigit, h3]
  simp [h1, h2]

theorem decimal_number (n : Nat) : Decimal (number n) where
  digits := List.all_eq_true.mpr fun _ hc => isDigit_number hc
  nonempty h := Nat.toDigits_ne_nil (List.map_eq_nil_iff.mp h)
  noZero h := by
    rw [number, List.head?_map] at h
    obtain ⟨c, hc, hzero⟩ := Option.map_eq_some_iff.mp h
    have hmem : c ∈ Nat.toDigits 10 n := List.mem_of_head? hc
    obtain ⟨-, -, hunit⟩ := digit_unit (Nat.isDigit_of_mem_toDigits (by decide) (by decide) hmem)
    have hcode : c.toNat = '0'.toNat := by
      rw [← hunit, hzero]
      rfl
    have hc0 : c = '0' := Char.toNat_inj.mp hcode
    rw [number, toDigits_head n (by rw [hc, hc0])]
    rfl

theorem ofDigits_number (n : Nat) : ofDigits (number n) = n := by
  have hfold : ∀ (l : List Char) (init : Nat), (∀ c ∈ l, c.isDigit = true) →
      (l.map fun c => UInt16.ofNat c.toNat).foldl (fun n c => 10 * n + (c.toNat - 0x30)) init
        = Nat.ofDigitChars 10 l init := by
    intro l
    induction l with
    | nil => exact fun _ _ => rfl
    | cons c l ih =>
      intro init h
      obtain ⟨-, -, hunit⟩ := digit_unit (h c List.mem_cons_self)
      rw [List.map_cons, List.foldl_cons, hunit, Nat.ofDigitChars_cons]
      exact ih _ fun d hd => h d (List.mem_cons_of_mem c hd)
  have hdigits : ∀ c ∈ Nat.toDigits 10 n, c.isDigit = true := fun c hc =>
    Nat.isDigit_of_mem_toDigits (by decide) (by decide) hc
  rw [ofDigits, number, hfold _ _ hdigits]
  exact Nat.ofDigitChars_ten_toDigits

theorem plain_of_isDigit {c : UInt16} (h : isDigit c = true) : plain c = true := by
  simp only [isDigit, Bool.and_eq_true, decide_eq_true_eq] at h
  refine plain_iff.mpr ⟨?_, ?_, by omega⟩
  · rintro rfl
    exact absurd h.1 (by decide)
  · rintro rfl
    exact absurd h.2 (by decide)

theorem Page.clean_inspectorUrl (p : Page) : clean p.inspectorUrl = true := by
  rw [inspectorUrl, clean, List.all_append, Bool.and_eq_true]
  exact ⟨by decide, List.all_eq_true.mpr fun _ hc => plain_of_isDigit (isDigit_number hc)⟩

/-! ## an entry -/

namespace Page

/-- neither the title nor the URL has quotes, backslashes or control characters -/
structure Plain (p : Page) : Prop where
  title : clean p.title = true
  uri : clean (fromLatin1 p.uri) = true

theorem entry_append (p : Page) (tail : WString) : p.entry ++ tail =
    0x7B :: space :: quote :: (wide "id" ++ quote :: colon :: space :: (number p.id.toNat ++ comma :: space :: quote ::
      (wide "title" ++ quote :: colon :: space :: quote :: (p.title ++ quote :: comma :: space :: quote ::
        (wide "url" ++ quote :: colon :: space :: quote :: (fromLatin1 p.uri ++ quote :: comma :: space :: quote ::
          (wide "inspectorUrl" ++ quote :: colon :: space :: quote ::
            (p.inspectorUrl ++ quote :: space :: 0x7D :: tail)))))))) := by
  simp only [entry, List.append_assoc]
  rfl

/-- **When a page is read back from its entry**, and the entry ends where it should. -/
theorem value_entry (p : Page) (k : Nat) (tail rest : WString) :
    value (k + 6) (p.entry ++ tail) = some (p.object, rest) ↔ p.Plain ∧ rest = tail := by
  have hlast : ∀ text, members (k + 2) (quote :: (wide "inspectorUrl" ++ quote :: colon :: space :: quote ::
      (p.inspectorUrl ++ quote :: space :: 0x7D :: text))) = some ([(wide "inspectorUrl", .string p.inspectorUrl)], text) := by
    intro text
    rw [members_key rfl, value_space, value_string, string_clean p.clean_inspectorUrl, Option.map_some, Option.bind_some]
    exact more_close rfl (by decide)
  rw [entry_append, value_object, members_key rfl, value_space, value_decimal (decimal_number _) rfl, Option.bind_some,
    more_comma, members_space, ofDigits_number]
  constructor
  · intro h
    obtain ⟨⟨items, rest'⟩, hitems, hpair⟩ := Option.map_eq_some_iff.mp h
    obtain ⟨hobject, rfl⟩ : Value.object items = p.object ∧ rest' = rest := Prod.mk.inj hpair
    obtain ⟨⟨ms, rest''⟩, hms, hr⟩ := Option.map_eq_some_iff.mp hitems
    obtain ⟨rfl, rfl⟩ : (_, Value.number p.id.toNat 0) :: ms = items ∧ rest'' = rest' := Prod.mk.inj hr
    have hfields := (List.cons.inj (Value.object.inj hobject)).2
    rw [hfields, members_pasted rfl, members_pasted rfl, hlast] at hms
    obtain ⟨htitle, huri, hend⟩ := hms
    exact ⟨⟨htitle, huri⟩, (Prod.mk.inj (Option.some.inj hend)).2.symm⟩
  · rintro ⟨⟨htitle, huri⟩, rfl⟩
    rw [(members_pasted rfl p.title _ rest).mpr ⟨htitle, (members_pasted rfl _ _ rest).mpr ⟨huri, hlast rest⟩⟩]
    rfl

end Page

/-! ## the list -/

theorem entries_cons (p : Page) (pages : List Page) (tail : WString) :
    entries true (p :: pages) ++ tail = p.entry ++ (entries false pages ++ tail) := by
  rw [entries, if_pos rfl, List.nil_append, List.append_assoc]

theorem elements_last (p : Page) (k : Nat) (tail rest : WString) :
    elements (k + 7) (p.entry ++ space :: 0x5D :: tail) = some ([p.object], rest) ↔ p.Plain ∧ rest = tail := by
  have hclose : ∀ v, more (elements (k + 6)) 0x5D v (space :: 0x5D :: tail) = some ([v], tail) := fun _ =>
    more_close rfl (by decide)
  rw [elements_succ]
  constructor
  · intro h
    obtain ⟨⟨v, text⟩, hv, hmore⟩ := Option.bind_eq_some_iff.mp h
    obtain ⟨vs, hvs⟩ := more_first hmore
    obtain rfl : p.object = v := (List.cons.inj hvs).1
    obtain ⟨hplain, rfl⟩ := (p.value_entry k _ _).mp hv
    rw [hclose] at hmore
    exact ⟨hplain, (Prod.mk.inj (Option.some.inj hmore)).2.symm⟩
  · rintro ⟨hplain, rfl⟩
    rw [(p.value_entry k _ _).mpr ⟨hplain, rfl⟩, Option.bind_some, hclose]

theorem elements_entry (p : Page) (k : Nat) (text rest : WString) (vs : List Value) :
    elements (k + 7) (p.entry ++ comma :: space :: text) = some (p.object :: vs, rest)
      ↔ p.Plain ∧ elements (k + 6) text = some (vs, rest) := by
  have hcomma : ∀ v, more (elements (k + 6)) 0x5D v (comma :: space :: text)
      = (elements (k + 6) text).map fun r => (v :: r.1, r.2) := by
    intro v
    rw [more_comma, elements_space]
  rw [elements_succ]
  constructor
  · intro h
    obtain ⟨⟨v, text'⟩, hv, hmore⟩ := Option.bind_eq_some_iff.mp h
    obtain ⟨vs', hvs⟩ := more_first hmore
    obtain rfl : p.object = v := (List.cons.inj hvs).1
    obtain ⟨hplain, rfl⟩ := (p.value_entry k _ _).mp hv
    rw [hcomma] at hmore
    obtain ⟨⟨vs'', rest'⟩, hrest, hpair⟩ := Option.map_eq_some_iff.mp hmore
    obtain ⟨hlist, rfl⟩ : p.object :: vs'' = p.object :: vs ∧ rest' = rest := Prod.mk.inj hpair
    obtain rfl : vs'' = vs := (List.cons.inj hlist).2
    exact ⟨hplain, hrest⟩
  · rintro ⟨hplain, hrest⟩
    rw [(p.value_entry k _ _).mpr ⟨hplain, rfl⟩, Option.bind_some, hcomma, hrest]
    rfl

/-- by induction over the pages -/
theorem elements_entries (p : Page) (pages : List Page) (k : Nat) (tail rest : WString) :
    elements (k + pages.length + 7) (entries true (p :: pages) ++ space :: 0x5D :: tail)
        = some ((p :: pages).map Page.object, rest)
      ↔ (∀ q ∈ p :: pages, q.Plain) ∧ rest = tail := by
  induction pages generalizing p with
  | nil =>
    rw [entries_cons, entries, List.nil_append, List.forall_mem_singleton]
    exact elements_last p k tail rest
  | cons p' pages ih =>
    have hnext : entries false (p' :: pages) ++ space :: 0x5D :: tail
        = comma :: space :: (entries true (p' :: pages) ++ space :: 0x5D :: tail) := by
      rw [entries_cons, entries, List.append_assoc, List.append_assoc]
      rfl
    have hfuel : k + (p' :: pages).length = k + pages.length + 1 := rfl
    rw [entries_cons, hnext, List.map_cons, hfuel, elements_entry, List.forall_mem_cons, and_assoc, ← ih p']

theorem reads_pageList (pages : List Page) (tail rest : WString) :
    Reads (pageList pages ++ tail) (.array (pages.map Page.object)) rest ↔ (∀ p ∈ pages, p.Plain) ∧ rest = tail := by
  cases pages with
  | nil =>
    have hempty : ∀ fuel, value (fuel + 1) (pageList [] ++ tail) = some (.array [], tail) := by
      intro fuel
      rw [value]
      rfl
    constructor
    · rintro ⟨fuel, h⟩
      cases fuel with
      | zero => exact absurd h (by simp [value])
      | succ fuel =>
        rw [hempty] at h
        exact ⟨by simp, (Prod.mk.inj (Option.some.inj h)).2.symm⟩
    · rintro ⟨-, rfl⟩
      exact ⟨1, hempty 0⟩
  | cons p pages =>
    have hvalue : ∀ fuel, value (fuel + 1) (pageList (p :: pages) ++ tail)
        = (elements fuel (entries true (p :: pages) ++ space :: 0x5D :: tail)).map fun r => (.array r.1, r.2) := by
      intro fuel
      have htext : pageList (p :: pages) ++ tail = 0x5B :: space :: (entries true (p :: pages) ++ space :: 0x5D :: tail) := by
        rw [pageList, List.append_assoc, List.append_assoc]
        rfl
      rw [htext, entries_cons, Page.entry_append, value_array]
    constructor
    · rintro ⟨fuel, h⟩
      -- a bound that is large enough for the lemma
      have hlarge := value_le (show fuel ≤ fuel + pages.length + 7 + 1 by omega) _ _ h
      rw [hvalue] at hlarge
      obtain ⟨⟨vs, rest'⟩, hvs, hpair⟩ := Option.map_eq_some_iff.mp hlarge
      obtain ⟨harray, rfl⟩ : Value.array vs = _ ∧ rest' = rest := Prod.mk.inj hpair
      rw [Value.array.inj harray] at hvs
      exact (elements_entries p pages fuel tail rest').mp hvs
    · intro h
      refine ⟨0 + pages.length + 7 + 1, ?_⟩
      rw [hvalue, (elements_entries p pages 0 tail rest).mpr h]
      rfl

/-! ## surrogates -/

theorem unpaired_of_lt {c : UInt16} (h : c.toNat < 0x100) : unpaired c = true := by
  simp [unpaired, isLead, isTrail]
  omega

theorem unpaired_number (n : Nat) : (number n).all unpaired = true := by
  refine List.all_eq_true.mpr fun c hc => unpaired_of_lt ?_
  have hdigit := isDigit_number hc
  simp only [isDigit, Bool.and_eq_true, decide_eq_true_eq] at hdigit
  omega

theorem unpaired_fromLatin1 (bs : Bytes) : (fromLatin1 bs).all unpaired = true := by
  refine List.all_eq_true.mpr fun c hc => unpaired_of_lt ?_
  obtain ⟨b, -, rfl⟩ := List.mem_map.mp hc
  rw [UInt8.toNat_toUInt16]
  exact b.toNat_lt

theorem Page.wellFormed_entry (p : Page) (tail : WString) :
    wellFormed (p.entry ++ tail) = (wellFormed p.title && wellFormed tail) := by
  have hbefore : (wide "\x7b \"id\": " ++ number p.id.toNat ++ wide ", \"title\": \"").all unpaired = true := by
    rw [List.all_append, List.all_append, unpaired_number]
    rfl
  have hbehind : (wide ", \"url\": \"" ++ fromLatin1 p.uri ++ wide "\", \"inspectorUrl\": \"" ++ p.inspectorUrl
      ++ wide "\" \x7d").all unpaired = true := by
    rw [List.all_append, List.all_append, List.all_append, List.all_append, unpaired_fromLatin1, inspectorUrl,
      List.all_append, unpaired_number]
    rfl
  have hentry : p.entry ++ tail = (wide "\x7b \"id\": " ++ number p.id.toNat ++ wide ", \"title\": \"")
      ++ (p.title ++ quote :: ((wide ", \"url\": \"" ++ fromLatin1 p.uri ++ wide "\", \"inspectorUrl\": \""
        ++ p.inspectorUrl ++ wide "\" \x7d") ++ tail)) := by
    simp only [entry, List.append_assoc]
    rfl
  rw [hentry, wellFormed_append hbefore, wellFormed_between rfl, wellFormed_append hbehind]

theorem wellFormed_entries (first : Bool) (pages : List Page) (tail : WString) :
    wellFormed (entries first pages ++ tail) = (pages.all (fun p => wellFormed p.title) && wellFormed tail) := by
  induction pages generalizing first with
  | nil => rfl
  | cons p pages ih =>
    have hcomma : (if first then [] else wide ", ").all unpaired = true := by
      cases first <;> rfl
    rw [entries, List.append_assoc, wellFormed_append hcomma, List.append_assoc, p.wellFormed_entry, ih, List.all_cons,
      Bool.and_assoc]

theorem wellFormed_pageListText (jsonp : Bool) (pages : List Page) :
    wellFormed (pageListText jsonp pages) = true ↔ ∀ p ∈ pages, wellFormed p.title = true := by
  have hlist : ∀ tail : WString, tail.all unpaired = true →
      wellFormed (pageList pages ++ tail) = pages.all fun p => wellFormed p.title := by
    intro tail htail
    have hend : (wide " ]" ++ tail).all unpaired = true := by rw [List.all_append, htail]; rfl
    have hwf := wellFormed_append hend []
    rw [List.append_nil] at hwf
    rw [pageList, List.append_assoc, wellFormed_append (by rfl), List.append_assoc, wellFormed_entries, hwf]
    exact Bool.and_true _
  have htext : wellFormed (pageListText jsonp pages) = pages.all fun p => wellFormed p.title := by
    cases jsonp with
    | true => exact (wellFormed_append (by rfl) _).trans (hlist (wide ");") rfl)
    | false => exact (congrArg wellFormed (List.append_nil _).symm).trans (hlist [] rfl)
  rw [htext, List.all_eq_true]

/-! ## the answer -/

theorem Lists.plain {jsonp : Bool} {pages : List Page} (h : Lists jsonp pages (buildPageList jsonp pages).data) :
    wellFormed (pageListText jsonp pages) = true ∧ ∀ p ∈ pages, p.Plain := by
  have hreads := reads_pageList pages
  obtain ⟨text, ⟨hwf, hdata⟩, hlist⟩ := h
  obtain rfl : text = pageListText jsonp pages := utf8_injective hwf hdata
  refine ⟨hwf, ?_⟩
  cases jsonp with
  | true =>
    obtain ⟨list, htext, hlist⟩ := hlist
    rw [← List.append_cancel_left htext] at hlist
    exact ((hreads _ _).mp hlist).1
  | false =>
    obtain ⟨rest, hlist, -⟩ := hlist
    have htail : Reads (pageList pages ++ []) (.array (pages.map Page.object)) rest := by
      rw [List.append_nil]
      exact hlist
    exact ((hreads _ _).mp htail).1

/-- **The page list is JSON for the pages**, and in the wrapped form the script is the one call, exactly if all titles
are well-formed and neither they nor the URLs have anything in them that JSON escapes. -/
theorem page_list_iff (jsonp : Bool) (pages : List Page) :
    Lists jsonp pages (buildPageList jsonp pages).data ↔ ∀ p ∈ pages, wellFormed p.title = true ∧ p.Plain := by
  have hreads := reads_pageList pages
  rw [forall₂_and, ← wellFormed_pageListText jsonp]
  constructor
  · exact Lists.plain
  · rintro ⟨hwf, hplain⟩
    refine ⟨pageListText jsonp pages, ⟨hwf, rfl⟩, ?_⟩
    cases jsonp with
    | true => exact ⟨_, rfl, (hreads _ _).mpr ⟨hplain, rfl⟩⟩
    | false =>
      have hlist := (hreads [] []).mpr ⟨hplain, rfl⟩
      rw [List.append_nil] at hlist
      exact ⟨[], hlist, rfl⟩

/-- a title with a quote in it -/
def quotedPage : Page where
  id := 1
  title := [quote]
  uri := []
  title_noNul := by decide
  uri_noNul := by decide

theorem quote_in_title : ¬ ∀ (jsonp : Bool) (pages : List Page), Lists jsonp pages (buildPageList jsonp pages).data := by
  intro h
  have hplain : quotedPage.Plain := (h false [quotedPage]).plain.2 quotedPage List.mem_cons_self
  exact absurd hplain.title (by decide)

end Inspector
end Wkc
