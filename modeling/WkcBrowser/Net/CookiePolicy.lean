import WkcBrowser.Wtf.Words
import Mathlib.Data.List.TakeWhile

/-!
# The domain that a cookie is asked for

* `setCookies`           as in the source: the text of the cookie is searched for `domain=`, not taken apart;
* `realDomain`           the value of the first attr with the name `Domain`, or the host;
* `afterKey_joinWords`   the first `domain=` of a text is in the first of its words that has one;
* `keyDomain`            so what is found is told by the words;
* `Told`                 the texts whose domain is found;
* `sees_iff`             the policy is asked for the real domain of these, and of no others.
-/

namespace Wkc
namespace CookiePolicy

def semicolon : UInt16 := 0x3B
def comma : UInt16 := 0x2C
def equalsSign : UInt16 := 0x3D
def fullStop : UInt16 := 0x2E

/-- `HttpOnly` -/
def httpOnlyText : WString := [0x48, 0x74, 0x74, 0x70, 0x4F, 0x6E, 0x6C, 0x79]

/-- `domain` -/
def domainText : WString := [0x64, 0x6F, 0x6D, 0x61, 0x69, 0x6E]

/-- `domain=` -/
def domainKey : WString := domainText ++ [equalsSign]

/-- What is not in this file: `wkcNetCheckCorrectIPAddressPeer`, and `cookieCallback` of a host and a domain, where true
means that the cookie is refused. -/
structure Peers where
  wkcNetCheckCorrectIPAddressPeer : WString → Bool
  cookieCallback : WString → WString → Bool

/-- what a call of `setCookies` leads to -/
structure Outcome where
  /-- the `cookie_domain` for which `cookieCallback` is called -/
  asked : Option WString := none
  stored : Bool := false
  deriving DecidableEq

/-! ## the functions of the source -/

def beginsWith (matchString s : WString) : Bool := (matchString.map foldCase).isPrefixOf (s.map foldCase)

/-- `find` of a text in any letter case -/
def findIgnoringCase (matchString : WString) : WString → Option Nat
  | [] => if beginsWith matchString [] then some 0 else none
  | c :: cs =>
    if beginsWith matchString (c :: cs) then some 0 else (findIgnoringCase matchString cs).map (fun i => i + 1)

/-- the text up to the first comma or semicolon -/
def cut (cookie_domain : WString) : WString :=
  let len1 := cookie_domain.idxOf? comma
  let len2 := cookie_domain.idxOf? semicolon
  let len :=
    match len1, len2 with
    | none, _ => len2
    | some len1, none => some len1
    | some len1, some len2 => if len1 < len2 then some len1 else some len2
  match len with
  | some len => cookie_domain.take len
  | none => cookie_domain

section
variable (u : Unicode) (peers : Peers)

def isHttpOnly (value : WString) : Bool :=
  (split semicolon value).any (fun s => equalIgnoringCase (stripWhiteSpace u s) httpOnlyText)

/-- the host as a domain -/
def hostDomain (host : WString) : WString :=
  if peers.wkcNetCheckCorrectIPAddressPeer host then host else fullStop :: host

/-- `top`: the host of the top document, where there is one -/
def firstpartyHost (top : Option WString) (host : WString) : WString :=
  match top with
  | some top => if top.isEmpty then host else top
  | none => host

/-- `setCookies` from where `cookie_domain` is known -/
def ask (top : Option WString) (host cookie_domain : WString) : Outcome :=
  let cookie_domain := if cookie_domain.isEmpty then hostDomain peers host else cookie_domain
  { asked := some cookie_domain, stored := !peers.cookieCallback (firstpartyHost top host) cookie_domain }

def setCookies (top : Option WString) (host value : WString) : Outcome :=
  match value.idxOf? semicolon with
  | none => ask peers top host []
  | some pos =>
    let str := value.drop pos
    if isHttpOnly u str then {}
    else if (findIgnoringCase domainKey str).isSome then
      -- it is found, as `str` is the end of `value`
      let cookie_domain := value.drop ((findIgnoringCase domainKey value).getD 0 + domainKey.length)
      let cookie_domain := stripWhiteSpace u (cut cookie_domain)
      if peers.wkcNetCheckCorrectIPAddressPeer (firstpartyHost top host) ∧ firstpartyHost top host ≠ cookie_domain then {}
      else ask peers top host cookie_domain
    else ask peers top host []

/-! ## what is wanted -/

/-- what follows the pair, attribute by attribute -/
def attributes (value : WString) : List WString := (splitAll semicolon value).tail

def nameOf (attr : WString) : WString :=
  stripWhiteSpace u (attr.takeWhile (fun c => c ≠ equalsSign))

def valueOf (attr : WString) : WString :=
  stripWhiteSpace u ((attr.dropWhile (fun c => c ≠ equalsSign)).drop 1)

def isDomain (attr : WString) : Bool := equalIgnoringCase (nameOf u attr) domainText

/-- some attribute is `HttpOnly` -/
def HttpOnly (value : WString) : Prop :=
  ∃ attr ∈ attributes value, equalIgnoringCase (stripWhiteSpace u attr) httpOnlyText = true

/-- the value of the first attr with the name `Domain`; empty if there is none -/
def domainValue (value : WString) : WString :=
  match (attributes value).find? (isDomain u) with
  | some attr => valueOf u attr
  | none => []

/-- a domain, or the host where it is empty -/
def orHost (host domain : WString) : WString := if domain.isEmpty then hostDomain peers host else domain

def realDomain (host value : WString) : WString := orHost peers host (domainValue u value)

/-- the first party is an IP address and the attribute `Domain` names something else: a cookie that is dropped -/
def Barred (top : Option WString) (host value : WString) : Prop :=
  peers.wkcNetCheckCorrectIPAddressPeer (firstpartyHost top host) = true ∧ domainValue u value ≠ [] ∧
    firstpartyHost top host ≠ domainValue u value

/-- A cookie for HTTP only goes nowhere. The policy is asked for the real domain of every other, but for one whose
real domain an IP address must not set. -/
structure Sees (top : Option WString) (host value : WString) : Prop where
  httpOnly : HttpOnly u value → setCookies u peers top host value = {}
  asked : ¬ HttpOnly u value →
    (setCookies u peers top host value).asked = some (realDomain u peers host value) ∨
      Barred u peers top host value ∧ setCookies u peers top host value = {}

/-- what follows the first `domain=` of a text -/
def afterKey (s : WString) : Option WString := (findIgnoringCase domainKey s).map (fun i => s.drop (i + domainKey.length))

/-- Where an attribute has a `domain=`, what follows the first one in any word, up to a comma; empty if none has. -/
def keyDomain (value : WString) : WString :=
  if (attributes value).any (fun attr => (afterKey attr).isSome) then
    match (splitAll semicolon value).findSome? afterKey with
    | some rest => stripWhiteSpace u (rest.takeWhile (fun c => c ≠ comma))
    | none => []
  else []

/-- the first party is an IP address, and an attribute has a `domain=`, but another one is found -/
def Refused (top : Option WString) (host value : WString) : Prop :=
  (∃ attr ∈ attributes value, (afterKey attr).isSome) ∧
    peers.wkcNetCheckCorrectIPAddressPeer (firstpartyHost top host) = true ∧ firstpartyHost top host ≠ keyDomain u value

instance (u : Unicode) (peers : Peers) (top : Option WString) (host value : WString) :
    Decidable (Refused u peers top host value) := inferInstanceAs (Decidable (_ ∧ _ ∧ _))

/-- Two domains are told to the policy as the same, or neither is told. -/
def Alike (top : Option WString) (host x y : WString) : Prop :=
  if peers.wkcNetCheckCorrectIPAddressPeer (firstpartyHost top host) = true ∧ firstpartyHost top host ≠ x then
    y ≠ [] ∧ firstpartyHost top host ≠ y
  else orHost peers host x = orHost peers host y

/-- The texts whose domain is found: one with `HttpOnly`; one where no attribute has a `domain=` or a domain; one where
the first `domain=` begins the first attribute with the name `Domain`, after white space at most, with no comma behind
it, and not empty for an IP address.  Otherwise by chance: the only domain is written some other way, but it is that of
the host, or the first `domain=` is somewhere else, but what follows it is alike. -/
inductive Told (top : Option WString) (host value : WString) : Prop where
  | httpOnly : HttpOnly u value → Told top host value
  | silent : (∀ attr ∈ attributes value, afterKey attr = none) → domainValue u value = [] → Told top host value
  | named (pair : WString) (before : List WString) (white name rest : WString) (after : List WString) :
      splitAll semicolon value = pair :: (before ++ (white ++ (name ++ equalsSign :: rest)) :: after) →
      afterKey pair = none → (∀ attr ∈ before, afterKey attr = none ∧ isDomain u attr = false) →
      (∀ c ∈ white, u.isSpaceOrNewline c = true) → equalIgnoringCase name domainText = true → comma ∉ rest →
      (stripWhiteSpace u rest = [] → peers.wkcNetCheckCorrectIPAddressPeer (firstpartyHost top host) = true →
        firstpartyHost top host = []) → Told top host value
  | missed : (∀ attr ∈ attributes value, afterKey attr = none) → domainValue u value = hostDomain peers host →
      Told top host value
  | decoy (before : List WString) (word rest : WString) (after : List WString) :
      splitAll semicolon value = before ++ word :: after → (∀ w ∈ before, afterKey w = none) →
      afterKey word = some rest → (∃ attr ∈ attributes value, (afterKey attr).isSome) →
      Alike peers top host (stripWhiteSpace u (rest.takeWhile (fun c => c ≠ comma))) (domainValue u value) →
      Told top host value

end

/-! ## the first `domain=` of a text -/

theorem beginsWith_append {sep : UInt16} {matchString : WString} (hsep : foldCase sep ∉ matchString.map foldCase)
    (a b : WString) : beginsWith matchString (a ++ sep :: b) = beginsWith matchString a := by
  unfold beginsWith
  rw [Bool.eq_iff_iff, List.isPrefixOf_iff_prefix, List.isPrefixOf_iff_prefix, List.map_append, List.map_cons]
  refine ⟨fun h => ?_, fun h => h.trans (List.prefix_append _ _)⟩
  rcases Nat.lt_or_ge (a.map foldCase).length (matchString.map foldCase).length with hlong | hshort
  · have hpre : a.map foldCase ++ [foldCase sep] <+: a.map foldCase ++ foldCase sep :: b.map foldCase :=
      ⟨b.map foldCase, by rw [List.append_assoc]; rfl⟩
    have hmore : (a.map foldCase ++ [foldCase sep]).length ≤ (matchString.map foldCase).length := by
      rw [List.length_append]
      exact hlong
    refine absurd ?_ hsep
    exact (List.prefix_of_prefix_length_le hpre h hmore).subset (List.mem_append_right _ List.mem_cons_self)
  · exact List.prefix_of_prefix_length_le h (List.prefix_append _ _) hshort

theorem semicolon_not_mem_key : foldCase semicolon ∉ domainKey.map foldCase := by decide

theorem length_le_of_beginsWith {matchString s : WString} (h : beginsWith matchString s = true) :
    matchString.length ≤ s.length := by
  have hle := (List.isPrefixOf_iff_prefix.mp h).length_le
  rwa [List.length_map, List.length_map] at hle

theorem afterKey_cons (c : UInt16) (cs : WString) :
    afterKey (c :: cs) =
      if beginsWith domainKey (c :: cs) then some ((c :: cs).drop domainKey.length) else afterKey cs := by
  unfold afterKey
  rw [findIgnoringCase]
  split
  · simp
  · rw [Option.map_map]
    rfl

theorem afterKey_append (a b : WString) :
    afterKey (a ++ semicolon :: b) =
      match afterKey a with
      | some rest => some (rest ++ semicolon :: b)
      | none => afterKey b := by
  induction a with
  | nil =>
    rw [List.nil_append, afterKey_cons, ← List.nil_append (semicolon :: b), beginsWith_append semicolon_not_mem_key]
    rfl
  | cons c a ih =>
    rw [List.cons_append, afterKey_cons, afterKey_cons, ← List.cons_append, beginsWith_append semicolon_not_mem_key]
    split
    · next hbegins => rw [List.drop_append_of_le_length (length_le_of_beginsWith hbegins)]
    · exact ih

theorem afterKey_suffix {s rest : WString} (h : afterKey s = some rest) : rest <:+ s := by
  obtain ⟨i, -, rfl⟩ := Option.map_eq_some_iff.mp h
  exact List.drop_suffix _ _

theorem takeWhile_ne_append {sep : UInt16} {a : WString} (h : sep ∉ a) (b : WString) :
    (a ++ sep :: b).takeWhile (fun c => c ≠ sep) = a := by
  rw [List.takeWhile_append_of_pos (fun c hc => decide_eq_true (ne_of_mem_of_not_mem hc h))]
  simp

theorem takeWhile_ne_self {sep : UInt16} {a : WString} (h : sep ∉ a) : a.takeWhile (fun c => c ≠ sep) = a :=
  List.takeWhile_eq_self_iff.mpr fun _ hc => decide_eq_true (ne_of_mem_of_not_mem hc h)

theorem afterKey_joinWords {words : List WString} (hwords : ∀ word ∈ words, semicolon ∉ word) :
    (afterKey (joinWords semicolon words)).map (List.takeWhile fun c => c ≠ semicolon) = words.findSome? afterKey := by
  induction words with
  | nil => rfl
  | cons word words ih =>
    rw [List.forall_mem_cons] at hwords
    have hrest : ∀ rest, afterKey word = some rest → semicolon ∉ rest := fun rest h hmem =>
      hwords.1 ((afterKey_suffix h).subset hmem)
    cases words with
    | nil =>
      rw [joinWords, List.flatMap_nil, List.append_nil, List.findSome?_singleton]
      cases h : afterKey word with
      | none => rfl
      | some rest => exact congrArg some (takeWhile_ne_self (hrest rest h))
    | cons next words =>
      rw [joinWords_cons word (List.cons_ne_nil next words), afterKey_append, List.findSome?_cons]
      cases h : afterKey word with
      | none => exact ih hwords.2
      | some rest => exact congrArg some (takeWhile_ne_append (hrest rest h) _)

theorem cut_cons {c : UInt16} (s : WString) (hcomma : c ≠ comma) (hsemicolon : c ≠ semicolon) :
    cut (c :: s) = c :: cut s := by
  unfold cut
  rw [List.idxOf?_cons, List.idxOf?_cons, if_neg (by simpa using hcomma), if_neg (by simpa using hsemicolon)]
  cases s.idxOf? comma with
  | none => cases s.idxOf? semicolon <;> rfl
  | some len1 =>
    cases s.idxOf? semicolon with
    | none => rfl
    | some len2 =>
      dsimp only [Option.map_some]
      rcases Nat.lt_or_ge len1 len2 with h | h
      · rw [if_pos h, if_pos (Nat.succ_lt_succ h)]
        rfl
      · rw [if_neg (Nat.not_lt.mpr h), if_neg (Nat.not_lt.mpr (Nat.succ_le_succ h))]
        rfl

theorem cut_separator {c : UInt16} (s : WString) (h : c = comma ∨ c = semicolon) : cut (c :: s) = [] := by
  unfold cut
  rw [List.idxOf?_cons, List.idxOf?_cons]
  rcases h with rfl | rfl
  · rw [if_pos (by rfl), if_neg (by decide)]
    cases s.idxOf? semicolon <;> rfl
  · rw [if_neg (by decide), if_pos (by rfl)]
    cases s.idxOf? comma <;> rfl

theorem cut_eq (s : WString) : cut s = (s.takeWhile fun c => c ≠ semicolon).takeWhile fun c => c ≠ comma := by
  induction s with
  | nil => rfl
  | cons c s ih =>
    by_cases hsemicolon : c = semicolon
    · rw [cut_separator s (Or.inr hsemicolon), hsemicolon]
      rfl
    · rw [List.takeWhile_cons, if_pos (decide_eq_true hsemicolon), List.takeWhile_cons]
      by_cases hcomma : c = comma
      · rw [cut_separator s (Or.inl hcomma), hcomma]
        rfl
      · rw [if_pos (decide_eq_true hcomma), cut_cons s hcomma hsemicolon, ih]

/-! ## `setCookies`, word by word -/

section
variable {u : Unicode} {peers : Peers} {top : Option WString} {host value : WString}

theorem words_none (h : value.idxOf? semicolon = none) : attributes value = [] := by
  unfold attributes
  rw [splitAll_word (List.idxOf?_eq_none_iff.mp h)]
  rfl

theorem words_some {pos : Nat} (h : value.idxOf? semicolon = some pos) :
    ∃ pair rest, value = pair ++ semicolon :: rest ∧ value.drop pos = semicolon :: rest ∧
      splitAll semicolon value = pair :: splitAll semicolon rest := by
  obtain ⟨hpos, hat, hbefore⟩ := List.idxOf?_eq_some_iff.mp h
  have hdrop : value.drop pos = semicolon :: value.drop (pos + 1) := by rw [List.drop_eq_getElem_cons hpos, hat]
  have hvalue : value = value.take pos ++ semicolon :: value.drop (pos + 1) := by rw [← hdrop, List.take_append_drop]
  have hpair : semicolon ∉ value.take pos := by
    intro hmem
    obtain ⟨i, hi, heq⟩ := List.mem_take_iff_getElem.mp hmem
    exact hbefore i (by omega) heq
  refine ⟨value.take pos, value.drop (pos + 1), hvalue, hdrop, ?_⟩
  rw [congrArg (splitAll semicolon) hvalue, splitAll_append, splitAll_word hpair]
  rfl

theorem isHttpOnly_iff (rest : WString) :
    isHttpOnly u (semicolon :: rest) = true ↔
      ∃ attr ∈ splitAll semicolon rest, equalIgnoringCase (stripWhiteSpace u attr) httpOnlyText = true := by
  unfold isHttpOnly
  rw [split_cons, List.any_eq_true]
  constructor
  · rintro ⟨attr, hattr, hyes⟩
    exact ⟨attr, List.mem_of_mem_filter hattr, hyes⟩
  · rintro ⟨attr, hattr, hyes⟩
    refine ⟨attr, List.mem_filter.mpr ⟨hattr, ?_⟩, hyes⟩
    cases attr with
    | nil => exact absurd hyes Bool.false_ne_true
    | cons c cs => rfl

theorem afterKey_words (s : WString) :
    (afterKey s).map (List.takeWhile fun c => c ≠ semicolon) = (splitAll semicolon s).findSome? afterKey := by
  rw [← afterKey_joinWords (splitAll_not_mem s), joinWords_splitAll]

theorem found_iff (rest : WString) :
    (findIgnoringCase domainKey (semicolon :: rest)).isSome = true ↔
      ∃ attr ∈ splitAll semicolon rest, (afterKey attr).isSome = true := by
  have hsome : (findIgnoringCase domainKey (semicolon :: rest)).isSome = (afterKey rest).isSome := by
    have hafter : afterKey (semicolon :: rest) = afterKey rest := afterKey_append [] rest
    rw [← hafter]
    exact Option.isSome_map.symm
  rw [hsome, ← Option.isSome_map (f := List.takeWhile fun c => c ≠ semicolon), afterKey_words]
  rw [List.findSome?_isSome_iff]

theorem keyDomain_of_found (h : ∃ attr ∈ attributes value, (afterKey attr).isSome = true) :
    stripWhiteSpace u (cut (value.drop ((findIgnoringCase domainKey value).getD 0 + domainKey.length))) =
      keyDomain u value := by
  have hany : (attributes value).any (fun attr => (afterKey attr).isSome) = true := List.any_eq_true.mpr h
  obtain ⟨attr, hattr, hkey⟩ := h
  have hwords : ((splitAll semicolon value).findSome? afterKey).isSome = true :=
    List.findSome?_isSome_iff.mpr ⟨attr, List.mem_of_mem_tail hattr, hkey⟩
  obtain ⟨rest, hrest⟩ := Option.isSome_iff_exists.mp hwords
  have hvalue := afterKey_words value
  rw [hrest] at hvalue
  obtain ⟨after, hafter, hword⟩ := Option.map_eq_some_iff.mp hvalue
  obtain ⟨i, hi, hdrop⟩ := Option.map_eq_some_iff.mp hafter
  unfold keyDomain
  rw [if_pos hany, hrest, hi, Option.getD_some, hdrop, cut_eq, hword]

theorem keyDomain_of_not_found (h : ¬ ∃ attr ∈ attributes value, (afterKey attr).isSome = true) : keyDomain u value = [] := by
  unfold keyDomain
  rw [if_neg fun hany => h (List.any_eq_true.mp hany)]

theorem setCookies_httpOnly (h : HttpOnly u value) : setCookies u peers top host value = {} := by
  unfold setCookies
  cases hpos : value.idxOf? semicolon with
  | none =>
    obtain ⟨attr, hattr, -⟩ := h
    rw [words_none hpos] at hattr
    exact absurd hattr List.not_mem_nil
  | some pos =>
    obtain ⟨pair, rest, -, hdrop, hsplit⟩ := words_some hpos
    unfold HttpOnly attributes at h
    rw [hsplit] at h
    dsimp only
    rw [hdrop, if_pos ((isHttpOnly_iff rest).mpr h)]

theorem not_refused (h : ¬ ∃ attr ∈ attributes value, (afterKey attr).isSome = true) :
    ¬ Refused u peers top host value := fun hrefused => h hrefused.1

theorem setCookies_eq (peers : Peers) (top : Option WString) (host : WString) (hnot : ¬ HttpOnly u value) :
    setCookies u peers top host value =
      if Refused u peers top host value then {} else ask peers top host (keyDomain u value) := by
  unfold setCookies
  cases hpos : value.idxOf? semicolon with
  | none =>
    have hnone : ¬ ∃ attr ∈ attributes value, (afterKey attr).isSome = true := by
      rw [words_none hpos]
      simp
    rw [if_neg (not_refused hnone), keyDomain_of_not_found hnone]
  | some pos =>
    obtain ⟨pair, rest, -, hdrop, hsplit⟩ := words_some hpos
    have hattributes : attributes value = splitAll semicolon rest := by
      unfold attributes
      rw [hsplit]
      rfl
    have hplain : ¬ isHttpOnly u (semicolon :: rest) = true := by
      unfold HttpOnly at hnot
      rw [hattributes] at hnot
      exact fun hyes => hnot ((isHttpOnly_iff rest).mp hyes)
    dsimp only
    rw [hdrop, if_neg hplain]
    by_cases hattr : ∃ attr ∈ attributes value, (afterKey attr).isSome = true
    · have hfound : (findIgnoringCase domainKey (semicolon :: rest)).isSome = true := by
        rw [found_iff, ← hattributes]
        exact hattr
      rw [if_pos hfound, keyDomain_of_found hattr]
      exact if_congr (and_iff_right hattr).symm rfl rfl
    · have hfound : ¬ (findIgnoringCase domainKey (semicolon :: rest)).isSome = true := by
        rw [found_iff, ← hattributes]
        exact hattr
      rw [if_neg hfound, if_neg (not_refused hattr), keyDomain_of_not_found hattr]

theorem ask_asked (domain : WString) : (ask peers top host domain).asked = some (orHost peers host domain) := rfl

end

/-! ## cookies as they are written -/

section
variable {u : Unicode} {white name rest : WString}

theorem letter_of_name (hname : equalIgnoringCase name domainText = true) {c : UInt16} (hc : c ∈ name) :
    0x41 ≤ c.toNat ∧ c.toNat < 0x7B := by
  have hmem : foldCase c ∈ domainText.map foldCase := by
    rw [← beq_iff_eq.mp hname]
    exact List.mem_map_of_mem hc
  have hletters : ((domainText.map foldCase).all fun d => decide (0x61 ≤ d.toNat ∧ d.toNat < 0x7B)) = true := by decide
  have hfold := of_decide_eq_true (List.all_eq_true.mp hletters _ hmem)
  unfold foldCase at hfold
  split at hfold <;> omega

theorem not_space_of_letter {c : UInt16} (h : 0x41 ≤ c.toNat ∧ c.toNat < 0x7B) : u.isSpaceOrNewline c = false := by
  rw [u.isSpaceOrNewline_ascii c (decide_eq_true (by omega))]
  unfold isASCIISpace
  simp
  omega

theorem not_letter_of_space {c : UInt16} (h : u.isSpaceOrNewline c = true) : ¬ (0x41 ≤ c.toNat ∧ c.toNat < 0x7B) := by
  intro hletter
  rw [not_space_of_letter hletter] at h
  exact Bool.false_ne_true h

theorem dropWhile_visible {s : WString} (hs : ∀ c ∈ s, u.isSpaceOrNewline c = false) :
    s.dropWhile u.isSpaceOrNewline = s := by
  cases s with
  | nil => rfl
  | cons c s => rw [List.dropWhile_cons_of_neg (by rw [hs c List.mem_cons_self]; simp)]

theorem stripWhiteSpace_white (hwhite : ∀ c ∈ white, u.isSpaceOrNewline c = true)
    (hname : ∀ c ∈ name, u.isSpaceOrNewline c = false) : stripWhiteSpace u (white ++ name) = name := by
  unfold stripWhiteSpace
  rw [List.dropWhile_append_of_pos hwhite, dropWhile_visible hname,
    dropWhile_visible fun c hc => hname c (List.mem_reverse.mp hc), List.reverse_reverse]

theorem equalsSign_not_mem (hwhite : ∀ c ∈ white, u.isSpaceOrNewline c = true)
    (hname : equalIgnoringCase name domainText = true) : equalsSign ∉ white ++ name := by
  intro hmem
  rcases List.mem_append.mp hmem with h | h
  · have hspace := hwhite _ h
    rw [u.isSpaceOrNewline_ascii equalsSign (by decide)] at hspace
    exact absurd hspace (by decide)
  · exact absurd (letter_of_name hname h) (by decide)

theorem isDomain_plain (hwhite : ∀ c ∈ white, u.isSpaceOrNewline c = true)
    (hname : equalIgnoringCase name domainText = true) :
    isDomain u (white ++ (name ++ equalsSign :: rest)) = true := by
  unfold isDomain nameOf
  rw [← List.append_assoc, takeWhile_ne_append (equalsSign_not_mem hwhite hname),
    stripWhiteSpace_white hwhite fun c hc => not_space_of_letter (letter_of_name hname hc), hname]

theorem valueOf_plain (hwhite : ∀ c ∈ white, u.isSpaceOrNewline c = true)
    (hname : equalIgnoringCase name domainText = true) :
    valueOf u (white ++ (name ++ equalsSign :: rest)) = stripWhiteSpace u rest := by
  have hnone : ∀ c ∈ white ++ name, decide (c ≠ equalsSign) = true := fun c hc =>
    decide_eq_true (ne_of_mem_of_not_mem hc (equalsSign_not_mem hwhite hname))
  unfold valueOf
  rw [← List.append_assoc, List.dropWhile_append_of_pos hnone, List.dropWhile_cons_of_neg (by simp)]
  rfl

theorem beginsWith_name (hname : equalIgnoringCase name domainText = true) (rest : WString) :
    beginsWith domainKey (name ++ equalsSign :: rest) = true := by
  unfold beginsWith
  rw [List.isPrefixOf_iff_prefix, List.map_append, beq_iff_eq.mp hname]
  exact ⟨rest.map foldCase, by rw [domainKey, List.map_append, List.append_assoc]; rfl⟩

theorem afterKey_name (hname : equalIgnoringCase name domainText = true) (rest : WString) :
    afterKey (name ++ equalsSign :: rest) = some rest := by
  have hlength : name.length = domainText.length := by simpa using congrArg List.length (beq_iff_eq.mp hname)
  have hbegins := beginsWith_name hname rest
  have hdrop : (name ++ equalsSign :: rest).drop domainKey.length = rest := by
    rw [List.drop_append, List.drop_of_length_le (by rw [hlength]; decide), hlength]
    rfl
  cases hs : name ++ equalsSign :: rest with
  | nil => simp at hs
  | cons c cs =>
    rw [hs] at hbegins hdrop
    rw [afterKey_cons, if_pos hbegins, hdrop]

theorem afterKey_plain (hwhite : ∀ c ∈ white, u.isSpaceOrNewline c = true)
    (hname : equalIgnoringCase name domainText = true) :
    afterKey (white ++ (name ++ equalsSign :: rest)) = some rest := by
  induction white with
  | nil => exact afterKey_name hname rest
  | cons c white ih =>
    rw [List.forall_mem_cons] at hwhite
    have hnot : ¬ beginsWith domainKey (c :: (white ++ (name ++ equalsSign :: rest))) = true := by
      intro hbegins
      have hhead : foldCase 0x64 = foldCase c := (List.cons_prefix_cons.mp (List.isPrefixOf_iff_prefix.mp hbegins)).1
      refine not_letter_of_space hwhite.1 ?_
      have hfold : (foldCase c).toNat = 0x64 := congrArg UInt16.toNat hhead.symm
      unfold foldCase at hfold
      split at hfold <;> omega
    rw [List.cons_append, afterKey_cons, if_neg hnot, ih hwhite.2]

end

/-! ## the domain that is found -/

section
variable {u : Unicode} {peers : Peers} {top : Option WString} {host value : WString}

theorem sees_alike (hnot : ¬ HttpOnly u value) (hkey : ∃ attr ∈ attributes value, (afterKey attr).isSome) :
    Sees u peers top host value ↔ Alike peers top host (keyDomain u value) (domainValue u value) := by
  have heq := setCookies_eq peers top host hnot
  have hrefused : Refused u peers top host value ↔
      peers.wkcNetCheckCorrectIPAddressPeer (firstpartyHost top host) = true ∧
        firstpartyHost top host ≠ keyDomain u value := and_iff_right hkey
  unfold Alike
  rw [if_congr hrefused rfl rfl] at heq
  split at heq
  · next hip =>
    rw [if_pos hip]
    constructor
    · intro hsees
      rcases hsees.asked hnot with hasked | ⟨hbarred, -⟩
      · rw [heq] at hasked
        cases hasked
      · exact hbarred.2
    · exact fun hbarred => ⟨fun h => absurd h hnot, fun _ => .inr ⟨⟨hip.1, hbarred⟩, heq⟩⟩
  · next hip =>
    rw [if_neg hip]
    constructor
    · intro hsees
      rcases hsees.asked hnot with hasked | ⟨-, hdropped⟩
      · rw [heq, ask_asked] at hasked
        exact Option.some.inj hasked
      · rw [heq] at hdropped
        cases hdropped
    · intro hsame
      refine ⟨fun h => absurd h hnot, fun _ => .inl ?_⟩
      rw [heq, ask_asked]
      exact congrArg some hsame

theorem sees_host (hnot : ¬ HttpOnly u value) (hkey : ∀ attr ∈ attributes value, afterKey attr = none) :
    Sees u peers top host value ↔ domainValue u value = [] ∨ domainValue u value = hostDomain peers host := by
  have hnone : ¬ ∃ attr ∈ attributes value, (afterKey attr).isSome := by
    rintro ⟨attr, hattr, hsome⟩
    rw [hkey attr hattr] at hsome
    cases hsome
  have heq := setCookies_eq peers top host hnot
  rw [if_neg (not_refused hnone), keyDomain_of_not_found hnone] at heq
  have hreal : some (hostDomain peers host) = some (realDomain u peers host value) ↔
      domainValue u value = [] ∨ domainValue u value = hostDomain peers host := by
    unfold realDomain orHost
    rw [Option.some.injEq]
    cases hvalue : domainValue u value with
    | nil => simp
    | cons c cs => simp [eq_comm]
  rw [← hreal]
  constructor
  · intro hsees
    rcases hsees.asked hnot with hasked | ⟨-, hdropped⟩
    · rw [← hasked, heq]
      rfl
    · rw [heq] at hdropped
      cases hdropped
  · intro hsame
    refine ⟨fun h => absurd h hnot, fun _ => .inl ?_⟩
    rw [← hsame, heq]
    rfl

theorem keyDomain_first {before after : List WString} {word rest : WString}
    (hwords : splitAll semicolon value = before ++ word :: after) (hbefore : ∀ w ∈ before, afterKey w = none)
    (hword : afterKey word = some rest) (hkey : ∃ attr ∈ attributes value, (afterKey attr).isSome) :
    keyDomain u value = stripWhiteSpace u (rest.takeWhile (fun c => c ≠ comma)) := by
  have hfirst : (splitAll semicolon value).findSome? afterKey = some rest :=
    List.findSome?_eq_some_iff.mpr ⟨before, word, after, hwords, hword, hbefore⟩
  unfold keyDomain
  rw [if_pos (List.any_eq_true.mpr hkey), hfirst]

/-- **The policy is asked for the real domain** exactly of the texts whose domain is found. -/
theorem sees_iff (u : Unicode) (peers : Peers) (top : Option WString) (host value : WString) :
    Sees u peers top host value ↔ Told u peers top host value := by
  by_cases honly : HttpOnly u value
  · exact iff_of_true ⟨fun _ => setCookies_httpOnly honly, fun hnot => absurd honly hnot⟩ (.httpOnly honly)
  constructor
  · intro hsees
    by_cases hkey : ∃ attr ∈ attributes value, (afterKey attr).isSome
    · obtain ⟨attr, hattr, hsome⟩ := hkey
      obtain ⟨rest, hrest⟩ := Option.isSome_iff_exists.mp
        (List.findSome?_isSome_iff.mpr ⟨attr, List.mem_of_mem_tail hattr, hsome⟩)
      obtain ⟨before, word, after, hwords, hword, hbefore⟩ := List.findSome?_eq_some_iff.mp hrest
      refine .decoy before word rest after hwords hbefore hword ⟨attr, hattr, hsome⟩ ?_
      rw [← keyDomain_first hwords hbefore hword ⟨attr, hattr, hsome⟩]
      exact (sees_alike honly ⟨attr, hattr, hsome⟩).mp hsees
    · have hnone : ∀ attr ∈ attributes value, afterKey attr = none := fun attr hattr =>
        Option.not_isSome_iff_eq_none.mp (fun hsome => hkey ⟨attr, hattr, hsome⟩)
      exact ((sees_host honly hnone).mp hsees).elim (.silent hnone) (.missed hnone)
  · intro htold
    cases htold with
    | httpOnly h => exact absurd h honly
    | silent hnone hempty => exact (sees_host honly hnone).mpr (.inl hempty)
    | missed hnone hhost => exact (sees_host honly hnone).mpr (.inr hhost)
    | decoy before word rest after hwords hbefore hword hkey halike =>
      rw [sees_alike honly hkey, keyDomain_first hwords hbefore hword hkey]
      exact halike
    | named pair before white name rest after hwords hpair hbefore hwhite hname hcomma hempty =>
      have hattr : afterKey (white ++ (name ++ equalsSign :: rest)) = some rest := afterKey_plain hwhite hname
      have hattributes : attributes value = before ++ (white ++ (name ++ equalsSign :: rest)) :: after := by
        unfold attributes
        rw [hwords]
        rfl
      have hkey : ∃ attr ∈ attributes value, (afterKey attr).isSome := by
        refine ⟨white ++ (name ++ equalsSign :: rest), ?_, by rw [hattr]; rfl⟩
        rw [hattributes]
        exact List.mem_append_right _ List.mem_cons_self
      -- what is found is the value of the attribute
      have hall : splitAll semicolon value = (pair :: before) ++ _ :: after := hwords
      have hfound := keyDomain_first (u := u) hall
        (List.forall_mem_cons.mpr ⟨hpair, fun w hw => (hbefore w hw).1⟩) hattr hkey
      have hvalue : domainValue u value = stripWhiteSpace u rest := by
        unfold domainValue
        rw [hattributes, List.find?_append, List.find?_eq_none.mpr (fun w hw => by simp [(hbefore w hw).2]),
          Option.none_or, List.find?_cons_of_pos (isDomain_plain hwhite hname)]
        exact valueOf_plain hwhite hname
      rw [sees_alike honly hkey, hfound, takeWhile_ne_self hcomma, hvalue]
      unfold Alike
      split
      · next hip => exact ⟨fun hnil => hip.2 (by rw [hnil]; exact hempty hnil hip.1), hip.2⟩
      · rfl

/-- The pair has a `domain=` too: the policy is asked for `evil`, not for `good`. -/
theorem pair_asked_for :
    let value : WString := [0x78, 0x3D, 0x64, 0x6F, 0x6D, 0x61, 0x69, 0x6E, 0x3D, 0x65, 0x76, 0x69, 0x6C, 0x3B, 0x44, 0x6F,
      0x6D, 0x61, 0x69, 0x6E, 0x3D, 0x67, 0x6F, 0x6F, 0x64]
    let peers : Peers := { wkcNetCheckCorrectIPAddressPeer := fun _ => false, cookieCallback := fun _ _ => false }
    setCookies Unicode.latin peers none [0x68] value = { asked := some [0x65, 0x76, 0x69, 0x6C], stored := true } ∧
      realDomain Unicode.latin peers [0x68] value = [0x67, 0x6F, 0x6F, 0x64] ∧
      ¬ Sees Unicode.latin peers none [0x68] value := by
  refine ⟨by decide, by decide, fun hsees => ?_⟩
  rcases hsees.asked (by unfold HttpOnly; decide) with hasked | ⟨hbarred, -⟩
  · exact absurd hasked (by decide)
  · exact absurd hbarred.1 (by decide)

end

end CookiePolicy
end Wkc
