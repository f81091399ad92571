import WkcBrowser.Wtf.Text

/-!
# URLs as the network code sees them

`KURL` keeps the canonical text of a parsed URL and where its query ends; the fragment, if there is
one, is what follows.  Canonical text is ASCII (`KURL::parse` works on a `char` buffer and escapes
the rest), and parsing a canonical text again, without its fragment, changes nothing.

* `removeFragmentIdentifier`, `removeFragmentIdentifierIfNeeded`   the cache key of a URL;
* `equalIgnoringCase`                                              comparison up to letter case.
-/

namespace Wkc

structure KURL where
  string : WString
  queryEnd : Nat
  protocolIsInHTTPFamily : Bool
  protocolIsData : Bool
  isLocalFile : Bool
  ascii : ∀ c ∈ string, c.toNat < 0x80

namespace KURL

/-- `m_fragmentEnd != m_queryEnd`, the fragment ending with the text -/
def hasFragmentIdentifier (u : KURL) : Bool := u.string.length != u.queryEnd

def removeFragmentIdentifier (u : KURL) : KURL :=
  { u with
    string := u.string.take u.queryEnd
    ascii := fun c hc => u.ascii c (List.mem_of_mem_take hc) }

end KURL

def removeFragmentIdentifierIfNeeded (originalURL : KURL) : KURL :=
  if originalURL.hasFragmentIdentifier = false then originalURL
  else if originalURL.protocolIsInHTTPFamily = false then originalURL
  else originalURL.removeFragmentIdentifier

/-- the text under which the cache knows a URL -/
def cacheKey (u : KURL) : WString := (removeFragmentIdentifierIfNeeded u).string

def foldCase (c : UInt16) : UInt16 :=
  if 0x41 ≤ c.toNat ∧ c.toNat ≤ 0x5A then c + 0x20 else c

def equalIgnoringCase (a b : WString) : Bool := a.map foldCase == b.map foldCase

theorem equalIgnoringCase_refl (a : WString) : equalIgnoringCase a a = true := by
  simp [equalIgnoringCase]

/-! ## URL texts are well formed -/

theorem not_surrogate_of_ascii {c : UInt16} (h : c.toNat < 0x80) :
    isLead c = false ∧ isTrail c = false := by
  constructor
  · simp only [isLead, Bool.and_eq_false_imp, decide_eq_true_eq]; omega
  · simp only [isTrail, Bool.and_eq_false_imp, decide_eq_true_eq]; omega

theorem wellFormed_of_ascii (s : WString) (h : ∀ c ∈ s, c.toNat < 0x80) : wellFormed s = true := by
  induction s with
  | nil => rfl
  | cons c s ih =>
    obtain ⟨h1, h2⟩ := not_surrogate_of_ascii (h c List.mem_cons_self)
    have hs := ih (fun x hx => h x (List.mem_cons_of_mem _ hx))
    cases s with
    | nil => simp [wellFormed, h1, h2]
    | cons c2 s => simp [wellFormed, h1, h2, hs]

theorem wellFormed_cacheKey (u : KURL) : wellFormed (cacheKey u) = true :=
  wellFormed_of_ascii _ (removeFragmentIdentifierIfNeeded u).ascii

end Wkc
