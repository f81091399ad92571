import WkcBrowser.Wtf.Words

/-!
# The realm of an authentication challenge

`headerCallback` puts the lines of a response into its header fields, and `headerRealm` looks for the realm in the
text of one field, which it takes apart at the commas and at the equals signs.

* `headerLine`, `AuthenticateHeaderDuplicate`   a line becomes part of a field, or is dropped;
* `realmPiece`, `headerRealm`                   the search;
* `Challenge`                                   what a server sends;
* `NamesRealm`                                  what in the text of a header names a realm;
* `Legible`                                     the challenges whose realm is found;
* `headerRealm_legible`                         it is found in these, and in no others.

The text of a header is ASCII: other bytes are written as `%xx`.
-/

namespace Wkc
namespace AuthenticateHeader
open Buf

def comma : UInt16 := 0x2C
def equals : UInt16 := 0x3D
def quote : UInt16 := 0x22

def lower (s : WString) : WString := s.map foldCase
def strip (s : WString) : WString := stripWhiteSpace .latin s

def wide (s : String) : WString := s.toList.map (fun c => UInt16.ofNat c.toNat)

/-! ## header fields -/

abbrev HTTPHeaderMap := List (WString × WString)

def HTTPHeaderMap.get (fields : HTTPHeaderMap) (name : WString) : Option WString :=
  (fields.find? (fun field => equalIgnoringCase field.1 name)).map (fun field => field.2)

def HTTPHeaderMap.update (fields : HTTPHeaderMap) (name value : WString) (f : WString → WString) : HTTPHeaderMap :=
  if (fields.get name).isSome then
    fields.map (fun field => (field.1, if equalIgnoringCase field.1 name then f field.2 else field.2))
  else fields ++ [(name, value)]

def setHTTPHeaderField (fields : HTTPHeaderMap) (name value : WString) : HTTPHeaderMap :=
  fields.update name value (fun _ => value)

def addHTTPHeaderField (fields : HTTPHeaderMap) (name value : WString) : HTTPHeaderMap :=
  fields.update name value (fun old => old ++ comma :: 0x20 :: value)

/-- the members that authentication uses -/
structure ResourceHandleInternal where
  m_response : HTTPHeaderMap
  m_webAuthRealm : WString
  m_proxyAuthRealm : WString

inductive ProtectionSpaceAuthenticationScheme where
  | Default | HTTPBasic | HTTPDigest | NTLM
  deriving DecidableEq

/-- the values of the enumeration -/
def ProtectionSpaceAuthenticationScheme.toNat : ProtectionSpaceAuthenticationScheme → Nat
  | .Default => 1
  | .HTTPBasic => 2
  | .HTTPDigest => 3
  | .NTLM => 5

/-- `basic` -/
def basicText : WString := [0x62, 0x61, 0x73, 0x69, 0x63]

/-- `digest` -/
def digestText : WString := [0x64, 0x69, 0x67, 0x65, 0x73, 0x74]

/-- `ntlm` -/
def ntlmText : WString := [0x6E, 0x74, 0x6C, 0x6D]

/-- `realm` -/
def realmText : WString := [0x72, 0x65, 0x61, 0x6C, 0x6D]

def valueToScheme (value : WString) : ProtectionSpaceAuthenticationScheme :=
  if ntlmText.isPrefixOf (lower value) then .NTLM
  else if digestText.isPrefixOf (lower value) then .HTTPDigest
  else if basicText.isPrefixOf (lower value) then .HTTPBasic
  else .Default

/-- `WWW-Authenticate` -/
def wwwAuthenticate : WString :=
  [0x57, 0x57, 0x57, 0x2D, 0x41, 0x75, 0x74, 0x68, 0x65, 0x6E, 0x74, 0x69, 0x63, 0x61, 0x74, 0x65]

/-- `Proxy-Authenticate` -/
def proxyAuthenticate : WString :=
  [0x50, 0x72, 0x6F, 0x78, 0x79, 0x2D, 0x41, 0x75, 0x74, 0x68, 0x65, 0x6E, 0x74, 0x69, 0x63, 0x61, 0x74, 0x65]

/-- the `switch`, without the cases that fall through to the end -/
def replaces (oldAuthScheme curAuthScheme : ProtectionSpaceAuthenticationScheme) : Bool :=
  match oldAuthScheme with
  | .Default => curAuthScheme ≠ .Default
  | .HTTPBasic => ProtectionSpaceAuthenticationScheme.HTTPBasic.toNat < curAuthScheme.toNat
  | .HTTPDigest => ProtectionSpaceAuthenticationScheme.HTTPDigest.toNat < curAuthScheme.toNat
  | .NTLM => curAuthScheme = .NTLM

def AuthenticateHeaderDuplicate (d : ResourceHandleInternal) (name value : WString) : Bool :=
  if equalIgnoringCase name wwwAuthenticate then
    replaces (valueToScheme ((d.m_response.get wwwAuthenticate).getD [])) (valueToScheme value)
  else if equalIgnoringCase name proxyAuthenticate then
    replaces (valueToScheme ((d.m_response.get proxyAuthenticate).getD [])) (valueToScheme value)
  else true

def appendableHeaders : List WString :=
  ["access-control-allow-headers", "access-control-allow-methods", "access-control-allow-origin",
    "access-control-expose-headers", "allow", "cache-control", "connection", "content-encoding", "content-language",
    "if-match", "if-none-match", "keep-alive", "pragma", "proxy-authenticate", "public", "server", "te", "trailer",
    "transfer-encoding", "upgrade", "user-agent", "vary", "via", "warning", "www-authenticate"].map wide

def isAppendableHeader (key : WString) : Bool :=
  [0x78, 0x2D].isPrefixOf (lower key) || appendableHeaders.any (equalIgnoringCase key)

def hexDigit (n : Nat) : UInt16 := UInt16.ofNat (if n < 10 then 0x30 + n else 0x57 + n)

def headerText (ptr : Bytes) : WString :=
  ptr.flatMap (fun b =>
    if b.toNat < 0x80 then [b.toUInt16] else [0x25, hexDigit (b.toNat / 16), hexDigit (b.toNat % 16)])

def colon : UInt16 := 0x3A

/-- `headerCallback` for a line that ends no header; a line without a colon changes no field -/
def headerLine (d : ResourceHandleInternal) (ptr : Bytes) : ResourceHandleInternal :=
  let header := headerText ptr
  if header.contains colon then
    let name := header.takeWhile (fun c => c ≠ colon)
    let value := strip ((header.dropWhile (fun c => c ≠ colon)).drop 1)
    if AuthenticateHeaderDuplicate d name value = false then d
    else if isAppendableHeader name then { d with m_response := addHTTPHeaderField d.m_response name value }
    else { d with m_response := setHTTPHeaderField d.m_response name value }
  else d

/-! ## the realm -/

/-- without a quote at the start and one at the end -/
def unquote (value : WString) : WString :=
  let value := if value.head? = some quote then value.drop 1 else value
  if value.getLast? = some quote then value.dropLast else value

/-- the body of the loop: the realm, if the text is about it -/
def realmPiece (text : WString) : Option WString :=
  match split equals text with
  | name :: first :: more =>
    let value := first ++ more.flatMap (fun item => equals :: item)
    if lower (strip name) ≠ realmText then none else some (unquote (strip value))
  | _ => none

/-- the texts that the loop is about -/
def realmPieces (header : WString) : List WString :=
  let header := strip header
  if digestText.isPrefixOf (lower header) then split comma (right header (header.length - 6))
  else if basicText.isPrefixOf (lower header) then [strip (right header (header.length - 5))]
  else []

def fieldName (httpCode : Nat) : WString := if httpCode = 401 then wwwAuthenticate else proxyAuthenticate

def ResourceHandleInternal.setRealm (d : ResourceHandleInternal) (httpCode : Nat) (value : WString) :
    ResourceHandleInternal :=
  if httpCode = 401 then { d with m_webAuthRealm := value } else { d with m_proxyAuthRealm := value }

def headerRealm (d : ResourceHandleInternal) (httpCode : Nat) : Bool × ResourceHandleInternal :=
  match d.m_response.get (fieldName httpCode) with
  | none => (false, d)
  | some header =>
    match (realmPieces header).findSome? realmPiece with
    | none => (false, d)
    | some value => (true, d.setRealm httpCode value)

/-! ## challenges -/

/-- a character of a name, or of a value without quotes -/
def nameChar (c : UInt16) : Bool :=
  0x20 < c.toNat && c.toNat < 0x7F && c != comma && c != equals && c != quote

/-- a character between quotes -/
def quotedChar (c : UInt16) : Bool :=
  (c == 0x09 || (0x20 ≤ c.toNat && c.toNat < 0x7F)) && c != quote && c != 0x5C

def blanks (s : WString) : Bool := s.all (fun c => c == 0x20 || c == 0x09)

structure Param where
  name : WString
  value : WString
  quoted : Bool
  lead : WString
  trail : WString
  name_ok : name ≠ [] ∧ name.all nameChar = true
  value_ok : if quoted then value.all quotedChar = true else value ≠ [] ∧ value.all nameChar = true
  blanks_ok : blanks lead = true ∧ blanks trail = true

namespace Param

def valueText (p : Param) : WString := if p.quoted then quote :: (p.value ++ [quote]) else p.value

def text (p : Param) : WString := p.lead ++ p.name ++ equals :: (p.valueText ++ p.trail)

def isRealm (p : Param) : Bool := lower p.name == realmText

/-- the parts between commas -/
def pieces (p : Param) : List WString := split comma p.text

/-- the parts behind a comma within the value -/
def behindCommas (p : Param) : List WString := p.pieces.tail

/-- the realms that the search finds in the value, if it is not its own -/
def decoys (p : Param) : List WString := p.behindCommas.filterMap realmPiece

def reads (p : Param) : List WString := p.pieces.filterMap realmPiece

end Param

def schemeText : ProtectionSpaceAuthenticationScheme → WString
  | .Default => []
  | .HTTPBasic => basicText
  | .HTTPDigest => digestText
  | .NTLM => ntlmText

/-- blanks are within: the text does not end with one -/
structure Challenge where
  scheme : ProtectionSpaceAuthenticationScheme
  name : WString
  params : List Param
  supported : scheme ≠ .Default
  name_ok : lower name = schemeText scheme
  finish : ∀ p, params.getLast? = some p → p.trail = []

namespace Challenge

def body (c : Challenge) : WString := joinWords comma (c.params.map Param.text)

def text (c : Challenge) : WString := c.name ++ c.body

def realm (c : Challenge) : Option WString := (c.params.find? Param.isRealm).map Param.value

end Challenge

/-- the first of the strongest -/
def strongest : List Challenge → Option Challenge
  | [] => none
  | c :: cs =>
    match strongest cs with
    | none => some c
    | some s => if c.scheme.toNat < s.scheme.toNat then some s else some c

structure Line (httpCode : Nat) where
  field : WString
  lead : WString
  challenge : Challenge
  trail : WString
  field_ok : equalIgnoringCase field (fieldName httpCode) = true
  lead_ok : lead.all isASCIISpace = true
  trail_ok : trail.all isASCIISpace = true

def Line.bytes {httpCode : Nat} (line : Line httpCode) : Bytes :=
  (line.field ++ colon :: (line.lead ++ line.challenge.text ++ line.trail)).map UInt16.toUInt8

/-! ## the challenges whose realm is found -/

/-- A text between commas that names a realm: equals signs, white space, the word in any case, white space, an equals
sign, and a value that is not of such signs only. Of more signs in a row the realm has one, of quotes at the ends none. -/
inductive NamesRealm (text realm : WString) : Prop where
  | intro (signs lead name trail value : WString) : text = signs ++ ((lead ++ name ++ trail) ++ equals :: value) →
      signs.all (fun c => c == equals) = true → lead.all isASCIISpace = true → lower name = realmText →
      trail.all isASCIISpace = true → (∃ c ∈ value, c ≠ equals) → realm = unquote (strip (collapse equals value)) →
      NamesRealm text realm

def Quiet (texts : List WString) : Prop := ∀ text ∈ texts, ∀ realm, ¬ NamesRealm text realm

inductive FirstRealm (texts : List WString) (realm : WString) : Prop where
  | intro (before : List WString) (text : WString) (after : List WString) : texts = before ++ text :: after →
      Quiet before → NamesRealm text realm → FirstRealm texts realm

/-- Digest: behind the commas in the parameters before the realm no other one is named, or by chance the same; and the
realm has no comma and no two equals signs in a row -/
def Clear : List Param → Prop
  | [] => True
  | p :: ps =>
    if p.isRealm then comma ∉ p.value ∧ ¬ [equals, equals] <:+: p.value
    else
      (Quiet p.behindCommas ∧ Clear ps) ∨
        ∃ realm, FirstRealm p.behindCommas realm ∧ (ps.find? Param.isRealm).map Param.value = some realm

/-- Basic: a realm is the only parameter, and has no two equals signs in a row -/
def Alone : List Param → Prop
  | [] => True
  | p :: ps =>
    if p.isRealm then ps = [] ∧ ¬ [equals, equals] <:+: p.value else ps.find? Param.isRealm = none

/-- the parts of parameters that come right after the name of a scheme, without that name -/
def partsBehind : List Param → List WString
  | [] => []
  | p :: ps => p.behindCommas ++ ps.flatMap Param.pieces

/-- Digest with NTLM behind it: nothing names a realm, and NTLM has none; or the first to do so is that of NTLM, which
is not its first parameter and has neither a comma nor two equals signs in a row; or it is another, by chance the same. -/
inductive LegibleBehind (ds : List Param) (n : Challenge) (later : List Challenge) : Prop where
  | absent : n.params.find? Param.isRealm = none →
      Quiet (ds.flatMap Param.pieces ++ (n :: later).flatMap (fun s => partsBehind s.params)) →
      LegibleBehind ds n later
  | own (first : Param) (before : List Param) (p : Param) (after : List Param) :
      n.params = first :: (before ++ p :: after) → (∀ q ∈ first :: before, q.isRealm = false) → p.isRealm = true →
      comma ∉ p.value ∧ ¬ [equals, equals] <:+: p.value →
      Quiet (ds.flatMap Param.pieces ++ partsBehind (first :: before)) → LegibleBehind ds n later
  | chance (p : Param) : n.params.find? Param.isRealm = some p →
      FirstRealm (ds.flatMap Param.pieces ++ (n :: later).flatMap (fun s => partsBehind s.params)) p.value →
      LegibleBehind ds n later

def Legible : List Challenge → Prop
  | [] => True
  | c :: cs =>
    match c.scheme, cs.filter (fun s => replaces c.scheme s.scheme) with
    | .HTTPDigest, [] => Clear c.params
    | .HTTPDigest, n :: later => LegibleBehind c.params n later
    | .HTTPBasic, [] => Alone c.params
    | .HTTPBasic, _ => (∀ p ∈ c.params.head?, p.isRealm = false) ∧ (strongest (c :: cs)).bind Challenge.realm = none
    | _, _ => c.realm = none

/-! ## white space -/

theorem blank_space {c : UInt16} (h : (c == 0x20 || c == 0x09) = true) : isASCIISpace c = true := by
  rcases (Bool.or_eq_true _ _).mp h with h | h <;> rw [beq_iff_eq.mp h] <;> rfl

theorem blanks_space {s : WString} (h : blanks s = true) : s.all isASCIISpace = true :=
  List.all_eq_true.mpr (fun c hc => blank_space (List.all_eq_true.mp h c hc))

theorem nameChar_spec {c : UInt16} (h : nameChar c = true) :
    0x20 < c.toNat ∧ c.toNat < 0x7F ∧ c ≠ comma ∧ c ≠ equals ∧ c ≠ quote := by
  simpa [nameChar, and_assoc] using h

theorem nameChar_visible {c : UInt16} (h : nameChar c = true) : isASCIISpace c = false := by
  have hlow := (nameChar_spec h).1
  simp only [isASCIISpace, Bool.and_eq_false_imp, decide_eq_true_eq]
  omega

/-- no white space at its ends -/
structure Solid (s : WString) : Prop where
  head : ∀ c ∈ s.head?, isASCIISpace c = false
  last : ∀ c ∈ s.getLast?, isASCIISpace c = false

theorem dropWhile_all {p : UInt16 → Bool} {a : WString} (h : a.all p = true) {s : WString}
    (hs : ∀ c ∈ s.head?, p c = false) : (a ++ s).dropWhile p = s := by
  rw [List.dropWhile_append_of_pos (List.all_eq_true.mp h)]
  cases s with
  | nil => rfl
  | cons c s => exact List.dropWhile_cons_of_neg (by simp [hs c rfl])

theorem strip_solid {a s b : WString} (ha : a.all isASCIISpace = true) (hs : Solid s) (hb : b.all isASCIISpace = true) :
    strip (a ++ s ++ b) = s := by
  have hstrip : ∀ s, strip s = ((s.dropWhile isASCIISpace).reverse.dropWhile isASCIISpace).reverse := fun _ => rfl
  rw [hstrip]
  cases s with
  | nil =>
    have hab : (a ++ b).all isASCIISpace = true := by rw [List.all_append, ha, hb]; rfl
    have hdrop := dropWhile_all hab (s := []) (by simp)
    rw [List.append_nil] at hdrop
    rw [List.append_nil, hdrop]
    rfl
  | cons c s =>
    rw [List.append_assoc, dropWhile_all ha (by simpa using hs.head), List.reverse_append,
      dropWhile_all (by simpa using hb) (fun d hd => hs.last d (List.head?_reverse ▸ hd)), List.reverse_reverse]

theorem strip_self {s : WString} (hs : Solid s) : strip s = s := by
  have hstrip := strip_solid (a := []) (b := []) rfl hs rfl
  rwa [List.append_nil, List.nil_append] at hstrip

theorem strip_sublist (s : WString) : (strip s).Sublist s := by
  have hdrop := List.dropWhile_sublist isASCIISpace (l := (s.dropWhile isASCIISpace).reverse)
  have hreverse := hdrop.reverse
  rw [List.reverse_reverse] at hreverse
  exact hreverse.trans (List.dropWhile_sublist isASCIISpace)

theorem countP_dropWhile {p q : UInt16 → Bool} (h : ∀ c, q c = true → p c = false) (s : WString) :
    (s.dropWhile q).countP p = s.countP p := by
  induction s with
  | nil => rfl
  | cons c s ih =>
    by_cases hc : q c = true
    · rw [List.dropWhile_cons_of_pos hc, ih, List.countP_cons_of_neg (by simp [h c hc])]
    · rw [List.dropWhile_cons_of_neg hc]

theorem countP_strip {p : UInt16 → Bool} (h : ∀ c, isASCIISpace c = true → p c = false) (s : WString) :
    (strip s).countP p = s.countP p := by
  have hstrip : strip s = ((s.dropWhile isASCIISpace).reverse.dropWhile isASCIISpace).reverse := rfl
  rw [hstrip, List.countP_reverse, countP_dropWhile h, List.countP_reverse, countP_dropWhile h]

theorem unquote_sublist (s : WString) : (unquote s).Sublist s := by
  have hfirst : (if s.head? = some quote then s.drop 1 else s).Sublist s := by
    split
    · exact List.drop_sublist 1 s
    · exact List.Sublist.refl s
  unfold unquote
  dsimp only
  generalize (if s.head? = some quote then s.drop 1 else s) = v at hfirst ⊢
  split
  · exact (List.dropLast_sublist _).trans hfirst
  · exact hfirst

theorem countP_unquote (p : UInt16 → Bool) (s : WString) : s.countP p ≤ (unquote s).countP p + 2 := by
  have hdrop : ∀ s : WString, s.countP p ≤ (s.drop 1).countP p + 1 := by
    intro s
    cases s with
    | nil => simp
    | cons c s =>
      rw [List.countP_cons, List.drop_one, List.tail_cons]
      split <;> omega
  have hlast : ∀ s : WString, s.countP p ≤ s.dropLast.countP p + 1 := by
    intro s
    have hreverse := hdrop s.reverse
    rw [List.countP_reverse, List.drop_one, List.tail_reverse, List.countP_reverse] at hreverse
    exact hreverse
  have hfirst : s.countP p ≤ (if s.head? = some quote then s.drop 1 else s).countP p + 1 := by
    split
    · exact hdrop s
    · omega
  unfold unquote
  dsimp only
  generalize (if s.head? = some quote then s.drop 1 else s) = v at hfirst ⊢
  split
  · have hrest := hlast v
    omega
  · omega

/-! ## what a parameter reads as -/

theorem unquote_quoted (v : WString) : unquote (quote :: (v ++ [quote])) = v := by
  simp [unquote]

theorem unquote_plain {v : WString} (h : quote ∉ v) : unquote v = v := by
  have hhead : v.head? ≠ some quote := fun heq => h (List.mem_of_mem_head? heq)
  have hlast : v.getLast? ≠ some quote := fun heq => h (List.mem_of_getLast? heq)
  simp [unquote, hhead, hlast]

theorem quotedChar_spec {c : UInt16} (h : quotedChar c = true) : c.toNat < 0x7F ∧ c ≠ quote := by
  simp only [quotedChar, Bool.and_eq_true, Bool.or_eq_true, beq_iff_eq, decide_eq_true_eq, bne_iff_ne] at h
  obtain ⟨⟨h | h, hquote⟩, -⟩ := h
  · exact ⟨by rw [h]; decide, hquote⟩
  · exact ⟨h.2, hquote⟩

namespace Param

theorem lead_space (p : Param) : p.lead.all isASCIISpace = true := blanks_space p.blanks_ok.1

theorem trail_space (p : Param) : p.trail.all isASCIISpace = true := blanks_space p.blanks_ok.2

theorem not_mem_blank {s : WString} (h : s.all isASCIISpace = true) {c : UInt16} (hc : isASCIISpace c = false) : c ∉ s := by
  intro hmem
  rw [List.all_eq_true.mp h c hmem] at hc
  cases hc

theorem not_mem_name (p : Param) {c : UInt16} (hc : nameChar c = false) : c ∉ p.name := by
  intro hmem
  rw [List.all_eq_true.mp p.name_ok.2 c hmem] at hc
  cases hc

theorem name_solid (p : Param) : Solid p.name where
  head c hc := nameChar_visible (List.all_eq_true.mp p.name_ok.2 c (List.mem_of_mem_head? hc))
  last c hc := nameChar_visible (List.all_eq_true.mp p.name_ok.2 c (List.mem_of_getLast? hc))

theorem plain_ok {p : Param} (h : p.quoted = false) : p.value ≠ [] ∧ p.value.all nameChar = true := by
  have hvalue := p.value_ok
  rw [h] at hvalue
  exact hvalue

theorem quoted_ok {p : Param} (h : p.quoted = true) : p.value.all quotedChar = true := by
  have hvalue := p.value_ok
  rw [h] at hvalue
  exact hvalue

theorem valueText_quoted {p : Param} (h : p.quoted = true) : p.valueText = quote :: (p.value ++ [quote]) := by
  rw [valueText, if_pos h]

theorem valueText_plain {p : Param} (h : p.quoted = false) : p.valueText = p.value := by
  rw [valueText, h, if_neg Bool.false_ne_true]

theorem unquote_valueText (p : Param) : unquote p.valueText = p.value := by
  cases h : p.quoted with
  | true => rw [valueText_quoted h, unquote_quoted]
  | false =>
    rw [valueText_plain h]
    exact unquote_plain (fun hmem => (nameChar_spec (List.all_eq_true.mp (plain_ok h).2 _ hmem)).2.2.2.2 rfl)

theorem valueText_solid (p : Param) : Solid p.valueText := by
  cases h : p.quoted with
  | true =>
    rw [valueText_quoted h]
    constructor
    · intro c hc
      cases hc
      rfl
    · intro c hc
      rw [← List.cons_append, List.getLast?_append] at hc
      cases hc
      rfl
  | false =>
    rw [valueText_plain h]
    have hvisible := fun c hc => nameChar_visible (List.all_eq_true.mp (plain_ok h).2 c hc)
    exact ⟨fun c hc => hvisible c (List.mem_of_mem_head? hc), fun c hc => hvisible c (List.mem_of_getLast? hc)⟩

theorem valueText_ne_nil (p : Param) : p.valueText ≠ [] := by
  cases h : p.quoted with
  | true => rw [valueText_quoted h]; exact List.cons_ne_nil _ _
  | false => rw [valueText_plain h]; exact (plain_ok h).1

theorem read_value (p : Param) {trail : WString} (htrail : trail.all isASCIISpace = true) :
    unquote (strip (collapse equals (p.valueText ++ trail))) = p.value ↔ ¬ [equals, equals] <:+: p.value := by
  have hequals : equals ∉ trail := not_mem_blank htrail rfl
  have hsame : [] ∉ splitAll equals (p.valueText ++ trail) →
      unquote (strip (collapse equals (p.valueText ++ trail))) = p.value := by
    intro hnone
    have hstrip := strip_solid (a := []) rfl p.valueText_solid htrail
    rw [collapse_eq hnone]
    rw [List.nil_append] at hstrip
    rw [hstrip, p.unquote_valueText]
  cases h : p.quoted with
  | false =>
    have hvalue : equals ∉ p.value := fun hmem =>
      (nameChar_spec (List.all_eq_true.mp (plain_ok h).2 _ hmem)).2.2.2.1 rfl
    have hnone : equals ∉ p.valueText ++ trail := by
      rw [valueText_plain h, List.mem_append]
      exact fun hmem => hmem.elim hvalue hequals
    refine iff_of_true (hsame ?_) (fun hpair => hvalue (hpair.subset List.mem_cons_self))
    rw [splitAll_word hnone, List.mem_singleton]
    exact fun heq => p.valueText_ne_nil (List.append_eq_nil_iff.mp heq.symm).1
  | true =>
    have hends : equals ∉ quote :: trail := by
      rw [List.mem_cons]
      rintro (heq | hmem)
      · exact absurd heq (by decide)
      · exact hequals hmem
    have htext : p.valueText ++ trail = quote :: (p.value ++ quote :: trail) := by simp [valueText_quoted h]
    have hdoubled : [] ∈ splitAll equals (p.valueText ++ trail) ↔ [equals, equals] <:+: p.value := by
      rw [htext, (splitAll_cons_tail (by decide : quote ≠ equals) _).2]
      exact splitAll_doubled (List.cons_ne_nil _ _) hends p.value
    by_cases hpair : [equals, equals] <:+: p.value
    · refine iff_of_false (fun heq => ?_) (fun hnot => hnot hpair)
      -- an equals sign is missing
      have hsome : split equals (p.valueText ++ trail) ≠ [] := by
        obtain ⟨word, hword, -⟩ := @split_mem equals quote (p.valueText ++ trail)
          (by rw [htext]; exact List.mem_cons_self) (by decide)
        exact List.ne_nil_of_mem hword
      have hlt := count_collapse_lt (hdoubled.mpr hpair) hsome
      have hle := ((unquote_sublist _).trans (strip_sublist (collapse equals (p.valueText ++ trail)))).count_le equals
      have hcount : (p.valueText ++ trail).count equals = p.value.count equals := by
        have hzero := List.count_eq_zero.mpr hends
        rw [htext, List.count_cons_of_ne (by decide), List.count_append, hzero, Nat.add_zero]
      rw [heq] at hle
      omega
    · exact iff_of_true (hsame (fun hmem => hpair (hdoubled.mp hmem))) hpair

end Param

theorem realmPiece_front {front : WString} (hne : front ≠ []) (hfront : equals ∉ front) (t : WString) :
    realmPiece (front ++ equals :: t) =
      if split equals t = [] then none
      else if lower (strip front) ≠ realmText then none else some (unquote (strip (collapse equals t))) := by
  rw [realmPiece, split_append, split_word hfront hne, List.singleton_append, collapse]
  cases split equals t with
  | nil | cons => rfl

namespace Param

def front (p : Param) : WString := p.lead ++ p.name

theorem front_ne_nil (p : Param) : p.front ≠ [] := fun h => p.name_ok.1 (List.append_eq_nil_iff.mp h).2

theorem not_mem_front (p : Param) {c : UInt16} (hspace : isASCIISpace c = false) (hc : nameChar c = false) :
    c ∉ p.front := by
  rw [front, List.mem_append]
  exact fun h => h.elim (not_mem_blank p.lead_space hspace) (p.not_mem_name hc)

theorem strip_front (p : Param) : strip p.front = p.name := by
  have hstrip := strip_solid (b := []) p.lead_space p.name_solid rfl
  rw [List.append_nil] at hstrip
  exact hstrip

theorem split_valueText (p : Param) (rest : WString) : split equals (p.valueText ++ rest) ≠ [] := by
  obtain ⟨c, hc, hne⟩ : ∃ c ∈ p.valueText, c ≠ equals := by
    cases h : p.quoted with
    | true => exact ⟨quote, by rw [valueText_quoted h]; exact List.mem_cons_self, by decide⟩
    | false =>
      obtain ⟨c, hc⟩ := List.exists_mem_of_ne_nil p.value (plain_ok h).1
      refine ⟨c, by rw [valueText_plain h]; exact hc, ?_⟩
      exact (nameChar_spec (List.all_eq_true.mp (plain_ok h).2 c hc)).2.2.2.1
  obtain ⟨word, hword, -⟩ := split_mem (List.mem_append_left rest hc) hne
  exact List.ne_nil_of_mem hword

theorem split_text (p : Param) : ∃ part parts, splitAll comma (p.valueText ++ p.trail) = part :: parts ∧
    ∀ a, comma ∉ a →
      split comma (a ++ p.text) = ((a ++ p.front) ++ equals :: part) :: parts.filter (fun word => !word.isEmpty) := by
  obtain ⟨part, parts, hparts⟩ := List.exists_cons_of_ne_nil (@splitAll_ne_nil comma (p.valueText ++ p.trail))
  refine ⟨part, parts, hparts, fun a ha => ?_⟩
  have hfront : comma ∉ a ++ (p.front ++ [equals]) := by
    simp only [List.mem_append, List.mem_singleton]
    rintro (hmem | hmem | heq)
    · exact ha hmem
    · exact p.not_mem_front rfl rfl hmem
    · exact absurd heq (by decide)
  have htext : a ++ p.text = (a ++ (p.front ++ [equals])) ++ (p.valueText ++ p.trail) := by simp [text, front]
  rw [split, htext, splitAll_within hfront hparts, List.filter_cons_of_pos (by simp)]
  simp

theorem pieces_eq (p : Param) : ∃ part parts, splitAll comma (p.valueText ++ p.trail) = part :: parts ∧
    p.pieces = (p.front ++ equals :: part) :: parts.filter (fun word => !word.isEmpty) := by
  obtain ⟨part, parts, hparts, hsplit⟩ := p.split_text
  exact ⟨part, parts, hparts, hsplit [] List.not_mem_nil⟩

theorem reads_plain {p : Param} (h : p.isRealm = false) : p.reads = p.decoys := by
  obtain ⟨part, parts, -, hpieces⟩ := p.pieces_eq
  have hname : lower p.name ≠ realmText := by simpa [isRealm] using h
  have hnone : realmPiece (p.front ++ equals :: part) = none := by
    rw [realmPiece_front p.front_ne_nil (p.not_mem_front rfl rfl), p.strip_front, if_pos hname]
    exact ite_self _
  rw [reads, decoys, behindCommas, hpieces, List.filterMap_cons_none hnone]
  rfl

theorem mem_valueText {p : Param} {c : UInt16} (hc : c ≠ quote) : c ∈ p.valueText ↔ c ∈ p.value := by
  cases h : p.quoted with
  | true => simp [valueText_quoted h, hc]
  | false => rw [valueText_plain h]

theorem reads_realm {p : Param} (h : p.isRealm = true) :
    ∃ value, p.reads = value :: p.decoys ∧
      (value = p.value ↔ comma ∉ p.value ∧ ¬ [equals, equals] <:+: p.value) := by
  obtain ⟨part, parts, hparts, hpieces⟩ := p.pieces_eq
  have hname : lower p.name = realmText := by simpa [isRealm] using h
  have hcomma : comma ∉ p.trail := not_mem_blank p.trail_space rfl
  have hread : split equals part ≠ [] → realmPiece (p.front ++ equals :: part) =
      some (unquote (strip (collapse equals part))) := by
    intro hne
    rw [realmPiece_front p.front_ne_nil (p.not_mem_front rfl rfl), p.strip_front, if_neg hne, if_neg (not_not.mpr hname)]
  have hreads : split equals part ≠ [] → p.reads = unquote (strip (collapse equals part)) :: p.decoys := by
    intro hne
    rw [reads, decoys, behindCommas, hpieces, List.filterMap_cons_some (hread hne)]
    rfl
  by_cases hmem : comma ∈ p.value
  · have hquoted : p.quoted = true := by
      by_contra hplain
      have hvalue := plain_ok (Bool.eq_false_of_not_eq_true hplain)
      exact (nameChar_spec (List.all_eq_true.mp hvalue.2 _ hmem)).2.2.1 rfl
    have hquote : quote ∈ part := by
      obtain ⟨word, words, hwords⟩ :=
        List.exists_cons_of_ne_nil (@splitAll_ne_nil comma (p.value ++ [quote] ++ p.trail))
      rw [valueText_quoted hquoted, List.cons_append, splitAll_cons_ne (by decide) hwords] at hparts
      rw [← (List.cons.inj hparts).1]
      exact List.mem_cons_self
    have hne : split equals part ≠ [] := by
      obtain ⟨word, hword, -⟩ := @split_mem equals quote part hquote (by decide)
      exact List.ne_nil_of_mem hword
    refine ⟨_, hreads hne, iff_of_false (fun heq => ?_) (fun hclear => hclear.1 hmem)⟩
    -- nothing behind the comma is read
    have hpart : comma ∉ part := by
      refine @splitAll_not_mem comma (p.valueText ++ p.trail) part ?_
      rw [hparts]
      exact List.mem_cons_self
    have hin : comma ∈ collapse equals part := by
      refine ((unquote_sublist _).trans (strip_sublist _)).subset ?_
      rw [heq]
      exact hmem
    have hcount : (collapse equals part).count comma = part.count comma :=
      @countP_collapse equals (fun c => c == comma) (by decide) part
    rw [List.count_eq_zero.mpr hpart] at hcount
    exact List.count_eq_zero.mp hcount hin
  · have hword : comma ∉ p.valueText ++ p.trail := by
      rw [List.mem_append, mem_valueText (by decide)]
      exact fun h => h.elim hmem hcomma
    rw [splitAll_word hword] at hparts
    obtain ⟨rfl, rfl⟩ := List.cons.inj hparts
    refine ⟨_, hreads (p.split_valueText p.trail), ?_⟩
    rw [p.read_value p.trail_space]
    exact ⟨fun hpair => ⟨hmem, hpair⟩, fun h => h.2⟩

end Param

/-! ## Basic -/

/-- neither white space nor an equals sign -/
def ink (c : UInt16) : Bool := !isASCIISpace c && c != equals

theorem ink_spec {c : UInt16} (hspace : isASCIISpace c = false) (hne : c ≠ equals) : ink c = true := by
  simp [ink, hspace, hne]

theorem ink_read (t : WString) : t.countP ink ≤ (unquote (strip (collapse equals t))).countP ink + 2 := by
  have hstrip := countP_strip (p := ink) (fun c hc => by simp [ink, hc]) (collapse equals t)
  rw [@countP_collapse equals ink (by decide)] at hstrip
  have hquotes := countP_unquote ink (strip (collapse equals t))
  omega

namespace Param

theorem ink_front (p : Param) : 0 < p.front.countP ink := by
  obtain ⟨c, hc⟩ := List.exists_mem_of_ne_nil p.name p.name_ok.1
  have hname := List.all_eq_true.mp p.name_ok.2 c hc
  refine List.countP_pos_iff.mpr ⟨c, List.mem_append_right _ hc, ?_⟩
  exact ink_spec (nameChar_visible hname) (nameChar_spec hname).2.2.2.1

theorem ink_text (p : Param) : p.text.countP ink = p.front.countP ink + p.valueText.countP ink := by
  have htrail : p.trail.countP ink = 0 := by
    refine List.countP_eq_zero.mpr (fun c hc => ?_)
    simp [ink, List.all_eq_true.mp p.trail_space c hc]
  have hequals : ink equals = false := by decide
  have htext : p.text = p.front ++ equals :: (p.valueText ++ p.trail) := rfl
  rw [htext, List.countP_append, List.countP_cons_of_neg (by simp [hequals]), List.countP_append, htrail, Nat.add_zero]

theorem ink_valueText (p : Param) : p.value.countP ink ≤ p.valueText.countP ink ∧ 0 < p.valueText.countP ink := by
  cases h : p.quoted with
  | true =>
    rw [valueText_quoted h, List.countP_cons_of_pos (by decide), List.countP_append]
    omega
  | false =>
    rw [valueText_plain h]
    obtain ⟨c, hc⟩ := List.exists_mem_of_ne_nil p.value (plain_ok h).1
    have hvalue := List.all_eq_true.mp (plain_ok h).2 c hc
    refine ⟨Nat.le_refl _, List.countP_pos_iff.mpr ⟨c, hc, ?_⟩⟩
    exact ink_spec (nameChar_visible hvalue) (nameChar_spec hvalue).2.2.2.1

end Param

/-- the last character is no white space -/
def Ends (s : WString) : Prop := s ≠ [] ∧ ∀ c ∈ s.getLast?, isASCIISpace c = false

theorem Ends.behind {s : WString} (h : Ends s) (a : WString) : Ends (a ++ s) := by
  refine ⟨fun heq => h.1 (List.append_eq_nil_iff.mp heq).2, ?_⟩
  rw [List.getLast?_append_of_ne_nil _ h.1]
  exact h.2

theorem Ends.of_append {a s : WString} (h : Ends (a ++ s)) (hne : s ≠ []) : Ends s := by
  refine ⟨hne, ?_⟩
  have hlast := h.2
  rw [List.getLast?_append_of_ne_nil _ hne] at hlast
  exact hlast

theorem mem_realmText {c : UInt16} (h : c ∈ realmText) : isASCIISpace c = false := by
  simp only [realmText, List.mem_cons, List.not_mem_nil, or_false] at h
  rcases h with rfl | rfl | rfl | rfl | rfl <;> rfl

theorem foldCase_visible {c : UInt16} (h : isASCIISpace (foldCase c) = false) : isASCIISpace c = false := by
  unfold foldCase at h
  split at h
  · next hupper =>
    simp only [isASCIISpace, Bool.and_eq_false_imp, decide_eq_true_eq]
    omega
  · exact h

theorem mem_lower {s t : WString} (h : lower s = t) {c : UInt16} (hc : c ∈ s) : foldCase c ∈ t := by
  rw [← h]
  exact List.mem_map_of_mem hc

theorem ends_joinWords (ps : List Param) (hne : ps ≠ []) (hfinish : ∀ p, ps.getLast? = some p → p.trail = []) :
    Ends (joinWords comma (ps.map Param.text)) := by
  induction ps with
  | nil => exact absurd rfl hne
  | cons p ps ih =>
    cases ps with
    | nil =>
      have htext : joinWords comma ([p].map Param.text) = (p.front ++ [equals]) ++ p.valueText := by
        simp [joinWords, Param.text, Param.front, hfinish p rfl]
      rw [htext]
      exact Ends.behind ⟨p.valueText_ne_nil, p.valueText_solid.last⟩ _
    | cons q ps =>
      rw [List.map_cons, joinWords_cons _ (by simp)]
      have hrest := ih (List.cons_ne_nil q ps) (fun r hr => hfinish r (by rw [List.getLast?_cons_cons]; exact hr))
      rw [← List.singleton_append, ← List.append_assoc]
      exact hrest.behind _

theorem schemeText_letters (scheme : ProtectionSpaceAuthenticationScheme) :
    (schemeText scheme).all (fun c => isASCII c && !isASCIISpace c) = true := by
  cases scheme <;> rfl

theorem mem_schemeText {scheme : ProtectionSpaceAuthenticationScheme} {c : UInt16} (h : c ∈ schemeText scheme) :
    isASCII c = true ∧ isASCIISpace c = false := by
  simpa using List.all_eq_true.mp (schemeText_letters scheme) c h

namespace Challenge

theorem name_visible (c : Challenge) {x : UInt16} (hx : x ∈ c.name) : isASCIISpace x = false := by
  exact foldCase_visible (mem_schemeText (mem_lower c.name_ok hx)).2

theorem not_mem_name (c : Challenge) {x : UInt16} (hx : ∀ scheme, foldCase x ∉ schemeText scheme) : x ∉ c.name :=
  fun hmem => hx c.scheme (mem_lower c.name_ok hmem)

theorem name_ne_nil (c : Challenge) : c.name ≠ [] := by
  intro h
  have hname := c.name_ok
  rw [h] at hname
  have hsupported := c.supported
  cases hscheme : c.scheme with
  | Default => exact hsupported hscheme
  | HTTPBasic | HTTPDigest | NTLM => rw [hscheme] at hname; cases hname

theorem text_ends (c : Challenge) : Ends c.text := by
  by_cases hne : c.params = []
  · rw [text, body, hne, List.map_nil, joinWords, List.append_nil]
    exact ⟨c.name_ne_nil, fun x hx => c.name_visible (List.mem_of_getLast? hx)⟩
  · exact (ends_joinWords c.params hne c.finish).behind c.name

theorem text_solid (c : Challenge) : Solid c.text where
  head x hx := by
    rw [text, List.head?_append_of_ne_nil _ c.name_ne_nil] at hx
    exact c.name_visible (List.mem_of_mem_head? hx)
  last := c.text_ends.2

end Challenge

/-- the challenges that are added to a field -/
def added (cs : List Challenge) : WString := cs.flatMap (fun c => comma :: 0x20 :: c.text)

theorem Ends.added {s : WString} (h : Ends s) (cs : List Challenge) : Ends (s ++ added cs) := by
  induction cs generalizing s with
  | nil => simpa [AuthenticateHeader.added] using h
  | cons c cs ih =>
    have hnext := ih ((c.text_ends.behind [comma, 0x20]).behind s)
    simpa [AuthenticateHeader.added] using hnext

/-! ## what the texts of challenges read as -/

theorem not_realm {name : WString} {c : UInt16} (hc : c ∈ name) (hspace : isASCIISpace c = false)
    (hrealm : foldCase c ∉ realmText) : lower (strip name) ≠ realmText := by
  intro h
  refine hrealm (mem_lower h ?_)
  have hcount : (strip name).count c = name.count c := countP_strip (fun d hd => beq_false_of_ne (by
    rintro rfl
    rw [hspace] at hd
    cases hd)) name
  rw [← List.count_pos_iff, hcount]
  exact List.count_pos_iff.mpr hc

theorem realmPiece_comma (s : WString) : realmPiece (comma :: s) = none := by
  obtain ⟨word, words, hwords⟩ := List.exists_cons_of_ne_nil (@splitAll_ne_nil equals s)
  have hsplit : split equals (comma :: s) = (comma :: word) :: words.filter (fun word => !word.isEmpty) := by
    rw [split, splitAll_cons_ne (by decide) hwords, List.filter_cons_of_pos (by simp)]
  have hname := not_realm (List.mem_cons_self : comma ∈ comma :: word) (by decide) (by decide)
  unfold realmPiece
  rw [hsplit]
  cases words.filter (fun word => !word.isEmpty) with
  | nil => rfl
  | cons first more => exact if_pos hname

theorem realmPiece_signs {signs : WString} (h : signs.all (fun c => c == equals) = true) (t : WString) :
    realmPiece (signs ++ t) = realmPiece t := by
  induction signs with
  | nil => rfl
  | cons c signs ih =>
    obtain ⟨hc, hsigns⟩ := Bool.and_eq_true_iff.mp h
    rw [beq_iff_eq.mp hc, List.cons_append, realmPiece, split_cons]
    exact ih hsigns

theorem strip_within (s : WString) : ∃ lead trail, s = lead ++ strip s ++ trail ∧ lead.all isASCIISpace = true ∧
    trail.all isASCIISpace = true := by
  let rest := s.dropWhile isASCIISpace
  refine ⟨s.takeWhile isASCIISpace, (rest.reverse.takeWhile isASCIISpace).reverse, ?_, List.all_takeWhile, ?_⟩
  · have hrest : strip s ++ (rest.reverse.takeWhile isASCIISpace).reverse = rest := by
      show (rest.reverse.dropWhile isASCIISpace).reverse ++ _ = rest
      rw [← List.reverse_append, List.takeWhile_append_dropWhile, List.reverse_reverse]
    rw [List.append_assoc, hrest, List.takeWhile_append_dropWhile]
  · rw [List.all_reverse]
    exact List.all_takeWhile

theorem realmPiece_iff (text realm : WString) : realmPiece text = some realm ↔ NamesRealm text realm := by
  constructor
  · intro h
    have hsigns : (text.takeWhile (fun c => c == equals)).all (fun c => c == equals) = true := List.all_takeWhile
    rw [← List.takeWhile_append_dropWhile (p := fun c => c == equals) (l := text), realmPiece_signs hsigns] at h
    generalize ht : text.dropWhile (fun c => c == equals) = t at h
    have hhead : ∀ c ∈ t.head?, c ≠ equals := by
      intro c hc
      rw [← ht] at hc
      have hnot := List.head?_dropWhile_not (fun c => c == equals) text
      rw [hc] at hnot
      simpa using hnot
    -- the name goes up to the first sign
    have hfront : equals ∉ t.takeWhile (fun c => c != equals) := by
      intro hmem
      exact absurd (List.all_eq_true.mp List.all_takeWhile _ hmem) (by decide)
    cases hrest : t.dropWhile (fun c => c != equals) with
    | nil =>
      have hall := List.takeWhile_append_dropWhile (p := fun c => c != equals) (l := t)
      rw [hrest, List.append_nil] at hall
      rw [hall] at hfront
      by_cases hne : t = []
      · rw [hne] at h
        cases h
      · rw [realmPiece, split_word hfront hne] at h
        cases h
    | cons c value =>
      have hc : c = equals := by
        have hnot := List.head?_dropWhile_not (fun c => c != equals) t
        rw [hrest] at hnot
        simpa using hnot
      subst hc
      have hall := List.takeWhile_append_dropWhile (p := fun c => c != equals) (l := t)
      rw [hrest] at hall
      have hne : t.takeWhile (fun c => c != equals) ≠ [] := by
        intro hnil
        rw [hnil, List.nil_append] at hall
        exact hhead equals (by rw [← hall]; rfl) rfl
      rw [← hall, realmPiece_front hne hfront] at h
      obtain ⟨lead, trail, hname, hlead, htrail⟩ := strip_within (t.takeWhile (fun c => c != equals))
      split at h
      · cases h
      next hvalue =>
      split at h
      · cases h
      next hrealm =>
      refine .intro (text.takeWhile (fun c => c == equals)) lead (strip (t.takeWhile (fun c => c != equals))) trail value
        ?_ hsigns hlead (not_not.mp hrealm) htrail ?_ (Option.some.inj h).symm
      · rw [← hname, hall, ← ht, List.takeWhile_append_dropWhile]
      · obtain ⟨word, hword⟩ := List.exists_mem_of_ne_nil _ hvalue
        obtain ⟨hmem, hfull⟩ := List.mem_filter.mp hword
        obtain ⟨c, hc⟩ := List.exists_mem_of_ne_nil word (by simpa using hfull)
        have hin : c ∈ joinWords equals _ := (sublist_joinWords hmem).subset hc
        rw [joinWords_splitAll] at hin
        refine ⟨c, hin, fun heq => ?_⟩
        exact splitAll_not_mem value word hmem (heq ▸ hc)
  · rintro ⟨signs, lead, name, trail, value, rfl, hsigns, hlead, hname, htrail, ⟨c, hc, hne⟩, rfl⟩
    have hsolid : Solid name := by
      have hvisible : ∀ c ∈ name, isASCIISpace c = false := fun c hc =>
        foldCase_visible (mem_realmText (mem_lower hname hc))
      exact ⟨fun c hc => hvisible c (List.mem_of_mem_head? hc), fun c hc => hvisible c (List.mem_of_getLast? hc)⟩
    have hfront : equals ∉ lead ++ name ++ trail := by
      simp only [List.mem_append]
      rintro ((hmem | hmem) | hmem)
      · exact Param.not_mem_blank hlead rfl hmem
      · exact absurd (mem_lower hname hmem) (by decide)
      · exact Param.not_mem_blank htrail rfl hmem
    have hne' : lead ++ name ++ trail ≠ [] := by
      intro heq
      have hnil : name = [] := by simp_all
      rw [hnil] at hname
      cases hname
    have hsplit : split equals value ≠ [] := by
      obtain ⟨word, hword, -⟩ := split_mem hc hne
      exact List.ne_nil_of_mem hword
    rw [realmPiece_signs hsigns, realmPiece_front hne' hfront, if_neg hsplit, strip_solid hlead hsolid htrail,
      if_neg (not_not.mpr hname)]

theorem quiet_iff (texts : List WString) : Quiet texts ↔ texts.filterMap realmPiece = [] := by
  rw [List.filterMap_eq_nil_iff]
  refine forall₂_congr (fun text _ => ?_)
  rw [Option.eq_none_iff_forall_ne_some]
  exact forall_congr' (fun realm => not_congr (realmPiece_iff text realm).symm)

theorem firstRealm_iff (texts : List WString) (realm : WString) :
    FirstRealm texts realm ↔ (texts.filterMap realmPiece).head? = some realm := by
  rw [List.head?_filterMap, List.findSome?_eq_some_iff]
  constructor
  · rintro ⟨before, text, after, htexts, hquiet, hnames⟩
    exact ⟨before, text, after, htexts, (realmPiece_iff text realm).mpr hnames,
      List.filterMap_eq_nil_iff.mp ((quiet_iff before).mp hquiet)⟩
  · rintro ⟨before, text, after, htexts, hnames, hquiet⟩
    exact ⟨before, text, after, htexts, (quiet_iff before).mpr (List.filterMap_eq_nil_iff.mpr hquiet),
      (realmPiece_iff text realm).mp hnames⟩

theorem clear_iff (ps : List Param) :
    ((ps.flatMap Param.pieces).filterMap realmPiece).head? = (ps.find? Param.isRealm).map Param.value ↔ Clear ps := by
  induction ps with
  | nil => simp [Clear]
  | cons p ps ih =>
    have hreads : p.pieces.filterMap realmPiece = p.reads := rfl
    rw [List.flatMap_cons, List.filterMap_append, hreads, Clear]
    cases h : p.isRealm with
    | true =>
      obtain ⟨value, hreads, hvalue⟩ := Param.reads_realm h
      rw [hreads, List.find?_cons_of_pos h, if_pos rfl, ← hvalue]
      simp
    | false =>
      have hdecoys : p.behindCommas.filterMap realmPiece = p.decoys := rfl
      rw [Param.reads_plain h, List.find?_cons_of_neg (by simp [h]), if_neg Bool.false_ne_true, quiet_iff, hdecoys]
      simp only [firstRealm_iff, hdecoys]
      cases p.decoys with
      | nil => simpa using ih
      | cons value rest => simp [eq_comm]

/-- NTLM behind another scheme: its name is taken for a part of the first parameter's -/
theorem reads_behind {s : Challenge} (h : s.scheme = .NTLM) :
    (split comma (0x20 :: s.text)).filterMap realmPiece = (partsBehind s.params).filterMap realmPiece := by
  have hn : ∃ c ∈ s.name, foldCase c = 0x6E := by
    have hname := s.name_ok
    rw [h] at hname
    cases hs : s.name with
    | nil => exact absurd hs s.name_ne_nil
    | cons c rest =>
      rw [hs] at hname
      exact ⟨c, List.mem_cons_self, (List.cons.inj hname).1⟩
  obtain ⟨c, hc, hfold⟩ := hn
  have hcomma : comma ∉ (0x20 : UInt16) :: s.name :=
    List.not_mem_cons_of_ne_of_not_mem (by decide) (s.not_mem_name (fun scheme => by cases scheme <;> decide))
  have hequals : equals ∉ (0x20 : UInt16) :: s.name :=
    List.not_mem_cons_of_ne_of_not_mem (by decide) (s.not_mem_name (fun scheme => by cases scheme <;> decide))
  have hbehind : ∀ rest, lower (strip ((0x20 :: s.name) ++ rest)) ≠ realmText := fun rest =>
    not_realm (List.mem_append_left rest (List.mem_cons_of_mem _ hc)) (s.name_visible hc) (by rw [hfold]; decide)
  unfold Challenge.text Challenge.body
  cases s.params with
  | nil =>
    rw [List.map_nil, joinWords, List.append_nil, split_word hcomma (List.cons_ne_nil _ _)]
    have hnone : realmPiece (0x20 :: s.name) = none := by
      rw [realmPiece, split_word hequals (List.cons_ne_nil _ _)]
    simp [hnone, partsBehind]
  | cons p ps =>
    obtain ⟨part, parts, -, hsplit⟩ := p.split_text
    have hpieces : p.pieces.tail = parts.filter (fun word => !word.isEmpty) :=
      congrArg List.tail (hsplit [] List.not_mem_nil)
    have hfirst := hsplit (0x20 :: s.name) hcomma
    rw [← hpieces] at hfirst
    have hnone : realmPiece (((0x20 :: s.name) ++ p.front) ++ equals :: part) = none := by
      have hin : equals ∉ (0x20 :: s.name) ++ p.front := by
        rw [List.mem_append]
        exact fun hmem => hmem.elim hequals (p.not_mem_front rfl rfl)
      rw [realmPiece_front (by simp) hin, if_pos (hbehind p.front)]
      exact ite_self _
    rw [List.map_cons, joinWords, ← List.cons_append, ← List.append_assoc, split_flatMap, hfirst, List.cons_append,
      List.filterMap_cons_none hnone, partsBehind, List.flatMap_map]
    rfl

theorem digest_reads (c : Challenge) {later : List Challenge} (hlater : ∀ s ∈ later, s.scheme = .NTLM) :
    (split comma (c.body ++ added later)).filterMap realmPiece =
      (c.params.flatMap Param.pieces ++ later.flatMap (fun s => partsBehind s.params)).filterMap realmPiece := by
  have hadded : added later = (later.map (fun s => 0x20 :: s.text)).flatMap (fun word => comma :: word) := by
    rw [added, List.flatMap_map]
  rw [hadded, split_flatMap, Challenge.body, split_joinWords, List.filterMap_append, List.filterMap_append,
    List.flatMap_map, List.flatMap_map, List.filterMap_flatMap (l := later), List.filterMap_flatMap (l := later)]
  congr 1
  rw [List.flatMap_def, List.flatMap_def]
  congr 1
  exact List.map_congr_left (fun s hs => reads_behind (hlater s hs))

/-- what is behind the first value -/
def behind (ps : List Param) (later : List Challenge) : WString :=
  ps.flatMap (fun p => comma :: p.text) ++ added later

theorem basic_text {c : Challenge} {p : Param} {ps : List Param} (hparams : c.params = p :: ps) (later : List Challenge) :
    strip (c.body ++ added later) = p.name ++ equals :: (p.valueText ++ (p.trail ++ behind ps later)) := by
  have hbody : c.body ++ added later =
      p.lead ++ (p.name ++ equals :: (p.valueText ++ (p.trail ++ behind ps later))) := by
    simp [Challenge.body, hparams, joinWords, Param.text, behind, List.flatMap_map]
  have hends := c.text_ends.added later
  rw [Challenge.text, List.append_assoc, hbody, ← List.append_assoc] at hends
  have hcore := hends.of_append (by simp)
  have hsolid : Solid (p.name ++ equals :: (p.valueText ++ (p.trail ++ behind ps later))) := by
    refine ⟨fun x hx => ?_, hcore.2⟩
    rw [List.head?_append_of_ne_nil _ p.name_ok.1] at hx
    exact p.name_solid.head x hx
  have hstrip := strip_solid (b := []) p.lead_space hsolid rfl
  rw [List.append_nil, ← hbody] at hstrip
  exact hstrip

theorem basic_none {c : Challenge} (hparams : c.params = []) (later : List Challenge) :
    realmPiece (strip (c.body ++ added later)) = none := by
  rw [Challenge.body, hparams, List.map_nil, joinWords, List.nil_append]
  cases later with
  | nil => rfl
  | cons s later =>
    have hends := (s.text_ends.behind [comma, 0x20]).added later
    have hadded : added (s :: later) = ([comma, 0x20] ++ s.text) ++ added later := by simp [added]
    have hsolid : Solid (added (s :: later)) := by
      rw [hadded]
      refine ⟨fun x hx => ?_, hends.2⟩
      cases hx
      rfl
    rw [strip_self hsolid]
    exact realmPiece_comma _

theorem basic_reads {c : Challenge} {p : Param} {ps : List Param} (hparams : c.params = p :: ps)
    (later : List Challenge) : realmPiece (strip (c.body ++ added later)) =
      if p.isRealm then some (unquote (strip (collapse equals (p.valueText ++ (p.trail ++ behind ps later))))) else none := by
  rw [basic_text hparams, realmPiece_front p.name_ok.1 (p.not_mem_name rfl), if_neg (p.split_valueText _)]
  rw [strip_self p.name_solid, Param.isRealm]
  by_cases h : lower p.name = realmText <;> simp [h]

theorem read_other {p : Param} {rest value : WString}
    (h : value.countP ink + 2 < p.valueText.countP ink + rest.countP ink) :
    unquote (strip (collapse equals (p.valueText ++ (p.trail ++ rest)))) ≠ value := by
  intro heq
  have hread := ink_read (p.valueText ++ (p.trail ++ rest))
  rw [heq, List.countP_append, List.countP_append] at hread
  omega

theorem ink_comma (s : WString) : (comma :: s).countP ink = s.countP ink + 1 := List.countP_cons_of_pos (by decide)

theorem alone_iff (c : Challenge) :
    realmPiece (strip (c.body ++ added [])) = c.realm ↔ Alone c.params := by
  unfold Challenge.realm
  cases hparams : c.params with
  | nil =>
    rw [basic_none hparams]
    simp [Alone]
  | cons p ps =>
    rw [basic_reads hparams, Alone]
    cases h : p.isRealm with
    | false =>
      rw [if_neg Bool.false_ne_true, if_neg Bool.false_ne_true, List.find?_cons_of_neg (by simp [h]), eq_comm,
        Option.map_eq_none_iff]
    | true =>
      rw [if_pos rfl, if_pos rfl, List.find?_cons_of_pos h, Option.map_some, Option.some.injEq]
      cases ps with
      | nil =>
        have hread := p.read_value p.trail_space
        simpa [behind, added] using hread
      | cons q qs =>
        refine iff_of_false (read_other ?_) (fun h => absurd h.1 (List.cons_ne_nil q qs))
        have hbehind : behind (q :: qs) [] = comma :: (q.text ++ behind qs []) := by simp [behind]
        have hvalue := p.ink_valueText.1
        have hfront := q.ink_front
        have hvalue' := q.ink_valueText.2
        rw [hbehind, ink_comma, List.countP_append, q.ink_text]
        omega

theorem ink_param {c : Challenge} {p : Param} (hp : p ∈ c.params) : p.value.countP ink + 2 ≤ c.text.countP ink := by
  have hname : 0 < c.name.countP ink := by
    obtain ⟨x, hx⟩ := List.exists_mem_of_ne_nil c.name c.name_ne_nil
    refine List.countP_pos_iff.mpr ⟨x, hx, ink_spec (c.name_visible hx) ?_⟩
    rintro rfl
    exact c.not_mem_name (fun scheme => by cases scheme <;> decide) hx
  have hbody : p.text.countP ink ≤ c.body.countP ink :=
    (sublist_joinWords (List.mem_map_of_mem hp)).countP_le
  have hfront := p.ink_front
  have hvalue := p.ink_valueText.1
  rw [p.ink_text] at hbody
  rw [Challenge.text, List.countP_append]
  omega

theorem read_added {p q : Param} {ps : List Param} {later : List Challenge} {s : Challenge} (hs : s ∈ later)
    (hq : q ∈ s.params) :
    unquote (strip (collapse equals (p.valueText ++ (p.trail ++ behind ps later)))) ≠ q.value := by
  refine read_other ?_
  have hsub : (comma :: 0x20 :: s.text).Sublist (behind ps later) := by
    refine List.Sublist.trans ?_ (List.sublist_append_right _ _)
    exact List.sublist_flatten_of_mem (List.mem_map_of_mem hs)
  have hcount := hsub.countP_le (p := ink)
  have hvalue := p.ink_valueText.2
  have hink := ink_param hq
  rw [ink_comma, List.countP_cons_of_neg (by decide)] at hcount
  omega

/-! ## the strongest challenge -/

theorem strongest_spec (cs : List Challenge) (hne : cs ≠ []) :
    ∃ s, strongest cs = some s ∧ s ∈ cs ∧ ∀ c ∈ cs, c.scheme.toNat ≤ s.scheme.toNat := by
  induction cs with
  | nil => exact absurd rfl hne
  | cons c cs ih =>
    rw [strongest]
    by_cases hcs : cs = []
    · subst hcs
      exact ⟨c, rfl, List.mem_cons_self, by simp⟩
    · obtain ⟨s, hs, hmem, hmax⟩ := ih hcs
      rw [hs]
      dsimp only
      split
      · next hlt =>
        refine ⟨s, rfl, List.mem_cons_of_mem c hmem, fun d hd => ?_⟩
        rcases List.mem_cons.mp hd with rfl | hd
        · omega
        · exact hmax d hd
      · next hle =>
        refine ⟨c, rfl, List.mem_cons_self, fun d hd => ?_⟩
        rcases List.mem_cons.mp hd with rfl | hd
        · omega
        · have hd := hmax d hd
          omega

theorem strongest_first {c : Challenge} {cs : List Challenge} (h : ∀ s ∈ cs, s.scheme.toNat ≤ c.scheme.toNat) :
    strongest (c :: cs) = some c := by
  rw [strongest]
  by_cases hcs : cs = []
  · rw [hcs]
    rfl
  · obtain ⟨s, hs, hmem, -⟩ := strongest_spec cs hcs
    rw [hs]
    exact if_neg (by have hle := h s hmem; omega)

/-! ## the search -/

theorem text_lower (c : Challenge) (rest : WString) : lower (c.text ++ rest) = schemeText c.scheme ++ lower (c.body ++ rest) := by
  rw [Challenge.text, List.append_assoc, lower, List.map_append, ← lower, c.name_ok]
  rfl

theorem valueToScheme_text (c : Challenge) (rest : WString) : valueToScheme (c.text ++ rest) = c.scheme := by
  have hsupported := c.supported
  unfold valueToScheme
  rw [text_lower]
  cases h : c.scheme with
  | Default => exact absurd h hsupported
  | HTTPBasic | HTTPDigest | NTLM => rfl

theorem right_body (c : Challenge) (rest : WString) :
    right (c.text ++ rest) ((c.text ++ rest).length - (schemeText c.scheme).length) = c.body ++ rest := by
  have hlength : c.name.length = (schemeText c.scheme).length := by rw [← c.name_ok, lower, List.length_map]
  rw [← hlength, right, if_pos (Nat.sub_le _ _), Challenge.text, List.append_assoc, List.length_append,
    Nat.add_sub_cancel_left, Nat.add_sub_cancel]
  exact List.drop_left

theorem realmPieces_eq (c : Challenge) (later : List Challenge) :
    realmPieces (c.text ++ added later) =
      match c.scheme with
      | .HTTPDigest => split comma (c.body ++ added later)
      | .HTTPBasic => [strip (c.body ++ added later)]
      | _ => [] := by
  have hsolid : Solid (c.text ++ added later) := by
    refine ⟨fun x hx => ?_, (c.text_ends.added later).2⟩
    rw [List.head?_append_of_ne_nil _ c.text_ends.1] at hx
    exact c.text_solid.head x hx
  have hright := right_body c (added later)
  unfold realmPieces
  rw [strip_self hsolid]
  dsimp only
  rw [text_lower]
  cases h : c.scheme with
  | Default => exact absurd h c.supported
  | HTTPBasic =>
    rw [h] at hright
    exact congrArg (fun s => [strip s]) hright
  | HTTPDigest =>
    rw [h] at hright
    exact congrArg (split comma) hright
  | NTLM => rfl

theorem replaces_ntlm {s : Challenge} (h : replaces .HTTPDigest s.scheme = true) : s.scheme = .NTLM := by
  revert h
  cases s.scheme <;> decide

theorem toNat_le (scheme : ProtectionSpaceAuthenticationScheme) : scheme.toNat ≤ 5 := by cases scheme <;> decide

theorem not_replaced {scheme : ProtectionSpaceAuthenticationScheme} {cs : List Challenge}
    (h : cs.filter (fun s => replaces scheme s.scheme) = []) {s : Challenge} (hs : s ∈ cs) :
    replaces scheme s.scheme = false :=
  Bool.eq_false_of_not_eq_true (List.filter_eq_nil_iff.mp h s hs)

theorem strongest_added {c : Challenge} (hscheme : c.scheme = .HTTPBasic) {cs : List Challenge}
    (hadded : cs.filter (fun s => replaces .HTTPBasic s.scheme) ≠ []) :
    ∃ s ∈ cs.filter (fun s => replaces .HTTPBasic s.scheme), strongest (c :: cs) = some s := by
  obtain ⟨l, hl⟩ := List.exists_mem_of_ne_nil _ hadded
  obtain ⟨hmem, hstronger⟩ := List.mem_filter.mp hl
  obtain ⟨s, hs, hin, hmax⟩ := strongest_spec (c :: cs) (List.cons_ne_nil c cs)
  have hlt : 2 < s.scheme.toNat := Nat.lt_of_lt_of_le (of_decide_eq_true hstronger) (hmax l (List.mem_cons_of_mem c hmem))
  rcases List.mem_cons.mp hin with rfl | hin
  · rw [hscheme] at hlt
    exact absurd hlt (by decide)
  · exact ⟨s, List.mem_filter.mpr ⟨hin, decide_eq_true hlt⟩, hs⟩

theorem strongest_behind {c n : Challenge} (hscheme : c.scheme = .HTTPDigest) {cs later : List Challenge}
    (hadded : cs.filter (fun s => replaces .HTTPDigest s.scheme) = n :: later) : strongest (c :: cs) = some n := by
  obtain ⟨before, after, rfl, hbefore, hn, -⟩ := List.filter_eq_cons_iff.mp hadded
  have hntlm : n.scheme.toNat = 5 := by rw [replaces_ntlm hn]; rfl
  have hweaker : ∀ s ∈ c :: before, s.scheme.toNat < n.scheme.toNat := by
    intro s hs
    rcases List.mem_cons.mp hs with rfl | hs
    · rw [hscheme, hntlm]
      decide
    · have hle : s.scheme.toNat ≤ 3 := Nat.le_of_not_lt (fun hlt => hbefore s hs (decide_eq_true hlt))
      omega
  have hall : ∀ front : List Challenge, (∀ s ∈ front, s.scheme.toNat < n.scheme.toNat) →
      strongest (front ++ n :: after) = some n := by
    intro front
    induction front with
    | nil =>
      intro _
      exact strongest_first (fun s _ => by rw [hntlm]; exact toNat_le s.scheme)
    | cons s front ih =>
      intro h
      rw [List.cons_append, strongest, ih (fun x hx => h x (List.mem_cons_of_mem s hx))]
      exact if_pos (h s List.mem_cons_self)
  exact hall (c :: before) hweaker

theorem legibleBehind_iff (ds : List Param) (n : Challenge) (later : List Challenge) :
    ((ds.flatMap Param.pieces ++ (n :: later).flatMap (fun s => partsBehind s.params)).filterMap realmPiece).head? =
      n.realm ↔ LegibleBehind ds n later := by
  constructor
  · intro h
    unfold Challenge.realm at h
    cases hrealm : n.params.find? Param.isRealm with
    | none =>
      rw [hrealm, Option.map_none, List.head?_eq_none_iff] at h
      exact .absent hrealm ((quiet_iff _).mpr h)
    | some p =>
      rw [hrealm] at h
      exact .chance p hrealm ((firstRealm_iff _ _).mpr h)
  · intro h
    unfold Challenge.realm
    cases h with
    | absent hrealm hquiet =>
      rw [hrealm, (quiet_iff _).mp hquiet]
      rfl
    | chance p hrealm hfirst =>
      rw [hrealm]
      exact (firstRealm_iff _ _).mp hfirst
    | own first before p after hparams hother hrealm hclear hquiet =>
      have hfind : n.params.find? Param.isRealm = some p := by
        rw [hparams, ← List.cons_append, List.find?_append, List.find?_cons_of_pos hrealm,
          List.find?_eq_none.mpr (fun q hq => by simp [hother q hq])]
        rfl
      obtain ⟨value, hreads, hvalue⟩ := Param.reads_realm hrealm
      have hown : p.pieces.filterMap realmPiece = p.value :: p.decoys := by
        rw [← hvalue.mpr hclear]
        exact hreads
      have hbefore := (quiet_iff _).mp hquiet
      rw [partsBehind, ← List.append_assoc] at hbefore
      rw [hfind, List.flatMap_cons, hparams, partsBehind, List.flatMap_append, List.flatMap_cons]
      simp only [← List.append_assoc]
      rw [List.append_assoc (_ ++ _) p.pieces, List.append_assoc (_ ++ _) _ (List.flatMap _ later),
        List.filterMap_append, hbefore, List.nil_append]
      simp [hown]

theorem search_iff (c : Challenge) (cs : List Challenge) :
    (realmPieces (c.text ++ added (cs.filter (fun s => replaces c.scheme s.scheme)))).findSome? realmPiece =
      (strongest (c :: cs)).bind Challenge.realm ↔ Legible (c :: cs) := by
  rw [realmPieces_eq, Legible]
  cases hscheme : c.scheme with
  | Default => exact absurd hscheme c.supported
  | NTLM =>
    have hfirst : strongest (c :: cs) = some c :=
      strongest_first (fun s _ => by rw [hscheme]; exact toNat_le s.scheme)
    rw [hfirst]
    exact eq_comm
  | HTTPDigest =>
    have hntlm : ∀ s ∈ cs.filter (fun s => replaces .HTTPDigest s.scheme), s.scheme = .NTLM :=
      fun s hs => replaces_ntlm (List.mem_filter.mp hs).2
    dsimp only
    rw [← List.head?_filterMap, digest_reads c hntlm]
    cases hlater : cs.filter (fun s => replaces .HTTPDigest s.scheme) with
    | nil =>
      have hfirst : strongest (c :: cs) = some c := strongest_first (fun s hs => by
        rw [hscheme]
        exact Nat.le_of_not_lt (of_decide_eq_false (not_replaced hlater hs)))
      rw [hfirst, List.flatMap_nil, List.append_nil]
      exact clear_iff c.params
    | cons n later =>
      rw [strongest_behind hscheme hlater]
      exact legibleBehind_iff c.params n later
  | HTTPBasic =>
    dsimp only
    cases hlater : cs.filter (fun s => replaces .HTTPBasic s.scheme) with
    | nil =>
      have hfirst : strongest (c :: cs) = some c := strongest_first (fun s hs => by
        rw [hscheme]
        exact Nat.le_of_not_lt (of_decide_eq_false (not_replaced hlater hs)))
      rw [hfirst, List.findSome?_singleton]
      exact alone_iff c
    | cons l later =>
      rw [List.findSome?_singleton]
      cases hparams : c.params with
      | nil =>
        rw [basic_none hparams, eq_comm]
        simp
      | cons p ps =>
        rw [basic_reads hparams]
        cases h : p.isRealm with
        | false =>
          rw [if_neg Bool.false_ne_true, eq_comm]
          exact ⟨fun hnone => ⟨fun x hx => by cases hx; exact h, hnone⟩, fun hleg => hleg.2⟩
        | true =>
          rw [if_pos rfl]
          refine iff_of_false ?_ (fun hleg => by simpa [h] using hleg.1 p rfl)
          obtain ⟨s, hs, hstrongest⟩ := strongest_added hscheme (by rw [hlater]; exact List.cons_ne_nil l later)
          rw [hlater] at hs
          rw [hstrongest, Option.bind_some, Challenge.realm]
          intro heq
          obtain ⟨q, hq, hvalue⟩ := Option.map_eq_some_iff.mp heq.symm
          exact read_added hs (List.mem_of_find?_eq_some hq) hvalue.symm

/-! ## the lines -/

theorem same_name {a b : WString} (h : equalIgnoringCase a b = true) (c : WString) :
    equalIgnoringCase c a = equalIgnoringCase c b := by
  unfold equalIgnoringCase at *
  rw [beq_iff_eq.mp h]

theorem get_same {fields : HTTPHeaderMap} {a b : WString} (h : equalIgnoringCase a b = true) :
    fields.get a = fields.get b := by
  unfold HTTPHeaderMap.get
  simp only [same_name h]

theorem get_update (fields : HTTPHeaderMap) (name value : WString) (f : WString → WString) :
    (fields.update name value f).get name = some (((fields.get name).map f).getD value) := by
  unfold HTTPHeaderMap.update
  cases hget : fields.get name with
  | none =>
    have hnone : fields.find? (fun field => equalIgnoringCase field.1 name) = none := Option.map_eq_none_iff.mp hget
    rw [if_neg (by simp), HTTPHeaderMap.get, List.find?_append, hnone]
    simp [equalIgnoringCase_refl]
  | some old =>
    obtain ⟨field, hfind, rfl⟩ := Option.map_eq_some_iff.mp hget
    have hname : equalIgnoringCase field.1 name = true :=
      List.find?_some (p := fun field : WString × WString => equalIgnoringCase field.1 name) hfind
    rw [if_pos Option.isSome_some, HTTPHeaderMap.get, List.find?_map]
    have hsame : ((fun field : WString × WString => equalIgnoringCase field.1 name) ∘ fun field : WString × WString =>
        (field.1, if equalIgnoringCase field.1 name then f field.2 else field.2)) =
        fun field : WString × WString => equalIgnoringCase field.1 name := rfl
    rw [hsame, hfind]
    simp [hname]

theorem isASCII_foldCase {c : UInt16} (h : isASCII (foldCase c) = true) : isASCII c = true := by
  unfold foldCase at h
  split at h
  · next hupper => exact decide_eq_true (by omega)
  · exact h

theorem lower_ascii {s t : WString} (h : lower s = t) (ht : ∀ c ∈ t, isASCII c = true) : ∀ c ∈ s, isASCII c = true :=
  fun _ hc => isASCII_foldCase (ht _ (mem_lower h hc))

theorem headerText_ascii {s : WString} (h : ∀ c ∈ s, isASCII c = true) : headerText (s.map UInt16.toUInt8) = s := by
  induction s with
  | nil => rfl
  | cons c s ih =>
    have hc : c.toNat < 0x80 := of_decide_eq_true (h c List.mem_cons_self)
    have hbyte : c.toUInt8.toNat = c.toNat := by
      show c.toNat % 2 ^ 8 = c.toNat
      omega
    have hback : c.toUInt8.toUInt16 = c := UInt16.toNat_inj.mp hbyte
    have hrest := ih (fun d hd => h d (List.mem_cons_of_mem c hd))
    unfold headerText at hrest ⊢
    rw [List.map_cons, List.flatMap_cons, hrest, if_pos (by rw [hbyte]; exact hc), hback]
    rfl

theorem space_ascii {s : WString} (h : s.all isASCIISpace = true) : ∀ c ∈ s, isASCII c = true := by
  intro c hc
  have hspace := List.all_eq_true.mp h c hc
  simp only [isASCIISpace, Bool.and_eq_true, decide_eq_true_eq] at hspace
  exact decide_eq_true (by omega)

theorem Param.ascii (p : Param) : ∀ c ∈ p.text, isASCII c = true := by
  intro c hc
  simp only [Param.text, List.mem_append, List.mem_cons] at hc
  rcases hc with (hc | hc) | rfl | hc | hc
  · exact space_ascii p.lead_space c hc
  · exact decide_eq_true (Nat.lt_trans (nameChar_spec (List.all_eq_true.mp p.name_ok.2 c hc)).2.1 (by decide))
  · rfl
  · by_cases hquote : c = quote
    · rw [hquote]
      rfl
    · rw [Param.mem_valueText hquote] at hc
      cases h : p.quoted with
      | true =>
        exact decide_eq_true (Nat.lt_trans (quotedChar_spec (List.all_eq_true.mp (Param.quoted_ok h) c hc)).1 (by decide))
      | false =>
        exact decide_eq_true (Nat.lt_trans (nameChar_spec (List.all_eq_true.mp (Param.plain_ok h).2 c hc)).2.1 (by decide))
  · exact space_ascii p.trail_space c hc

theorem joinWords_all {q : UInt16 → Prop} (hcomma : q comma) {words : List WString}
    (h : ∀ word ∈ words, ∀ c ∈ word, q c) : ∀ c ∈ joinWords comma words, q c := by
  induction words with
  | nil => intro c hc; cases hc
  | cons word words ih =>
    intro c hc
    rw [joinWords, List.mem_append, List.mem_flatMap] at hc
    rcases hc with hc | ⟨next, hnext, hc⟩
    · exact h word List.mem_cons_self c hc
    · rcases List.mem_cons.mp hc with rfl | hc
      · exact hcomma
      · exact h next (List.mem_cons_of_mem word hnext) c hc

theorem Challenge.ascii (c : Challenge) : ∀ x ∈ c.text, isASCII x = true := by
  intro x hx
  rcases List.mem_append.mp hx with hx | hx
  · exact lower_ascii c.name_ok (fun y hy => (mem_schemeText hy).1) x hx
  · refine joinWords_all (q := fun x => isASCII x = true) rfl (fun word hword => ?_) x hx
    obtain ⟨p, _, rfl⟩ := List.mem_map.mp hword
    exact p.ascii

section
variable {httpCode : Nat}

theorem Line.lower_field (line : Line httpCode) : lower line.field = lower (fieldName httpCode) :=
  beq_iff_eq.mp line.field_ok

theorem Line.field_appendable (line : Line httpCode) : isAppendableHeader line.field = true := by
  have hnames : ∃ name ∈ appendableHeaders, lower name = lower (fieldName httpCode) := by
    unfold fieldName
    split
    · exact ⟨lower wwwAuthenticate, by decide, by decide⟩
    · exact ⟨lower proxyAuthenticate, by decide, by decide⟩
  obtain ⟨name, hname, hlower⟩ := hnames
  rw [isAppendableHeader, Bool.or_eq_true, List.any_eq_true]
  refine .inr ⟨name, hname, beq_iff_eq.mpr ?_⟩
  exact line.lower_field.trans hlower.symm

theorem Line.parsed (line : Line httpCode) (d : ResourceHandleInternal) :
    headerLine d line.bytes =
      if AuthenticateHeaderDuplicate d line.field line.challenge.text = false then d
      else { d with m_response := addHTTPHeaderField d.m_response line.field line.challenge.text } := by
  have hletters : (lower (fieldName httpCode)).all (fun c => isASCII c && c != colon) = true := by
    unfold fieldName
    split <;> rfl
  have hname : ∀ c ∈ lower (fieldName httpCode), isASCII c = true ∧ c ≠ colon := fun c hc => by
    simpa using List.all_eq_true.mp hletters c hc
  have hcolon : colon ∉ line.field := fun hmem => (hname _ (mem_lower line.lower_field hmem)).2 rfl
  have hascii : ∀ c ∈ line.field ++ colon :: (line.lead ++ line.challenge.text ++ line.trail), isASCII c = true := by
    intro c hc
    simp only [List.mem_append, List.mem_cons] at hc
    rcases hc with hc | rfl | (hc | hc) | hc
    · exact lower_ascii line.lower_field (fun c hc => (hname c hc).1) c hc
    · rfl
    · exact space_ascii line.lead_ok c hc
    · exact line.challenge.ascii c hc
    · exact space_ascii line.trail_ok c hc
  have hfront : ∀ c ∈ line.field, (fun c => decide (c ≠ colon)) c = true := fun c hc =>
    decide_eq_true (fun heq => hcolon (heq ▸ hc))
  unfold headerLine
  rw [Line.bytes, headerText_ascii hascii]
  dsimp only
  rw [List.takeWhile_append_of_pos hfront, List.dropWhile_append_of_pos hfront]
  simp only [List.contains_eq_mem, List.mem_append, List.mem_cons, true_or, or_true, decide_true, if_true,
    List.takeWhile_cons, List.dropWhile_cons, ne_eq, not_true_eq_false, decide_false, Bool.false_eq_true, if_false,
    List.append_nil, List.drop_one, List.tail_cons,
    strip_solid line.lead_ok line.challenge.text_solid line.trail_ok, line.field_appendable]

/-- the lines of a response -/
def received (d : ResourceHandleInternal) (lines : List (Line httpCode)) : ResourceHandleInternal :=
  lines.foldl (fun d line => headerLine d line.bytes) d

theorem duplicate_eq (d : ResourceHandleInternal) (line : Line httpCode) :
    AuthenticateHeaderDuplicate d line.field line.challenge.text =
      replaces (valueToScheme ((d.m_response.get (fieldName httpCode)).getD [])) line.challenge.scheme := by
  have hvalue : valueToScheme line.challenge.text = line.challenge.scheme := by
    have htext := valueToScheme_text line.challenge []
    rw [List.append_nil] at htext
    exact htext
  have hfield := line.lower_field
  unfold AuthenticateHeaderDuplicate equalIgnoringCase
  unfold lower at hfield
  rw [hfield, hvalue]
  unfold fieldName
  split <;> rfl

theorem added_append (a b : List Challenge) : added (a ++ b) = added a ++ added b := List.flatMap_append ..

theorem received_behind {c : Challenge} (lines : List (Line httpCode)) :
    ∀ (d : ResourceHandleInternal) (later : List Challenge),
      d.m_response.get (fieldName httpCode) = some (c.text ++ added later) →
      (received d lines).m_response.get (fieldName httpCode) =
        some (c.text ++ added (later ++ (lines.map Line.challenge).filter (fun s => replaces c.scheme s.scheme))) := by
  induction lines with
  | nil => intro d later h; rw [List.map_nil, List.filter_nil, List.append_nil]; exact h
  | cons line lines ih =>
    intro d later h
    have hstep : headerLine d line.bytes = if replaces c.scheme line.challenge.scheme = false then d
        else { d with m_response := addHTTPHeaderField d.m_response line.field line.challenge.text } := by
      rw [line.parsed, duplicate_eq, h, Option.getD_some, valueToScheme_text]
    rw [received, List.foldl_cons, hstep, List.map_cons]
    cases hreplaces : replaces c.scheme line.challenge.scheme with
    | false =>
      rw [if_pos rfl, List.filter_cons_of_neg (by simp [hreplaces])]
      exact ih d later h
    | true =>
      have hkept : (line.challenge :: lines.map Line.challenge).filter (fun s => replaces c.scheme s.scheme) =
          line.challenge :: (lines.map Line.challenge).filter (fun s => replaces c.scheme s.scheme) :=
        List.filter_cons_of_pos hreplaces
      rw [if_neg Bool.true_eq_false.mp, hkept]
      have hnext : (addHTTPHeaderField d.m_response line.field line.challenge.text).get (fieldName httpCode) =
          some (c.text ++ added (later ++ [line.challenge])) := by
        rw [← get_same line.field_ok, addHTTPHeaderField, get_update, get_same line.field_ok, h, added_append]
        simp [added]
      have hrest := ih { d with m_response := addHTTPHeaderField d.m_response line.field line.challenge.text }
        (later ++ [line.challenge]) hnext
      rw [List.append_assoc, List.singleton_append] at hrest
      exact hrest

theorem received_first {d : ResourceHandleInternal} (hfresh : d.m_response.get (fieldName httpCode) = none)
    (line : Line httpCode) (lines : List (Line httpCode)) :
    (received d (line :: lines)).m_response.get (fieldName httpCode) =
      some (line.challenge.text ++ added ((lines.map Line.challenge).filter
        (fun s => replaces line.challenge.scheme s.scheme))) := by
  have hsupported : replaces .Default line.challenge.scheme = true := decide_eq_true line.challenge.supported
  have hstep : headerLine d line.bytes =
      { d with m_response := addHTTPHeaderField d.m_response line.field line.challenge.text } := by
    rw [line.parsed, duplicate_eq, hfresh]
    exact if_neg (by
      show ¬ replaces .Default line.challenge.scheme = false
      rw [hsupported]
      exact Bool.noConfusion)
  have hget : (addHTTPHeaderField d.m_response line.field line.challenge.text).get (fieldName httpCode) =
      some (line.challenge.text ++ added []) := by
    rw [← get_same line.field_ok, addHTTPHeaderField, get_update, get_same line.field_ok, hfresh]
    simp [added]
  rw [received, List.foldl_cons, hstep]
  exact received_behind lines
    { d with m_response := addHTTPHeaderField d.m_response line.field line.challenge.text } [] hget

/-- the realm is stored, and there is one -/
def foundRealm (d : ResourceHandleInternal) (httpCode : Nat) (realm : Option WString) : Bool × ResourceHandleInternal :=
  match realm with
  | none => (false, d)
  | some value => (true, d.setRealm httpCode value)

theorem foundRealm_inj {d : ResourceHandleInternal} {a b : Option WString} :
    foundRealm d httpCode a = foundRealm d httpCode b ↔ a = b := by
  constructor
  · intro h
    cases a with
    | none =>
      cases b with
      | none => rfl
      | some value => exact absurd (congrArg Prod.fst h) Bool.noConfusion
    | some value =>
      cases b with
      | none => exact absurd (congrArg Prod.fst h) Bool.noConfusion
      | some other =>
        have hrealm := congrArg Prod.snd h
        simp only [foundRealm, ResourceHandleInternal.setRealm] at hrealm
        split at hrealm
        · exact congrArg some (congrArg ResourceHandleInternal.m_webAuthRealm hrealm)
        · exact congrArg some (congrArg ResourceHandleInternal.m_proxyAuthRealm hrealm)
  · rintro rfl
    rfl

/-- **The realm of the strongest challenge** is stored, or there is none and so it is told, exactly if the challenges
are legible. -/
theorem headerRealm_legible {d : ResourceHandleInternal} (hfresh : d.m_response.get (fieldName httpCode) = none)
    (lines : List (Line httpCode)) :
    headerRealm (received d lines) httpCode =
        foundRealm (received d lines) httpCode ((strongest (lines.map Line.challenge)).bind Challenge.realm) ↔
      Legible (lines.map Line.challenge) := by
  cases lines with
  | nil =>
    refine iff_of_true ?_ trivial
    show headerRealm d httpCode = (false, d)
    rw [headerRealm, hfresh]
  | cons line lines =>
    have hget := received_first hfresh line lines
    have hsearch : headerRealm (received d (line :: lines)) httpCode =
        foundRealm (received d (line :: lines)) httpCode
          ((realmPieces (line.challenge.text ++ added ((lines.map Line.challenge).filter
            (fun s => replaces line.challenge.scheme s.scheme)))).findSome? realmPiece) := by
      rw [headerRealm, hget]
      rfl
    rw [hsearch, foundRealm_inj]
    exact search_iff line.challenge (lines.map Line.challenge)

end

namespace Sample

/-- `Digest realm="..."` -/
def digest (value : WString) (h : value.all quotedChar = true) : Challenge where
  scheme := .HTTPDigest
  name := [0x44, 0x69, 0x67, 0x65, 0x73, 0x74]
  params := [⟨realmText, value, true, [0x20], [], by decide, h, by decide⟩]
  supported := by decide
  name_ok := by decide
  finish := by simp

def line (challenge : Challenge) : Line 401 where
  field := wwwAuthenticate
  lead := [0x20]
  challenge := challenge
  trail := [0x0D, 0x0A]
  field_ok := by decide
  lead_ok := by decide
  trail_ok := by decide

def job : ResourceHandleInternal := ⟨[], [], []⟩

/-- `a` -/
def short : Challenge := digest [0x61] (by decide)

/-- `a,b` -/
def twoWords : Challenge := digest [0x61, 0x2C, 0x62] (by decide)

end Sample

open AuthenticateHeader.Sample

theorem headerRealm_legible_one :
    headerRealm (received job [line short]) 401 =
        foundRealm (received job [line short]) 401 ((strongest ([line short].map Line.challenge)).bind Challenge.realm) ↔
      Legible ([line short].map Line.challenge) :=
  headerRealm_legible rfl [line short]

/-- the realm `a,b` is read as `a` -/
theorem headerRealm_comma :
    job.m_response.get (fieldName 401) = none ∧
    (strongest ([line twoWords].map Line.challenge)).bind Challenge.realm = some [0x61, 0x2C, 0x62] ∧
    (headerRealm (received job [line twoWords]) 401).2.m_webAuthRealm = [0x61] ∧
    headerRealm (received job [line twoWords]) 401 ≠ foundRealm (received job [line twoWords]) 401
      ((strongest ([line twoWords].map Line.challenge)).bind Challenge.realm) := by
  have hread : (headerRealm (received job [line twoWords]) 401).2.m_webAuthRealm = [0x61] := by decide +kernel
  refine ⟨rfl, by decide, hread, fun heq => ?_⟩
  rw [heq] at hread
  exact absurd hread (by decide +kernel)

end AuthenticateHeader
end Wkc
