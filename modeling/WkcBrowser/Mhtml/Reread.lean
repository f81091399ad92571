import WkcBrowser.Mhtml.Parse
import WkcBrowser.Mhtml.Save

/-!
# Reading a saved page again

The writer and the parser agree on the pieces of a page: header lines, the empty line, bodies, boundaries.

* `Plain`, `parseHeader_field`, `parseHeader_folded`   header lines;
* `NoBoundaryLine`, `steps_body`                       a body and the boundary after it;
* `steps_partHeader`                                   the header of a part.
-/

namespace Wkc
namespace Mhtml

/-! ## lines -/

/-- no line ends here -/
def Plain (bs : Bytes) : Prop := ∀ b ∈ bs, b ≠ 0x0D ∧ b ≠ 0x0A

instance (bs : Bytes) : Decidable (Plain bs) := List.decidableBAll _ bs

theorem Plain.append {as bs : Bytes} (ha : Plain as) (hb : Plain bs) : Plain (as ++ bs) :=
  fun b h => (List.mem_append.mp h).elim (ha b) (hb b)

@[simp] theorem isEndOfLine_crlf (rest : Bytes) : isEndOfLine (CRLF ++ rest) = 2 := rfl

theorem isEndOfLine_plain {b : UInt8} (h : b ≠ 0x0D ∧ b ≠ 0x0A) (rest : Bytes) :
    isEndOfLine (b :: rest) = 0 := by
  rw [isEndOfLine, if_neg h.1, if_neg h.2]

theorem calcLineLength_plain {line : Bytes} (h : Plain line) (rest : Bytes) :
    calcLineLength (line ++ (CRLF ++ rest)) = line.length + 2 := by
  induction line with
  | nil => rfl
  | cons b line ih =>
    have hb := h b List.mem_cons_self
    rw [List.cons_append, calcLineLength, isEndOfLine_plain hb, if_neg (Nat.lt_irrefl 0),
      ih (fun c hc => h c (List.mem_cons_of_mem _ hc)), List.length_cons]

/-! ## header lines -/

/-- the characters of a header name -/
def NameChar (b : UInt8) : Prop := (isAlphaNum b || b == 0x2D) = true

instance (b : UInt8) : Decidable (NameChar b) := inferInstanceAs (Decidable (_ = true))

def HeaderName (name : Bytes) : Prop := ∀ b ∈ name, NameChar b

instance (name : Bytes) : Decidable (HeaderName name) := List.decidableBAll _ name

theorem NameChar.not_special {b : UInt8} (h : NameChar b) : (b ≠ 0x0D ∧ b ≠ 0x0A) ∧ isWSP b = false := by
  refine ⟨⟨?_, ?_⟩, ?_⟩
  · rintro rfl
    revert h
    decide
  · rintro rfl
    revert h
    decide
  · apply Bool.eq_false_iff.mpr
    intro hwsp
    rcases Bool.or_eq_true _ _ ▸ hwsp with hb | hb
    all_goals
      rw [beq_iff_eq.mp hb] at h
      revert h
      decide

theorem parseHeaderLoop_name {name : Bytes} (hname : HeaderName name) (passed rest : Bytes) :
    parseHeaderLoop .NAME passed 0 [] (name ++ 0x3A :: rest) =
      parseHeaderLoop .VALUE (passed ++ name ++ [0x3A]) ((passed ++ name).length + 1) (passed ++ name) rest := by
  induction name generalizing passed with
  | nil =>
    have hcolon : isEndOfLine (0x3A :: rest) = 0 := rfl
    rw [List.nil_append, List.append_nil, parseHeaderLoop, hcolon]
    rw [if_neg (fun h => absurd h.2 (Nat.lt_irrefl 0)), if_neg (fun h => absurd h.2 (by decide)),
      if_neg (by decide), if_pos rfl]
  | cons b name ih =>
    have hb : (isAlphaNum b || b == 0x2D) = true := hname b List.mem_cons_self
    obtain ⟨hplain, hwsp⟩ := NameChar.not_special hb
    have hpassed : passed ++ [b] ++ name = passed ++ b :: name := by simp
    rw [List.cons_append, parseHeaderLoop, isEndOfLine_plain hplain, hwsp,
      if_neg (fun h => absurd h.2 (Nat.lt_irrefl 0)), if_neg (fun h => absurd h.2 Bool.false_ne_true),
      if_pos hb, ih (fun c hc => hname c (List.mem_cons_of_mem _ hc)), hpassed]

theorem parseHeaderLoop_value {status : HeaderState} (hstatus : status = .VALUE ∨ status = .VALUE_FOLDING)
    {value : Bytes} (hvalue : Plain value) (passed : Bytes) (vBegin : Nat) (name rest : Bytes) :
    parseHeaderLoop status passed vBegin name (value ++ (CRLF ++ rest)) =
      some { len := passed.length + value.length + 2, name := name,
             value := (passed ++ value).drop vBegin, status := .NAME } := by
  induction value generalizing passed with
  | nil =>
    have hend : isEndOfLine (CRLF ++ rest) = 2 := rfl
    rw [List.nil_append, List.append_nil]
    rcases hstatus with rfl | rfl
    all_goals
      show (if 0 < isEndOfLine (CRLF ++ rest) then _ else _) = _
      rw [hend, if_pos Nat.two_pos]
      rfl
  | cons b value ih =>
    have hb := isEndOfLine_plain (hvalue b List.mem_cons_self) (value ++ (CRLF ++ rest))
    have hloop : parseHeaderLoop status passed vBegin name (b :: (value ++ (CRLF ++ rest))) =
        parseHeaderLoop status (passed ++ [b]) vBegin name (value ++ (CRLF ++ rest)) := by
      rcases hstatus with rfl | rfl
      all_goals
        show (if 0 < isEndOfLine _ then _ else _) = _
        rw [hb, if_neg (Nat.lt_irrefl 0)]
    rw [List.cons_append, hloop, ih (fun c hc => hvalue c (List.mem_cons_of_mem _ hc)), List.append_assoc,
      List.singleton_append, List.length_append, List.length_singleton, List.length_cons]
    simp only [Option.some.injEq, HeaderLine.mk.injEq, and_true]
    omega

theorem parseHeader_field {name value : Bytes} (hname : HeaderName name) (hvalue : Plain value)
    (rest : Bytes) :
    parseHeader (name ++ 0x3A :: (value ++ (CRLF ++ rest))) .NAME =
      some { len := name.length + 1 + value.length + 2, name := name, value := value, status := .NAME } := by
  unfold parseHeader
  rw [parseHeaderLoop_name hname, List.nil_append, parseHeaderLoop_value (.inl rfl) hvalue]
  have hdrop : (name ++ [0x3A] ++ value).drop (name.length + 1) = value := by
    apply List.drop_left'
    rw [List.length_append, List.length_singleton]
  rw [hdrop, List.length_append, List.length_singleton]

theorem parseHeader_folded {value : Bytes} (hvalue : Plain value) (rest : Bytes) :
    parseHeader (0x09 :: (value ++ (CRLF ++ rest))) .NAME =
      some { len := 1 + value.length + 2, value := value, status := .NAME } := by
  have hloop : parseHeader (0x09 :: (value ++ (CRLF ++ rest))) .NAME =
      parseHeaderLoop .VALUE_FOLDING [0x09] 1 [] (value ++ (CRLF ++ rest)) := rfl
  rw [hloop, parseHeaderLoop_value (.inr rfl) hvalue]
  rfl

theorem parseHeader_done (rest : Bytes) : parseHeader rest .END = some { len := 0, status := .END } := by
  cases rest with
  | nil | cons => rfl

/-! ## what header lines say -/

theorem infix_split {α : Type} {p x y : List α} {c : α} (hc : c ∉ p) (h : p <:+: x ++ c :: y) :
    p <:+: x ∨ p <:+: y := by
  obtain ⟨pre, post, heq⟩ := h
  rw [List.append_assoc] at heq
  rcases List.append_eq_append_iff.mp heq with ⟨as, hx, hrest⟩ | ⟨as, hpre, hrest⟩
  · rcases List.append_eq_append_iff.mp hrest with ⟨bs, has, hpost⟩ | ⟨bs, hp, hcons⟩
    · left
      exact ⟨pre, bs, by rw [hx, has, List.append_assoc]⟩
    · cases bs with
      | nil =>
        left
        exact ⟨pre, [], by rw [hx, hp, List.append_nil, List.append_nil]⟩
      | cons b bs =>
        obtain ⟨rfl, -⟩ := List.cons.inj hcons
        exact absurd (by rw [hp]; simp) hc
  · cases as with
    | nil =>
      cases p with
      | nil => exact .inl List.nil_infix
      | cons b p =>
        obtain ⟨rfl, -⟩ := List.cons.inj hrest
        exact absurd List.mem_cons_self hc
    | cons b as =>
      right
      obtain ⟨-, hy⟩ := List.cons.inj hrest
      exact ⟨as, post, by rw [List.append_assoc]; exact hy.symm⟩

theorem findIgnoringCase_split {s t pattern : WString} {c : UInt16} (hc : foldCase c ∉ pattern.map foldCase)
    (hs : findIgnoringCase s pattern = false) (ht : findIgnoringCase t pattern = false) :
    findIgnoringCase (s ++ c :: t) pattern = false := by
  apply decide_eq_false
  intro h
  rw [List.map_append, List.map_cons] at h
  rcases infix_split hc h with h | h
  · exact of_decide_eq_false hs h
  · exact of_decide_eq_false ht h

theorem findIgnoringCase_starts (pattern s : WString) : findIgnoringCase (pattern ++ s) pattern = true := by
  apply decide_eq_true
  rw [List.map_append]
  exact (List.prefix_append _ _).isInfix

def Ascii (s : WString) : Prop := ∀ c ∈ s, c.toNat < 0x80

def NoSpace (s : WString) : Prop := ∀ c ∈ s, isSpaceOrNewline c = false

instance (s : WString) : Decidable (Ascii s) := List.decidableBAll _ s

instance (s : WString) : Decidable (NoSpace s) := List.decidableBAll _ s

theorem latin1_append (as bs : Bytes) : latin1 (as ++ bs) = latin1 as ++ latin1 bs := List.map_append

theorem latin1_chars {s : WString} (h : Ascii s) : latin1 (chars s) = s := by
  unfold latin1 chars
  rw [List.map_map]
  conv_rhs => rw [← List.map_id s]
  apply List.map_congr_left
  intro c hc
  have hlt := h c hc
  apply UInt16.toNat_inj.mp
  simp only [Function.comp, UInt8.toNat_toUInt16, UInt16.toNat_toUInt8, id]
  omega

theorem chars_plain {s : WString} (hascii : Ascii s) (h : ∀ c ∈ s, c ≠ 0x0D ∧ c ≠ 0x0A) : Plain (chars s) := by
  intro b hb
  obtain ⟨c, hc, rfl⟩ := List.mem_map.mp hb
  have hlt := hascii c hc
  have hmod : c.toUInt8.toNat = c.toNat := by
    show c.toNat % 256 = c.toNat
    omega
  constructor
  · intro heq
    apply (h c hc).1
    apply UInt16.toNat_inj.mp
    rw [← hmod, heq]
    rfl
  · intro heq
    apply (h c hc).2
    apply UInt16.toNat_inj.mp
    rw [← hmod, heq]
    rfl

theorem NoSpace.lines {s : WString} (h : NoSpace s) : ∀ c ∈ s, c ≠ 0x0D ∧ c ≠ 0x0A := by
  intro c hc
  have hspace := h c hc
  constructor
  all_goals
    rintro rfl
    exact absurd hspace (by decide)

theorem stripWhiteSpace_lead {s : WString} (hhead : ∀ c ∈ s.head?, isSpaceOrNewline c = false)
    (hlast : ∀ c ∈ s.getLast?, isSpaceOrNewline c = false) : stripWhiteSpace (0x20 :: s) = s := by
  have hdrop : (0x20 :: s).dropWhile isSpaceOrNewline = s := by
    rw [List.dropWhile_cons_of_pos (by decide)]
    cases s with
    | nil => rfl
    | cons c s =>
      have hc := hhead c rfl
      exact List.dropWhile_cons_of_neg (by rw [hc]; exact Bool.false_ne_true)
  unfold stripWhiteSpace
  rw [hdrop]
  apply List.rdropWhile_eq_self_iff.mpr
  intro hne
  rw [hlast (s.getLast hne) (List.getLast?_eq_getLast_of_ne_nil hne), Bool.false_eq_true]
  exact not_false

/-! ## header lines that are read -/

section
variable {kurl : WString → ParsedURL} {main : Option WString} {a : Parsed} {m : Bool} {i : HeaderInfo}

/-- before a header line -/
def atHeader (main : Option WString) (a : Parsed) (m : Bool) (i : HeaderInfo) (rest : Bytes) : Parser :=
  { mainResourceType := main, archive := a, isMultipart := m, info := i, rest := rest }

/-- before a line of a body -/
def atContent (main : Option WString) (a : Parsed) (m : Bool) (i : HeaderInfo) (raw rest : Bytes) : Parser :=
  { status := .READ_CONTENT, mainResourceType := main, archive := a, isMultipart := m, headerStatus := .END,
    info := i, rawData := raw, rest := rest }

theorem step_header {rest line : Bytes} {h : HeaderLine} (heq : parseHeader (line ++ rest) .NAME = some h)
    (hlen : h.len = line.length) (hpos : line ≠ []) :
    Parser.Steps kurl (atHeader main a m i (line ++ rest))
      { atHeader main a (m || (equalIgnoringCase (stripWhiteSpace (latin1 h.name)) contentTypeName &&
          findIgnoringCase (latin1 h.value) multipartRelatedType))
          (getHeaderInfo i (latin1 h.name) (latin1 h.value)) rest with headerStatus := h.status } := by
  apply Relation.ReflTransGen.single
  refine ⟨ParseState.noConfusion, ?_⟩
  have hne : ¬ h.len = 0 := by
    rw [hlen]
    exact fun hzero => hpos (List.length_eq_zero_iff.mp hzero)
  show Parser.parseHeader _ = _
  unfold Parser.parseHeader
  rw [show parseHeader (atHeader main a m i (line ++ rest)).rest
    (atHeader main a m i (line ++ rest)).headerStatus = some h from heq]
  dsimp only
  rw [if_neg hne]
  unfold Parser.takeHeader
  dsimp only [atHeader]
  rw [hlen, List.drop_left]

theorem steps_field {name value : Bytes} (hname : HeaderName name) (hvalue : Plain value)
    (rest : Bytes) :
    Parser.Steps kurl (atHeader main a m i (name ++ 0x3A :: (value ++ (CRLF ++ rest))))
      (atHeader main a (m || (equalIgnoringCase (stripWhiteSpace (latin1 name)) contentTypeName &&
        findIgnoringCase (latin1 value) multipartRelatedType))
        (getHeaderInfo i (latin1 name) (latin1 value)) rest) := by
  have hline : name ++ 0x3A :: (value ++ (CRLF ++ rest)) = (name ++ 0x3A :: (value ++ CRLF)) ++ rest := by
    simp
  have heq := parseHeader_field hname hvalue rest
  rw [hline] at heq ⊢
  apply step_header heq
  · simp [CRLF]
    omega
  · simp

theorem steps_folded {value : Bytes} (hvalue : Plain value) (rest : Bytes) :
    Parser.Steps kurl (atHeader main a m i (0x09 :: (value ++ (CRLF ++ rest))))
      (atHeader main a m (getHeaderInfo i [] (latin1 value)) rest) := by
  have hline : 0x09 :: (value ++ (CRLF ++ rest)) = (0x09 :: (value ++ CRLF)) ++ rest := by simp
  have heq := parseHeader_folded hvalue rest
  rw [hline] at heq ⊢
  have hsteps := @step_header kurl main a m i _ _ _ heq (by simp [CRLF]; omega) (by simp)
  have hname : (equalIgnoringCase (stripWhiteSpace (latin1 [])) contentTypeName &&
      findIgnoringCase (latin1 value) multipartRelatedType) = false := rfl
  dsimp only at hsteps
  rw [hname, Bool.or_false] at hsteps
  exact hsteps

theorem steps_empty (hboundary : m = true → (i.boundary.getD []).isEmpty = false) (rest : Bytes) :
    Parser.Steps kurl (atHeader main a m i (CRLF ++ rest)) (atContent main a m i [] rest) := by
  have heq : parseHeader (CRLF ++ rest) .NAME = some { len := 2, status := .END } := rfl
  have hsteps := @step_header kurl main a m i _ _ _ heq rfl (List.cons_ne_nil _ _)
  have hname : (equalIgnoringCase (stripWhiteSpace (latin1 [])) contentTypeName &&
      findIgnoringCase (latin1 []) multipartRelatedType) = false := rfl
  have hinfo : getHeaderInfo i (latin1 []) (latin1 []) = i := rfl
  dsimp only at hsteps
  rw [hname, hinfo, Bool.or_false] at hsteps
  apply hsteps.tail
  refine ⟨ParseState.noConfusion, ?_⟩
  show Parser.parseHeader _ = _
  unfold Parser.parseHeader
  have hdone := parseHeader_done rest
  dsimp only [atHeader]
  rw [hdone]
  have hgoes : ¬ (m && (i.boundary.getD []).isEmpty) = true := by
    cases m with
    | false => exact Bool.false_ne_true
    | true =>
      rw [hboundary rfl]
      exact Bool.false_ne_true
  dsimp only
  rw [if_pos rfl]
  exact if_neg hgoes

end

/-! ## the header of a part -/

/-- at the begin of a line of a body -/
def AtLineStart (pre : Bytes) : Prop := ∀ b ∈ pre.getLast?, b = 0x0D ∨ b = 0x0A

/-- no line begins with the boundary, or with two dashes and the boundary -/
def NoBoundaryLine (body : Bytes) : Prop :=
  ∀ pre suf, body = pre ++ suf → AtLineStart pre →
    ¬ PAGESAVE_BOUNDARY_STR <+: suf ∧ ¬ dashes ++ PAGESAVE_BOUNDARY_STR <+: suf

/-- a resource with a valid canonical URL, a plain type and a body that no boundary is mixed up with -/
structure Archivable (kurl : WString → ParsedURL) (r : ArchiveResource) : Prop where
  canonical : kurl r.url = ⟨r.url, true⟩
  url : Ascii r.url
  type_ne : r.mimeType ≠ []
  type : Ascii r.mimeType
  type_plain : 0x3B ∉ r.mimeType ∧ NoSpace r.mimeType
  charset : Ascii r.textEncoding
  charset_plain : quote ∉ r.textEncoding
  data_ne : r.data ≠ []
  lines : NoBoundaryLine r.data

/-- what a page with these resources must not carry besides, to be read again -/
structure Readable (multipart : Bool) (r : ArchiveResource) : Prop where
  url_end : r.url.getLast? ≠ some 0x20
  type : if multipart then equalIgnoringCase r.mimeType multipartRelatedType = false
    else findIgnoringCase r.mimeType multipartRelatedType = false
  charset_lines : ∀ c ∈ r.textEncoding, c ≠ 0x0D ∧ c ≠ 0x0A
  charset_key : findIgnoringCase r.textEncoding boundaryKey = false

/-- `KURL::parse` escapes or drops control characters, and a URL begins with its scheme -/
structure KURLText (kurl : WString → ParsedURL) : Prop where
  lead : ∀ u, (kurl u).isValid = true → ∃ c rest, (kurl u).string = c :: rest ∧ isSpaceOrNewline c = false
  plain : ∀ u, (kurl u).isValid = true → ∀ c ∈ (kurl u).string, 0x20 ≤ c.toNat

/-- what the header of a part says -/
def partInfo (boundary : Option WString) (r : ArchiveResource) : HeaderInfo :=
  { boundary := boundary, type := r.mimeType, location := r.url, charset := r.textEncoding }

section
variable {kurl : WString → ParsedURL} {r : ArchiveResource}

theorem Archivable.url_lead (h : Archivable kurl r) (hkurl : KURLText kurl) :
    r.url ≠ [] ∧ ∀ c ∈ r.url.head?, isSpaceOrNewline c = false := by
  have hvalid : (kurl r.url).isValid = true := by rw [h.canonical]
  obtain ⟨c, rest, heq, hc⟩ := hkurl.lead r.url hvalid
  rw [h.canonical] at heq
  have hurl : r.url = c :: rest := heq
  rw [hurl]
  refine ⟨List.cons_ne_nil _ _, fun d hd => ?_⟩
  rw [← Option.some.inj hd]
  exact hc

theorem Archivable.url_plain (h : Archivable kurl r) (hkurl : KURLText kurl) {c : UInt16} (hc : c ∈ r.url) :
    0x20 ≤ c.toNat := by
  have hvalid : (kurl r.url).isValid = true := by rw [h.canonical]
  apply hkurl.plain r.url hvalid
  rw [h.canonical]
  exact hc

theorem isSpaceOrNewline_plain {c : UInt16} (h : 0x20 ≤ c.toNat) (hne : c ≠ 0x20) :
    isSpaceOrNewline c = false := by
  unfold isSpaceOrNewline
  rw [beq_eq_false_iff_ne.mpr hne, Bool.false_or]
  simp only [Bool.and_eq_false_imp, decide_eq_true_eq, decide_eq_false_iff_not]
  omega

theorem location_value (h : Archivable kurl r) (hkurl : KURLText kurl) (hend : r.url.getLast? ≠ some 0x20) :
    stripWhiteSpace (0x20 :: r.url) = r.url := by
  apply stripWhiteSpace_lead (h.url_lead hkurl).2
  intro c hc
  have hmem : c ∈ r.url := List.mem_of_getLast? hc
  apply isSpaceOrNewline_plain (h.url_plain hkurl hmem)
  rintro rfl
  exact hend hc

theorem type_value (h : Archivable kurl r) (tail : WString) (htail : tail = [] ∨ tail = [0x3B]) :
    stripWhiteAndSemicolon (0x20 :: (r.mimeType ++ tail)) = r.mimeType := by
  obtain ⟨c, rest, hcons⟩ := List.exists_cons_of_ne_nil h.type_ne
  have hhead : ∀ d ∈ (r.mimeType ++ tail).head?, isSpaceOrNewline d = false := by
    rw [hcons]
    intro d hd
    rw [← Option.some.inj hd]
    exact h.type_plain.2 c (by rw [hcons]; exact List.mem_cons_self)
  unfold stripWhiteAndSemicolon
  rcases htail with rfl | rfl
  · rw [List.append_nil] at hhead ⊢
    have hstrip : stripWhiteSpace (0x20 :: r.mimeType) = r.mimeType :=
      stripWhiteSpace_lead hhead (fun d hd => h.type_plain.2 d (List.mem_of_getLast? hd))
    rw [hstrip]
    apply if_neg
    intro hlast
    exact h.type_plain.1 (List.mem_of_getLast? hlast)
  · have hlast : (r.mimeType ++ [0x3B]).getLast? = some 0x3B := List.getLast?_concat
    have hstrip : stripWhiteSpace (0x20 :: (r.mimeType ++ [0x3B])) = r.mimeType ++ [0x3B] := by
      apply stripWhiteSpace_lead hhead
      intro d hd
      rw [hlast] at hd
      rw [← Option.some.inj hd]
      rfl
    rw [hstrip]
    dsimp only
    rw [if_pos hlast, List.dropLast_concat]

theorem charset_value {i : HeaderInfo} (h : Archivable kurl r)
    (hkey : findIgnoringCase r.textEncoding boundaryKey = false) :
    getHeaderInfo i [] (charsetKey ++ quote :: (r.textEncoding ++ [quote])) =
      { i with charset := r.textEncoding } := by
  have hnone : findIgnoringCase (charsetKey ++ quote :: (r.textEncoding ++ [quote])) boundaryKey = false := by
    apply findIgnoringCase_split (by decide) (by decide)
    exact findIgnoringCase_split (by decide) hkey (by decide)
  have hquoted : getQuotationString (charsetKey ++ quote :: (r.textEncoding ++ [quote])) =
      some r.textEncoding := by
    have hrest : ((charsetKey ++ quote :: (r.textEncoding ++ [quote])).dropWhile (fun c => c != quote)).tail =
        r.textEncoding ++ [quote] := rfl
    unfold getQuotationString
    rw [hrest]
    dsimp only
    rw [if_pos (by simp), List.takeWhile_append_of_pos, List.takeWhile_cons_of_neg (by decide), List.append_nil]
    intro c hc
    apply bne_iff_ne.mpr
    rintro rfl
    exact h.charset_plain hc
  have hname : ([] : WString).isEmpty = true := rfl
  unfold getHeaderInfo
  rw [if_pos hname, hnone, if_neg Bool.false_ne_true, findIgnoringCase_starts, if_pos rfl, hquoted]
  rfl

theorem steps_type {main : Option WString} {a : Parsed} {m : Bool} {boundary : Option WString}
    (h : Archivable kurl r) (hm : m = false → findIgnoringCase r.mimeType multipartRelatedType = false)
    {tail : Bytes} (htail : tail = [] ∨ tail = [0x3B]) (rest : Bytes) :
    Parser.Steps kurl
      (atHeader main a m { boundary := boundary } (contentType ++ (chars r.mimeType ++ (tail ++ (CRLF ++ rest)))))
      (atHeader main a m { boundary := boundary, type := r.mimeType } rest) := by
  have htype : latin1 (0x20 :: (chars r.mimeType ++ tail)) = 0x20 :: (r.mimeType ++ latin1 tail) := by
    show 0x20 :: latin1 (chars r.mimeType ++ tail) = _
    rw [latin1_append, latin1_chars h.type]
  have hline : contentType ++ (chars r.mimeType ++ (tail ++ (CRLF ++ rest))) =
      contentType.take 12 ++ 0x3A :: ((0x20 :: (chars r.mimeType ++ tail)) ++ (CRLF ++ rest)) := by
    rw [List.cons_append, List.append_assoc]
    rfl
  have hvalue : Plain (0x20 :: (chars r.mimeType ++ tail)) := by
    intro b hb
    rcases List.mem_cons.mp hb with rfl | hb
    · decide
    · rcases List.mem_append.mp hb with hb | hb
      · exact chars_plain h.type h.type_plain.2.lines b hb
      · rcases htail with rfl | rfl
        · exact absurd hb List.not_mem_nil
        · rw [List.mem_singleton.mp hb]
          decide
  have hsteps := @steps_field kurl main a m { boundary := boundary } _ _
    (show HeaderName (contentType.take 12) by decide) hvalue rest
  have hname : equalIgnoringCase (stripWhiteSpace contentTypeName) contentTypeName = true := by decide
  have hinfo : getHeaderInfo { boundary := boundary } contentTypeName (0x20 :: (r.mimeType ++ latin1 tail)) =
      { boundary := boundary, type := r.mimeType } := by
    unfold getHeaderInfo
    rw [if_neg (by decide), hname, if_pos rfl, type_value h]
    rcases htail with rfl | rfl
    · exact .inl rfl
    · exact .inr rfl
  have hmulti : (m || (equalIgnoringCase (stripWhiteSpace contentTypeName) contentTypeName &&
      findIgnoringCase (0x20 :: (r.mimeType ++ latin1 tail)) multipartRelatedType)) = m := by
    cases m with
    | true => rfl
    | false =>
      have hnone : findIgnoringCase (r.mimeType ++ latin1 tail) multipartRelatedType = false := by
        rcases htail with rfl | rfl
        · show findIgnoringCase (r.mimeType ++ []) _ = false
          rw [List.append_nil]
          exact hm rfl
        · exact findIgnoringCase_split (by decide) (hm rfl) (by decide)
      rw [hname, Bool.true_and, Bool.false_or]
      exact @findIgnoringCase_split [] _ _ _ (by decide) (by decide) hnone
  rw [hline]
  rw [show latin1 (contentType.take 12) = contentTypeName from rfl, htype, hinfo, hmulti] at hsteps
  exact hsteps

theorem steps_location {main : Option WString} {a : Parsed} {m : Bool} {i : HeaderInfo} (h : Archivable kurl r)
    (hkurl : KURLText kurl) (hend : r.url.getLast? ≠ some 0x20) (rest : Bytes) :
    Parser.Steps kurl (atHeader main a m i (contentLocation ++ (chars r.url ++ (CRLF ++ rest))))
      (atHeader main a m { i with location := r.url } rest) := by
  have hurl : latin1 (0x20 :: chars r.url) = 0x20 :: r.url := by
    show 0x20 :: latin1 (chars r.url) = _
    rw [latin1_chars h.url]
  have hline : contentLocation ++ (chars r.url ++ (CRLF ++ rest)) =
      contentLocation.take 16 ++ 0x3A :: ((0x20 :: chars r.url) ++ (CRLF ++ rest)) := rfl
  have hplain : Plain (chars r.url) := by
    apply chars_plain h.url
    intro c hc
    have hle := h.url_plain hkurl hc
    constructor
    all_goals
      rintro rfl
      exact absurd hle (by decide)
  have hvalue : Plain (0x20 :: chars r.url) := by
    intro b hb
    rcases List.mem_cons.mp hb with rfl | hb
    · decide
    · exact hplain b hb
  have hsteps := @steps_field kurl main a m i _ _
    (show HeaderName (contentLocation.take 16) by decide) hvalue rest
  have hinfo : getHeaderInfo i contentLocationName (0x20 :: r.url) = { i with location := r.url } := by
    unfold getHeaderInfo
    rw [if_neg (by decide), if_neg (by decide), if_pos (by decide), location_value h hkurl hend]
  have hname : equalIgnoringCase (stripWhiteSpace contentLocationName) contentTypeName = false := by decide
  rw [hline]
  rw [show latin1 (contentLocation.take 16) = contentLocationName from rfl, hurl, hinfo, hname,
    Bool.false_and, Bool.or_false] at hsteps
  exact hsteps

theorem steps_charset {main : Option WString} {a : Parsed} {m : Bool} {i : HeaderInfo} (h : Archivable kurl r)
    (hlines : ∀ c ∈ r.textEncoding, c ≠ 0x0D ∧ c ≠ 0x0A)
    (hkey : findIgnoringCase r.textEncoding boundaryKey = false) (rest : Bytes) :
    Parser.Steps kurl (atHeader main a m i (charsetIs ++ (chars r.textEncoding ++ (text ['"'] ++ (CRLF ++ rest)))))
      (atHeader main a m { i with charset := r.textEncoding } rest) := by
  have hvalue : Plain (charsetIs.tail ++ (chars r.textEncoding ++ text ['"'])) := by
    apply Plain.append (by decide)
    exact (chars_plain h.charset hlines).append (by decide)
  have hlatin : latin1 (charsetIs.tail ++ (chars r.textEncoding ++ text ['"'])) =
      charsetKey ++ quote :: (r.textEncoding ++ [quote]) := by
    rw [latin1_append, latin1_append, latin1_chars h.charset]
    rfl
  have hline : charsetIs ++ (chars r.textEncoding ++ (text ['"'] ++ (CRLF ++ rest))) =
      0x09 :: ((charsetIs.tail ++ (chars r.textEncoding ++ text ['"'])) ++ (CRLF ++ rest)) := by
    rw [List.append_assoc, List.append_assoc]
    rfl
  have hsteps := @steps_folded kurl main a m i _ hvalue rest
  rw [hlatin, charset_value h hkey] at hsteps
  rw [hline]
  exact hsteps

/-- **The header of a part.** -/
theorem steps_partHeader {main : Option WString} {a : Parsed} {m : Bool} {boundary : Option WString}
    (hkurl : KURLText kurl) (h : Archivable kurl r) (hread : Readable m r)
    (hboundary : m = true → (boundary.getD []).isEmpty = false) (rest : Bytes) :
    Parser.Steps kurl (atHeader main a m { boundary := boundary } (makePartHeader r ++ rest))
      (atContent main a m (partInfo boundary r) [] rest) := by
  have hm : m = false → findIgnoringCase r.mimeType multipartRelatedType = false := by
    rintro rfl
    exact hread.type
  have hurl : ¬ r.url.isEmpty = true := by simpa using (h.url_lead hkurl).1
  have htype : ¬ r.mimeType.isEmpty = true := by simpa using h.type_ne
  have hlast : ∀ i : HeaderInfo, i.boundary = boundary → i.location = r.url →
      Parser.Steps kurl (atHeader main a m i (CRLF ++ rest)) (atContent main a m i [] rest) := by
    intro i hi _
    apply steps_empty
    rw [hi]
    exact hboundary
  unfold makePartHeader
  rw [if_neg hurl, if_neg htype]
  by_cases henc : r.textEncoding.isEmpty = true
  · have hcharset : r.textEncoding = [] := by simpa using henc
    rw [if_pos henc]
    simp only [List.append_assoc]
    apply Relation.ReflTransGen.trans (steps_type h hm (.inl rfl) _)
    apply Relation.ReflTransGen.trans (steps_location h hkurl hread.url_end _)
    have hinfo : partInfo boundary r = { boundary := boundary, type := r.mimeType, location := r.url } := by
      rw [partInfo, hcharset]
    rw [hinfo]
    exact hlast _ rfl rfl
  · rw [if_neg henc]
    simp only [List.append_assoc]
    apply Relation.ReflTransGen.trans (steps_type h hm (.inr rfl) _)
    apply Relation.ReflTransGen.trans (steps_charset h hread.charset_lines hread.charset_key _)
    apply Relation.ReflTransGen.trans (steps_location h hkurl hread.url_end _)
    exact hlast _ rfl rfl

end

/-! ## bodies -/

theorem NoBoundaryLine.drop {pre suf : Bytes} (h : NoBoundaryLine (pre ++ suf)) (hpre : AtLineStart pre) :
    NoBoundaryLine suf := by
  intro p q heq hp
  apply h (pre ++ p) q
  · rw [heq, List.append_assoc]
  · intro b hb
    cases p with
    | nil =>
      rw [List.append_nil] at hb
      exact hpre b hb
    | cons c p =>
      rw [List.getLast?_append_of_ne_nil _ (List.cons_ne_nil c p)] at hb
      exact hp b hb

theorem plain_starts {p body rest : Bytes} (hp : Plain p) (h : p <+: body ++ (CRLF ++ rest)) : p <+: body := by
  rcases List.prefix_or_prefix_of_prefix h (List.prefix_append body (CRLF ++ rest)) with hpre | ⟨q, rfl⟩
  · exact hpre
  · have hq : q <+: CRLF ++ rest := (List.prefix_append_right_inj body).mp h
    cases q with
    | nil =>
      rw [List.append_nil]
    | cons b q =>
      obtain ⟨tail, htail⟩ := hq
      have hb : b = 0x0D := (List.cons.inj htail).1
      exact absurd hb (hp b (List.mem_append_right _ List.mem_cons_self)).1

theorem latin1_starts {p q : Bytes} (h : latin1 p <+: latin1 q) : p <+: q := by
  have hinj : Function.Injective UInt8.toUInt16 := by
    intro x y hxy
    apply UInt8.toNat_inj.mp
    rw [← UInt8.toNat_toUInt16 x, hxy, UInt8.toNat_toUInt16]
  have htake := List.prefix_iff_eq_take.mp h
  rw [latin1, latin1, List.length_map, ← List.map_take] at htake
  rw [List.map_injective_iff.mpr hinj htake]
  exact List.take_prefix _ _

theorem closes_starts {p : Bytes} (h : closes p (latin1 PAGESAVE_BOUNDARY_STR) = true) :
    PAGESAVE_BOUNDARY_STR <+: p := by
  apply latin1_starts
  exact List.isPrefixOf_iff_prefix.mp (Bool.and_eq_true_iff.mp h).1

theorem dashes_starts {p : Bytes} (h : dashes.isPrefixOf p = true)
    (hdrop : PAGESAVE_BOUNDARY_STR <+: p.drop 2) : dashes ++ PAGESAVE_BOUNDARY_STR <+: p := by
  obtain ⟨q, rfl⟩ := List.isPrefixOf_iff_prefix.mp h
  exact (List.prefix_append_right_inj dashes).mpr hdrop

theorem boundary_starts {line : Bytes} (h : (isEndBoundary line (latin1 PAGESAVE_BOUNDARY_STR) ||
      isBoundary line (latin1 PAGESAVE_BOUNDARY_STR)) = true) :
    PAGESAVE_BOUNDARY_STR <+: line ∨ dashes ++ PAGESAVE_BOUNDARY_STR <+: line := by
  rcases Bool.or_eq_true_iff.mp h with h | h
  · unfold isEndBoundary at h
    dsimp only at h
    rw [if_neg (by decide)] at h
    split at h
    · cases h
    · split at h
      · cases h
      · split at h
        · left
          exact (closes_starts h).trans (List.take_prefix _ _)
        · right
          obtain ⟨hdash, hclose⟩ := Bool.and_eq_true_iff.mp h
          exact (dashes_starts hdash (closes_starts hclose)).trans (List.take_prefix _ _)
  · unfold isBoundary at h
    rw [if_neg (by decide)] at h
    split at h
    · cases h
    · right
      obtain ⟨hdash, hpre⟩ := Bool.and_eq_true_iff.mp h
      exact dashes_starts hdash (latin1_starts (List.isPrefixOf_iff_prefix.mp hpre))

theorem calcLineLength_body (body rest : Bytes) :
    (0 < calcLineLength (body ++ (CRLF ++ rest)) ∧ calcLineLength (body ++ (CRLF ++ rest)) ≤ body.length ∧
      AtLineStart (body.take (calcLineLength (body ++ (CRLF ++ rest))))) ∨
    calcLineLength (body ++ (CRLF ++ rest)) = body.length + 2 := by
  induction body with
  | nil => exact .inr rfl
  | cons b body ih =>
    by_cases hcr : b = 0x0D
    · left
      subst hcr
      cases body with
      | nil =>
        refine ⟨Nat.one_pos, Nat.le_refl 1, fun c hc => .inl ?_⟩
        exact (Option.some.inj hc).symm
      | cons c body =>
        by_cases hlf : c = 0x0A
        · subst hlf
          refine ⟨Nat.two_pos, Nat.le_add_left 2 body.length, fun d hd => .inr ?_⟩
          exact (Option.some.inj hd).symm
        · have hone : isEndOfLine (0x0D :: (c :: body ++ (CRLF ++ rest))) = 1 := by
            rw [isEndOfLine, if_pos rfl]
            apply if_neg
            intro heq
            exact hlf (Option.some.inj heq)
          have hlen : calcLineLength (0x0D :: (c :: body ++ (CRLF ++ rest))) = 1 := by
            rw [calcLineLength, hone]
            rfl
          rw [List.cons_append, hlen]
          refine ⟨Nat.one_pos, Nat.le_add_left 1 _, fun d hd => .inl ?_⟩
          exact (Option.some.inj hd).symm
    · by_cases hlf : b = 0x0A
      · left
        subst hlf
        refine ⟨Nat.one_pos, Nat.le_add_left 1 _, fun d hd => .inr ?_⟩
        exact (Option.some.inj hd).symm
      · have hlen : calcLineLength (b :: body ++ (CRLF ++ rest)) = calcLineLength (body ++ (CRLF ++ rest)) + 1 := by
          rw [List.cons_append, calcLineLength, isEndOfLine_plain ⟨hcr, hlf⟩, if_neg (Nat.lt_irrefl 0)]
        rw [hlen]
        rcases ih with ⟨hpos, hle, hstart⟩ | heq
        · left
          refine ⟨Nat.succ_pos _, Nat.succ_le_succ hle, ?_⟩
          intro c hc
          rw [List.take_succ_cons] at hc
          apply hstart
          have hne : body.take (calcLineLength (body ++ (CRLF ++ rest))) ≠ [] := by
            intro hnil
            rcases List.take_eq_nil_iff.mp hnil with hzero | hnil
            · omega
            · subst hnil
              exact absurd (hpos.trans_le hle) (Nat.lt_irrefl 0)
          obtain ⟨d, ds, hcons⟩ := List.exists_cons_of_ne_nil hne
          rw [hcons] at hc ⊢
          exact hc
        · right
          rw [heq, List.length_cons]

section
variable {kurl : WString → ParsedURL} {main : Option WString} {a : Parsed} {m : Bool} {i : HeaderInfo}

/-- the lines of this part are not kept -/
def ignores (i : HeaderInfo) : Bool :=
  equalIgnoringCase i.type multipartRelatedType || i.location.isEmpty

def keepLine (i : HeaderInfo) (raw line : Bytes) : Bytes := if ignores i then raw else raw ++ line

/-- the parser after the boundary of a part -/
def atBoundary (main : Option WString) (a : Parsed) (m : Bool) (i : HeaderInfo) (raw rest : Bytes) : Parser :=
  { atContent main a m i raw rest with status := .ADD_RESOURCE }

theorem step_line {raw rest more : Bytes} {line : Bytes} (hline : rest.take (calcLineLength rest) = line)
    (hmore : rest.drop (calcLineLength rest) = more) (hne : more ≠ [])
    (hnot : (isEndBoundary line (i.boundary.getD []) || isBoundary line (i.boundary.getD [])) = false) :
    Parser.Steps kurl (atContent main a m i raw rest) (atContent main a m i (keepLine i raw line) more) := by
  apply Relation.ReflTransGen.single
  refine ⟨ParseState.noConfusion, ?_⟩
  show Parser.readContent kurl _ = _
  unfold Parser.readContent
  dsimp only [atContent]
  rw [hline, hmore, hnot, if_neg Bool.false_ne_true, if_pos (by simpa using hne)]
  rfl

theorem step_boundary {raw rest more : Bytes} {line : Bytes} (hline : rest.take (calcLineLength rest) = line)
    (hmore : rest.drop (calcLineLength rest) = more)
    (his : isBoundary line (i.boundary.getD []) = true) :
    Parser.Steps kurl (atContent main a m i raw rest) (atBoundary main a m i raw more) := by
  apply Relation.ReflTransGen.single
  refine ⟨ParseState.noConfusion, ?_⟩
  show Parser.readContent kurl _ = _
  unfold Parser.readContent
  dsimp only [atContent]
  rw [hline, hmore, his, Bool.or_true, if_pos rfl]
  rfl

theorem keepLine_keepLine (i : HeaderInfo) (raw as bs : Bytes) :
    keepLine i (keepLine i raw as) bs = keepLine i raw (as ++ bs) := by
  unfold keepLine
  cases ignores i with
  | true => rfl
  | false => exact List.append_assoc _ _ _

theorem steps_boundary (hboundary : i.boundary = some (latin1 PAGESAVE_BOUNDARY_STR)) {last : Bytes}
    (hlast : Plain last) (raw more : Bytes) :
    Parser.Steps kurl (atContent main a m i raw (dashes ++ (PAGESAVE_BOUNDARY_STR ++ (last ++ (CRLF ++ more)))))
      (atBoundary main a m i raw more) := by
  have hplain : Plain (dashes ++ (PAGESAVE_BOUNDARY_STR ++ last)) :=
    Plain.append (by decide) (Plain.append (by decide) hlast)
  have hrest : dashes ++ (PAGESAVE_BOUNDARY_STR ++ (last ++ (CRLF ++ more))) =
      (dashes ++ (PAGESAVE_BOUNDARY_STR ++ (last ++ CRLF))) ++ more := by simp
  have hlen : calcLineLength (dashes ++ (PAGESAVE_BOUNDARY_STR ++ (last ++ (CRLF ++ more)))) =
      (dashes ++ (PAGESAVE_BOUNDARY_STR ++ (last ++ CRLF))).length := by
    have hcalc := calcLineLength_plain hplain more
    simp only [List.append_assoc] at hcalc
    rw [hcalc]
    simp [CRLF]
    omega
  rw [hrest] at hlen ⊢
  apply step_boundary (by rw [hlen, List.take_left]) (by rw [hlen, List.drop_left])
  · rw [hboundary]
    have hlong : ¬ (dashes ++ (PAGESAVE_BOUNDARY_STR ++ (last ++ CRLF))).length <
        (latin1 PAGESAVE_BOUNDARY_STR).length + 2 := by
      simp [latin1, dashes]
    unfold isBoundary
    rw [Option.getD_some, if_neg (by decide), if_neg hlong]
    apply Bool.and_eq_true_iff.mpr
    constructor
    · exact List.isPrefixOf_iff_prefix.mpr (List.prefix_append _ _)
    · apply List.isPrefixOf_iff_prefix.mpr
      show latin1 PAGESAVE_BOUNDARY_STR <+: latin1 (PAGESAVE_BOUNDARY_STR ++ (last ++ CRLF))
      rw [latin1_append]
      exact List.prefix_append _ _

/-- **A body and the boundary after it.**  The lines are read up to the boundary; the line end before it is
read with them. -/
theorem steps_body (hboundary : i.boundary = some (latin1 PAGESAVE_BOUNDARY_STR)) {last : Bytes}
    (hlast : Plain last) (body raw more : Bytes) (hbody : NoBoundaryLine body) :
    Parser.Steps kurl
      (atContent main a m i raw
        (body ++ (CRLF ++ (dashes ++ (PAGESAVE_BOUNDARY_STR ++ (last ++ (CRLF ++ more)))))))
      (atBoundary main a m i (keepLine i raw (body ++ CRLF)) more) := by
  -- the induction is on the length of the body that is left
  induction hn : body.length using Nat.strong_induction_on generalizing body raw with
  | _ n ih =>
    subst hn
    generalize htext : dashes ++ (PAGESAVE_BOUNDARY_STR ++ (last ++ (CRLF ++ more))) = text
    have hnot : ∀ k, (isEndBoundary ((body ++ (CRLF ++ text)).take k) (i.boundary.getD []) ||
        isBoundary ((body ++ (CRLF ++ text)).take k) (i.boundary.getD [])) = false := by
      intro k
      rw [hboundary]
      apply Bool.eq_false_iff.mpr
      intro his
      obtain ⟨hfirst, hsecond⟩ := hbody [] body rfl (fun b hb => absurd hb nofun)
      rcases boundary_starts his with hpre | hpre
      · exact hfirst (plain_starts (by decide) (hpre.trans (List.take_prefix _ _)))
      · exact hsecond (plain_starts (by decide) (hpre.trans (List.take_prefix _ _)))
    rcases calcLineLength_body body text with ⟨hpos, hle, hstart⟩ | hall
    · have hfirst := @step_line kurl main a m i raw _ _ _ rfl rfl (by
        rw [List.drop_append_of_le_length hle]
        simp [CRLF]) (hnot (calcLineLength (body ++ (CRLF ++ text))))
      generalize calcLineLength (body ++ (CRLF ++ text)) = k at hpos hle hstart hfirst
      rw [List.take_append_of_le_length hle, List.drop_append_of_le_length hle] at hfirst
      have hshort : (body.drop k).length < body.length := by
        rw [List.length_drop]
        omega
      have hrest : NoBoundaryLine (body.drop k) := by
        rw [← List.take_append_drop k body] at hbody
        exact hbody.drop hstart
      have hall := ih _ hshort (body.drop k) (keepLine i raw (body.take k)) hrest rfl
      have hjoin : body.take k ++ (body.drop k ++ CRLF) = body ++ CRLF := by
        rw [← List.append_assoc, List.take_append_drop]
      rw [keepLine_keepLine, hjoin, htext] at hall
      exact hfirst.trans hall
    · have hline : (body ++ (CRLF ++ text)).take (body.length + 2) = body ++ CRLF := by
        rw [← List.append_assoc]
        apply List.take_left'
        simp [CRLF]
      have hmore : (body ++ (CRLF ++ text)).drop (body.length + 2) = text := by
        rw [← List.append_assoc]
        apply List.drop_left'
        simp [CRLF]
      have hlast' := hnot (body.length + 2)
      rw [hline] at hlast'
      have hne : text ≠ [] := by
        rw [← htext]
        exact List.cons_ne_nil _ _
      have hline' := @step_line kurl main a m i raw _ _ _ (by rw [hall]; exact hline) (by rw [hall]; exact hmore)
        hne hlast'
      rw [← htext]
      rw [← htext] at hline'
      exact hline'.trans (steps_boundary hboundary hlast _ _)

end

end Mhtml
end Wkc
