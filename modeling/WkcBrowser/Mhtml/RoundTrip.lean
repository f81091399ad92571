import WkcBrowser.Mhtml.Reread
import WkcBrowser.Mhtml.Sizes

/-!
# The round trip of a saved page

* `steps_added`                                the resource of a part goes into the archive;
* `steps_parts`, `steps_multipart`             a page of several parts;
* `steps_single`                               a page of one resource;
* `MHTMLWebArchive.savedResources_all`         a tree with different URLs and bodies is saved whole;
* `page_reread`                                the parser gets back what was saved.
-/

namespace Wkc
namespace Mhtml

/-- the archive after the resources, in this order -/
def collect : Option WString → Parsed → List ArchiveResource → Parsed
  | _, a, [] => a
  | main, a, r :: rs =>
    collect (some (main.getD r.mimeType)) (addMimeResource (main.getD r.mimeType) a r) rs

section
variable {kurl : WString → ParsedURL} {main : Option WString} {a : Parsed} {r : ArchiveResource}
  {boundary : Option WString}

/-! ## a part -/

theorem ignores_part {multi : Bool} (hkurl : KURLText kurl) (h : Archivable kurl r)
    (hread : Readable multi r) : ignores (partInfo boundary r) = false := by
  have hurl : r.url.isEmpty = false := by simpa using (h.url_lead hkurl).1
  have htype : equalIgnoringCase r.mimeType multipartRelatedType = false := by
    have hcond := hread.type
    cases multi with
    | true => exact hcond
    | false =>
      apply Bool.eq_false_iff.mpr
      intro heq
      have hmap : r.mimeType.map foldCase = multipartRelatedType.map foldCase := beq_iff_eq.mp heq
      have hfind : findIgnoringCase r.mimeType multipartRelatedType = true := by
        apply decide_eq_true
        rw [hmap]
      rw [if_neg Bool.false_ne_true, hfind] at hcond
      cases hcond
  show (equalIgnoringCase r.mimeType multipartRelatedType || r.url.isEmpty) = false
  rw [htype, hurl, Bool.or_false]

theorem addBody_part (h : Archivable kurl r) (s : Parser) (hinfo : s.info = partInfo boundary r)
    (hmain : s.mainResourceType = main) (ha : s.archive = a) (hraw : s.rawData ≠ [])
    (hbody : s.body = r.data) :
    s.addBody kurl = { s with
      mainResourceType := some (main.getD r.mimeType)
      archive := addMimeResource (main.getD r.mimeType) a r
      rawData := [] } := by
  have htype : ¬ (main.isNone = true ∧ (partInfo boundary r).type.isEmpty = true) := by
    rintro ⟨-, hempty⟩
    exact h.type_ne (List.isEmpty_iff.mp hempty)
  have hurl : kurl (partInfo boundary r).location = ⟨r.url, true⟩ := h.canonical
  unfold Parser.addBody
  rw [if_neg (by simpa using hraw), hinfo, hmain, ha, hbody]
  dsimp only
  rw [if_neg htype, hurl]
  rfl

theorem body_multipart {raw : Bytes} (hraw : raw ≠ []) (s : Parser) (hs : s.rawData = raw ++ CRLF)
    (hm : s.isMultipart = true) : s.body = raw := by
  have hlong : 2 < (raw ++ CRLF).length := by
    rw [List.length_append]
    exact Nat.lt_add_of_pos_left (List.length_pos_of_ne_nil hraw)
  unfold Parser.body
  rw [hs, hm]
  have htail : (raw ++ CRLF).rtake 2 = CRLF := by
    rw [List.rtake, List.length_append]
    exact List.drop_left
  have hhead : (raw ++ CRLF).rdrop 2 = raw := by
    rw [List.rdrop, List.length_append]
    exact List.take_left
  rw [htail, hhead]
  exact if_pos ⟨hlong, rfl, rfl⟩

theorem steps_added (h : Archivable kurl r) {more : Bytes} (hmore : more ≠ []) :
    Parser.Steps kurl (atBoundary main a true (partInfo boundary r) (r.data ++ CRLF) more)
      (atHeader (some (main.getD r.mimeType)) (addMimeResource (main.getD r.mimeType) a r) true
        { boundary := boundary } more) := by
  apply Relation.ReflTransGen.single
  refine ⟨ParseState.noConfusion, ?_⟩
  show Parser.addResource kurl _ = _
  unfold Parser.addResource
  rw [addBody_part h _ rfl rfl rfl (by simp [atBoundary, atContent, CRLF])
    (body_multipart h.data_ne _ rfl rfl)]
  exact if_pos (by simpa [atBoundary, atContent] using hmore)

/-- the parser at the end of the data -/
def atEnd (main : Option WString) (a : Parsed) (m : Bool) (boundary : Option WString) : Parser :=
  { status := .END, mainResourceType := main, archive := a, isMultipart := m, headerStatus := .END,
    info := { boundary := boundary }, rest := [] }

theorem steps_ended (h : Archivable kurl r) :
    Parser.Steps kurl (atBoundary main a true (partInfo boundary r) (r.data ++ CRLF) [])
      (atEnd (some (main.getD r.mimeType)) (addMimeResource (main.getD r.mimeType) a r) true boundary) := by
  apply Relation.ReflTransGen.single
  refine ⟨ParseState.noConfusion, ?_⟩
  show Parser.addResource kurl _ = _
  unfold Parser.addResource
  rw [addBody_part h _ rfl rfl rfl (by simp [atBoundary, atContent, CRLF])
    (body_multipart h.data_ne _ rfl rfl)]
  rfl

/-! ## a page of several parts -/

/-- what follows the boundary before the parts -/
def partsText : List ArchiveResource → Bytes
  | [] => []
  | r :: rs => makePartHeader r ++ (r.data ++ Serializer.parts true rs)

theorem partsText_ne_nil {rs : List ArchiveResource} (hne : rs ≠ []) (hurls : ∀ r ∈ rs, r.url ≠ []) :
    partsText rs ≠ [] := by
  obtain ⟨r, rs, rfl⟩ := List.exists_cons_of_ne_nil hne
  intro hnil
  exact makePartHeader_ne_nil (hurls r List.mem_cons_self) (List.append_eq_nil_iff.mp hnil).1

theorem parts_eq (rs : List ArchiveResource) :
    Serializer.parts true rs = CRLF ++ (dashes ++ (PAGESAVE_BOUNDARY_STR ++
      ((if rs.isEmpty then dashes else []) ++ (CRLF ++ partsText rs)))) := by
  cases rs with
  | nil => rfl
  | cons r rs =>
    rw [Serializer.parts, Serializer.part, Serializer.boundary, if_pos rfl, makeBoundary, partsText]
    simp [dashes, text]

theorem steps_parts (hkurl : KURLText kurl) (hboundary : boundary = some (latin1 PAGESAVE_BOUNDARY_STR))
    {rs : List ArchiveResource} (hne : rs ≠ []) (h : ∀ r ∈ rs, Archivable kurl r ∧ Readable true r)
    (main : Option WString) (a : Parsed) :
    ∃ m, Parser.Steps kurl (atHeader main a true { boundary := boundary } (partsText rs))
      (atEnd m (collect main a rs) true boundary) := by
  induction rs generalizing main a with
  | nil => exact absurd rfl hne
  | cons r rs ih =>
    obtain ⟨harch, hread⟩ := h r List.mem_cons_self
    have hrest := fun x hx => h x (List.mem_cons_of_mem r hx)
    have hsome : true = true → (boundary.getD []).isEmpty = false := by
      intro _
      rw [hboundary]
      rfl
    have hlast : Plain (if rs.isEmpty then dashes else []) := by
      split <;> decide
    have hheader := @steps_partHeader kurl r main a true boundary hkurl harch hread hsome
      (r.data ++ Serializer.parts true rs)
    rw [parts_eq] at hheader
    have hbody := @steps_body kurl main a true (partInfo boundary r) hboundary _ hlast r.data [] (partsText rs)
      harch.lines
    have hkeep : keepLine (partInfo boundary r) [] (r.data ++ CRLF) = r.data ++ CRLF := by
      unfold keepLine
      rw [ignores_part hkurl harch hread]
      rfl
    rw [hkeep] at hbody
    have hpart := hheader.trans hbody
    rw [← parts_eq] at hpart
    cases hrs : rs with
    | nil =>
      subst hrs
      exact ⟨_, hpart.trans (steps_ended harch)⟩
    | cons x xs =>
      rw [← hrs]
      have hcons : rs ≠ [] := by
        rw [hrs]
        exact List.cons_ne_nil _ _
      have hmore : partsText rs ≠ [] :=
        partsText_ne_nil hcons (fun y hy => ((hrest y hy).1.url_lead hkurl).1)
      obtain ⟨m, hall⟩ := ih hcons hrest (some (main.getD r.mimeType))
        (addMimeResource (main.getD r.mimeType) a r)
      exact ⟨m, (hpart.trans (steps_added harch hmore)).trans hall⟩

/-! ## the message header -/

theorem steps_mimeVersion {main : Option WString} {a : Parsed} (rest : Bytes) :
    Parser.Steps kurl (atHeader main a false {} (mimeVersion ++ rest)) (atHeader main a false {} rest) := by
  have hline : mimeVersion ++ rest = mimeVersion.take 12 ++
      0x3A :: ((mimeVersion.drop 13).take 4 ++ (CRLF ++ rest)) := rfl
  have hsteps := @steps_field kurl main a false {} _ _
    (show HeaderName (mimeVersion.take 12) by decide)
    (show Plain ((mimeVersion.drop 13).take 4) by decide) rest
  have hinfo : getHeaderInfo {} (latin1 (mimeVersion.take 12)) (latin1 ((mimeVersion.drop 13).take 4)) = {} := by
    decide
  have hname : equalIgnoringCase (stripWhiteSpace (latin1 (mimeVersion.take 12))) contentTypeName = false := by
    decide
  rw [hinfo, hname, Bool.false_and, Bool.or_false] at hsteps
  rw [hline]
  exact hsteps

theorem getHeaderInfo_folded {i : HeaderInfo} (hi : i.boundary.isSome = true) (value : WString) :
    ∃ charset, getHeaderInfo i [] value = { i with charset := charset } := by
  have hname : ([] : WString).isEmpty = true := rfl
  have hnone : ¬ i.boundary.isNone = true := by
    rw [Option.isNone_iff_eq_none]
    intro heq
    rw [heq] at hi
    cases hi
  unfold getHeaderInfo
  rw [if_pos hname]
  split
  · exact ⟨i.charset, rfl⟩
  · split
    · exact ⟨_, rfl⟩
    · exact ⟨i.charset, rfl⟩

theorem steps_messageHeader {type : WString} (htype : type ≠ []) (hascii : Ascii type) (hspace : NoSpace type)
    (rest : Bytes) :
    ∃ charset, Parser.Steps kurl (atHeader none {} false {} (makeMessageHeader type true ++ rest))
      (atContent none {} true
        { boundary := some (latin1 PAGESAVE_BOUNDARY_STR), type := multipartRelatedType, charset := charset } []
        (preamble ++ rest)) := by
  have hempty : ¬ type.isEmpty = true := by simpa using htype
  let info : HeaderInfo := { boundary := some (latin1 PAGESAVE_BOUNDARY_STR), type := multipartRelatedType }
  obtain ⟨charset, hcharset⟩ := @getHeaderInfo_folded info rfl (latin1 (typeIs.tail ++ (chars type ++ text ['"'])))
  refine ⟨charset, ?_⟩
  have hplain : Plain (typeIs.tail ++ (chars type ++ text ['"'])) := by
    apply Plain.append (by decide)
    exact (chars_plain hascii hspace.lines).append (by decide)
  -- the four lines and the empty one
  have hone := fun more => @steps_mimeVersion kurl none {} more
  have htwo : ∀ more, Parser.Steps kurl
      (atHeader none {} false {} (contentType ++ (multipartRelated ++ (text [';', ' '] ++ (CRLF ++ more)))))
      (atHeader none {} true { type := multipartRelatedType } more) := by
    intro more
    have hsteps := @steps_field kurl none {} false {} _ _
      (show HeaderName (contentType.take 12) by decide)
      (show Plain (0x20 :: (multipartRelated ++ text [';', ' '])) by decide) more
    have hinfo : getHeaderInfo {} (latin1 (contentType.take 12))
        (latin1 (0x20 :: (multipartRelated ++ text [';', ' ']))) = { type := multipartRelatedType } := by decide
    have hmulti : (equalIgnoringCase (stripWhiteSpace (latin1 (contentType.take 12))) contentTypeName &&
        findIgnoringCase (latin1 (0x20 :: (multipartRelated ++ text [';', ' ']))) multipartRelatedType) = true := by
      decide
    rw [hinfo, hmulti, Bool.or_true] at hsteps
    exact hsteps
  have hthree : ∀ more, Parser.Steps kurl
      (atHeader none {} true { type := multipartRelatedType }
        (boundaryIs ++ (PAGESAVE_BOUNDARY_STR ++ (text ['"', ';'] ++ (CRLF ++ more)))))
      (atHeader none {} true info more) := by
    intro more
    have hsteps := @steps_folded kurl none {} true { type := multipartRelatedType } _
      (show Plain (boundaryIs.tail ++ (PAGESAVE_BOUNDARY_STR ++ text ['"', ';'])) by decide) more
    have hinfo : getHeaderInfo { type := multipartRelatedType } []
        (latin1 (boundaryIs.tail ++ (PAGESAVE_BOUNDARY_STR ++ text ['"', ';']))) = info := by decide
    rw [hinfo] at hsteps
    exact hsteps
  have hfour : ∀ more, Parser.Steps kurl
      (atHeader none {} true info (typeIs ++ (chars type ++ (text ['"'] ++ (CRLF ++ more)))))
      (atHeader none {} true { info with charset := charset } more) := by
    intro more
    have hsteps := @steps_folded kurl none {} true info _ hplain more
    have hline : typeIs ++ (chars type ++ (text ['"'] ++ (CRLF ++ more))) =
        0x09 :: ((typeIs.tail ++ (chars type ++ text ['"'])) ++ (CRLF ++ more)) := by
      rw [List.append_assoc, List.append_assoc]
      rfl
    rw [hcharset] at hsteps
    rw [hline]
    exact hsteps
  have hfive : ∀ more, Parser.Steps kurl (atHeader none {} true { info with charset := charset } (CRLF ++ more))
      (atContent none {} true { info with charset := charset } [] more) :=
    fun more => steps_empty (fun _ => rfl) more
  unfold makeMessageHeader
  rw [if_pos rfl, if_neg hempty]
  simp only [List.append_assoc]
  exact ((((hone _).trans (htwo _)).trans (hthree _)).trans (hfour _)).trans (hfive _)

theorem noBoundaryLine_preamble : NoBoundaryLine preamble := by
  -- no `=` stands in it
  have hall : preamble.all (fun b => b != 0x3D) = true := by decide
  have hnone : ∀ b ∈ preamble, b ≠ 0x3D := fun b hb => bne_iff_ne.mp (List.all_eq_true.mp hall b hb)
  intro pre suf heq _
  have hsuf : 0x3D ∉ suf := by
    intro hmem
    exact hnone 0x3D (by rw [heq]; exact List.mem_append_right _ hmem) rfl
  constructor
  all_goals
    intro hpre
    exact hsuf (hpre.subset (by decide))

/-- **A page of several parts.** -/
theorem steps_multipart (hkurl : KURLText kurl) {rs : List ArchiveResource}
    (h : ∀ x ∈ r :: rs, Archivable kurl x ∧ Readable true x) :
    ∃ m, Parser.Steps kurl
      { rest := makeMessageHeader r.mimeType true ++ Serializer.parts true (r :: rs) }
      (atEnd m (collect none {} (r :: rs)) true (some (latin1 PAGESAVE_BOUNDARY_STR))) := by
  obtain ⟨harch, -⟩ := h r List.mem_cons_self
  obtain ⟨charset, hheader⟩ := @steps_messageHeader kurl _ harch.type_ne harch.type harch.type_plain.2
    (Serializer.parts true (r :: rs))
  have hne : partsText (r :: rs) ≠ [] :=
    partsText_ne_nil (List.cons_ne_nil _ _) (fun x hx => ((h x hx).1.url_lead hkurl).1)
  let info : HeaderInfo :=
    { boundary := some (latin1 PAGESAVE_BOUNDARY_STR), type := multipartRelatedType, charset := charset }
  have hkeep : keepLine info [] (preamble ++ CRLF) = [] := by
    have hignores : ignores info = true := rfl
    unfold keepLine
    rw [hignores]
    rfl
  have hpreamble := @steps_body kurl none {} true info rfl [] (by decide) preamble [] (partsText (r :: rs))
    noBoundaryLine_preamble
  rw [hkeep] at hpreamble
  -- nothing is kept of the preamble, and nothing is added
  have hadd : Parser.Steps kurl (atBoundary none {} true info [] (partsText (r :: rs)))
      (atHeader none {} true { boundary := some (latin1 PAGESAVE_BOUNDARY_STR) } (partsText (r :: rs))) := by
    apply Relation.ReflTransGen.single
    refine ⟨ParseState.noConfusion, ?_⟩
    show Parser.addResource kurl _ = _
    unfold Parser.addResource
    exact if_pos (by simpa [Parser.addBody_rest, atBoundary, atContent] using hne)
  obtain ⟨m, hparts⟩ := @steps_parts kurl _ hkurl rfl (r :: rs) (List.cons_ne_nil _ _) h none {}
  rw [parts_eq] at hheader ⊢
  exact ⟨m, ((hheader.trans hpreamble).trans hadd).trans hparts⟩

/-! ## a page of one resource -/

theorem steps_rest (hkurl : KURLText kurl) (h : Archivable kurl r) (hread : Readable false r)
    (raw body : Bytes) (hdata : raw ++ body = r.data) (hne : body ≠ []) :
    Parser.Steps kurl (atContent none {} false (partInfo none r) raw body)
      (atEnd (some r.mimeType) (addMimeResource r.mimeType {} r) false none) := by
  -- the induction is on the length of the data that is left
  induction hn : body.length using Nat.strong_induction_on generalizing raw body with
  | _ n ih =>
    subst hn
    have hnot : ∀ line, (isEndBoundary line ((partInfo none r).boundary.getD []) ||
        isBoundary line ((partInfo none r).boundary.getD [])) = false := fun _ => rfl
    have hkeep : ∀ line, keepLine (partInfo none r) raw line = raw ++ line := by
      intro line
      unfold keepLine
      rw [ignores_part hkurl h hread]
      rfl
    by_cases hlast : body.drop (calcLineLength body) = []
    · -- the last line, and the resource is added
      have hline : body.take (calcLineLength body) = body := by
        conv_rhs => rw [← List.take_append_drop (calcLineLength body) body, hlast, List.append_nil]
      apply Relation.ReflTransGen.single
      refine ⟨ParseState.noConfusion, ?_⟩
      show Parser.readContent kurl (atContent none {} false (partInfo none r) raw body) = _
      unfold Parser.readContent
      dsimp only [atContent]
      rw [hnot, if_neg Bool.false_ne_true, hlast, hline]
      have hraw : (if equalIgnoringCase (partInfo none r).type multipartRelatedType ||
          (partInfo none r).location.isEmpty then raw else raw ++ body) = r.data :=
        (hkeep body).trans hdata
      rw [hraw, if_neg (by simp)]
      unfold Parser.addResource
      have hbody : ∀ s : Parser, s.rawData = r.data → s.isMultipart = false → s.body = r.data := by
        intro s hs hm
        unfold Parser.body
        rw [hs, hm]
        exact if_neg (fun hand => Bool.false_ne_true hand.2.1)
      rw [addBody_part h _ rfl rfl rfl h.data_ne (hbody _ rfl rfl)]
      rfl
    · have hfirst := @step_line kurl none {} false (partInfo none r) raw body _ _ rfl rfl hlast (hnot _)
      rw [hkeep] at hfirst
      have hshort : (body.drop (calcLineLength body)).length < body.length := by
        obtain ⟨b, rest, heq⟩ := List.exists_cons_of_ne_nil hne
        have hpos := @calcLineLength_pos b rest
        rw [heq, List.length_drop, List.length_cons]
        omega
      have hjoin : raw ++ body.take (calcLineLength body) ++ body.drop (calcLineLength body) = r.data := by
        rw [List.append_assoc, List.take_append_drop, hdata]
      exact hfirst.trans (ih _ hshort _ _ hjoin hlast rfl)

/-- **A page of one resource.** -/
theorem steps_single (hkurl : KURLText kurl) (h : Archivable kurl r) (hread : Readable false r) :
    Parser.Steps kurl { rest := makeMessageHeader r.mimeType false ++ Serializer.parts false [r] }
      (atEnd (some r.mimeType) (addMimeResource r.mimeType {} r) false none) := by
  have htext : makeMessageHeader r.mimeType false ++ Serializer.parts false [r] =
      mimeVersion ++ (makePartHeader r ++ r.data) := by
    have hmessage : makeMessageHeader r.mimeType false = mimeVersion := List.append_nil _
    have hparts : Serializer.parts false [r] = makePartHeader r ++ r.data := List.append_nil _
    rw [hmessage, hparts]
  rw [htext]
  have hversion := @steps_mimeVersion kurl none {} (makePartHeader r ++ r.data)
  have hheader := @steps_partHeader kurl r none {} false none hkurl h hread
    (fun hfalse => absurd hfalse Bool.false_ne_true) r.data
  exact (hversion.trans hheader).trans (steps_rest hkurl h hread [] r.data rfl h.data_ne)

end

/-! ## where the resources go -/

theorem collect_main (m : WString) (main : ArchiveResource) (rs : List ArchiveResource)
    (subs : List ArchiveResource) (frames : List MHTMLWebArchive) :
    collect (some m) ⟨some main, subs, frames⟩ rs =
      ⟨some main, subs ++ rs.filter (fun r => !isFrameType r.mimeType),
        frames ++ (rs.filter (fun r => isFrameType r.mimeType)).map (fun r => .create r [] [])⟩ := by
  induction rs generalizing subs frames with
  | nil =>
    rw [collect, List.filter_nil, List.filter_nil, List.map_nil, List.append_nil, List.append_nil]
  | cons r rs ih =>
    rw [collect, addMimeResource, if_neg (fun h => Bool.false_ne_true h.1)]
    cases hframe : isFrameType r.mimeType with
    | true =>
      rw [if_pos rfl, Option.getD_some, ih, List.filter_cons_of_neg (by simp [hframe]),
        List.filter_cons_of_pos (by simp [hframe]), List.map_cons, List.append_assoc, List.singleton_append]
    | false =>
      rw [if_neg Bool.false_ne_true, Option.getD_some, ih, List.filter_cons_of_pos (by simp [hframe]),
        List.filter_cons_of_neg (by simp [hframe]), List.append_assoc, List.singleton_append]

/-- the first resource is the main one, pages after it are frames -/
def archived : List ArchiveResource → Parsed
  | [] => {}
  | r :: rs =>
    { mainResource := some r
      subresources := rs.filter (fun x => !isFrameType x.mimeType)
      subframeArchives := (rs.filter (fun x => isFrameType x.mimeType)).map (fun x => .create x [] []) }

theorem collect_eq (r : ArchiveResource) (rs : List ArchiveResource) :
    collect none {} (r :: rs) = archived (r :: rs) := by
  have hfirst : addMimeResource r.mimeType {} r = ⟨some r, [], []⟩ := if_pos ⟨rfl, rfl⟩
  rw [collect, Option.getD_none, hfirst, collect_main]
  rfl

end Mhtml

/-! ## a tree that is saved whole -/

namespace MHTMLWebArchive
open Serializer

variable {saved : List WString}

theorem fresh_all {rs : List ArchiveResource} (hdata : ∀ r ∈ rs, r.data ≠ [])
    (hurls : (rs.map ArchiveResource.url).Nodup) (hsaved : ∀ r ∈ rs, r.url ∉ saved) :
    ∀ b ∈ fresh saved rs, b = true := by
  induction rs generalizing saved with
  | nil => exact fun b hb => absurd hb List.not_mem_nil
  | cons r rs ih =>
    obtain ⟨hfirst, hrest⟩ := List.nodup_cons.mp hurls
    have hnew : isNew saved r = true := by
      simpa [isNew] using ⟨hdata r List.mem_cons_self, hsaved r List.mem_cons_self⟩
    intro b hb
    rcases List.mem_cons.mp hb with rfl | hb
    · exact hnew
    · apply ih (fun x hx => hdata x (List.mem_cons_of_mem _ hx)) hrest ?_ b hb
      intro x hx hmem
      rw [keep_new hnew] at hmem
      rcases List.mem_cons.mp hmem with heq | hmem
      · exact hfirst (List.mem_map.mpr ⟨x, hx, heq⟩)
      · exact hsaved x (List.mem_cons_of_mem _ hx) hmem

theorem news_all {rs : List ArchiveResource} (h : ∀ b ∈ fresh saved rs, b = true) : news saved rs = rs := by
  induction rs generalizing saved with
  | nil => rfl
  | cons r rs ih =>
    rw [news_new (h _ List.mem_cons_self), ih (fun b hb => h b (List.mem_cons_of_mem _ hb))]

mutual

theorem counts_all (a : MHTMLWebArchive) (saved : List WString)
    (h : ∀ b ∈ fresh saved a.resources, b = true) : Counts saved a := by
  cases a with
  | create main subresources frames =>
    rw [resources_create, fresh_append] at h
    have hnew : isNew saved main = true := h _ (List.mem_append_left _ List.mem_cons_self)
    rw [Counts, if_pos hnew]
    exact countsFrames_all frames _ (fun b hb => h b (List.mem_append_right _ hb))

theorem countsFrames_all (frames : List MHTMLWebArchive) (saved : List WString)
    (h : ∀ b ∈ fresh saved (framesResources frames), b = true) : CountsFrames saved frames := by
  cases frames with
  | nil => exact trivial
  | cons a rest =>
    rw [framesResources, fresh_append] at h
    rw [CountsFrames]
    exact ⟨counts_all a saved (fun b hb => h b (List.mem_append_left _ hb)),
      countsFrames_all rest _ (fun b hb => h b (List.mem_append_right _ hb))⟩

end

theorem savedResources_all {isSupportedImageMIMEType : WString → Bool} {root : MHTMLWebArchive}
    {s : Serializer} (h : contentSerializeStart isSupportedImageMIMEType root = some s)
    (hdata : ∀ r ∈ root.resources, r.data ≠ []) (hurls : (root.resources.map ArchiveResource.url).Nodup) :
    savedResources root s.items = root.resources := by
  have hall := @fresh_all [] _ hdata hurls (fun _ _ => List.not_mem_nil)
  rw [savedResources_eq h (counts_all root [] hall), news_all hall]

end MHTMLWebArchive

open Mhtml

/-- **The round trip of a page.**  A tree with different URLs is saved to its end with buffers none of which ends
where a body does (`hmiss`; the writer repeats a part otherwise).  Then every resource is read again, in the order
in which it was written, if its type is not that of a message, its charset stays on one line and names no
boundary, and its URL does not end with a space. -/
theorem page_reread {kurl : WString → ParsedURL} (hkurl : KURLText kurl)
    {isSupportedImageMIMEType : WString → Bool} {root : MHTMLWebArchive} {s : Serializer}
    (h : contentSerializeStart isSupportedImageMIMEType root = some s)
    (hurls : (root.resources.map ArchiveResource.url).Nodup)
    (harch : ∀ r ∈ root.resources, Archivable kurl r)
    (hread : ∀ r ∈ root.resources, Readable (decide (1 < s.items)) r)
    {ns : List Nat} (hpos : ∀ n ∈ ns, 0 < n) (hend : (save root s ns).2.status = .END)
    (hmiss : Serializer.Misses (bodyEnds root s.items) ns) :
    parseRawDataRepresentation kurl (save root s ns).1 = (true, archived root.resources) := by
  have hne : ∀ r ∈ root.resources, r.url ≠ [] := fun r hr => ((harch r hr).url_lead hkurl).1
  have hall := MHTMLWebArchive.savedResources_all h (fun r hr => (harch r hr).data_ne) hurls
  -- the run wrote the text of the page
  have hbytes : (save root s ns).1 = pageText root s.items := by
    have hone := Nat.lt_succ_self (pageText root s.items).length
    have heq := ((save_pieces_iff h hne hpos hone).1 hend).mpr hmiss
    have hsingle := save_text h hne hone
    rw [heq, hsingle]
  have hlen := savedResources_length h
  obtain ⟨xs, hxs⟩ := savedResources_head h
  have hpage : pageText root s.items =
      makeMessageHeader root.mainResource.mimeType (decide (1 < s.items)) ++
        Serializer.parts (decide (1 < s.items)) (root.mainResource :: xs) := by
    unfold pageText
    rw [hxs]
  rw [hall] at hxs hlen
  rw [hbytes, hpage, hxs]
  rw [hxs] at harch hread hlen
  by_cases hmulti : 1 < s.items
  · rw [decide_eq_true hmulti] at hread ⊢
    obtain ⟨m, hsteps⟩ := steps_multipart hkurl (fun x hx => ⟨harch x hx, hread x hx⟩)
    rw [hsteps.parse rfl, ← collect_eq]
    rfl
  · rw [decide_eq_false hmulti] at hread ⊢
    have hnil : xs = [] := by
      rw [List.length_cons] at hlen
      exact List.length_eq_zero_iff.mp (by omega)
    subst hnil
    have hmain : root.mainResource ∈ [root.mainResource] := List.mem_cons_self
    rw [(steps_single hkurl (harch _ hmain) (hread _ hmain)).parse rfl, ← collect_eq]
    rfl

/-! ## a page, and a page that is taken for a message -/

namespace Sample

/-- `a:b` is its own canonical text -/
def abURL : WString := [0x61, 0x3A, 0x62]

def onlyAB (u : WString) : ParsedURL := ⟨u, decide (u = abURL)⟩

def abPage (mimeType : WString) : MHTMLWebArchive := .create ⟨abURL, mimeType, [0x75], [1, 13, 10]⟩ [] []

theorem onlyAB_text : KURLText onlyAB := by
  have hvalid : ∀ u, (onlyAB u).isValid = true → (onlyAB u).string = abURL := fun u hu => of_decide_eq_true hu
  constructor
  · intro u hu
    rw [hvalid u hu]
    exact ⟨_, _, rfl, rfl⟩
  · intro u hu
    rw [hvalid u hu]
    have hall : abURL.all (fun c => decide (0x20 ≤ c.toNat)) = true := by decide
    exact fun c hc => of_decide_eq_true (List.all_eq_true.mp hall c hc)

theorem abPage_archivable {mimeType : WString} (hne : mimeType ≠ []) (hascii : Ascii mimeType)
    (hplain : 0x3B ∉ mimeType ∧ NoSpace mimeType) :
    ∀ r ∈ (abPage mimeType).resources, Archivable onlyAB r := by
  intro r hr
  rw [List.mem_singleton.mp hr]
  have hlines : NoBoundaryLine [1, 13, 10] := by
    intro pre suf heq _
    have hlen := congrArg List.length heq
    rw [List.length_append] at hlen
    constructor
    · intro hpre
      have hle := hpre.length_le
      simp [PAGESAVE_BOUNDARY_STR, text] at hle hlen
      omega
    · intro hpre
      have hle := hpre.length_le
      simp [PAGESAVE_BOUNDARY_STR, text, dashes] at hle hlen
      omega
  have hurl : Ascii abURL := by decide
  have hcharset : Ascii [0x75] ∧ quote ∉ [0x75] := by decide
  exact ⟨rfl, hurl, hne, hascii, hplain, hcharset.1, hcharset.2, List.cons_ne_nil _ _, hlines⟩

end Sample
open Sample

theorem page_reread_ab : contentSerializeStart noImage (abPage [0x74]) = some { items := 1 } ∧
    (save (abPage [0x74]) { items := 1 } [30, 170]).2.status = .END ∧
    parseRawDataRepresentation onlyAB (save (abPage [0x74]) { items := 1 } [30, 170]).1 =
      (true, archived (abPage [0x74]).resources) := by
  have hstart : contentSerializeStart noImage (abPage [0x74]) = some { items := 1 } := rfl
  have hend : (save (abPage [0x74]) { items := 1 } [30, 170]).2.status = .END := by decide +kernel
  have hmiss : Serializer.Misses (bodyEnds (abPage [0x74]) 1) [30, 170] := by
    have hall : ∀ pre ∈ [30, 170].inits, pre ≠ [] → pre.sum ∉ bodyEnds (abPage [0x74]) 1 := by decide +kernel
    exact fun pre hpre => hall pre ((List.mem_inits _ _).mpr hpre)
  have hread : ∀ r ∈ (abPage [0x74]).resources, Readable (decide (1 < 1)) r := by
    intro r hr
    rw [List.mem_singleton.mp hr]
    exact ⟨by decide, by decide, by simp, by decide⟩
  exact ⟨hstart, hend, page_reread onlyAB_text hstart (by decide)
    (abPage_archivable (by decide) (by decide) (by decide)) hread (by decide) hend hmiss⟩

/-- a resource whose type is that of a message -/
theorem page_not_reread : KURLText onlyAB ∧
    contentSerializeStart noImage (abPage multipartRelatedType) = some { items := 1 } ∧
    ((abPage multipartRelatedType).resources.map ArchiveResource.url).Nodup ∧
    (∀ r ∈ (abPage multipartRelatedType).resources, Archivable onlyAB r) ∧
    (save (abPage multipartRelatedType) { items := 1 } [200]).2.status = .END ∧
    parseRawDataRepresentation onlyAB (save (abPage multipartRelatedType) { items := 1 } [200]).1 ≠
      (true, archived (abPage multipartRelatedType).resources) := by
  have hfalse : (parseRawDataRepresentation onlyAB
      (save (abPage multipartRelatedType) { items := 1 } [200]).1).1 = false := by decide +kernel
  refine ⟨onlyAB_text, rfl, by decide, abPage_archivable (by decide) (by decide) (by decide), by decide +kernel, ?_⟩
  intro heq
  rw [heq] at hfalse
  cases hfalse

end Wkc
