import Mathlib.Data.List.DropRight
import Mathlib.Data.List.Infix
import Mathlib.Logic.Relation
import WkcBrowser.Mhtml.Archive
import WkcBrowser.Wtf.Url

/-!
# `MHTMLWebArchive::parseRawDataRepresentation`

The parser reads header lines until an empty line, then body lines until a line that is a boundary.

* `calcLineLength`, `parseHeader`          one line of a body, one line of a header;
* `getHeaderInfo`                          what a header line says;
* `isEndBoundary`, `isBoundary`            the tests of a body line;
* `Parser.step`, `parseRawDataRepresentation`   one turn of the loop, and the loop;
* `addMimeResource`                        where a resource goes in the new archive;
* `Steps`, `Steps.parse`                   turns of the loop, and that they end.

`KURL(ParsedURLString, location)` is a parameter.  The data is not longer than an `int` can tell.
-/

namespace Wkc
namespace Mhtml

/-! ## characters -/

/-- `String(p, len)` of a `char*` -/
def latin1 (bs : Bytes) : WString := bs.map UInt8.toUInt16

def isSpaceOrNewline (c : UInt16) : Bool := c == 0x20 || (9 ≤ c.toNat && c.toNat ≤ 0xD)

def stripWhiteSpace (s : WString) : WString := (s.dropWhile isSpaceOrNewline).rdropWhile isSpaceOrNewline

/-- `find(pattern, 0, false) != notFound` -/
def findIgnoringCase (s pattern : WString) : Bool := decide (pattern.map foldCase <:+: s.map foldCase)

/-- 2 for CRLF, 1 for CR or LF alone -/
def isEndOfLine : Bytes → Nat
  | b :: rest => if b = 0x0D then (if rest.head? = some 0x0A then 2 else 1) else if b = 0x0A then 1 else 0
  | [] => 0

/-- the length of the first line with its end -/
def calcLineLength : Bytes → Nat
  | [] => 0
  | b :: rest => if 0 < isEndOfLine (b :: rest) then isEndOfLine (b :: rest) else calcLineLength rest + 1

def isWSP (b : UInt8) : Bool := b == 0x20 || b == 0x09

def isAlphaNum (b : UInt8) : Bool :=
  (0x61 ≤ b.toNat && b.toNat ≤ 0x7A) || (0x41 ≤ b.toNat && b.toNat ≤ 0x5A) ||
    (0x30 ≤ b.toNat && b.toNat ≤ 0x39)

/-! ## header lines -/

inductive HeaderState where
  | NAME
  | VALUE
  | VALUE_FOLDING
  | END
  deriving DecidableEq

/-- what `parseHeader` returns, with the places it writes to -/
structure HeaderLine where
  len : Nat
  name : Bytes := []
  value : Bytes := []
  status : HeaderState
  deriving DecidableEq

/-- The loop of `parseHeader`, with the bytes it has passed, where the value begins, and the name;
`none` is the answer -1. -/
def parseHeaderLoop : HeaderState → Bytes → Nat → Bytes → Bytes → Option HeaderLine
  | .NAME, _, _, name, [] => some { len := 0, name := name, status := .NAME }
  | .END, _, _, name, [] => some { len := 0, name := name, status := .END }
  | status, passed, vBegin, name, [] =>
    some { len := passed.length, name := name, value := passed.drop vBegin, status := status }
  | .NAME, passed, vBegin, name, b :: rest =>
    if passed.isEmpty ∧ 0 < isEndOfLine (b :: rest) then
      some { len := isEndOfLine (b :: rest), status := .END }
    else if passed.isEmpty ∧ isWSP b = true then parseHeaderLoop .VALUE_FOLDING [b] 1 name rest
    else if isAlphaNum b || b == 0x2D then parseHeaderLoop .NAME (passed ++ [b]) vBegin name rest
    else if b = 0x3A then parseHeaderLoop .VALUE (passed ++ [b]) (passed.length + 1) passed rest
    else none
  | .END, _, _, name, _ :: _ => some { len := 0, name := name, status := .END }
  | status, passed, vBegin, name, b :: rest =>
    if 0 < isEndOfLine (b :: rest) then
      some { len := passed.length + isEndOfLine (b :: rest), name := name, value := passed.drop vBegin,
             status := .NAME }
    else parseHeaderLoop status (passed ++ [b]) vBegin name rest

def parseHeader (buf : Bytes) (status : HeaderState) : Option HeaderLine :=
  parseHeaderLoop status [] 0 [] buf

def quote : UInt16 := 0x22

/-- what stands between the first two quotes; `none` is the null string -/
def getQuotationString (value : WString) : Option WString :=
  let rest := (value.dropWhile (fun c => c != quote)).tail
  if rest.contains quote then some (rest.takeWhile (fun c => c != quote)) else none

def stripWhiteAndSemicolon (value : WString) : WString :=
  let tmp := stripWhiteSpace value
  if tmp.getLast? = some 0x3B then tmp.dropLast else tmp

def contentTypeName : WString := latin1 (contentType.take 12)
def contentLocationName : WString := latin1 (contentLocation.take 16)
def boundaryKey : WString := latin1 (text ['b', 'o', 'u', 'n', 'd', 'a', 'r', 'y', '='])
def charsetKey : WString := latin1 (text ['c', 'h', 'a', 'r', 's', 'e', 't', '='])
def multipartRelatedType : WString := latin1 multipartRelated
def textHtml : WString := latin1 (text ['t', 'e', 'x', 't', '/', 'h', 't', 'm', 'l'])

def applicationXhtml : WString :=
  latin1 (text ['a', 'p', 'p', 'l', 'i', 'c', 'a', 't', 'i', 'o', 'n', '/', 'x', 'h', 't', 'm', 'l',
    '+', 'x', 'm', 'l'])

/-- the strings that `getHeaderInfo` fills -/
structure HeaderInfo where
  boundary : Option WString := none
  type : WString := []
  location : WString := []
  charset : WString := []
  deriving DecidableEq

def getHeaderInfo (i : HeaderInfo) (name value : WString) : HeaderInfo :=
  if name.isEmpty then
    if findIgnoringCase value boundaryKey then
      if i.boundary.isNone then { i with boundary := getQuotationString value } else i
    else if findIgnoringCase value charsetKey then { i with charset := (getQuotationString value).getD [] }
    else i
  else if equalIgnoringCase (stripWhiteSpace name) contentTypeName then
    { i with type := stripWhiteAndSemicolon value }
  else if equalIgnoringCase (stripWhiteSpace name) contentLocationName then
    { i with location := stripWhiteSpace value }
  else i

/-! ## boundaries -/

def dashes : Bytes := [0x2D, 0x2D]

/-- `p` begins with the boundary and two dashes -/
def closes (p : Bytes) (boundary : WString) : Bool :=
  boundary.isPrefixOf (latin1 p) && dashes.isPrefixOf (p.drop boundary.length)

def isEndBoundary (buf : Bytes) (boundary : WString) : Bool :=
  if boundary.isEmpty then false
  else if buf.length < 2 then false
  else
    let buf := buf.take (buf.length - 2)
    if buf.length < boundary.length + 2 then false
    else if buf.length < boundary.length + 4 then closes buf boundary
    else dashes.isPrefixOf buf && closes (buf.drop 2) boundary

def isBoundary (buf : Bytes) (boundary : WString) : Bool :=
  if boundary.isEmpty then false
  else if buf.length < boundary.length + 2 then false
  else dashes.isPrefixOf buf && boundary.isPrefixOf (latin1 (buf.drop 2))

/-! ## the parser -/

inductive ParseState where
  | PARSE_HEADER
  | READ_CONTENT
  | ADD_RESOURCE
  | END
  deriving DecidableEq

/-- the members of the archive that is read, the main type aside -/
structure Parsed where
  mainResource : Option ArchiveResource := none
  subresources : List ArchiveResource := []
  subframeArchives : List MHTMLWebArchive := []

/-- the members and the variables of `parseRawDataRepresentation`; `rest` is what `p` points to -/
structure Parser where
  status : ParseState := .PARSE_HEADER
  mainResourceType : Option WString := none
  archive : Parsed := {}
  isMultipart : Bool := false
  headerStatus : HeaderState := .NAME
  info : HeaderInfo := {}
  rawData : Bytes := []
  rest : Bytes

def isFrameType (mimeType : WString) : Bool := mimeType == textHtml || mimeType == applicationXhtml

/-- `m_multipartStack` is empty: nothing is put on it -/
def addMimeResource (mainType : WString) (a : Parsed) (r : ArchiveResource) : Parsed :=
  if a.mainResource.isNone ∧ r.mimeType = mainType then { a with mainResource := some r }
  else if isFrameType r.mimeType then
    { a with subframeArchives := a.subframeArchives ++ [.create r [] []] }
  else { a with subresources := a.subresources ++ [r] }

/-- `KURL(ParsedURLString, ·)`: the text it keeps, and whether it is valid -/
structure ParsedURL where
  string : WString
  isValid : Bool
  deriving DecidableEq

namespace Parser

def takeHeader (h : HeaderLine) (s : Parser) : Parser :=
  let name := latin1 h.name
  let value := latin1 h.value
  { s with
    rest := s.rest.drop h.len
    headerStatus := h.status
    info := getHeaderInfo s.info name value
    isMultipart := s.isMultipart ||
      (equalIgnoringCase (stripWhiteSpace name) contentTypeName && findIgnoringCase value multipartRelatedType) }

/-- `PARSE_STATE_PARSE_HEADER`; `none` is the label `error` -/
def parseHeader (s : Parser) : Option Parser :=
  match Mhtml.parseHeader s.rest s.headerStatus with
  | none => none
  | some h =>
    if h.len = 0 then
      if s.isMultipart && (s.info.boundary.getD []).isEmpty then none
      else some { s with status := .READ_CONTENT, headerStatus := h.status }
    else some (s.takeHeader h)

/-- the body without the line end that `makeBoundary` puts after it -/
def body (s : Parser) : Bytes :=
  if 2 < s.rawData.length ∧ s.isMultipart = true ∧ s.rawData.rtake 2 = CRLF then s.rawData.rdrop 2
  else s.rawData

/-- the resource that was read goes into the archive -/
def addBody (kurl : WString → ParsedURL) (s : Parser) : Parser :=
  if s.rawData.isEmpty then s
  else
    let type := if s.mainResourceType.isNone ∧ s.info.type.isEmpty then textHtml else s.info.type
    let mainType := s.mainResourceType.getD type
    { s with
      mainResourceType := some mainType
      archive := addMimeResource mainType s.archive
        ⟨(kurl s.info.location).string, type, s.info.charset, s.body⟩
      rawData := [] }

/-- `PARSE_STATE_ADD_RESOURCE` -/
def addResource (kurl : WString → ParsedURL) (s : Parser) : Option Parser :=
  let s := s.addBody kurl
  let s : Parser := { s with info := { boundary := s.info.boundary } }
  if s.rest.isEmpty = false then some { s with headerStatus := .NAME, status := .PARSE_HEADER }
  else if s.mainResourceType.isNone then none
  else some { s with status := .END }

/-- `PARSE_STATE_READ_CONTENT`, which goes on to the next state after the last line -/
def readContent (kurl : WString → ParsedURL) (s : Parser) : Option Parser :=
  let line := s.rest.take (calcLineLength s.rest)
  let rest := s.rest.drop (calcLineLength s.rest)
  let boundary := s.info.boundary.getD []
  if isEndBoundary line boundary || isBoundary line boundary then
    some { s with rest := rest, status := .ADD_RESOURCE }
  else
    let ignored := equalIgnoringCase s.info.type multipartRelatedType || s.info.location.isEmpty
    let s : Parser := { s with rest := rest, rawData := if ignored then s.rawData else s.rawData ++ line }
    if s.rest.isEmpty = false then some s else { s with status := .ADD_RESOURCE }.addResource kurl

/-- one turn of the loop -/
def step (kurl : WString → ParsedURL) (s : Parser) : Option Parser :=
  match s.status with
  | .PARSE_HEADER => s.parseHeader
  | .READ_CONTENT => s.readContent kurl
  | .ADD_RESOURCE => s.addResource kurl
  | .END => some s

def loop (kurl : WString → ParsedURL) : Nat → Parser → Bool × Parser
  | 0, s => (false, s)
  | turns + 1, s =>
    if s.status = .END then (true, s)
    else
      match s.step kurl with
      | none => (false, s)
      | some s => loop kurl turns s

/-- bounds the turns that are left -/
def turns (s : Parser) : Nat :=
  3 * s.rest.length + match s.status with
    | .PARSE_HEADER => 3
    | .READ_CONTENT => 2
    | .ADD_RESOURCE => 4
    | .END => 0

end Parser

/-- whether the data could be read, and the archive -/
def parseRawDataRepresentation (kurl : WString → ParsedURL) (data : Bytes) : Bool × Parsed :=
  let s : Parser := { rest := data }
  let (done, s) := Parser.loop kurl (s.turns + 1) s
  (done, s.archive)

/-! ## turns of the loop -/

theorem calcLineLength_pos {b : UInt8} {rest : Bytes} : 0 < calcLineLength (b :: rest) := by
  rw [calcLineLength]
  split
  · next h => exact h
  · exact Nat.succ_pos _

theorem parseHeader_nil {status : HeaderState} {h : HeaderLine} (heq : parseHeader [] status = some h) :
    h.len = 0 := by
  cases status with
  | NAME => rw [← Option.some.inj heq]
  | VALUE | VALUE_FOLDING => rw [← Option.some.inj heq]; rfl
  | END => rw [← Option.some.inj heq]

namespace Parser

variable {kurl : WString → ParsedURL} {s t : Parser}

theorem addBody_rest (s : Parser) : (s.addBody kurl).rest = s.rest := by
  unfold addBody
  split <;> rfl

theorem addResource_turns (h : s.addResource kurl = some t) : t.turns ≤ 3 * s.rest.length + 3 := by
  unfold addResource at h
  dsimp only at h
  rw [addBody_rest] at h
  split at h
  · obtain rfl := Option.some.inj h
    exact Nat.le_refl _
  · split at h
    · cases h
    · obtain rfl := Option.some.inj h
      exact Nat.add_le_add_left (Nat.zero_le 3) _

theorem addResource_end (hrest : s.rest = []) (h : s.addResource kurl = some t) : t.turns = 0 := by
  unfold addResource at h
  dsimp only at h
  rw [addBody_rest, hrest] at h
  split at h
  · next hfalse => cases hfalse
  · split at h
    · cases h
    · obtain rfl := Option.some.inj h
      rfl

theorem step_turns (hgoes : s.status ≠ .END) (h : s.step kurl = some t) : t.turns < s.turns := by
  cases hstatus : s.status with
  | END => exact absurd hstatus hgoes
  | PARSE_HEADER =>
    rw [step, hstatus] at h
    dsimp only at h
    have hturns : s.turns = 3 * s.rest.length + 3 := by rw [turns, hstatus]
    unfold parseHeader at h
    cases hline : Mhtml.parseHeader s.rest s.headerStatus with
    | none =>
      rw [hline] at h
      cases h
    | some line =>
      rw [hline] at h
      dsimp only at h
      by_cases hlen : line.len = 0
      · rw [if_pos hlen] at h
        split at h
        · cases h
        · obtain rfl := Option.some.inj h
          rw [hturns, turns]
          dsimp only
          omega
      · rw [if_neg hlen] at h
        obtain rfl := Option.some.inj h
        -- a line was taken, so there was one
        have hpos : 0 < s.rest.length := by
          apply List.length_pos_of_ne_nil
          intro hnil
          rw [hnil] at hline
          exact hlen (parseHeader_nil hline)
        rw [hturns, turns]
        show 3 * (s.rest.drop line.len).length + _ < _
        rw [List.length_drop]
        have hstay : (s.takeHeader line).status = .PARSE_HEADER := hstatus
        rw [hstay]
        dsimp only
        omega
  | READ_CONTENT =>
    rw [step, hstatus] at h
    dsimp only at h
    have hturns : s.turns = 3 * s.rest.length + 2 := by rw [turns, hstatus]
    have hdrop : s.rest ≠ [] → (s.rest.drop (calcLineLength s.rest)).length < s.rest.length := by
      intro hne
      obtain ⟨b, rest, heq⟩ := List.exists_cons_of_ne_nil hne
      have hpos := @calcLineLength_pos b rest
      rw [heq, List.length_drop, List.length_cons]
      omega
    unfold readContent at h
    dsimp only at h
    split at h
    · next hboundary =>
      obtain rfl := Option.some.inj h
      have hne : s.rest ≠ [] := by
        intro hnil
        rw [hnil] at hboundary
        simp [isEndBoundary, isBoundary] at hboundary
      have hless := hdrop hne
      rw [hturns, turns]
      dsimp only
      omega
    · split at h
      · next hrest =>
        obtain rfl := Option.some.inj h
        have hne : s.rest ≠ [] := by
          intro hnil
          rw [hnil] at hrest
          simp at hrest
        have hless := hdrop hne
        rw [hturns, turns]
        dsimp only
        rw [hstatus]
        dsimp only
        omega
      · next hrest =>
        -- the last line: the resource is added in the same turn
        have hnil : s.rest.drop (calcLineLength s.rest) = [] := by simpa using hrest
        have hzero := addResource_end hnil h
        omega
  | ADD_RESOURCE =>
    rw [step, hstatus] at h
    have hle := addResource_turns h
    have hturns : s.turns = 3 * s.rest.length + 4 := by rw [turns, hstatus]
    omega

/-- turns of the loop -/
def Steps (kurl : WString → ParsedURL) : Parser → Parser → Prop :=
  Relation.ReflTransGen (fun s t => s.status ≠ .END ∧ s.step kurl = some t)

theorem Steps.loop (h : Steps kurl s t) (hend : t.status = .END) {n : Nat} (hn : s.turns < n) :
    Parser.loop kurl n s = (true, t) := by
  induction h using Relation.ReflTransGen.head_induction_on generalizing n with
  | refl =>
    obtain ⟨n, rfl⟩ := Nat.exists_eq_succ_of_ne_zero (show n ≠ 0 by omega)
    rw [Parser.loop, if_pos hend]
  | head hstep _ ih =>
    obtain ⟨n, rfl⟩ := Nat.exists_eq_succ_of_ne_zero (show n ≠ 0 by omega)
    have hless := step_turns hstep.1 hstep.2
    rw [Parser.loop, if_neg hstep.1, hstep.2]
    exact ih (by omega)

end Parser

theorem Parser.Steps.parse {kurl : WString → ParsedURL} {data : Bytes} {t : Parser}
    (h : Parser.Steps kurl { rest := data } t) (hend : t.status = .END) :
    parseRawDataRepresentation kurl data = (true, t.archive) := by
  unfold parseRawDataRepresentation
  dsimp only
  rw [h.loop hend (Nat.lt_succ_self _)]

end Mhtml
end Wkc
