import WkcBrowser.Mhtml.Parse

/-!
# `parseRawDataRepresentation`: the bytes that are read

The parser once more, with its pointers: `p` is a position in the data, `restLen` an `int`, and a read outside the
data is `none`.  `data->size()` is an `unsigned`, so `restLen` is below zero for more than an `int` can tell.

* `isEndOfLine`, `calcLineLength`, `parseHeader`   the scanners of lines;
* `isEndBoundary`, `isBoundary`                    the tests of a body line;
* `Scanner`, `Scanner.step`, `Scanner.loop`        a turn of the loop, and the loop;
* `step_view`      a turn stays inside, and is the turn of the parser on the bytes that are left;
* `parse_total`    the loop ends, stays inside and goes on with every part.
-/

namespace Wkc
namespace Mhtml
namespace Scan
open Buf

/-! ## lines -/

def isEndOfLine (buf : Bytes) (p bufLen : Nat) : Option Nat :=
  if bufLen < 1 then some 0
  else do
    let c ← buf[p]?
    if c = 0x0D then
      if 2 ≤ bufLen then
        let d ← buf[p + 1]?
        return if d = 0x0A then 2 else 1
      else return 1
    else return if c = 0x0A then 1 else 0

/-- the loop of `calcLineLength`, to where `p` is in the end -/
def lineEnd (buf : Bytes) : Nat → Nat → Option Nat
  | 0, p => some p
  | restLen + 1, p => do
    let len ← isEndOfLine buf p (restLen + 1)
    if 0 < len then return p + len else lineEnd buf restLen (p + 1)

def calcLineLength (buf : Bytes) (p bufLen : Nat) : Option Nat := (lineEnd buf bufLen p).map (fun q => q - p)

def isWSP (buf : Bytes) (p bufLen : Nat) : Option Bool :=
  if bufLen < 1 then some false else (buf[p]?).map Mhtml.isWSP

/-- what `parseHeader` returns, with the pointers and lengths it writes -/
structure Found where
  len : Nat
  name : Option (Nat × Nat) := none
  value : Option (Nat × Nat) := none
  status : HeaderState

/-- the loop of `parseHeader`; the inner `none` is the answer -1 -/
def parseHeaderLoop (buf : Bytes) (pHBegin : Nat) :
    Nat → HeaderState → Nat → Nat → Option (Nat × Nat) → Option (Option Found)
  | 0, .NAME, _, _, name => some (some { len := 0, name := name, status := .NAME })
  | 0, .END, _, _, name => some (some { len := 0, name := name, status := .END })
  | 0, status, p, pVBegin, name =>
    some (some { len := p - pHBegin, name := name, value := some (pVBegin, p - pVBegin), status := status })
  | restLen + 1, .NAME, p, pVBegin, name => do
    let len ← (if p = pHBegin then isEndOfLine buf p (restLen + 1) else some 0)
    if 0 < len then return some { len := len, name := name, status := .END }
    else
      let folding ← (if p = pHBegin then isWSP buf p (restLen + 1) else some false)
      if folding then parseHeaderLoop buf pHBegin restLen .VALUE_FOLDING (p + 1) (p + 1) name
      else
        let c ← buf[p]?
        if isAlphaNum c || c == 0x2D then parseHeaderLoop buf pHBegin restLen .NAME (p + 1) pVBegin name
        else if c = 0x3A then
          parseHeaderLoop buf pHBegin restLen .VALUE (p + 1) (p + 1) (some (pHBegin, p - pHBegin))
        else return none
  | _ + 1, .END, _, _, name => some (some { len := 0, name := name, status := .END })
  | restLen + 1, status, p, pVBegin, name => do
    let len ← isEndOfLine buf p (restLen + 1)
    if 0 < len then
      return some { len := p + len - pHBegin, name := name, value := some (pVBegin, p - pVBegin), status := .NAME }
    else parseHeaderLoop buf pHBegin restLen status (p + 1) pVBegin name

/-- `String(p, len)`, from a null pointer too -/
def piece (buf : Bytes) : Option (Nat × Nat) → Option Bytes
  | none => some []
  | some (p, len) => load buf p len

def Found.strings (buf : Bytes) (found : Found) : Option HeaderLine := do
  let name ← piece buf found.name
  let value ← piece buf found.value
  return { len := found.len, name := name, value := value, status := found.status }

def strings (buf : Bytes) : Option Found → Option (Option HeaderLine)
  | none => some none
  | some found => (found.strings buf).map some

def parseHeader (buf : Bytes) (p bufLen : Nat) (status : HeaderState) : Option (Option HeaderLine) := do
  let found ← parseHeaderLoop buf p bufLen status p p none
  strings buf found

/-! ## boundaries -/

/-- `p` begins with the boundary and two dashes -/
def closes (buf : Bytes) (p restLen : Nat) (boundary : WString) : Option Bool := do
  let tmp ← load buf p restLen
  if boundary.isPrefixOf (latin1 tmp) then
    let c ← buf[p + boundary.length]?
    let d ← buf[p + boundary.length + 1]?
    return c == 0x2D && d == 0x2D
  else return false

def twoDashes (buf : Bytes) (p : Nat) : Option Bool := do
  let c ← buf[p]?
  let d ← buf[p + 1]?
  return c == 0x2D && d == 0x2D

def isEndBoundary (buf : Bytes) (p bufLen : Nat) (boundary : WString) : Option Bool :=
  if boundary.isEmpty then some false
  else if bufLen < 2 then some false
  else if bufLen - 2 < boundary.length + 2 then some false
  else if bufLen - 2 < boundary.length + 4 then closes buf p (bufLen - 2) boundary
  else do
    if ← twoDashes buf p then closes buf (p + 2) (bufLen - 2 - 2) boundary else return false

def isBoundary (buf : Bytes) (p bufLen : Nat) (boundary : WString) : Option Bool :=
  if boundary.isEmpty then some false
  else if bufLen < boundary.length + 2 then some false
  else do
    if ← twoDashes buf p then
      let tmp ← load buf (p + 2) (bufLen - 2)
      return boundary.isPrefixOf (latin1 tmp)
    else return false

/-! ## strings -/

/-- `find(c, start)` -/
def find (s : WString) (c : UInt16) (start : Nat) : Option Nat :=
  ((s.drop start).findIdx? (fun x => x == c)).map (fun i => start + i)

/-- `String(characters() + begin, len)` -/
def characters (s : WString) (off len : Nat) : Option WString :=
  if off + len ≤ s.length then some ((s.drop off).take len) else none

def getQuotationString (sValue : WString) : Option (Option WString) :=
  match find sValue quote 0 with
  | none => some none
  | some posBegin =>
    match find sValue quote (posBegin + 1) with
    | none => some none
    | some posEnd => (characters sValue (posBegin + 1) (posEnd - posBegin - 1)).map some

def stripWhiteAndSemicolon (sValue : WString) : Option WString :=
  let tmp := stripWhiteSpace sValue
  if tmp.getLast? = some 0x3B then
    if 1 < tmp.length then characters tmp 0 (tmp.length - 1) else some []
  else some tmp

def getHeaderInfo (i : HeaderInfo) (sName sValue : WString) : Option HeaderInfo :=
  if sName.isEmpty then
    if findIgnoringCase sValue boundaryKey then
      if i.boundary.isNone then (getQuotationString sValue).map (fun boundary => { i with boundary := boundary })
      else some i
    else if findIgnoringCase sValue charsetKey then
      (getQuotationString sValue).map (fun charset => { i with charset := charset.getD [] })
    else some i
  else if equalIgnoringCase (stripWhiteSpace sName) contentTypeName then
    (stripWhiteAndSemicolon sValue).map (fun type => { i with type := type })
  else if equalIgnoringCase (stripWhiteSpace sName) contentLocationName then
    some { i with location := stripWhiteSpace sValue }
  else some i

/-! ## windows -/

/-- the bytes that are left -/
def window (buf : Bytes) (p n : Nat) : Bytes := (buf.drop p).take n

section
variable {buf : Bytes} {p n : Nat}

theorem length_window (h : p + n ≤ buf.length) : (window buf p n).length = n := by
  rw [window, List.length_take, List.length_drop]
  omega

theorem window_succ (h : p + (n + 1) ≤ buf.length) :
    ∃ c, buf[p]? = some c ∧ window buf p (n + 1) = c :: window buf (p + 1) n := by
  have hin : p < buf.length := by omega
  refine ⟨buf[p], List.getElem?_eq_getElem hin, ?_⟩
  rw [window, List.drop_eq_getElem_cons hin, List.take_succ_cons]
  rfl

theorem window_drop (k : Nat) : (window buf p n).drop k = window buf (p + k) (n - k) := by
  rw [window, window, List.drop_take, List.drop_drop]

theorem window_take {k : Nat} (h : k ≤ n) : (window buf p n).take k = window buf p k := by
  rw [window, window, List.take_take, Nat.min_eq_left h]

theorem load_window (h : p + n ≤ buf.length) : load buf p n = some (window buf p n) := if_pos h

theorem window_snoc {pH : Nat} (hle : pH ≤ p) {c : UInt8} (hc : buf[p]? = some c) :
    window buf pH (p - pH) ++ [c] = window buf pH (p + 1 - pH) := by
  have hin : p - pH < (buf.drop pH).length := by
    have hp := (List.getElem?_eq_some_iff.mp hc).1
    rw [List.length_drop]
    omega
  have hget : (buf.drop pH)[p - pH] = c := by
    have hdrop : (buf.drop pH)[p - pH]? = some c := by rw [List.getElem?_drop, Nat.add_sub_cancel' hle, hc]
    exact (List.getElem?_eq_some_iff.mp hdrop).2
  rw [window, window, Nat.succ_sub hle, List.take_succ_eq_append_getElem hin, hget]

/-! ## the scanners on windows -/

theorem isEndOfLine_window (h : p + n ≤ buf.length) :
    isEndOfLine buf p n = some (Mhtml.isEndOfLine (window buf p n)) := by
  cases n with
  | zero => rfl
  | succ n =>
    obtain ⟨c, hc, hwindow⟩ := window_succ h
    rw [isEndOfLine, if_neg (by omega), hc, hwindow]
    simp only [Option.bind_eq_bind, Option.bind_some, Mhtml.isEndOfLine]
    by_cases hcr : c = 0x0D
    · rw [if_pos hcr, if_pos hcr]
      cases n with
      | zero => rfl
      | succ n =>
        obtain ⟨d, hd, hnext⟩ := @window_succ buf (p + 1) n (by omega)
        rw [if_pos (by omega), hd, hnext]
        simp
    · rw [if_neg hcr, if_neg hcr]
      rfl

theorem lineEnd_window (n : Nat) : ∀ p, p + n ≤ buf.length →
    lineEnd buf n p = some (p + Mhtml.calcLineLength (window buf p n)) := by
  induction n with
  | zero => exact fun p _ => rfl
  | succ n ih =>
    intro p h
    obtain ⟨c, _, hwindow⟩ := window_succ h
    have hline := isEndOfLine_window h
    rw [hwindow] at hline
    rw [lineEnd, hline, hwindow, Mhtml.calcLineLength]
    simp only [Option.bind_eq_bind, Option.bind_some]
    split
    · rfl
    · rw [ih (p + 1) (by omega), Nat.add_right_comm, Nat.add_assoc]

theorem calcLineLength_window (h : p + n ≤ buf.length) :
    calcLineLength buf p n = some (Mhtml.calcLineLength (window buf p n)) := by
  rw [calcLineLength, lineEnd_window n p h, Option.map_some, Nat.add_sub_cancel_left]

theorem isWSP_window {c : UInt8} (hc : buf[p]? = some c) (n : Nat) : isWSP buf p (n + 1) = some (Mhtml.isWSP c) := by
  rw [isWSP, if_neg (by omega), hc]
  rfl

theorem isEndOfLine_le (line : Bytes) : Mhtml.isEndOfLine line ≤ line.length := by
  cases line with
  | nil => exact Nat.le_refl 0
  | cons c rest =>
    cases rest with
    | nil =>
      simp only [Mhtml.isEndOfLine]
      split
      · exact Nat.le_refl 1
      · split
        · exact Nat.le_refl 1
        · exact Nat.zero_le 1
    | cons d rest =>
      simp only [Mhtml.isEndOfLine, List.length_cons]
      split <;> (split <;> omega)

theorem calcLineLength_le (line : Bytes) : Mhtml.calcLineLength line ≤ line.length := by
  induction line with
  | nil => exact Nat.le_refl 0
  | cons c rest ih =>
    have hle := isEndOfLine_le (c :: rest)
    rw [Mhtml.calcLineLength]
    split
    · exact hle
    · exact Nat.succ_le_succ ih

theorem parseHeaderLoop_le {line : HeaderLine} (rest : Bytes) :
    ∀ (status : HeaderState) (passed : Bytes) (vBegin : Nat)
    (name : Bytes), Mhtml.parseHeaderLoop status passed vBegin name rest = some line →
    line.len ≤ passed.length + rest.length := by
  induction rest with
  | nil =>
    intro status passed vBegin name h
    cases status with
    | NAME | END => rw [← Option.some.inj h]; exact Nat.zero_le _
    | VALUE | VALUE_FOLDING => rw [← Option.some.inj h]; exact Nat.le_refl _
  | cons c rest ih =>
    intro status passed vBegin name h
    have hle := isEndOfLine_le (c :: rest)
    have hsnoc : (passed ++ [c]).length + rest.length = passed.length + (c :: rest).length := by
      rw [List.length_append, List.length_singleton, List.length_cons]
      omega
    cases status with
    | END => rw [← Option.some.inj h]; exact Nat.zero_le _
    | NAME =>
      rw [Mhtml.parseHeaderLoop] at h
      split at h
      · rw [← Option.some.inj h]
        exact Nat.le_trans hle (Nat.le_add_left _ _)
      split at h
      · next hfold =>
        have hnil : passed = [] := List.isEmpty_iff.mp hfold.1
        have hline := ih _ _ _ _ h
        rw [← hsnoc, hnil]
        exact hline
      split at h
      · exact hsnoc ▸ ih _ _ _ _ h
      split at h
      · exact hsnoc ▸ ih _ _ _ _ h
      · cases h
    | VALUE | VALUE_FOLDING =>
      rw [Mhtml.parseHeaderLoop] at h
      split at h
      · rw [← Option.some.inj h]
        exact Nat.add_le_add_left hle _
      · exact hsnoc ▸ ih _ _ _ _ h
      all_goals (intro heq; cases heq)

theorem value_window {pH pV : Nat} (hV : pH ≤ pV) (hp : pV ≤ p) (hin : p ≤ buf.length) :
    piece buf (some (pV, p - pV)) = some ((window buf pH (p - pH)).drop (pV - pH)) := by
  rw [window_drop, Nat.add_sub_cancel' hV, Nat.sub_sub_sub_cancel_right hV]
  exact load_window (by omega)

theorem strings_value {pH pV len : Nat} {name : Option (Nat × Nat)} {nameBytes : Bytes} {status : HeaderState}
    (hV : pH ≤ pV) (hp : pV ≤ p) (hin : p ≤ buf.length) (hname : piece buf name = some nameBytes) :
    strings buf (some { len := len, name := name, value := some (pV, p - pV), status := status }) =
      some (some
        { len := len, name := nameBytes, value := (window buf pH (p - pH)).drop (pV - pH), status := status }) := by
  rw [strings, Found.strings, hname, value_window hV hp hin]
  rfl

theorem strings_name {len : Nat} {name : Option (Nat × Nat)} {nameBytes : Bytes} {status : HeaderState}
    (hname : piece buf name = some nameBytes) :
    strings buf (some { len := len, name := name, status := status }) =
      some (some { len := len, name := nameBytes, status := status }) := by
  rw [strings, Found.strings, hname]
  rfl

/-- The two loops agree on `n` bytes.  The line is what lies between its begin and `p`; in front of the colon there is
no name yet. -/
def LoopWindow (buf : Bytes) (pH n : Nat) : Prop :=
  ∀ (status : HeaderState) (p pV : Nat) (name : Option (Nat × Nat)) (nameBytes : Bytes),
    p + n ≤ buf.length → pH ≤ pV → pV ≤ p → piece buf name = some nameBytes → (status = .NAME → name = none) →
    (parseHeaderLoop buf pH n status p pV name).bind (strings buf) =
      some (Mhtml.parseHeaderLoop status (window buf pH (p - pH)) (pV - pH) nameBytes (window buf p n))

theorem LoopWindow.zero (pH : Nat) : LoopWindow buf pH 0 := by
  intro status p pV name nameBytes h hV hp hname _
  have hlength := @length_window buf pH (p - pH) (by omega)
  have hvalue := @strings_value buf p pH pV (p - pH) name nameBytes status hV hp (by omega) hname
  nth_rewrite 2 [← hlength] at hvalue
  cases status with
  | NAME | END => exact strings_name hname
  | VALUE | VALUE_FOLDING => exact hvalue

theorem LoopWindow.value {pH n : Nat} (ih : LoopWindow buf pH n) {status : HeaderState}
    (hstatus : status = .VALUE ∨ status = .VALUE_FOLDING) {p pV : Nat} {name : Option (Nat × Nat)} {nameBytes : Bytes}
    (h : p + (n + 1) ≤ buf.length) (hV : pH ≤ pV) (hp : pV ≤ p) (hname : piece buf name = some nameBytes) :
    (parseHeaderLoop buf pH (n + 1) status p pV name).bind (strings buf) =
      some (Mhtml.parseHeaderLoop status (window buf pH (p - pH)) (pV - pH) nameBytes (window buf p (n + 1))) := by
  obtain ⟨c, hc, hwindow⟩ := window_succ h
  have hline := isEndOfLine_window h
  have hrest := ih status (p + 1) pV name nameBytes (by omega) hV (by omega) hname
    (fun hname => by rcases hstatus with rfl | rfl <;> cases hname)
  rw [hwindow] at hline ⊢
  have hvalue := @strings_value buf p pH pV (p + Mhtml.isEndOfLine (c :: window buf (p + 1) n) - pH)
    name nameBytes .NAME hV hp (by omega) hname
  have hlen : p + Mhtml.isEndOfLine (c :: window buf (p + 1) n) - pH =
      (window buf pH (p - pH)).length + Mhtml.isEndOfLine (c :: window buf (p + 1) n) := by
    rw [length_window (by omega)]
    omega
  rw [← window_snoc (Nat.le_trans hV hp) hc] at hrest
  rcases hstatus with rfl | rfl <;>
    (unfold parseHeaderLoop Mhtml.parseHeaderLoop
     rw [hline]
     simp only [Option.bind_eq_bind, Option.bind_some]
     split
     · rw [← hlen]
       exact hvalue
     · exact hrest)

theorem LoopWindow.next {pH n : Nat} (ih : LoopWindow buf pH n) {p pV : Nat} {c : UInt8} (hc : buf[p]? = some c)
    (h : p + (n + 1) ≤ buf.length) (hV : pH ≤ pV) (hp : pV ≤ p) :
    (if isAlphaNum c || c == 0x2D then parseHeaderLoop buf pH n .NAME (p + 1) pV none
      else if c = 0x3A then parseHeaderLoop buf pH n .VALUE (p + 1) (p + 1) (some (pH, p - pH))
      else return none).bind (strings buf) =
        some (if isAlphaNum c || c == 0x2D then
          Mhtml.parseHeaderLoop .NAME (window buf pH (p - pH) ++ [c]) (pV - pH) [] (window buf (p + 1) n)
        else if c = 0x3A then
          Mhtml.parseHeaderLoop .VALUE (window buf pH (p - pH) ++ [c]) ((window buf pH (p - pH)).length + 1)
            (window buf pH (p - pH)) (window buf (p + 1) n)
        else none) := by
  rw [window_snoc (Nat.le_trans hV hp) hc]
  split
  · exact ih .NAME (p + 1) pV none [] (by omega) hV (by omega) rfl (fun _ => rfl)
  · split
    · have hcolon := ih .VALUE (p + 1) (p + 1) (some (pH, p - pH)) (window buf pH (p - pH)) (by omega) (by omega)
        (Nat.le_refl _) (load_window (by omega)) (fun hname => by cases hname)
      rw [hcolon, length_window (by omega), Nat.succ_sub (Nat.le_trans hV hp)]
    · rfl

theorem LoopWindow.name {pH n : Nat} (ih : LoopWindow buf pH n) {p pV : Nat} (h : p + (n + 1) ≤ buf.length)
    (hV : pH ≤ pV) (hp : pV ≤ p) :
    (parseHeaderLoop buf pH (n + 1) .NAME p pV none).bind (strings buf) =
      some (Mhtml.parseHeaderLoop .NAME (window buf pH (p - pH)) (pV - pH) [] (window buf p (n + 1))) := by
  obtain ⟨c, hc, hwindow⟩ := window_succ h
  have hline := isEndOfLine_window h
  have hlength := @length_window buf pH (p - pH) (by omega)
  rw [hwindow] at hline ⊢
  have hfirst : (window buf pH (p - pH)).isEmpty = decide (p = pH) := by
    rw [Bool.eq_iff_iff, List.isEmpty_iff, ← List.length_eq_zero_iff, hlength, decide_eq_true_iff]
    omega
  have heol : (if p = pH then isEndOfLine buf p (n + 1) else some 0) =
      some (if p = pH then Mhtml.isEndOfLine (c :: window buf (p + 1) n) else 0) := by
    split
    · exact hline
    · rfl
  have hwsp : (if p = pH then isWSP buf p (n + 1) else some false) = some (decide (p = pH) && Mhtml.isWSP c) := by
    split
    · next heq => rw [isWSP_window hc, decide_eq_true heq, Bool.true_and]
    · next hne => rw [decide_eq_false hne, Bool.false_and]
  have hnext := ih.next hc h hV hp
  unfold parseHeaderLoop Mhtml.parseHeaderLoop
  rw [heol]
  simp only [Option.bind_eq_bind, Option.bind_some, hwsp, hc, hfirst, decide_eq_true_eq]
  by_cases heq : p = pH
  · subst heq
    simp only [if_true, true_and, decide_true, Bool.true_and]
    split
    · exact strings_name (show piece buf none = some [] from rfl)
    · split
      · have hfold := ih .VALUE_FOLDING (p + 1) (p + 1) none [] (by omega) (by omega) (Nat.le_refl _) rfl
          (fun _ => rfl)
        rw [← window_snoc (Nat.le_refl p) hc, Nat.sub_self] at hfold
        rw [Nat.add_sub_cancel_left] at hfold
        exact hfold
      · exact hnext
  · simp only [Nat.lt_irrefl, if_false, heq, decide_false, Bool.false_and, Bool.false_eq_true, false_and]
    exact hnext

theorem parseHeaderLoop_window (pH n : Nat) : LoopWindow buf pH n := by
  induction n with
  | zero => exact .zero pH
  | succ n ih =>
    intro status p pV name nameBytes h hV hp hname hnone
    cases status with
    | END =>
      obtain ⟨c, _, hwindow⟩ := window_succ h
      rw [hwindow]
      exact strings_name hname
    | VALUE => exact ih.value (.inl rfl) h hV hp hname
    | VALUE_FOLDING => exact ih.value (.inr rfl) h hV hp hname
    | NAME =>
      obtain rfl := hnone rfl
      obtain rfl : [] = nameBytes := Option.some.inj hname
      exact ih.name h hV hp

theorem parseHeader_window (h : p + n ≤ buf.length) (status : HeaderState) :
    parseHeader buf p n status = some (Mhtml.parseHeader (window buf p n) status) := by
  have hloop := parseHeaderLoop_window p n status p p none [] h (Nat.le_refl p) (Nat.le_refl p) rfl (fun _ => rfl)
  rw [Nat.sub_self] at hloop
  exact hloop

theorem twoDashes_window (h : p + n ≤ buf.length) (hlen : 2 ≤ n) :
    twoDashes buf p = some (dashes.isPrefixOf (window buf p n)) := by
  obtain ⟨m, rfl⟩ := Nat.exists_eq_add_of_le' hlen
  obtain ⟨c, hc, hwindow⟩ := window_succ h
  obtain ⟨d, hd, hnext⟩ := @window_succ buf (p + 1) m (by omega)
  have hfirst : ((0x2D : UInt8) == c) = (c == 0x2D) := Bool.beq_comm
  have hsecond : ((0x2D : UInt8) == d) = (d == 0x2D) := Bool.beq_comm
  rw [twoDashes, hc, hwindow, hd, hnext, dashes, List.isPrefixOf_cons_cons, List.isPrefixOf_cons_cons,
    List.isPrefixOf_nil_left, Bool.and_true, hfirst, hsecond]
  rfl

theorem closes_window {boundary : WString} (h : p + n ≤ buf.length) (hlen : boundary.length + 2 ≤ n) :
    closes buf p n boundary = some (Mhtml.closes (window buf p n) boundary) := by
  have hdashes := @twoDashes_window buf (p + boundary.length) (n - boundary.length) (by omega) (by omega)
  rw [closes, Mhtml.closes, load_window h, window_drop]
  simp only [Option.bind_eq_bind, Option.bind_some]
  split
  · next hboundary => rw [hboundary, Bool.true_and, ← hdashes]; rfl
  · next hboundary => rw [Bool.not_eq_true] at hboundary; rw [hboundary, Bool.false_and]; rfl

theorem isEndBoundary_window {boundary : WString} (h : p + n ≤ buf.length) :
    isEndBoundary buf p n boundary = some (Mhtml.isEndBoundary (window buf p n) boundary) := by
  have hlength := length_window h
  have htake := @window_take buf p n (n - 2) (Nat.sub_le n 2)
  have hshort := @length_window buf p (n - 2) (by omega)
  rw [isEndBoundary, Mhtml.isEndBoundary, hlength]
  dsimp only
  rw [htake, hshort]
  split
  · rfl
  split
  · rfl
  split
  · rfl
  split
  · exact closes_window (by omega) (by omega)
  · rw [twoDashes_window (n := n - 2) (by omega) (by omega), window_drop]
    simp only [Option.bind_eq_bind, Option.bind_some]
    split
    · next hdashes =>
      rw [hdashes, Bool.true_and]
      exact closes_window (by omega) (by omega)
    · next hdashes =>
      rw [Bool.not_eq_true] at hdashes
      rw [hdashes, Bool.false_and]
      rfl

theorem isBoundary_window {boundary : WString} (h : p + n ≤ buf.length) :
    isBoundary buf p n boundary = some (Mhtml.isBoundary (window buf p n) boundary) := by
  have hlength := length_window h
  rw [isBoundary, Mhtml.isBoundary, hlength]
  split
  · rfl
  split
  · rfl
  · rw [twoDashes_window h (by omega), window_drop]
    simp only [Option.bind_eq_bind, Option.bind_some]
    split
    · next hdashes =>
      rw [hdashes, Bool.true_and, load_window (by omega)]
      rfl
    · next hdashes =>
      rw [Bool.not_eq_true] at hdashes
      rw [hdashes, Bool.false_and]
      rfl

end

/-! ## the strings of a line -/

theorem findIdx_parts (c : UInt16) (s : WString) :
    (s.findIdx? (fun x => x == c) = none ∧ s.dropWhile (fun x => x != c) = [] ∧ s.contains c = false) ∨
      ∃ i, s.findIdx? (fun x => x == c) = some i ∧ i < s.length ∧ s.dropWhile (fun x => x != c) = s.drop i ∧
        s.takeWhile (fun x => x != c) = s.take i ∧ s.contains c = true := by
  induction s with
  | nil => exact .inl ⟨rfl, rfl, rfl⟩
  | cons x s ih =>
    rw [List.findIdx?_cons, List.contains_cons]
    by_cases heq : x = c
    · subst heq
      refine .inr ⟨0, by rw [if_pos (beq_self_eq_true x)], Nat.succ_pos _, ?_, ?_,
        by rw [beq_self_eq_true, Bool.true_or]⟩
      · rw [List.dropWhile_cons_of_neg (by simp), List.drop_zero]
      · rw [List.takeWhile_cons_of_neg (by simp), List.take_zero]
    · have hne : (c == x) = false := beq_eq_false_iff_ne.mpr (Ne.symm heq)
      rw [if_neg (by simpa using heq), List.dropWhile_cons_of_pos (by simpa using heq),
        List.takeWhile_cons_of_pos (by simpa using heq), hne, Bool.false_or]
      rcases ih with ⟨hfind, hdrop, hcontains⟩ | ⟨i, hfind, hlt, hdrop, htake, hcontains⟩
      · exact .inl ⟨by rw [hfind]; rfl, hdrop, hcontains⟩
      · exact .inr ⟨i + 1, by rw [hfind]; rfl, Nat.succ_lt_succ hlt, hdrop,
          by rw [htake, List.take_succ_cons], hcontains⟩

theorem getQuotationString_eq (sValue : WString) :
    getQuotationString sValue = some (Mhtml.getQuotationString sValue) := by
  unfold getQuotationString Mhtml.getQuotationString find
  rw [List.drop_zero]
  rcases findIdx_parts quote sValue with ⟨hfind, hdrop, _⟩ | ⟨i, hfind, hlt, hdrop, _, _⟩
  · rw [hfind, hdrop]
    rfl
  · rw [hfind, hdrop, List.tail_drop]
    simp only [Option.map_some, Nat.zero_add]
    rcases findIdx_parts quote (sValue.drop (i + 1)) with
      ⟨hnext, _, hcontains⟩ | ⟨j, hnext, hless, _, htake, hcontains⟩
    · rw [hnext, hcontains]
      rfl
    · rw [List.length_drop] at hless
      rw [hnext, hcontains, htake]
      simp only [Option.map_some, if_true]
      rw [characters, if_pos (by omega)]
      have hlen : i + 1 + j - i - 1 = j := by omega
      rw [hlen]
      rfl

theorem stripWhiteAndSemicolon_eq (sValue : WString) :
    stripWhiteAndSemicolon sValue = some (Mhtml.stripWhiteAndSemicolon sValue) := by
  unfold stripWhiteAndSemicolon Mhtml.stripWhiteAndSemicolon
  dsimp only
  split
  · split
    · rw [characters, if_pos (by omega), List.drop_zero, List.dropLast_eq_take]
    · next hshort =>
      have hlen : (stripWhiteSpace sValue).length - 1 = 0 := by omega
      rw [List.dropLast_eq_take, hlen, List.take_zero]
  · rfl

theorem getHeaderInfo_eq (i : HeaderInfo) (sName sValue : WString) :
    getHeaderInfo i sName sValue = some (Mhtml.getHeaderInfo i sName sValue) := by
  unfold getHeaderInfo Mhtml.getHeaderInfo
  rw [getQuotationString_eq, stripWhiteAndSemicolon_eq]
  split
  · split
    · split <;> rfl
    · split <;> rfl
  · split
    · rfl
    · split <;> rfl

/-! ## the parser -/

/-- the members and the variables of `parseRawDataRepresentation` -/
structure Scanner where
  status : ParseState := .PARSE_HEADER
  mainResourceType : Option WString := none
  archive : Parsed := {}
  isMultipart : Bool := false
  headerStatus : HeaderState := .NAME
  info : HeaderInfo := {}
  rawData : Bytes := []
  p : Nat := 0
  restLen : Int

namespace Scanner

/-- `p += len; rest_len -= len` -/
def advance (len : Nat) (s : Scanner) : Scanner := { s with p := s.p + len, restLen := s.restLen - len }

def takeHeader (h : HeaderLine) (s : Scanner) : Option Scanner := do
  let sName := latin1 h.name
  let sValue := latin1 h.value
  let info ← getHeaderInfo s.info sName sValue
  return { s.advance h.len with
    headerStatus := h.status
    info := info
    isMultipart := s.isMultipart ||
      (equalIgnoringCase (stripWhiteSpace sName) contentTypeName && findIgnoringCase sValue multipartRelatedType) }

/-- `PARSE_STATE_PARSE_HEADER`; the inner `none` is the label `error` -/
def parseHeader (buf : Bytes) (s : Scanner) : Option (Option Scanner) := do
  match ← Scan.parseHeader buf s.p s.restLen.toNat s.headerStatus with
  | none => return none
  | some h =>
    if h.len = 0 then
      if s.isMultipart && (s.info.boundary.getD []).isEmpty then return none
      else return some { s with status := .READ_CONTENT, headerStatus := h.status }
    else (s.takeHeader h).map some

def body (s : Scanner) : Bytes :=
  if 2 < s.rawData.length ∧ s.isMultipart = true ∧ s.rawData.rtake 2 = CRLF then s.rawData.rdrop 2
  else s.rawData

def addBody (kurl : WString → ParsedURL) (s : Scanner) : Scanner :=
  if s.rawData.isEmpty then s
  else
    let type := if s.mainResourceType.isNone ∧ s.info.type.isEmpty then textHtml else s.info.type
    let mainType := s.mainResourceType.getD type
    { s with
      mainResourceType := some mainType
      archive := addMimeResource mainType s.archive
        ⟨(kurl s.info.location).string, type, s.info.charset, s.body⟩
      rawData := [] }

/-- `PARSE_STATE_ADD_RESOURCE`, which reads no byte of the data -/
def addResource (kurl : WString → ParsedURL) (s : Scanner) : Option Scanner :=
  let s := s.addBody kurl
  let s : Scanner := { s with info := { boundary := s.info.boundary } }
  if 0 < s.restLen then some { s with headerStatus := .NAME, status := .PARSE_HEADER }
  else if s.mainResourceType.isNone then none
  else some { s with status := .END }

/-- `PARSE_STATE_READ_CONTENT` -/
def readContent (kurl : WString → ParsedURL) (buf : Bytes) (s : Scanner) : Option (Option Scanner) := do
  let len ← calcLineLength buf s.p s.restLen.toNat
  let boundary := s.info.boundary.getD []
  let isEnd ← isEndBoundary buf s.p len boundary
  let ends ← (if isEnd then some true else isBoundary buf s.p len boundary)
  if ends then return some { s.advance len with status := .ADD_RESOURCE }
  else
    let ignored := equalIgnoringCase s.info.type multipartRelatedType || s.info.location.isEmpty
    let line ← (if ignored then some [] else load buf s.p len)
    let s : Scanner := { s.advance len with rawData := s.rawData ++ line }
    if 0 < s.restLen then return some s
    else return { s with status := .ADD_RESOURCE }.addResource kurl

/-- one turn of the loop -/
def step (kurl : WString → ParsedURL) (buf : Bytes) (s : Scanner) : Option (Option Scanner) :=
  match s.status with
  | .PARSE_HEADER => s.parseHeader buf
  | .READ_CONTENT => s.readContent kurl buf
  | .ADD_RESOURCE => some (s.addResource kurl)
  | .END => some (some s)

/-- what comes of the loop -/
inductive Result where
  | outside
  | unfinished
  | returned (ok : Bool) (archive : Parsed)

def loop (kurl : WString → ParsedURL) (buf : Bytes) : Nat → Scanner → Result
  | 0, _ => .unfinished
  | turns + 1, s =>
    if s.status = .END then .returned true s.archive
    else
      match s.step kurl buf with
      | none => .outside
      | some none => .returned false s.archive
      | some (some s) => loop kurl buf turns s

def start (data : Bytes) : Scanner := { restLen := asInt32 data.length }

/-! ## a turn on the bytes that are left -/

/-- what is left of the data -/
def Inside (buf : Bytes) (s : Scanner) : Prop := s.p + s.restLen.toNat ≤ buf.length

def view (buf : Bytes) (s : Scanner) : Parser where
  status := s.status
  mainResourceType := s.mainResourceType
  archive := s.archive
  isMultipart := s.isMultipart
  headerStatus := s.headerStatus
  info := s.info
  rawData := s.rawData
  rest := window buf s.p s.restLen.toNat

variable {kurl : WString → ParsedURL} {buf : Bytes} {s t : Scanner}

theorem start_inside (data : Bytes) : (start data).Inside data := by
  have hle := asInt32_le data.length
  show 0 + (asInt32 data.length).toNat ≤ data.length
  omega

theorem advance_rest (len : Nat) : (s.advance len).restLen.toNat = s.restLen.toNat - len := by
  show (s.restLen - len).toNat = _
  omega

theorem advance_inside {len : Nat} (h : s.Inside buf) (hlen : len ≤ s.restLen.toNat) :
    (s.advance len).Inside buf := by
  rw [Inside, advance_rest]
  show s.p + len + _ ≤ _
  unfold Inside at h
  omega

theorem view_advance (len : Nat) :
    (s.advance len).view buf = { s.view buf with rest := (s.view buf).rest.drop len } := by
  show Parser.mk _ _ _ _ _ _ _ _ = Parser.mk _ _ _ _ _ _ _ _
  rw [advance_rest]
  show _ = Parser.mk _ _ _ _ _ _ _ ((window buf s.p s.restLen.toNat).drop len)
  rw [window_drop]
  rfl

theorem rest_pos (h : s.Inside buf) : (s.view buf).rest.isEmpty = false ↔ 0 < s.restLen := by
  have hlength := length_window h
  show (window buf s.p s.restLen.toNat).isEmpty = false ↔ _
  rw [List.isEmpty_eq_false_iff, ← List.length_pos_iff, hlength]
  omega

theorem addBody_view : (s.addBody kurl).view buf = (s.view buf).addBody kurl := by
  unfold addBody Parser.addBody
  show _ = if s.rawData.isEmpty then _ else _
  split <;> rfl

theorem addBody_p : (s.addBody kurl).p = s.p ∧ (s.addBody kurl).restLen = s.restLen := by
  unfold addBody
  split <;> exact ⟨rfl, rfl⟩

theorem addResource_view (h : s.Inside buf) :
    (s.addResource kurl).map (view buf) = (s.view buf).addResource kurl := by
  have hinside : (s.addBody kurl).Inside buf := by
    rw [Inside, (@addBody_p kurl s).1, (@addBody_p kurl s).2]
    exact h
  have hrest := rest_pos hinside
  rw [addBody_view] at hrest
  unfold addResource Parser.addResource
  dsimp only
  by_cases hpos : 0 < (s.addBody kurl).restLen
  · rw [if_pos hpos, if_pos (hrest.mpr hpos), ← addBody_view]
    rfl
  · rw [if_neg hpos, if_neg (fun hne => hpos (hrest.mp hne)), ← addBody_view]
    show _ = if (s.addBody kurl).mainResourceType.isNone then _ else _
    split <;> rfl

theorem takeHeader_view (h : HeaderLine) :
    ∃ t, s.takeHeader h = some t ∧ t.view buf = (s.view buf).takeHeader h ∧ t.p = s.p + h.len ∧
      t.restLen = s.restLen - h.len ∧ t.status = s.status := by
  have hrest : window buf (s.p + h.len) (s.restLen - h.len).toNat = (window buf s.p s.restLen.toNat).drop h.len :=
    congrArg Parser.rest (@view_advance buf s h.len)
  have htake : s.takeHeader h = some { s.advance h.len with
      headerStatus := h.status
      info := Mhtml.getHeaderInfo s.info (latin1 h.name) (latin1 h.value)
      isMultipart := s.isMultipart || (equalIgnoringCase (stripWhiteSpace (latin1 h.name)) contentTypeName &&
        findIgnoringCase (latin1 h.value) multipartRelatedType) } := by
    rw [takeHeader, getHeaderInfo_eq]
    rfl
  refine ⟨_, htake, ?_, rfl, rfl, rfl⟩
  unfold view advance Parser.takeHeader
  dsimp only
  rw [hrest]

theorem parseHeader_view (h : s.Inside buf) :
    (s.parseHeader buf).map (Option.map (view buf)) = some (s.view buf).parseHeader := by
  have hline := parseHeader_window h s.headerStatus
  unfold parseHeader Parser.parseHeader
  rw [hline]
  show _ = some (match Mhtml.parseHeader (window buf s.p s.restLen.toNat) s.headerStatus with
    | none => _ | some h => _)
  cases Mhtml.parseHeader (window buf s.p s.restLen.toNat) s.headerStatus with
  | none => rfl
  | some line =>
    simp only [Option.bind_eq_bind, Option.bind_some]
    by_cases hlen : line.len = 0
    · rw [if_pos hlen, if_pos hlen]
      show _ = some (if s.isMultipart && (s.info.boundary.getD []).isEmpty then _ else _)
      split <;> rfl
    · obtain ⟨t, ht, hview, _⟩ := @takeHeader_view buf s line
      rw [if_neg hlen, if_neg hlen, ht, ← hview]
      rfl

/-- the length of the line that `p` is at -/
def lineLen (buf : Bytes) (s : Scanner) : Nat := Mhtml.calcLineLength (s.view buf).rest

theorem lineLen_le (h : s.Inside buf) : s.lineLen buf ≤ s.restLen.toNat :=
  Nat.le_trans (calcLineLength_le _) (Nat.le_of_eq (length_window h))

theorem lineLen_pos (h : s.Inside buf) (hpos : 0 < s.restLen) : 0 < s.lineLen buf := by
  have hlength := length_window h
  show 0 < Mhtml.calcLineLength (window buf s.p s.restLen.toNat)
  cases hwindow : window buf s.p s.restLen.toNat with
  | nil =>
    rw [hwindow, List.length_nil] at hlength
    omega
  | cons c rest => exact calcLineLength_pos

theorem readContent_eq (h : s.Inside buf) :
    s.readContent kurl buf = some (
      if Mhtml.isEndBoundary (window buf s.p (s.lineLen buf)) (s.info.boundary.getD []) ||
          Mhtml.isBoundary (window buf s.p (s.lineLen buf)) (s.info.boundary.getD []) then
        some { s.advance (s.lineLen buf) with status := .ADD_RESOURCE }
      else
        let u : Scanner := { s.advance (s.lineLen buf) with
          rawData := if equalIgnoringCase s.info.type multipartRelatedType || s.info.location.isEmpty then s.rawData
            else s.rawData ++ window buf s.p (s.lineLen buf) }
        if 0 < u.restLen then some u else { u with status := .ADD_RESOURCE }.addResource kurl) := by
  have hlen := lineLen_le h
  have hcalc : calcLineLength buf s.p s.restLen.toNat = some (s.lineLen buf) := calcLineLength_window h
  unfold readContent
  rw [hcalc]
  generalize s.lineLen buf = len at hlen ⊢
  have hin : s.p + len ≤ buf.length := by
    unfold Inside at h
    omega
  have hend := @isEndBoundary_window buf s.p len (s.info.boundary.getD []) hin
  have hends : (if Mhtml.isEndBoundary (window buf s.p len) (s.info.boundary.getD []) then some true
      else isBoundary buf s.p len (s.info.boundary.getD [])) =
        some (Mhtml.isEndBoundary (window buf s.p len) (s.info.boundary.getD []) ||
          Mhtml.isBoundary (window buf s.p len) (s.info.boundary.getD [])) := by
    split
    · next hyes => rw [hyes, Bool.true_or]
    · next hno =>
      rw [Bool.not_eq_true] at hno
      rw [hno, Bool.false_or]
      exact isBoundary_window hin
  simp only [Option.bind_eq_bind, Option.bind_some, hend, hends]
  split
  · rfl
  · have hload : (if equalIgnoringCase s.info.type multipartRelatedType || s.info.location.isEmpty then some []
        else load buf s.p len) =
          some (if equalIgnoringCase s.info.type multipartRelatedType || s.info.location.isEmpty then []
            else window buf s.p len) := by
      split
      · rfl
      · exact load_window hin
    have hraw : (s.rawData ++ if equalIgnoringCase s.info.type multipartRelatedType || s.info.location.isEmpty then []
        else window buf s.p len) =
          if equalIgnoringCase s.info.type multipartRelatedType || s.info.location.isEmpty then s.rawData
          else s.rawData ++ window buf s.p len := by
      split
      · exact List.append_nil _
      · rfl
    rw [hload]
    simp only [Option.bind_some, hraw]
    split <;> rfl

theorem readContent_view (h : s.Inside buf) :
    (s.readContent kurl buf).map (Option.map (view buf)) = some ((s.view buf).readContent kurl) := by
  have hinside := advance_inside h (lineLen_le h)
  have hline : (s.view buf).rest.take (Mhtml.calcLineLength (s.view buf).rest) = window buf s.p (s.lineLen buf) :=
    window_take (lineLen_le h)
  have hdrop : (s.view buf).rest.drop (Mhtml.calcLineLength (s.view buf).rest) =
      window buf (s.advance (s.lineLen buf)).p (s.advance (s.lineLen buf)).restLen.toNat :=
    (congrArg Parser.rest (@view_advance buf s (s.lineLen buf))).symm
  have hrest : (window buf (s.advance (s.lineLen buf)).p (s.advance (s.lineLen buf)).restLen.toNat).isEmpty = false ↔
      0 < (s.advance (s.lineLen buf)).restLen := rest_pos hinside
  rw [readContent_eq h]
  unfold Parser.readContent
  dsimp only
  rw [hline, hdrop]
  show _ = some (if Mhtml.isEndBoundary (window buf s.p (s.lineLen buf)) (s.info.boundary.getD []) ||
    Mhtml.isBoundary (window buf s.p (s.lineLen buf)) (s.info.boundary.getD []) then _ else _)
  split
  · rfl
  · by_cases hpos : 0 < (s.advance (s.lineLen buf)).restLen
    · rw [if_pos hpos, if_pos (hrest.mpr hpos)]
      rfl
    · rw [if_neg hpos, if_neg (fun hne => hpos (hrest.mp hne))]
      exact congrArg some (addResource_view hinside)

theorem step_view (h : s.Inside buf) :
    (s.step kurl buf).map (Option.map (view buf)) = some ((s.view buf).step kurl) := by
  unfold step Parser.step
  show _ = some (match s.status with | .PARSE_HEADER => _ | .READ_CONTENT => _ | .ADD_RESOURCE => _ | .END => _)
  cases s.status with
  | PARSE_HEADER => exact parseHeader_view h
  | READ_CONTENT => exact readContent_view h
  | ADD_RESOURCE => exact congrArg some (addResource_view h)
  | END => rfl

/-! ## how far a turn goes -/

/-- `len` bytes were taken -/
def Moves (len : Nat) (s t : Scanner) : Prop :=
  len ≤ s.restLen.toNat ∧ t.p = s.p + len ∧ t.restLen = s.restLen - len

theorem Moves.stay (hp : t.p = s.p) (hrest : t.restLen = s.restLen) : Moves 0 s t :=
  ⟨Nat.zero_le _, hp, by rw [hrest, Int.natCast_zero, Int.sub_zero]⟩

theorem Moves.inside {len : Nat} (hmoves : Moves len s t) (h : s.Inside buf) : t.Inside buf := by
  obtain ⟨hlen, hp, hrest⟩ := hmoves
  have hadvance := advance_inside h hlen
  rw [Inside, hp, hrest]
  exact hadvance

theorem addResource_moves (h : s.addResource kurl = some t) :
    Moves 0 s t ∧ (t.status = .PARSE_HEADER ∧ 0 < t.restLen ∨ t.status = .END ∧ ¬ 0 < t.restLen) := by
  obtain ⟨hp, hrest⟩ := @addBody_p kurl s
  unfold addResource at h
  dsimp only at h
  split at h
  · next hpos =>
    obtain rfl := Option.some.inj h
    exact ⟨.stay hp hrest, .inl ⟨rfl, hpos⟩⟩
  · next hpos =>
    split at h
    · cases h
    · obtain rfl := Option.some.inj h
      exact ⟨.stay hp hrest, .inr ⟨rfl, hpos⟩⟩

theorem parseHeader_moves (h : s.Inside buf) (hstep : s.parseHeader buf = some (some t)) :
    ∃ len, Moves len s t ∧ (len = 0 ∧ t.status = .READ_CONTENT ∨ 0 < len ∧ t.status = s.status) := by
  unfold parseHeader at hstep
  rw [parseHeader_window h] at hstep
  simp only [Option.bind_eq_bind, Option.bind_some] at hstep
  cases hline : Mhtml.parseHeader (window buf s.p s.restLen.toNat) s.headerStatus with
  | none =>
    rw [hline] at hstep
    cases hstep
  | some line =>
    rw [hline] at hstep
    dsimp only at hstep
    split at hstep
    · split at hstep
      · cases hstep
      · obtain rfl := Option.some.inj (Option.some.inj hstep)
        exact ⟨0, .stay rfl rfl, .inl ⟨rfl, rfl⟩⟩
    · next hlen =>
      obtain ⟨u, hu, _, hp, hrest, hstatus⟩ := @takeHeader_view buf s line
      rw [hu] at hstep
      obtain rfl := Option.some.inj (Option.some.inj hstep)
      have hle := parseHeaderLoop_le _ _ _ _ _ hline
      rw [length_window h, List.length_nil, Nat.zero_add] at hle
      exact ⟨line.len, ⟨hle, hp, hrest⟩, .inr ⟨Nat.pos_of_ne_zero hlen, hstatus⟩⟩

theorem readContent_moves (h : s.Inside buf) (hstep : s.readContent kurl buf = some (some t)) :
    ∃ len, Moves len s t ∧ (0 < s.restLen → 0 < len) ∧
      (t.status = .ADD_RESOURCE ∨ t.status = s.status ∧ 0 < t.restLen ∨ t.status = .END) := by
  have hlen := lineLen_le h
  rw [readContent_eq h] at hstep
  have hstep := Option.some.inj hstep
  split at hstep
  · obtain rfl := Option.some.inj hstep
    exact ⟨s.lineLen buf, ⟨hlen, rfl, rfl⟩, lineLen_pos h, .inl rfl⟩
  · dsimp only at hstep
    split at hstep
    · next hpos =>
      obtain rfl := Option.some.inj hstep
      exact ⟨s.lineLen buf, ⟨hlen, rfl, rfl⟩, lineLen_pos h, .inr (.inl ⟨rfl, hpos⟩)⟩
    · next hpos =>
      obtain ⟨⟨_, hp, hrest⟩, hstatus⟩ := addResource_moves hstep
      rw [Int.natCast_zero, Int.sub_zero] at hrest
      refine ⟨s.lineLen buf, ⟨hlen, hp, hrest⟩, lineLen_pos h, .inr (.inr ?_)⟩
      rcases hstatus with ⟨_, hmore⟩ | ⟨hend, _⟩
      · rw [hrest] at hmore
        exact absurd hmore hpos
      · exact hend

/-- one turn of the `for (;;)` that goes on -/
def Turn (kurl : WString → ParsedURL) (buf : Bytes) (s t : Scanner) : Prop :=
  s.status ≠ .END ∧ s.step kurl buf = some (some t)

theorem Turn.moves (h : s.Inside buf) (hturn : Turn kurl buf s t) :
    ∃ len, Moves len s t ∧ (0 < len ∨ t.status ≠ s.status) ∧
      (s.status = .READ_CONTENT → 0 < s.restLen → 0 < len) ∧
      (s.status ≠ .PARSE_HEADER → t.status = .PARSE_HEADER → 0 < t.restLen) := by
  obtain ⟨hgoes, hstep⟩ := hturn
  unfold step at hstep
  cases hstatus : s.status with
  | END => exact absurd hstatus hgoes
  | PARSE_HEADER =>
    rw [hstatus] at hstep
    obtain ⟨len, hmoves, hlen⟩ := parseHeader_moves h hstep
    refine ⟨len, hmoves, ?_, (fun hread => by cases hread), fun hne => absurd rfl hne⟩
    rcases hlen with ⟨_, hread⟩ | ⟨hpos, _⟩
    · exact .inr (by rw [hread]; intro heq; cases heq)
    · exact .inl hpos
  | READ_CONTENT =>
    rw [hstatus] at hstep
    obtain ⟨len, hmoves, hpos, hnext⟩ := readContent_moves h hstep
    rw [hstatus] at hnext
    refine ⟨len, hmoves, ?_, fun _ => hpos, ?_⟩
    · rcases hnext with hadd | ⟨_, hmore⟩ | hend
      · exact .inr (by rw [hadd]; intro heq; cases heq)
      · have hrest := hmoves.2.2
        exact .inl (hpos (by omega))
      · exact .inr (by rw [hend]; intro heq; cases heq)
    · intro _ hheader
      rw [hheader] at hnext
      rcases hnext with hadd | ⟨hread, _⟩ | hend
      · cases hadd
      · cases hread
      · cases hend
  | ADD_RESOURCE =>
    rw [hstatus] at hstep
    obtain ⟨hmoves, hnext⟩ := addResource_moves (Option.some.inj hstep)
    refine ⟨0, hmoves, .inr ?_, (fun hread => by cases hread), fun _ hheader => ?_⟩
    · rcases hnext with ⟨hheader, _⟩ | ⟨hend, _⟩
      · rw [hheader]; intro heq; cases heq
      · rw [hend]; intro heq; cases heq
    · rcases hnext with ⟨_, hmore⟩ | ⟨hend, _⟩
      · exact hmore
      · rw [hend] at hheader
        cases hheader

theorem Turn.inside (h : s.Inside buf) (hturn : Turn kurl buf s t) : t.Inside buf := by
  obtain ⟨len, hmoves, _⟩ := hturn.moves h
  exact hmoves.inside h

def Turns (kurl : WString → ParsedURL) (buf : Bytes) : Scanner → Scanner → Prop :=
  Relation.ReflTransGen (Turn kurl buf)

theorem Turns.moves (h : s.Inside buf) (hturns : Turns kurl buf s t) :
    t.Inside buf ∧ s.p ≤ t.p ∧ (t.p : Int) + t.restLen = s.p + s.restLen := by
  induction hturns with
  | refl => exact ⟨h, Nat.le_refl _, rfl⟩
  | tail _ hturn ih =>
    obtain ⟨hinside, hle, hsum⟩ := ih
    obtain ⟨len, ⟨hlen, hp, hrest⟩, _⟩ := hturn.moves hinside
    refine ⟨hturn.inside hinside, by omega, ?_⟩
    rw [← hsum, hp, hrest]
    omega

/-! ## the loop -/

theorem loop_view (n : Nat) : ∀ s : Scanner, s.Inside buf → (s.view buf).turns < n →
    loop kurl buf n s =
      .returned (Parser.loop kurl n (s.view buf)).1 (Parser.loop kurl n (s.view buf)).2.archive := by
  induction n with
  | zero => exact fun s _ hturns => absurd hturns (Nat.not_lt_zero _)
  | succ n ih =>
    intro s h hturns
    have hview := @step_view kurl buf s h
    rw [loop, Parser.loop]
    by_cases hend : s.status = .END
    · rw [if_pos hend, if_pos (show (s.view buf).status = .END from hend)]
      rfl
    · rw [if_neg hend, if_neg (show (s.view buf).status ≠ .END from hend)]
      cases hstep : s.step kurl buf with
      | none =>
        rw [hstep] at hview
        cases hview
      | some next =>
        rw [hstep] at hview
        have hview := Option.some.inj hview
        cases next with
        | none =>
          rw [← hview]
          rfl
        | some t =>
          have hless := Parser.step_turns (show (s.view buf).status ≠ .END from hend) hview.symm
          rw [← hview]
          exact ih t (Turn.inside h ⟨hend, hstep⟩) (by omega)

theorem loop_inside (n : Nat) : ∀ s : Scanner, s.Inside buf → loop kurl buf n s ≠ .outside := by
  induction n with
  | zero =>
    intro s _ hout
    cases hout
  | succ n ih =>
    intro s h
    have hview := @step_view kurl buf s h
    rw [loop]
    by_cases hend : s.status = .END
    · rw [if_pos hend]
      intro hout
      cases hout
    · rw [if_neg hend]
      cases hstep : s.step kurl buf with
      | none =>
        rw [hstep] at hview
        cases hview
      | some next =>
        cases next with
        | none =>
          intro hout
          cases hout
        | some t => exact ih t (Turn.inside h ⟨hend, hstep⟩)

theorem loop_succ {ok : Bool} {archive : Parsed} (n : Nat) : ∀ s : Scanner,
    loop kurl buf n s = .returned ok archive → loop kurl buf (n + 1) s = .returned ok archive := by
  induction n with
  | zero =>
    intro s h
    cases h
  | succ n ih =>
    intro s h
    rw [loop] at h ⊢
    by_cases hend : s.status = .END
    · rw [if_pos hend] at h ⊢
      exact h
    · rw [if_neg hend] at h ⊢
      cases hstep : s.step kurl buf with
      | none =>
        rw [hstep] at h
        cases h
      | some next =>
        rw [hstep] at h
        cases next with
        | none => exact h
        | some t => exact ih t h

theorem loop_returns (h : s.Inside buf) :
    ∃ turns ok archive, ∀ n, turns ≤ n → loop kurl buf n s = .returned ok archive := by
  have hfirst := @loop_view kurl buf ((s.view buf).turns + 1) s h (Nat.lt_succ_self _)
  refine ⟨(s.view buf).turns + 1, (Parser.loop kurl ((s.view buf).turns + 1) (s.view buf)).1,
    (Parser.loop kurl ((s.view buf).turns + 1) (s.view buf)).2.archive, fun n hn => ?_⟩
  induction n, hn using Nat.le_induction with
  | base => exact hfirst
  | succ n _ ih => exact loop_succ n s ih

/-! ## parts -/

/-- A part begins where the data does, and where the loop comes back to a header. -/
def BeginsPart (kurl : WString → ParsedURL) (data : Bytes) (s : Scanner) : Prop :=
  s = start data ∨
    ∃ r, Turns kurl data (start data) r ∧ r.status ≠ .PARSE_HEADER ∧ Turn kurl data r s ∧ s.status = .PARSE_HEADER

/-- the part that begins at `s` is read at `u`: the turn that comes there leaves its body -/
def Part (kurl : WString → ParsedURL) (data : Bytes) (s u : Scanner) : Prop :=
  BeginsPart kurl data s ∧
    ∃ t, Turns kurl data s t ∧ t.status = .READ_CONTENT ∧ Turn kurl data t u ∧ u.status ≠ .READ_CONTENT

theorem part_takes {u : Scanner} (h : s.Inside buf) (hpos : 0 < s.restLen) (hturns : Turns kurl buf s t)
    (hread : t.status = .READ_CONTENT) (hturn : Turn kurl buf t u) : s.p < u.p := by
  obtain ⟨hinside, hle, hsum⟩ := hturns.moves h
  obtain ⟨len, ⟨_, hp, _⟩, _, hline, _⟩ := hturn.moves hinside
  rcases Nat.lt_or_eq_of_le hle with hless | heq
  · omega
  · have hlen := hline hread (by omega)
    omega

theorem empty_reads (hempty : (start buf).restLen ≤ 0) (hturns : Turns kurl buf (start buf) t) :
    t.view buf = { rest := [] } ∨ t.view buf = { rest := [], status := .READ_CONTENT } := by
  have hstart : (start buf).view buf = { rest := [] } := by
    show Parser.mk _ _ _ _ _ _ _ (window buf 0 (start buf).restLen.toNat) = _
    rw [Int.toNat_of_nonpos hempty]
    rfl
  induction hturns with
  | refl => exact .inl hstart
  | tail hturns hturn ih =>
    have hview := @step_view kurl buf _ (Turns.moves (start_inside buf) hturns).1
    rw [hturn.2] at hview
    have hview := Option.some.inj hview
    rcases ih with hheader | hcontent
    · rw [hheader] at hview
      exact .inr (Option.some.inj hview)
    · rw [hcontent] at hview
      cases hview

/-- The parser comes to an end on every input, reads nothing outside it, and takes a byte with every part; a turn that
takes none changes the state. -/
theorem parse_total (kurl : WString → ParsedURL) (data : Bytes) :
    (∃ turns ok archive, ∀ n, turns ≤ n → loop kurl data n (start data) = .returned ok archive) ∧
      (∀ n, loop kurl data n (start data) ≠ .outside) ∧
      (∀ s t, Turns kurl data (start data) s → Turn kurl data s t →
        s.p < t.p ∨ t.p = s.p ∧ t.status ≠ s.status) ∧
      ∀ s u, Part kurl data s u → s.p < u.p := by
  have hinside := start_inside data
  refine ⟨loop_returns hinside, fun n => loop_inside n _ hinside, ?_, ?_⟩
  · intro s t hturns hturn
    obtain ⟨len, ⟨_, hp, _⟩, hprogress, _⟩ := hturn.moves (hturns.moves hinside).1
    rcases hprogress with hpos | hstatus
    · exact .inl (by omega)
    · rcases Nat.eq_zero_or_pos len with rfl | hpos
      · exact .inr ⟨hp, hstatus⟩
      · exact .inl (by omega)
  · rintro s u ⟨hbegins, t, hturns, hread, hturn, _⟩
    rcases hbegins with rfl | ⟨r, hreached, hnot, hback, hheader⟩
    · rcases Int.lt_or_le 0 (start data).restLen with hpos | hempty
      · exact part_takes hinside hpos hturns hread hturn
      · have hview := @step_view kurl data t (hturns.moves hinside).1
        rw [hturn.2] at hview
        have hview := Option.some.inj hview
        rcases empty_reads hempty hturns with hheader | hcontent
        · have hstatus : t.status = .PARSE_HEADER := congrArg Parser.status hheader
          rw [hstatus] at hread
          cases hread
        · rw [hcontent] at hview
          cases hview
    · have hr := (hreached.moves hinside).1
      obtain ⟨len, _, _, _, hmore⟩ := hback.moves hr
      exact part_takes (hback.inside hr) (hmore hnot hheader) hturns hread hturn

/-- after an empty header the next turn only goes on to the body -/
theorem turn_stays : ¬ ∀ (kurl : WString → ParsedURL) (data : Bytes) (s t : Scanner),
    Turns kurl data (start data) s → Turn kurl data s t → s.p < t.p := by
  intro h
  let kurl : WString → ParsedURL := fun location => ⟨location, true⟩
  let data : Bytes := [0x0D, 0x0A, 0x78]
  let s : Scanner := { headerStatus := .END, p := 2, restLen := 1 }
  let t : Scanner := { status := .READ_CONTENT, headerStatus := .END, p := 2, restLen := 1 }
  have hfirst : Turn kurl data (start data) s := ⟨(fun hend => by cases hend), rfl⟩
  have hnext : Turn kurl data s t := ⟨(fun hend => by cases hend), rfl⟩
  have hless : 2 < 2 := h kurl data s t (.single hfirst) hnext
  exact absurd hless (Nat.lt_irrefl 2)

end Scanner

end Scan
end Mhtml
end Wkc
