import WkcBrowser.Inspector.Connections
import WkcBrowser.Inspector.Frames
import WkcBrowser.Inspector.Resources

/-!
# The HTTP requests that a `WebSocketServerConnection` reads

The bytes of the socket are collected in `m_bufferedData`, and with every packet the whole buffer is parsed again.

* `parseHTTPRequestLine`, `parseHTTPHeader`    the two kinds of lines;
* `parseHTTPRequestFromBuffer`                 a request, if the buffer is taken for one;
* `HTTPConnection`, `run`                      the connection, one packet after another;
* `Header`, `Request`                          well-formed requests and their texts;
* `ReadsRequest`                               what the connection should make of a request and what follows it;
* `Packets`                                    the packets with which it does;
* `parse_prefix`, `parse_whole`                what a part of a request is taken for;
* `ReadsRequest.messages`                      the frames behind an upgrade;
* `reads_request_iff`                          the streams that are read as they should be.
-/

namespace Wkc
namespace Inspector
open AuthenticateHeader (wide HTTPHeaderMap)

def CR : UInt8 := 0x0D
def LF : UInt8 := 0x0A

/-! ## the lines -/

inductive HTTPVersion where
  | Unknown
  | HTTP_1_0
  | HTTP_1_1
  deriving DecidableEq

/-- `HTTP/1.` -/
def versionPrefix : Bytes := [0x48, 0x54, 0x54, 0x50, 0x2F, 0x31, 0x2E]

def httpVersionOf (text : Bytes) : HTTPVersion :=
  if text = versionPrefix ++ [0x30] then .HTTP_1_0
  else if text = versionPrefix ++ [0x31] then .HTTP_1_1
  else .Unknown

structure RequestLine where
  method : WString
  url : WString
  httpVersion : HTTPVersion
  deriving DecidableEq

def parseHTTPRequestLine (data : Bytes) : Option (RequestLine × Bytes) :=
  let line := data.takeWhile (fun b => b != LF)
  if LF ∉ data then none
  else if line.count 0x20 < 2 then none
  else if line.getLast? ≠ some CR then none
  else
    let method := line.takeWhile (fun b => b != 0x20)
    let url := (line.drop (method.length + 1)).takeWhile (fun b => b != 0x20)
    let httpVersionString := (line.drop (method.length + url.length + 2)).dropLast
    some (⟨fromLatin1 method, fromLatin1 url, httpVersionOf httpVersionString⟩, data.drop (line.length + 1))

/-- `fromUTF8` of a vector: an empty one has no data, and gives the null string -/
def decodeBuffer (bs : Bytes) : Option WString :=
  if bs = [] then none
  else
    match fromUTF8 bs.length bs with
    | .ok s => s
    | .error _ => none

inductive HeaderLine where
  | blank
  | field (name value : WString)
  deriving DecidableEq

def nameByte (b : UInt8) : Bool := b != CR && b != LF && b != 0x3A

def valueByte (b : UInt8) : Bool := b != CR && b != LF

/-- the line, and what follows it -/
def parseHTTPHeader (data : Bytes) : Option (HeaderLine × Bytes) :=
  let name := data.takeWhile nameByte
  match data.dropWhile nameByte with
  | [] => none
  | c :: rest =>
    if c = 0x3A then
      let rest := rest.dropWhile (fun b => b == 0x20)
      let value := rest.takeWhile valueByte
      let rest := rest.dropWhile valueByte
      if rest.take 2 = [CR, LF] then do
        let nameStr ← decodeBuffer name
        let valueStr ← decodeBuffer value
        some (.field nameStr valueStr, rest.drop 2)
      else none
    else if c = CR ∧ name = [] ∧ rest.head? = some LF then some (.blank, rest.tail)
    else none

/-! ## the request -/

structure HTTPRequest where
  requestMethod : WString
  url : WString
  httpVersion : HTTPVersion
  headerFields : HTTPHeaderMap
  body : Bytes
  deriving DecidableEq

/-- `HTTPHeaderMap::add`: the first of a name stays -/
def addField (fields : HTTPHeaderMap) (name value : WString) : HTTPHeaderMap :=
  if (fields.get name).isSome then fields else fields ++ [(name, value)]

/-- the loop of `parseHeaders`: it ends at a blank line, or with the data -/
def parseHeadersLoop : Nat → Bytes → HTTPHeaderMap → Option (HTTPHeaderMap × Bytes)
  | 0, _, _ => none
  | fuel + 1, data, fields =>
    if data = [] then some (fields, [])
    else
      match parseHTTPHeader data with
      | none => none
      | some (.blank, rest) => some (fields, rest)
      | some (.field name value, rest) => parseHeadersLoop fuel rest (addField fields name value)

/-- a length of 0 is that of no data -/
def parseHeaders (data : Bytes) : Option (HTTPHeaderMap × Bytes) :=
  if data = [] then none else parseHeadersLoop (data.length + 1) data []

/-- `parse` is `KURL::parse` -/
def parseHTTPRequestFromBuffer (parse : WString → WString) (data : Bytes) : Option HTTPRequest :=
  if data = [] then none
  else do
    let (line, rest) ← parseHTTPRequestLine data
    let (headerFields, rest) ← parseHeaders rest
    some ⟨line.method, kurlString parse line.url, line.httpVersion, headerFields, rest⟩

/-! ## the connection -/

/-- `accepted`: the requests of `readHTTPMessage`; `established`: after a handshake; `frameCalls`: the data of the calls
in WebSocket mode, which `Connection.receive` reads from an empty buffer -/
structure HTTPConnection where
  mode : Mode := .HTTP
  bufferedData : Bytes := []
  accepted : List HTTPRequest := []
  established : Bool := false
  frameCalls : List Bytes := []
  deriving DecidableEq

section
variable (parse : WString → WString) (client : WString → Bool)

namespace HTTPConnection

/-- `client` is `didReceiveWebSocketUpgradeHTTPRequest`, which looks at the URL -/
def upgradeToWebSocketServerConnection (c : HTTPConnection) (request : HTTPRequest) : HTTPConnection :=
  { c with mode := .WebSocket, established := client request.url }

/-- a request of an older protocol is ignored, and any other one is handed to the client -/
def readHTTPMessage (c : HTTPConnection) : HTTPConnection :=
  match parseHTTPRequestFromBuffer parse c.bufferedData with
  | none => c
  | some request =>
    let c := { c with bufferedData := [], accepted := c.accepted ++ [request] }
    if request.headerFields.get (wide "Upgrade") = some (wide "websocket") then
      c.upgradeToWebSocketServerConnection client request
    else c

def didReceiveSocketStreamData (c : HTTPConnection) (data : Bytes) : HTTPConnection :=
  match c.mode with
  | .HTTP => readHTTPMessage parse client { c with bufferedData := c.bufferedData ++ data }
  | .WebSocket => { c with frameCalls := c.frameCalls ++ [data] }

def run (c : HTTPConnection) (packets : List Bytes) : HTTPConnection :=
  packets.foldl (didReceiveSocketStreamData parse client) c

end HTTPConnection

end

/-! ## well-formed requests -/

/-- in a method or URL -/
def visible (b : UInt8) : Bool := 0x20 < b.toNat && b != 0x7F

/-- a header field: the name, the spaces behind the colon, and the value -/
structure Header where
  name : Bytes
  spaces : Nat
  value : Bytes
  name_ne : name ≠ []
  name_ok : name.all (fun b => visible b && nameByte b) = true
  value_ok : value.all valueByte = true
  value_start : value.head? ≠ some 0x20

def Header.line (h : Header) : Bytes := h.name ++ 0x3A :: (List.replicate h.spaces 0x20 ++ (h.value ++ [CR, LF]))

/-- The name and the value are UTF-8, and there is a value. -/
def Header.Readable (h : Header) : Prop := (decodeBuffer h.name).isSome = true ∧ (decodeBuffer h.value).isSome = true

def lines (hs : List Header) : Bytes := hs.flatMap Header.line

structure Request where
  method : Bytes
  url : Bytes
  headers : List Header
  method_ne : method ≠ []
  method_ok : method.all visible = true
  url_ne : url ≠ []
  url_ok : url.all visible = true

namespace Request

/-- the request line without its LF -/
def firstLine (r : Request) : Bytes := r.method ++ 0x20 :: (r.url ++ 0x20 :: (versionPrefix ++ [0x31, CR]))

def text (r : Request) : Bytes := r.firstLine ++ LF :: (lines r.headers ++ [CR, LF])

/-- the fields of headers that can be read -/
def addFields (fields : HTTPHeaderMap) (hs : List Header) : HTTPHeaderMap :=
  hs.foldl (fun fields h => addField fields ((decodeBuffer h.name).getD []) ((decodeBuffer h.value).getD [])) fields

def toUpgrade (r : Request) : Prop := (addFields [] r.headers).get (wide "Upgrade") = some (wide "websocket")

instance (r : Request) : Decidable r.toUpgrade := inferInstanceAs (Decidable (_ = _))

end Request

def HTTPRequest.head (q : HTTPRequest) : HTTPRequest := { q with body := [] }

/-- the packets behind the one with the `n`-th byte -/
def behind : Nat → List Bytes → List Bytes
  | _, [] => []
  | n, data :: packets => if n ≤ data.length then packets else behind (n - data.length) packets

section
variable (parse : WString → WString) (client : WString → Bool) (r : Request) (further : Bytes) (packets : List Bytes)

/-- The request is accepted once, when it is complete, as when it arrives at once, and nothing else is; if it is
upgraded, what follows it is read as frames. -/
structure ReadsRequest : Prop where
  accepted : ∃ q, parseHTTPRequestFromBuffer parse r.text = some q ∧ ∀ seen rest, packets = seen ++ rest →
    (HTTPConnection.run parse client {} seen).accepted.map HTTPRequest.head
      = if r.text.length ≤ seen.flatten.length then [q.head] else []
  frames : (HTTPConnection.run parse client {} packets).established = true →
    (HTTPConnection.run parse client {} packets).frameCalls.flatten = further

/-- no packet ends with a header -/
def Uncut : Prop := ∀ seen rest, packets = seen ++ rest → ∀ k, 0 < k → k ≤ r.headers.length →
  seen.flatten ≠ r.firstLine ++ LF :: lines (r.headers.take k)

/-- All headers can be read; no packet ends with a header; nothing stands behind a request to upgrade in the packet that
completes it; and what follows another request is at no end of a packet taken for one. -/
structure Packets : Prop where
  readable : ∀ h ∈ r.headers, h.Readable
  uncut : Uncut r packets
  upgrade : r.toUpgrade → client (kurlString parse (fromLatin1 r.url)) = true →
    (behind r.text.length packets).flatten = further
  quiet : ¬ r.toUpgrade → ∀ seen rest, behind r.text.length packets = seen ++ rest →
    parseHTTPRequestFromBuffer parse seen.flatten = none

end

/-! ## one line -/

theorem parseHTTPRequestLine_none {data : Bytes} (h : LF ∉ data) : parseHTTPRequestLine data = none := by
  unfold parseHTTPRequestLine
  exact if_pos h

theorem parseHTTPHeader_none {data : Bytes} (h : LF ∉ data) : parseHTTPHeader data = none := by
  have hsub : ∀ {p : UInt8 → Bool} {bs : Bytes}, LF ∉ bs → LF ∉ bs.dropWhile p := fun hbs hmem =>
    hbs ((List.dropWhile_suffix _).subset hmem)
  have hrest : LF ∉ data.dropWhile nameByte := hsub h
  unfold parseHTTPHeader
  cases hdata : data.dropWhile nameByte with
  | nil => rfl
  | cons c rest =>
    rw [hdata, List.mem_cons, not_or] at hrest
    dsimp only
    split
    · refine if_neg fun htwo => ?_
      have hmem : LF ∈ ((rest.dropWhile (fun b => b == 0x20)).dropWhile valueByte).take 2 := by
        rw [htwo]
        exact List.mem_cons_of_mem _ List.mem_cons_self
      exact hsub (hsub hrest.2) (List.mem_of_mem_take hmem)
    · refine if_neg ?_
      rintro ⟨-, -, hhead⟩
      exact hrest.2 (List.mem_of_head? hhead)

theorem noLF_of_visible {bs : Bytes} (h : bs.all visible = true) : LF ∉ bs ∧ (0x20 : UInt8) ∉ bs := by
  constructor
  all_goals
    intro hmem
    exact absurd (List.all_eq_true.mp h _ hmem) (by decide)

theorem Request.firstLine_noLF (r : Request) : LF ∉ r.firstLine := by
  have hmethod := (noLF_of_visible r.method_ok).1
  have hurl := (noLF_of_visible r.url_ok).1
  simp only [firstLine, List.mem_append, List.mem_cons, not_or]
  exact ⟨hmethod, by decide, hurl, by decide, by decide⟩

theorem takeWhile_word {word : Bytes} {c : UInt8} (h : c ∉ word) (rest : Bytes) :
    (word ++ c :: rest).takeWhile (fun b => b != c) = word := by
  have hall : ∀ b ∈ word, (b != c) = true := fun b hb => bne_iff_ne.mpr fun heq => h (heq ▸ hb)
  rw [List.takeWhile_append_of_pos hall, List.takeWhile_cons_of_neg (by simp), List.append_nil]

theorem parseHTTPRequestLine_first (r : Request) (rest : Bytes) :
    parseHTTPRequestLine (r.firstLine ++ LF :: rest)
      = some (⟨fromLatin1 r.method, fromLatin1 r.url, .HTTP_1_1⟩, rest) := by
  have hline := takeWhile_word r.firstLine_noLF rest
  have hmethod : r.firstLine.takeWhile (fun b => b != 0x20) = r.method :=
    takeWhile_word (noLF_of_visible r.method_ok).2 _
  have hbehind : r.firstLine.drop (r.method.length + 1) = r.url ++ 0x20 :: (versionPrefix ++ [0x31, CR]) := by
    rw [Request.firstLine, ← List.drop_drop, List.drop_left]
    rfl
  have hurl : (r.url ++ 0x20 :: (versionPrefix ++ [0x31, CR])).takeWhile (fun b => b != 0x20) = r.url :=
    takeWhile_word (noLF_of_visible r.url_ok).2 _
  have hversion : r.firstLine.drop (r.method.length + r.url.length + 2) = versionPrefix ++ [0x31, CR] := by
    rw [show r.method.length + r.url.length + 2 = (r.method.length + 1) + (r.url.length + 1) by omega, ← List.drop_drop,
      hbehind, ← List.drop_drop, List.drop_left]
    rfl
  have hcount : ¬ r.firstLine.count 0x20 < 2 := by
    rw [Request.firstLine, List.count_append, List.count_cons_self, List.count_append, List.count_cons_self]
    omega
  have hlast : r.firstLine.getLast? = some CR := by
    rw [Request.firstLine, List.getLast?_append, List.getLast?_cons, List.getLast?_append]
    rfl
  have hdrop : (r.firstLine ++ LF :: rest).drop (r.firstLine.length + 1) = rest := by
    rw [← List.drop_drop, List.drop_left]
    rfl
  unfold parseHTTPRequestLine
  dsimp only
  rw [hline, if_neg (by simp), if_neg hcount, if_neg (by simp [hlast]), hmethod, hbehind, hurl, hversion, hdrop]
  rfl

theorem parseHTTPHeader_line (h : Header) (rest : Bytes) : parseHTTPHeader (h.line ++ rest) =
    (decodeBuffer h.name).bind fun nameStr => (decodeBuffer h.value).map fun valueStr => (.field nameStr valueStr, rest) := by
  have hname : ∀ b ∈ h.name, nameByte b = true := by
    intro b hb
    exact ((Bool.and_eq_true _ _).mp (List.all_eq_true.mp h.name_ok b hb)).2
  have hvalue : ∀ b ∈ h.value, valueByte b = true := List.all_eq_true.mp h.value_ok
  have hspaces : ∀ b ∈ List.replicate h.spaces (0x20 : UInt8), (b == 0x20) = true := fun b hb =>
    beq_iff_eq.mpr (List.eq_of_mem_replicate hb)
  have htext : h.line ++ rest = h.name ++ 0x3A :: (List.replicate h.spaces 0x20 ++ (h.value ++ CR :: LF :: rest)) := by
    simp [Header.line]
  have hskip : (List.replicate h.spaces 0x20 ++ (h.value ++ CR :: LF :: rest)).dropWhile (fun b => b == 0x20)
      = h.value ++ CR :: LF :: rest := by
    rw [List.dropWhile_append_of_pos hspaces]
    have hstart := h.value_start
    cases hv : h.value with
    | nil => rfl
    | cons b bs =>
      rw [hv] at hstart
      have hb : b ≠ 0x20 := fun heq => hstart (congrArg some heq)
      exact List.dropWhile_cons_of_neg (by simp [hb])
  unfold parseHTTPHeader
  rw [htext, List.takeWhile_append_of_pos hname, List.dropWhile_append_of_pos hname,
    List.takeWhile_cons_of_neg (by decide), List.dropWhile_cons_of_neg (by decide), List.append_nil]
  dsimp only
  rw [if_pos rfl, hskip, List.takeWhile_append_of_pos hvalue, List.dropWhile_append_of_pos hvalue,
    List.takeWhile_cons_of_neg (by decide), List.dropWhile_cons_of_neg (by decide), List.append_nil,
    if_pos (show (CR :: LF :: rest).take 2 = [CR, LF] from rfl)]
  cases decodeBuffer h.name with
  | none => rfl
  | some nameStr =>
    cases decodeBuffer h.value with
    | none | some => rfl

theorem parseHTTPHeader_blank (rest : Bytes) : parseHTTPHeader (CR :: LF :: rest) = some (.blank, rest) := rfl

/-! ## the headers -/

theorem line_ne_nil (h : Header) (rest : Bytes) : h.line ++ rest ≠ [] := by simp [Header.line]

theorem lines_cons (h : Header) (hs : List Header) (rest : Bytes) : lines (h :: hs) ++ rest = h.line ++ (lines hs ++ rest) := by
  rw [lines, List.flatMap_cons, List.append_assoc]
  rfl

theorem loop_lines (hs : List Header) (hreadable : ∀ h ∈ hs, h.Readable) (fuel : Nat) (rest : Bytes) (fields : HTTPHeaderMap) :
    parseHeadersLoop (fuel + hs.length) (lines hs ++ rest) fields
      = parseHeadersLoop fuel rest (Request.addFields fields hs) := by
  induction hs generalizing fields with
  | nil => rfl
  | cons h hs ih =>
    obtain ⟨hh, hhs⟩ := List.forall_mem_cons.mp hreadable
    obtain ⟨name, hname⟩ := Option.isSome_iff_exists.mp hh.1
    obtain ⟨value, hvalue⟩ := Option.isSome_iff_exists.mp hh.2
    have hadd : Request.addFields fields (h :: hs) = Request.addFields (addField fields name value) hs := by
      rw [Request.addFields, List.foldl_cons, hname, hvalue]
      rfl
    rw [lines_cons, List.length_cons, ← Nat.add_assoc, parseHeadersLoop, if_neg (line_ne_nil h _), parseHTTPHeader_line,
      hname, hvalue, hadd, ← ih hhs]
    rfl

theorem loop_readable (hs : List Header) (fuel : Nat) (rest : Bytes) (fields : HTTPHeaderMap)
    (h : parseHeadersLoop fuel (lines hs ++ rest) fields ≠ none) : ∀ h ∈ hs, h.Readable := by
  induction hs generalizing fuel fields with
  | nil => exact fun h hh => absurd hh List.not_mem_nil
  | cons h' hs ih =>
    cases fuel with
    | zero => exact absurd rfl h
    | succ fuel =>
      rw [lines_cons, parseHeadersLoop, if_neg (line_ne_nil h' _), parseHTTPHeader_line] at h
      cases hname : decodeBuffer h'.name with
      | none =>
        rw [hname] at h
        exact absurd rfl h
      | some name =>
        cases hvalue : decodeBuffer h'.value with
        | none =>
          rw [hname, hvalue] at h
          exact absurd rfl h
        | some value =>
          rw [hname, hvalue] at h
          refine List.forall_mem_cons.mpr ⟨⟨?_, ?_⟩, ih fuel _ h⟩
          · rw [hname]
            rfl
          · rw [hvalue]
            rfl

theorem loop_end (fuel : Nat) (fields : HTTPHeaderMap) : parseHeadersLoop (fuel + 1) [] fields = some (fields, []) := by
  rw [parseHeadersLoop, if_pos rfl]

theorem loop_blank (fuel : Nat) (rest : Bytes) (fields : HTTPHeaderMap) :
    parseHeadersLoop (fuel + 1) (CR :: LF :: rest) fields = some (fields, rest) := by
  rw [parseHeadersLoop, if_neg (by simp), parseHTTPHeader_blank]

theorem loop_unfinished {data : Bytes} (hne : data ≠ []) (h : LF ∉ data) (fuel : Nat) (fields : HTTPHeaderMap) :
    parseHeadersLoop fuel data fields = none := by
  cases fuel with
  | zero => rfl
  | succ fuel => rw [parseHeadersLoop, if_neg hne, parseHTTPHeader_none h]

theorem length_le_lines (hs : List Header) : hs.length ≤ (lines hs).length := by
  induction hs with
  | nil => exact Nat.le_refl 0
  | cons h hs ih =>
    have hline : 0 < h.line.length := List.length_pos_iff.mpr (by simpa using line_ne_nil h [])
    rw [lines, List.flatMap_cons, List.length_append, List.length_cons]
    have ih' : hs.length ≤ (hs.flatMap Header.line).length := ih
    omega

theorem parseHeaders_eq {hs : List Header} (hreadable : ∀ h ∈ hs, h.Readable) {rest : Bytes} (hne : lines hs ++ rest ≠ []) :
    ∃ fuel, parseHeaders (lines hs ++ rest) = parseHeadersLoop (fuel + 1) rest (Request.addFields [] hs) := by
  have hlen := length_le_lines hs
  refine ⟨(lines hs ++ rest).length - hs.length, ?_⟩
  rw [parseHeaders, if_neg hne, ← loop_lines hs hreadable]
  congr 1
  rw [List.length_append]
  omega

/-! ## a request, or a part of it -/

section
variable {parse : WString → WString} (r : Request)

/-- what the code makes of the request when it arrives at once -/
def Request.parsed (parse : WString → WString) : HTTPRequest :=
  ⟨fromLatin1 r.method, kurlString parse (fromLatin1 r.url), .HTTP_1_1, Request.addFields [] r.headers, []⟩

theorem parse_first (rest : Bytes) : parseHTTPRequestFromBuffer parse (r.firstLine ++ LF :: rest)
    = (parseHeaders rest).map fun h => ⟨fromLatin1 r.method, kurlString parse (fromLatin1 r.url), .HTTP_1_1, h.1, h.2⟩ := by
  unfold parseHTTPRequestFromBuffer
  rw [if_neg (by simp), parseHTTPRequestLine_first]
  show ((parseHeaders rest).bind fun h => some _) = _
  cases parseHeaders rest with
  | none | some => rfl

theorem parse_unfinished {data : Bytes} (h : LF ∉ data) : parseHTTPRequestFromBuffer parse data = none := by
  unfold parseHTTPRequestFromBuffer
  rw [parseHTTPRequestLine_none h]
  split <;> rfl

/-- **The whole request**, whatever follows it -/
theorem parse_whole (hreadable : ∀ h ∈ r.headers, h.Readable) (rest : Bytes) :
    parseHTTPRequestFromBuffer parse (r.text ++ rest) = some { r.parsed parse with body := rest } := by
  have htext : r.text ++ rest = r.firstLine ++ LF :: (lines r.headers ++ CR :: LF :: rest) := by simp [Request.text]
  obtain ⟨fuel, hheaders⟩ := @parseHeaders_eq r.headers hreadable (CR :: LF :: rest) (by simp)
  rw [htext, parse_first, hheaders, loop_blank]
  rfl

theorem readable_of_parse (h : parseHTTPRequestFromBuffer parse r.text ≠ none) : ∀ h ∈ r.headers, h.Readable := by
  rw [Request.text, parse_first, parseHeaders, if_neg (by simp)] at h
  refine loop_readable r.headers ((lines r.headers ++ [CR, LF]).length + 1) [CR, LF] [] fun hnone => h ?_
  rw [hnone]
  rfl

theorem parse_cut (hreadable : ∀ h ∈ r.headers, h.Readable) {k : Nat} (hk : 0 < k) (hle : k ≤ r.headers.length) :
    parseHTTPRequestFromBuffer parse (r.firstLine ++ LF :: lines (r.headers.take k)) ≠ none := by
  have htake : ∀ h ∈ r.headers.take k, h.Readable := fun h hh => hreadable h (List.mem_of_mem_take hh)
  have hne : lines (r.headers.take k) ++ [] ≠ [] := by
    have hlen := length_le_lines (r.headers.take k)
    rw [List.length_take] at hlen
    rw [List.append_nil]
    exact List.length_pos_iff.mp (by omega)
  obtain ⟨fuel, hheaders⟩ := parseHeaders_eq htake hne
  rw [List.append_nil] at hheaders
  rw [parse_first, hheaders, loop_end]
  simp

end

theorem noLF_of_front {p line rest : Bytes} (h : p <+: line ++ LF :: rest) (hlen : p.length ≤ line.length) (hline : LF ∉ line) :
    LF ∉ p := by
  have hfront : p <+: line := List.prefix_of_prefix_length_le h (List.prefix_append line _) hlen
  exact fun hmem => hline (hfront.subset hmem)

theorem Header.line_noLF (h : Header) : ∃ bs, h.line = bs ++ [LF] ∧ LF ∉ bs := by
  refine ⟨h.name ++ 0x3A :: (List.replicate h.spaces 0x20 ++ (h.value ++ [CR])), by simp [line], ?_⟩
  have hname : LF ∉ h.name := fun hmem => absurd (List.all_eq_true.mp h.name_ok _ hmem) (by decide)
  have hvalue : LF ∉ h.value := fun hmem => absurd (List.all_eq_true.mp h.value_ok _ hmem) (by decide)
  have hspaces : LF ∉ List.replicate h.spaces (0x20 : UInt8) := fun hmem =>
    absurd (List.eq_of_mem_replicate hmem) (by decide)
  simp only [List.mem_append, List.mem_cons, not_or]
  exact ⟨hname, by decide, hspaces, hvalue, by decide, by simp⟩

/-- **A part of the headers** is some whole lines and a line that is not finished. -/
theorem headers_prefix (hs : List Header) : ∀ p : Bytes, p <+: lines hs ++ [CR, LF] → p ≠ lines hs ++ [CR, LF] →
    ∃ k t, k ≤ hs.length ∧ p = lines (hs.take k) ++ t ∧ LF ∉ t := by
  induction hs with
  | nil =>
    intro p hp hne
    refine ⟨0, p, Nat.le_refl 0, rfl, ?_⟩
    have hlen : p.length ≤ 1 := by
      have hle := hp.length_le
      have hshort : p.length ≠ 2 := fun heq => hne (hp.eq_of_length heq)
      have htwo : (lines [] ++ [CR, LF]).length = 2 := rfl
      omega
    exact @noLF_of_front p [CR] [] hp hlen (by decide)
  | cons h hs ih =>
    intro p hp hne
    obtain ⟨bs, hline, hbs⟩ := h.line_noLF
    rw [lines_cons, hline, List.append_assoc, List.singleton_append] at hp hne
    by_cases hlen : p.length ≤ bs.length
    · exact ⟨0, p, Nat.zero_le _, rfl, noLF_of_front hp hlen hbs⟩
    · have hwhole : bs ++ [LF] <+: p := by
        refine List.prefix_of_prefix_length_le ?_ hp (by rw [List.length_append]; exact Nat.lt_of_not_le hlen)
        exact ⟨lines hs ++ [CR, LF], by rw [List.append_assoc]; rfl⟩
      obtain ⟨p', rfl⟩ := hwhole
      rw [List.append_assoc] at hp hne
      have hp' : p' <+: lines hs ++ [CR, LF] := by
        have hcons := (List.prefix_append_right_inj _).mp hp
        exact (List.cons_prefix_cons.mp hcons).2
      obtain ⟨k, t, hk, rfl, ht⟩ := ih p' hp' (fun heq => hne (by rw [heq]; rfl))
      refine ⟨k + 1, t, Nat.succ_le_succ hk, ?_, ht⟩
      rw [List.take_succ_cons, lines_cons, hline]

/-- **A part of a request** is taken for one only if it ends with a header. -/
theorem parse_prefix {parse : WString → WString} (r : Request) (hreadable : ∀ h ∈ r.headers, h.Readable) {p : Bytes}
    (hp : p <+: r.text) (hne : p ≠ r.text)
    (hcut : ∀ k, 0 < k → k ≤ r.headers.length → p ≠ r.firstLine ++ LF :: lines (r.headers.take k)) :
    parseHTTPRequestFromBuffer parse p = none := by
  rw [Request.text] at hp hne
  by_cases hlen : p.length ≤ r.firstLine.length
  · exact parse_unfinished (noLF_of_front hp hlen r.firstLine_noLF)
  · have hwhole : r.firstLine ++ [LF] <+: p := by
      refine List.prefix_of_prefix_length_le ?_ hp (by rw [List.length_append]; exact Nat.lt_of_not_le hlen)
      exact ⟨lines r.headers ++ [CR, LF], by rw [List.append_assoc]; rfl⟩
    obtain ⟨p', rfl⟩ := hwhole
    rw [List.append_assoc, List.singleton_append] at hp hne hcut ⊢
    have hp' : p' <+: lines r.headers ++ [CR, LF] := by
      have hcons := (List.prefix_append_right_inj _).mp hp
      exact (List.cons_prefix_cons.mp hcons).2
    obtain ⟨k, t, hk, rfl, ht⟩ := headers_prefix r.headers p' hp' (fun heq => hne (by rw [heq]))
    rw [parse_first]
    have htake : ∀ h ∈ r.headers.take k, h.Readable := fun h hh => hreadable h (List.mem_of_mem_take hh)
    have hheaders : parseHeaders (lines (r.headers.take k) ++ t) = none := by
      by_cases htne : t = []
      · cases k with
        | zero =>
          rw [htne]
          rfl
        | succ k =>
          refine absurd ?_ (hcut (k + 1) (Nat.succ_pos k) hk)
          rw [htne, List.append_nil]
      · obtain ⟨fuel, hheaders⟩ := @parseHeaders_eq _ htake t (by simp [htne])
        rw [hheaders]
        exact loop_unfinished htne ht _ _
    rw [hheaders]
    rfl

/-! ## runs -/

section
variable {parse : WString → WString} {client : WString → Bool}

namespace HTTPConnection

theorem run_append (c : HTTPConnection) (a b : List Bytes) :
    c.run parse client (a ++ b) = (c.run parse client a).run parse client b := List.foldl_append

theorem run_cons (c : HTTPConnection) (data : Bytes) (packets : List Bytes) : c.run parse client (data :: packets)
    = (c.didReceiveSocketStreamData parse client data).run parse client packets := rfl

theorem receive_none {c : HTTPConnection} (hmode : c.mode = .HTTP) {data : Bytes}
    (h : parseHTTPRequestFromBuffer parse (c.bufferedData ++ data) = none) :
    c.didReceiveSocketStreamData parse client data = { c with bufferedData := c.bufferedData ++ data } := by
  rw [didReceiveSocketStreamData, hmode]
  dsimp only
  rw [readHTTPMessage, h]

theorem run_waiting (packets : List Bytes) : ∀ c : HTTPConnection, c.mode = .HTTP →
    (∀ seen rest, packets = seen ++ rest → seen ≠ [] →
      parseHTTPRequestFromBuffer parse (c.bufferedData ++ seen.flatten) = none) →
    c.run parse client packets = { c with bufferedData := c.bufferedData ++ packets.flatten } := by
  induction packets with
  | nil =>
    intro c _ _
    rw [List.flatten_nil, List.append_nil]
    rfl
  | cons data packets ih =>
    intro c hmode h
    have hfirst : parseHTTPRequestFromBuffer parse (c.bufferedData ++ data) = none := by
      have hdata := h [data] packets rfl (by simp)
      rwa [List.flatten_cons, List.flatten_nil, List.append_nil] at hdata
    rw [run_cons, receive_none hmode hfirst, ih { c with bufferedData := c.bufferedData ++ data } hmode ?_]
    · rw [List.flatten_cons, List.append_assoc]
    · intro seen rest hpackets _
      have hnext := h (data :: seen) rest (by rw [hpackets]; rfl) (by simp)
      rwa [List.flatten_cons, ← List.append_assoc] at hnext

theorem receive_frames {c : HTTPConnection} (hmode : c.mode = .WebSocket) (data : Bytes) :
    c.didReceiveSocketStreamData parse client data = { c with frameCalls := c.frameCalls ++ [data] } := by
  unfold didReceiveSocketStreamData
  simp only [hmode]

theorem run_frames (packets : List Bytes) : ∀ c : HTTPConnection, c.mode = .WebSocket →
    c.run parse client packets = { c with frameCalls := c.frameCalls ++ packets } := by
  induction packets with
  | nil =>
    intro c _
    rw [List.append_nil]
    rfl
  | cons data packets ih =>
    intro c hmode
    rw [run_cons, receive_frames hmode, ih { c with frameCalls := c.frameCalls ++ [data] } hmode, List.append_assoc]
    rfl

theorem accepted_receive (c : HTTPConnection) (data : Bytes) :
    c.accepted <+: (c.didReceiveSocketStreamData parse client data).accepted := by
  unfold didReceiveSocketStreamData readHTTPMessage
  cases c.mode with
  | WebSocket => exact List.prefix_refl _
  | HTTP =>
    dsimp only
    cases parseHTTPRequestFromBuffer parse (c.bufferedData ++ data) with
    | none => exact List.prefix_refl _
    | some q =>
      dsimp only
      split <;> exact List.prefix_append _ _

theorem accepted_run (packets : List Bytes) : ∀ c : HTTPConnection, c.accepted <+: (c.run parse client packets).accepted := by
  induction packets with
  | nil => exact fun c => List.prefix_refl _
  | cons data packets ih => exact fun c => (accepted_receive c data).trans (ih _)

theorem accepted_some {c : HTTPConnection} (hmode : c.mode = .HTTP) {data : Bytes} {q : HTTPRequest}
    (h : parseHTTPRequestFromBuffer parse (c.bufferedData ++ data) = some q) :
    (c.didReceiveSocketStreamData parse client data).accepted = c.accepted ++ [q] := by
  rw [didReceiveSocketStreamData, hmode]
  dsimp only
  rw [readHTTPMessage, h]
  dsimp only
  split <;> rfl

theorem none_of_accepted (packets : List Bytes) : ∀ c : HTTPConnection, c.mode = .HTTP →
    (c.run parse client packets).accepted = c.accepted → ∀ seen rest, packets = seen ++ rest → seen ≠ [] →
      parseHTTPRequestFromBuffer parse (c.bufferedData ++ seen.flatten) = none := by
  induction packets with
  | nil =>
    intro c _ _ seen rest h hne
    exact absurd (List.append_eq_nil_iff.mp h.symm).1 hne
  | cons data packets ih =>
    intro c hmode hsame seen rest h hne
    have hdata : parseHTTPRequestFromBuffer parse (c.bufferedData ++ data) = none := by
      cases hq : parseHTTPRequestFromBuffer parse (c.bufferedData ++ data) with
      | none => rfl
      | some q =>
        have hfront := @accepted_run parse client packets
          (c.didReceiveSocketStreamData parse client data)
        rw [accepted_some hmode hq] at hfront
        rw [run_cons] at hsame
        rw [hsame] at hfront
        have hlen := hfront.length_le
        rw [List.length_append, List.length_singleton] at hlen
        omega
    cases seen with
    | nil => exact absurd rfl hne
    | cons d seen =>
      obtain ⟨rfl, hpackets⟩ := List.cons.inj h
      rw [List.flatten_cons, ← List.append_assoc]
      cases seen with
      | nil =>
        rw [List.flatten_nil, List.append_nil]
        exact hdata
      | cons d' seen =>
        rw [run_cons, receive_none hmode hdata] at hsame
        exact ih { c with bufferedData := c.bufferedData ++ data } hmode hsame (d' :: seen) rest hpackets (by simp)

end HTTPConnection

theorem behind_spec (packets : List Bytes) : ∀ n, 0 < n → n ≤ packets.flatten.length →
    ∃ seen data, packets = seen ++ data :: behind n packets ∧ seen.flatten.length < n ∧
      n ≤ seen.flatten.length + data.length := by
  induction packets with
  | nil =>
    intro n hpos hle
    exact absurd hle (Nat.not_le_of_lt hpos)
  | cons data packets ih =>
    intro n hpos hle
    rw [behind]
    by_cases hn : n ≤ data.length
    · rw [if_pos hn]
      exact ⟨[], data, rfl, hpos, by simpa using hn⟩
    · rw [List.flatten_cons, List.length_append] at hle
      obtain ⟨seen, data', hpackets, hlt, hge⟩ := ih (n - data.length) (by omega) (by omega)
      rw [if_neg hn]
      refine ⟨data :: seen, data', ?_, ?_, ?_⟩
      · rw [List.cons_append, ← hpackets]
      · rw [List.flatten_cons, List.length_append]
        omega
      · rw [List.flatten_cons, List.length_append]
        omega

/-! ## a request in packets -/

/-- the connection when the request has been accepted, with the first bytes behind it as its body -/
def Request.arrived (r : Request) (parse : WString → WString) (client : WString → Bool) (body : Bytes) : HTTPConnection where
  mode := if r.toUpgrade then .WebSocket else .HTTP
  accepted := [{ r.parsed parse with body := body }]
  established := decide r.toUpgrade && client (kurlString parse (fromLatin1 r.url))

theorem receive_whole (r : Request) (hreadable : ∀ h ∈ r.headers, h.Readable) {buffered data body : Bytes}
    (hdata : buffered ++ data = r.text ++ body) :
    ({ bufferedData := buffered } : HTTPConnection).didReceiveSocketStreamData parse client data
      = r.arrived parse client body := by
  unfold HTTPConnection.didReceiveSocketStreamData HTTPConnection.readHTTPMessage
  dsimp only
  rw [hdata, parse_whole r hreadable, Request.arrived]
  have hupgrade : ({ r.parsed parse with body := body } : HTTPRequest).headerFields.get (wide "Upgrade")
      = some (wide "websocket") ↔ r.toUpgrade := Iff.rfl
  dsimp only
  by_cases h : r.toUpgrade
  · rw [if_pos (hupgrade.mpr h), if_pos h, decide_eq_true h]
    rfl
  · rw [if_neg (fun hu => h (hupgrade.mp hu)), if_neg h, decide_eq_false h]
    rfl

section
variable {r : Request} {further : Bytes} {packets : List Bytes}

theorem part_of_text (hflat : packets.flatten = r.text ++ further) {seen rest : List Bytes} (hpackets : packets = seen ++ rest)
    (hlen : seen.flatten.length < r.text.length) : seen.flatten <+: r.text ∧ seen.flatten ≠ r.text := by
  have hfront : seen.flatten <+: r.text ++ further := by
    rw [← hflat, hpackets, List.flatten_append]
    exact List.prefix_append _ _
  refine ⟨List.prefix_of_prefix_length_le hfront (List.prefix_append _ _) (Nat.le_of_lt hlen), fun heq => ?_⟩
  rw [heq] at hlen
  exact absurd hlen (Nat.lt_irrefl _)

theorem run_before (hreadable : ∀ h ∈ r.headers, h.Readable)
    (huncut : Uncut r packets) (hflat : packets.flatten = r.text ++ further) {seen rest : List Bytes}
    (hpackets : packets = seen ++ rest)
    (hlen : seen.flatten.length < r.text.length) :
    HTTPConnection.run parse client {} seen = { bufferedData := seen.flatten } := by
  refine HTTPConnection.run_waiting seen {} rfl fun s t hseen _ => ?_
  have hsplit : packets = s ++ (t ++ rest) := by rw [hpackets, hseen, List.append_assoc]
  have hshort : s.flatten.length < r.text.length := by
    rw [hseen, List.flatten_append, List.length_append] at hlen
    omega
  obtain ⟨hpart, hne⟩ := part_of_text hflat hsplit hshort
  exact parse_prefix r hreadable hpart hne (huncut s _ hsplit)

/-- **The packet that completes the request** -/
theorem run_arrived (parse : WString → WString) (client : WString → Bool) (hreadable : ∀ h ∈ r.headers, h.Readable)
    (huncut : Uncut r packets) (hflat : packets.flatten = r.text ++ further) :
    ∃ seen data body, packets = seen ++ data :: behind r.text.length packets ∧
      seen.flatten.length < r.text.length ∧ body ++ (behind r.text.length packets).flatten = further ∧
      HTTPConnection.run parse client {} (seen ++ [data]) = r.arrived parse client body ∧
      HTTPConnection.run parse client {} packets
        = (r.arrived parse client body).run parse client (behind r.text.length packets) := by
  have hpos : 0 < r.text.length := by simp [Request.text]
  obtain ⟨seen, data, hpackets, hlt, hge⟩ := behind_spec packets r.text.length hpos
    (by rw [hflat, List.length_append]; omega)
  have hall : seen.flatten ++ data ++ (behind r.text.length packets).flatten = r.text ++ further := by
    rw [← hflat]
    nth_rewrite 2 [hpackets]
    rw [List.flatten_append, List.flatten_cons, List.append_assoc]
  obtain ⟨body, hbody⟩ : r.text <+: seen.flatten ++ data := by
    refine List.prefix_of_prefix_length_le (List.prefix_append r.text further) ?_ (by rw [List.length_append]; exact hge)
    rw [← hall]
    exact List.prefix_append _ _
  have harrived : HTTPConnection.run parse client {} (seen ++ [data]) = r.arrived parse client body := by
    rw [HTTPConnection.run_append, run_before hreadable huncut hflat hpackets hlt]
    exact receive_whole r hreadable hbody.symm
  refine ⟨seen, data, body, hpackets, hlt, ?_, harrived, ?_⟩
  · rw [← hbody, List.append_assoc] at hall
    exact List.append_cancel_left hall
  · nth_rewrite 1 [hpackets]
    rw [← harrived, ← HTTPConnection.run_append, List.append_assoc]
    rfl

theorem accepted_later {body : Bytes} {late : List Bytes}
    (hquiet : ¬ r.toUpgrade → ∀ seen rest, late = seen ++ rest → parseHTTPRequestFromBuffer parse seen.flatten = none) :
    ((r.arrived parse client body).run parse client late).accepted = [{ r.parsed parse with body := body }] := by
  by_cases h : r.toUpgrade
  · rw [HTTPConnection.run_frames late _ (if_pos h)]
    rfl
  · rw [HTTPConnection.run_waiting late _ (if_neg h) fun seen rest hlate _ => hquiet h seen rest hlate]
    rfl

theorem length_cut (r : Request) (k : Nat) : (r.firstLine ++ LF :: lines (r.headers.take k)).length < r.text.length := by
  have hsplit : lines r.headers = lines (r.headers.take k) ++ lines (r.headers.drop k) := by
    rw [lines, lines, lines, ← List.flatMap_append, List.take_append_drop]
  simp only [Request.text, hsplit, List.length_append, List.length_cons]
  omega

theorem Packets.of_reads {parse : WString → WString} {client : WString → Bool} (hflat : packets.flatten = r.text ++ further)
    (h : ReadsRequest parse client r further packets) : Packets parse client r further packets := by
  obtain ⟨⟨q, hq, haccepted⟩, hframes⟩ := h
  have hreadable : ∀ h ∈ r.headers, h.Readable := readable_of_parse r (by rw [hq]; simp)
  have huncut : Uncut r packets := by
    intro seen rest hpackets k hk hle hcut
    have hnone := haccepted seen rest hpackets
    rw [if_neg (Nat.not_le_of_lt (by rw [hcut]; exact length_cut r k)), List.map_eq_nil_iff] at hnone
    have hseen : seen ≠ [] := by
      rintro rfl
      exact absurd hcut.symm (by simp)
    refine absurd ?_ (@parse_cut parse r hreadable k hk hle)
    rw [← hcut]
    exact HTTPConnection.none_of_accepted seen {} rfl hnone seen [] (List.append_nil seen).symm hseen
  obtain ⟨seen, data, body, hpackets, hlt, hfurther, harrived, hrun⟩ := run_arrived parse client hreadable huncut hflat
  refine ⟨hreadable, huncut, fun hupgrade hclient => ?_, fun hupgrade => ?_⟩
  · rw [hrun, HTTPConnection.run_frames _ _ (if_pos hupgrade)] at hframes
    refine hframes ?_
    show (decide r.toUpgrade && client _) = true
    rw [decide_eq_true hupgrade, hclient]
    rfl
  · intro seen' rest hlate
    cases seen' with
    | nil => exact parse_unfinished (by simp)
    | cons d seen' =>
      have hall := haccepted packets [] (List.append_nil packets).symm
      rw [if_pos (by rw [hflat, List.length_append]; omega), hrun] at hall
      -- one request has been accepted, and no other is
      have hsame : ((r.arrived parse client body).run parse client (behind r.text.length packets)).accepted
          = (r.arrived parse client body).accepted := by
        have hlen := congrArg List.length hall
        rw [List.length_map] at hlen
        exact ((HTTPConnection.accepted_run _ _).eq_of_length hlen.symm).symm
      exact HTTPConnection.none_of_accepted _ _ (if_neg hupgrade) hsame (d :: seen') rest hlate (by simp)

theorem ReadsRequest.of_packets {parse : WString → WString} {client : WString → Bool}
    (hflat : packets.flatten = r.text ++ further) (h : Packets parse client r further packets) :
    ReadsRequest parse client r further packets := by
  obtain ⟨hreadable, huncut, hupgrade, hquiet⟩ := h
  obtain ⟨seen, data, body, hpackets, hlt, hfurther, harrived, hrun⟩ := run_arrived parse client hreadable huncut hflat
  have hwhole := @parse_whole parse r hreadable []
  rw [List.append_nil] at hwhole
  refine ⟨⟨_, hwhole, fun seen' rest hseen' => ?_⟩, fun hestablished => ?_⟩
  · by_cases hle : r.text.length ≤ seen'.flatten.length
    · rw [if_pos hle]
      obtain ⟨more, hmore⟩ : seen ++ [data] <+: seen' := by
        have h1 : seen ++ [data] <+: packets := ⟨behind r.text.length packets, by rw [List.append_assoc]; exact hpackets.symm⟩
        have h2 : seen' <+: packets := ⟨rest, hseen'.symm⟩
        refine List.prefix_of_prefix_length_le h1 h2 ?_
        rw [List.length_append, List.length_singleton]
        by_contra hshort
        have hpart : seen' <+: seen := by
          refine List.prefix_of_prefix_length_le h2 ((List.prefix_append seen [data]).trans h1) ?_
          omega
        obtain ⟨t, rfl⟩ := hpart
        rw [List.flatten_append, List.length_append] at hlt
        omega
      have hlate : behind r.text.length packets = more ++ rest := by
        have hboth : seen ++ data :: behind r.text.length packets = seen ++ data :: (more ++ rest) := by
          rw [← hpackets, hseen', ← hmore, List.append_assoc, List.append_assoc]
          rfl
        exact (List.cons.inj (List.append_cancel_left hboth)).2
      rw [← hmore, HTTPConnection.run_append, harrived, accepted_later fun hu s t hs =>
        hquiet hu s (t ++ rest) (by rw [hlate, hs, List.append_assoc])]
      rfl
    · rw [if_neg hle, run_before hreadable huncut hflat hseen' (Nat.lt_of_not_le hle)]
      rfl
  · rw [hrun] at hestablished ⊢
    by_cases hu : r.toUpgrade
    · rw [HTTPConnection.run_frames _ _ (if_pos hu)] at hestablished ⊢
      have hclient : (decide r.toUpgrade && client (kurlString parse (fromLatin1 r.url))) = true := hestablished
      exact hupgrade hu ((Bool.and_eq_true _ _).mp hclient).2
    · rw [HTTPConnection.run_waiting _ _ (if_neg hu) fun s t hs _ => hquiet hu s t hs] at hestablished
      have hclient : (decide r.toUpgrade && client (kurlString parse (fromLatin1 r.url))) = true := hestablished
      rw [decide_eq_false hu] at hclient
      exact absurd hclient (by simp)

theorem ReadsRequest.messages {parse : WString → WString} {client : WString → Bool}
    (h : ReadsRequest parse client r further packets)
    (hestablished : (HTTPConnection.run parse client {} packets).established = true)
    (hfine : (scan further).malformed = false) (garbage : Nat → Nat) :
    ∃ fuel c, Connection.receive garbage fuel {} (HTTPConnection.run parse client {} packets).frameCalls = some c ∧
      c.messages = (scan further).texts := by
  have hframes := h.frames hestablished
  have hread := Connection.receive_fine garbage (further.length + 1) (HTTPConnection.run parse client {} packets).frameCalls
    {} rfl (by rw [hframes]; exact hfine) (by rw [hframes]; exact Nat.lt_succ_self _)
  refine ⟨_, _, hread, ?_⟩
  rw [hframes]
  rfl

/-- **A request in packets** is read as it should be exactly if the packets are such. -/
theorem reads_request_iff (parse : WString → WString) (client : WString → Bool) (r : Request) (further : Bytes)
    (packets : List Bytes) (hflat : packets.flatten = r.text ++ further) :
    ReadsRequest parse client r further packets ↔ Packets parse client r further packets :=
  ⟨Packets.of_reads hflat, ReadsRequest.of_packets hflat⟩

end

end

/-- `A: b` -/
def shortHeader : Header where
  name := [0x41]
  spaces := 1
  value := [0x62]
  name_ne := by decide
  name_ok := by decide
  value_ok := by decide
  value_start := by decide

/-- `GET /` with one header -/
def getRequest : Request where
  method := [0x47, 0x45, 0x54]
  url := [0x2F]
  headers := [shortHeader]
  method_ne := by decide
  method_ok := by decide
  url_ne := by decide
  url_ok := by decide

/-- the request cut between CR and LF, twice, and a byte behind it -/
def getPackets : List Bytes := [getRequest.firstLine, LF :: lines getRequest.headers ++ [CR], [LF], [0x58]]

theorem reads_get : ReadsRequest id (fun _ => true) getRequest [0x58] getPackets
    ↔ Packets id (fun _ => true) getRequest [0x58] getPackets :=
  reads_request_iff id (fun _ => true) getRequest [0x58] getPackets rfl

/-- a packet that ends with the header -/
theorem header_taken_for_the_end : ¬ ∀ (parse : WString → WString) (client : WString → Bool) (r : Request)
    (further : Bytes) (packets : List Bytes), packets.flatten = r.text ++ further →
      ReadsRequest parse client r further packets := by
  intro h
  have hreads := h id (fun _ => true) getRequest [] [getRequest.firstLine ++ LF :: lines getRequest.headers, [CR, LF]] rfl
  exact (Packets.of_reads rfl hreads).uncut [getRequest.firstLine ++ LF :: lines getRequest.headers] [[CR, LF]] rfl 1
    Nat.one_pos (Nat.le_refl 1) rfl

end Inspector
end Wkc
