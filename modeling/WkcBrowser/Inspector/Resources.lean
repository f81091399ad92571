import WkcBrowser.Inspector.PageList
import WkcBrowser.Lib.Paths
import WkcBrowser.Lib.Segments

/-!
# The resources that the inspector server hands out

The path of a request is appended to the resource path as it is, and the file of that name is opened.

* `ResourceServer`                           the resource path;
* `kurlString`, `cutPath`                    the path of a request target;
* `platformResourceForPath`, `readFile`      the file or the page list;
* `didReceiveUnrecognizedHTTPRequest`        the response;
* `directory`, `Inside`                      where a path leads;
* `Serves`                                   what the server should hand out;
* `Confined`                                 the paths that come back into the directory whenever they leave it;
* `serves_iff`                               the requests that are served as they should be.
-/

namespace Wkc
namespace Inspector
open AuthenticateHeader (wide HTTPHeaderMap setHTTPHeaderField)
open Ssl (number)

/-! ## the resource path -/

/-- `gResourcePathPrefix` is a C string -/
structure ResourceServer where
  resourcePath : Bytes
  noNul : 0 ∉ resourcePath

namespace ResourceServer

def localPath (s : ResourceServer) (path : WString) : WString :=
  fromLatin1 s.resourcePath ++ if path = wide "/" then wide "/inspectorPageIndex.html" else path

end ResourceServer

/-! ## the path of a request -/

def shouldTrimFromURL (c : UInt16) : Bool := c.toNat ≤ 0x20

def isSchemeFirstChar (c : UInt16) : Bool :=
  (0x41 ≤ c.toNat && c.toNat ≤ 0x5A) || (0x61 ≤ c.toNat && c.toNat ≤ 0x7A)

def isSchemeChar (c : UInt16) : Bool := isSchemeFirstChar c || isASCIIDigit c || c == 0x2B || c == 0x2D || c == 0x2E

/-- what `KURL::init` takes for a URL with a scheme; other than ASCII texts end at a NUL -/
def isAbsolute (relative : WString) : Bool :=
  let rel := if relative.all isASCII then relative else relative.takeWhile (fun c => c != 0)
  match rel.dropWhile shouldTrimFromURL with
  | [] => false
  | c :: rest => isSchemeFirstChar c && (rest.dropWhile isSchemeChar).head? == some 0x3A

/-- the text of `KURL(KURL(), target)`; `parse` is `KURL::parse` for a URL with a scheme -/
def kurlString (parse : WString → WString) (target : WString) : WString :=
  if isAbsolute target then parse target else target

def cutPath (url : WString) : WString :=
  if 0x3F ∈ url then url.takeWhile (fun c => c != 0x3F) else url.takeWhile (fun c => c != 0x23)

/-! ## the file -/

/-- the bytes of a buffer; what was not written is `none` -/
abbrev Cells := List (Option UInt8)

/-- `count`: the number of bytes that a read gives, of those asked for at an offset -/
structure File where
  content : Bytes
  stat : Bool
  count : Nat → Nat → Nat

def File.read (f : File) (ofs size : Nat) : Bytes := (f.content.drop ofs).take (min (f.count ofs size) size)

/-- the loop of `platformResourceForPath`, and whether it reaches the end -/
def readFile (f : File) (ofs : Nat) (data : Cells) : Cells × Bool :=
  if ofs < f.content.length then
    let chunk := f.read ofs (f.content.length - ofs)
    if chunk.length = 0 then (data, false)
    else readFile f (ofs + chunk.length) (Segments.place data ofs (chunk.map some))
  else (data, true)
  termination_by f.content.length - ofs
  decreasing_by
    have hpos : 0 < (f.read ofs (f.content.length - ofs)).length := Nat.pos_of_ne_zero ‹_›
    omega

/-- the files and the MIME types; a name is the C string of a UTF-8 text -/
structure Peers where
  wkcFileFOpenPeer : Bytes → Option File
  getMIMETypeForExtension : WString → WString

/-- what stands behind the last point, or the whole -/
def extension (localPath : WString) : WString := (localPath.reverse.takeWhile (fun c => c != 0x2E)).reverse

def isPageList (path : WString) : Bool := path == wide "/pagelist.json" || path == wide "/pagelist.js"

/-- the name in the text of `localPath`: `fopen` sees it up to a NUL -/
def openedName (localPath : WString) : WString := localPath.takeWhile (fun c => c != 0)

structure Answer where
  found : Bool
  data : Cells
  contentType : WString

/-- the part of `platformResourceForPath` for a file -/
def loadFile (peers : Peers) (localPath : WString) : Answer :=
  match peers.wkcFileFOpenPeer (utf8 (openedName localPath)) with
  | none => ⟨false, [], []⟩
  | some f =>
    if f.stat then
      let (data, complete) := readFile f 0 (List.replicate f.content.length none)
      if complete then ⟨true, data, peers.getMIMETypeForExtension (extension localPath)⟩ else ⟨false, data, []⟩
    else ⟨false, [], []⟩

def platformResourceForPath (s : ResourceServer) (pages : List Page) (peers : Peers) (path : WString) : Answer :=
  if isPageList path then
    let list := buildPageList (path == wide "/pagelist.js") pages
    ⟨true, list.data.map some, list.contentType⟩
  else loadFile peers (s.localPath path)

/-! ## the response -/

structure Response where
  statusCode : Nat
  statusText : WString
  headerFields : HTTPHeaderMap
  body : Cells

def didReceiveUnrecognizedHTTPRequest (s : ResourceServer) (pages : List Page) (peers : Peers) (url : WString) :
    Response :=
  let path := cutPath url
  let answer := platformResourceForPath s pages peers path
  let headerFields := setHTTPHeaderField [] (wide "Connection") (wide "close")
  let headerFields := setHTTPHeaderField headerFields (wide "Content-Length") (number answer.data.length)
  let headerFields :=
    if answer.found then
      let headerFields := setHTTPHeaderField headerFields (wide "Content-Type") answer.contentType
      if isPageList path then headerFields
      else setHTTPHeaderField headerFields (wide "Cache-Control") (wide "max-age=8640000")
    else headerFields
  ⟨if answer.found then 200 else 404, if answer.found then wide "OK" else wide "Not Found", headerFields, answer.data⟩

/-! ## directories -/

def segOf (segment : WString) : Paths.Seg WString :=
  if segment = [] ∨ segment = wide "." then .stay else if segment = wide ".." then .up else .down segment

def segments (text : WString) : List (Paths.Seg WString) := (splitAll 0x2F text).map segOf

/-- where a text starts: at the root, or in the working directory -/
def start (cwd : List WString) (text : WString) : List WString := if text.head? = some 0x2F then [] else cwd

def resolveText (cwd : List WString) (text : WString) : List WString := Paths.resolve (start cwd text) (segments text)

namespace ResourceServer

def directory (s : ResourceServer) (cwd : List WString) : List WString :=
  resolveText cwd (fromLatin1 s.resourcePath ++ [0x2F])

/-- in the directory, or the directory itself -/
def Inside (s : ResourceServer) (cwd : List WString) (name : WString) : Prop := s.directory cwd <+: resolveText cwd name

/-- the file that is opened for a path -/
def opens (s : ResourceServer) (path : WString) : Option WString :=
  if isPageList path then none else some (openedName (s.localPath path))

end ResourceServer

/-- What is opened for a URL lies in the directory, and a response with status 200 is the page list or the file. -/
structure Serves (s : ResourceServer) (cwd : List WString) (pages : List Page) (url : WString) : Prop where
  inside : ∀ name, s.opens (cutPath url) = some name → s.Inside cwd name
  response : ∀ peers, (didReceiveUnrecognizedHTTPRequest s pages peers url).statusCode = 200 →
    (isPageList (cutPath url) = true ∧ (didReceiveUnrecognizedHTTPRequest s pages peers url).body
        = (buildPageList (cutPath url == wide "/pagelist.js") pages).data.map some) ∨
      ∃ name f, s.opens (cutPath url) = some name ∧ peers.wkcFileFOpenPeer (utf8 name) = some f ∧
        (didReceiveUnrecognizedHTTPRequest s pages peers url).body = f.content.map some ∧
        (didReceiveUnrecognizedHTTPRequest s pages peers url).headerFields.get (wide "Content-Length")
          = some (number f.content.length)

/-! ## reading a file -/

theorem length_read_le (f : File) (ofs size : Nat) : (f.read ofs size).length ≤ f.content.length - ofs := by
  rw [File.read, List.length_take, List.length_drop]
  exact Nat.min_le_right _ _

theorem readFile_whole (f : File) (ofs : Nat) (data : Cells) :
    (readFile f ofs data).2 = true → data.length = f.content.length → data.take ofs = (f.content.take ofs).map some →
      (readFile f ofs data).1 = f.content.map some := by
  fun_induction readFile f ofs data with
  | case1 ofs data hlt chunk hchunk =>
    intro h
    exact absurd h (by simp)
  | case2 ofs data hlt chunk hchunk ih =>
    intro h hlen htake
    have hle : chunk.length ≤ f.content.length - ofs := length_read_le f ofs _
    have hfit : ofs + (chunk.map some).length ≤ data.length := by
      rw [List.length_map]
      omega
    have hprefix : chunk = (f.content.drop ofs).take chunk.length :=
      List.prefix_iff_eq_take.mp (List.take_prefix _ _)
    refine ih h ((Segments.length_place hfit).trans hlen) ?_
    rw [← List.length_map (f := some), Segments.take_place (by omega), htake, List.length_map, List.take_add,
      List.map_append, ← hprefix]
  | case3 ofs data hge =>
    intro _ hlen htake
    rw [List.take_of_length_le (by omega), List.take_of_length_le (by omega)] at htake
    exact htake

theorem loadFile_found {peers : Peers} {localPath : WString} (h : (loadFile peers localPath).found = true) :
    ∃ f, peers.wkcFileFOpenPeer (utf8 (openedName localPath)) = some f ∧
      (loadFile peers localPath).data = f.content.map some := by
  unfold loadFile at h ⊢
  cases hf : peers.wkcFileFOpenPeer (utf8 (openedName localPath)) with
  | none =>
    rw [hf] at h
    exact absurd h (by simp)
  | some f =>
    refine ⟨f, rfl, ?_⟩
    rw [hf] at h
    simp only at h ⊢
    split at h
    · next hstat =>
      split at h
      · next hcomplete =>
        rw [if_pos hstat, if_pos hcomplete]
        exact readFile_whole f 0 _ hcomplete (List.length_replicate ..) rfl
      · exact absurd h (by simp)
    · exact absurd h (by simp)

/-! ## inside the directory -/

/-- the resource path behind its last `/`, and before it -/
def lastSegment (text : WString) : WString := (text.reverse.takeWhile (fun c => c != 0x2F)).reverse

def parentText (text : WString) : WString := (text.reverse.dropWhile (fun c => c != 0x2F)).reverse

theorem parentText_append (text : WString) : parentText text ++ lastSegment text = text := by
  rw [parentText, lastSegment, ← List.reverse_append, List.takeWhile_append_dropWhile, List.reverse_reverse]

theorem parentText_ends (text : WString) : parentText text = [] ∨ ∃ t, parentText text = t ++ [0x2F] := by
  unfold parentText
  cases h : text.reverse.dropWhile (fun c => c != 0x2F) with
  | nil => exact Or.inl rfl
  | cons c t =>
    have hc : c = 0x2F := by
      have hhead := List.head?_dropWhile_not (fun c : UInt16 => c != 0x2F) text.reverse
      rw [h] at hhead
      simpa using hhead
    refine Or.inr ⟨t.reverse, ?_⟩
    rw [List.reverse_cons, hc]

theorem lastSegment_noSlash (text : WString) : 0x2F ∉ lastSegment text := by
  intro h
  have hslash := List.mem_takeWhile_imp (List.mem_reverse.mp h)
  exact absurd hslash (by decide)

theorem segments_last {segment : WString} (h : 0x2F ∉ segment) (dir : List WString) :
    Paths.resolve dir (segments (segment ++ [0x2F])) = Paths.enter dir (segOf segment) := by
  rw [segments, splitAll_append, splitAll_word h]
  rfl

theorem resolve_parent {p : WString} (h : p = [] ∨ ∃ t, p = t ++ [0x2F]) (dir : List WString) (text : WString) :
    Paths.resolve dir (segments (p ++ text)) = Paths.resolve (Paths.resolve dir (segments p)) (segments text) := by
  obtain rfl | ⟨t, rfl⟩ := h
  · rfl
  · rw [List.append_assoc, List.singleton_append, segments, splitAll_append, List.map_append, Paths.resolve_append,
      segments, splitAll_append, List.map_append, Paths.resolve_append]
    rfl

namespace ResourceServer

/-- the directory that the last segment of the resource path is in -/
def parent (s : ResourceServer) (cwd : List WString) : List WString :=
  Paths.resolve (start cwd (fromLatin1 s.resourcePath)) (segments (parentText (fromLatin1 s.resourcePath)))

/-- The path is glued to the last segment of the resource path, which is read from the parent directory.  Where this
goes up, it comes back through the same directories. -/
def Confined (s : ResourceServer) (cwd : List WString) (path : WString) : Prop :=
  let way := Paths.climb (segments (openedName (lastSegment (fromLatin1 s.resourcePath)
    ++ if path = wide "/" then wide "/inspectorPageIndex.html" else path)))
  (s.directory cwd).drop ((s.parent cwd).length - way.1) <+: way.2

theorem noNul_latin1 (s : ResourceServer) : ∀ c ∈ fromLatin1 s.resourcePath, (c != 0) = true := by
  intro c hc
  obtain ⟨b, hb, rfl⟩ := List.mem_map.mp hc
  have hne : b ≠ 0 := fun h => s.noNul (h ▸ hb)
  refine bne_iff_ne.mpr fun hzero => hne ?_
  have hnat := congrArg UInt16.toNat hzero
  rw [UInt8.toNat_toUInt16] at hnat
  exact UInt8.toNat_inj.mp hnat

theorem start_append {p : WString} (hp : p ≠ []) (cwd : List WString) (text : WString) :
    start cwd (p ++ text) = start cwd p := by
  rw [start, start, List.head?_append, Option.or_of_isSome (List.isSome_head?.mpr hp)]

theorem directory_eq (s : ResourceServer) (cwd : List WString) (h : fromLatin1 s.resourcePath ≠ []) :
    s.directory cwd = Paths.enter (s.parent cwd) (segOf (lastSegment (fromLatin1 s.resourcePath))) := by
  have hends := parentText_ends (fromLatin1 s.resourcePath)
  rw [directory, resolveText, start_append h]
  nth_rewrite 2 [← parentText_append (fromLatin1 s.resourcePath)]
  rw [List.append_assoc, resolve_parent hends, segments_last (lastSegment_noSlash _)]
  rfl

theorem resolve_opened (s : ResourceServer) (cwd : List WString) (h : fromLatin1 s.resourcePath ≠ []) (q : WString) :
    resolveText cwd (openedName (fromLatin1 s.resourcePath ++ q))
      = Paths.resolve (s.parent cwd) (segments (openedName (lastSegment (fromLatin1 s.resourcePath) ++ q))) := by
  have hends := parentText_ends (fromLatin1 s.resourcePath)
  have hnoNul := s.noNul_latin1
  have hname : openedName (fromLatin1 s.resourcePath ++ q)
      = parentText (fromLatin1 s.resourcePath) ++ openedName (lastSegment (fromLatin1 s.resourcePath) ++ q) := by
    have hparent : ∀ c ∈ parentText (fromLatin1 s.resourcePath), (c != 0) = true := fun c hc =>
      hnoNul c ((parentText_append (fromLatin1 s.resourcePath)) ▸ List.mem_append_left _ hc)
    nth_rewrite 1 [← parentText_append (fromLatin1 s.resourcePath)]
    rw [openedName, List.append_assoc, List.takeWhile_append_of_pos hparent]
    rfl
  have hstart : start cwd (openedName (fromLatin1 s.resourcePath ++ q)) = start cwd (fromLatin1 s.resourcePath) := by
    rw [openedName, List.takeWhile_append_of_pos hnoNul, start_append h]
  rw [resolveText, hstart, hname, resolve_parent hends]
  rfl

/-- **The file lies in the directory** exactly if the path is confined to it. -/
theorem inside_iff (s : ResourceServer) (cwd : List WString) (path : WString) :
    s.Inside cwd (openedName (s.localPath path)) ↔ s.Confined cwd path := by
  by_cases h : fromLatin1 s.resourcePath = []
  · -- the directory is the root
    have hroot : s.directory cwd = [] := by
      rw [directory, h]
      rfl
    rw [Inside, Confined, hroot, List.drop_nil]
    exact ⟨fun _ => List.nil_prefix, fun _ => List.nil_prefix⟩
  · rw [Inside, localPath, s.resolve_opened cwd h, Confined, s.directory_eq cwd h]
    exact Paths.within_iff _ _ _

end ResourceServer

theorem status_found {s : ResourceServer} {pages : List Page} {peers : Peers} {url : WString}
    (h : (didReceiveUnrecognizedHTTPRequest s pages peers url).statusCode = 200) :
    (platformResourceForPath s pages peers (cutPath url)).found = true := by
  by_contra hfound
  rw [didReceiveUnrecognizedHTTPRequest] at h
  simp only [if_neg hfound] at h
  exact absurd h (by decide)

theorem get_set_other {name other : WString} (h : equalIgnoringCase name other = false) (fields : HTTPHeaderMap)
    (value : WString) : (setHTTPHeaderField fields name value).get other = fields.get other := by
  unfold setHTTPHeaderField HTTPHeaderMap.update
  split
  · rw [HTTPHeaderMap.get, HTTPHeaderMap.get, List.find?_map, Option.map_map]
    show Option.map _ (fields.find? fun field => equalIgnoringCase field.1 other) = _
    cases hfind : fields.find? (fun field => equalIgnoringCase field.1 other) with
    | none => rfl
    | some field =>
      have hother : equalIgnoringCase field.1 other = true := by simpa using List.find?_some hfind
      have hname : equalIgnoringCase field.1 name = false := by
        by_contra hsame
        rw [Bool.not_eq_false] at hsame
        have hboth : equalIgnoringCase name other = true := by
          unfold equalIgnoringCase at hother hsame ⊢
          rw [← beq_iff_eq.mp hsame]
          exact hother
        exact absurd hboth (by simp [h])
      rw [Option.map_some, Option.map_some, Function.comp, if_neg (by simp [hname])]
  · rw [HTTPHeaderMap.get, List.find?_append]
    cases hfind : fields.find? (fun field => equalIgnoringCase field.1 other) with
    | none => simp [HTTPHeaderMap.get, hfind, h]
    | some field => simp [HTTPHeaderMap.get, hfind]

theorem content_length (s : ResourceServer) (pages : List Page) (peers : Peers) (url : WString) :
    (didReceiveUnrecognizedHTTPRequest s pages peers url).headerFields.get (wide "Content-Length")
      = some (number (didReceiveUnrecognizedHTTPRequest s pages peers url).body.length) := by
  have hset : ∀ (fields : HTTPHeaderMap) (value : WString), fields.get (wide "Content-Length") = none →
      (setHTTPHeaderField fields (wide "Content-Length") value).get (wide "Content-Length") = some value := by
    intro fields value hnone
    rw [setHTTPHeaderField, AuthenticateHeader.get_update, hnone]
    rfl
  rw [didReceiveUnrecognizedHTTPRequest]
  simp only
  split
  · split
    · rw [get_set_other (by decide), hset _ _ (get_set_other (by decide) [] _)]
    · rw [get_set_other (by decide), get_set_other (by decide), hset _ _ (get_set_other (by decide) [] _)]
  · rw [hset _ _ (get_set_other (by decide) [] _)]

/-- **The inspector serves its own resources** and nothing else exactly if the path of the request is confined to their
directory, or is that of the page list. -/
theorem serves_iff (s : ResourceServer) (cwd : List WString) (pages : List Page) (parse : WString → WString)
    (target : WString) : Serves s cwd pages (kurlString parse target)
      ↔ isPageList (cutPath (kurlString parse target)) = true ∨ s.Confined cwd (cutPath (kurlString parse target)) := by
  generalize kurlString parse target = url
  constructor
  · intro h
    by_cases hlist : isPageList (cutPath url) = true
    · exact Or.inl hlist
    · exact Or.inr ((s.inside_iff cwd _).mp (h.inside _ (if_neg hlist)))
  · intro h
    constructor
    · intro name hname
      rw [ResourceServer.opens] at hname
      split at hname
      · exact absurd hname (by simp)
      · next hlist =>
        rw [← Option.some.inj hname]
        exact (s.inside_iff cwd _).mpr (h.resolve_left hlist)
    · intro peers hstatus
      have hfound := status_found hstatus
      have hlength := content_length s pages peers url
      by_cases hlist : isPageList (cutPath url) = true
      · refine Or.inl ⟨hlist, ?_⟩
        show (platformResourceForPath s pages peers (cutPath url)).data = _
        rw [platformResourceForPath, if_pos hlist]
      · have hanswer : platformResourceForPath s pages peers (cutPath url) = loadFile peers (s.localPath (cutPath url)) :=
          if_neg hlist
        rw [hanswer] at hfound
        obtain ⟨f, hf, hdata⟩ := loadFile_found hfound
        have hbody : (didReceiveUnrecognizedHTTPRequest s pages peers url).body = f.content.map some := by
          rw [← hdata, ← hanswer]
          rfl
        rw [hbody, List.length_map] at hlength
        exact Or.inr ⟨_, f, if_neg hlist, hf, hbody, hlength⟩

/-- resources in `/res` -/
def resServer : ResourceServer := ⟨[0x2F, 0x72, 0x65, 0x73], by decide⟩

/-- a `..` at the beginning -/
theorem up_from_the_resources :
    ¬ ∀ (s : ResourceServer) (cwd : List WString) (pages : List Page) (parse : WString → WString) (target : WString),
      Serves s cwd pages (kurlString parse target) := by
  intro h
  have hinside := (h resServer [] [] id (wide "/../x")).inside (wide "/res/../x") (by decide)
  have hdirectory : resServer.directory [] = [wide "res"] := by decide
  have hname : resolveText [] (wide "/res/../x") = [wide "x"] := by decide
  rw [ResourceServer.Inside, hdirectory, hname] at hinside
  exact absurd hinside (by decide)

end Inspector
end Wkc
