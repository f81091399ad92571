import WkcBrowser.Lib.Bytes
import WkcBrowser.Wtf.Text

/-!
# `MHTMLWebArchive`: the tree, the headers, the size query

A saved page is a tree of archives, one for each frame.  Only the resources with a new URL and a body are
saved, and three recursions look for them on their own.

* `makeMessageHeader`, `makePartHeader`, `makeBoundary`   the text around the bodies, and its size;
* `MHTMLWebArchive`, `resources`                          the tree, and what a walk over it meets;
* `caculateItems`                                         how many resources will be saved;
* `getItemsSize`, `getBufferSize`                         how many bytes that will be.

Sizes are natural numbers: what is saved lies in memory, and its size fits an `int`.  Every frame has a
main resource.
-/

namespace Wkc

structure ArchiveResource where
  url : WString
  mimeType : WString
  textEncoding : WString
  data : Bytes
  deriving DecidableEq

namespace Mhtml

def text (cs : List Char) : Bytes := cs.map (fun c => UInt8.ofNat c.toNat)

/-- UTF-16 units appended to a `Vector<char>` -/
def chars (s : WString) : Bytes := s.map UInt16.toUInt8

@[simp] theorem chars_length (s : WString) : (chars s).length = s.length := List.length_map ..

def CRLF : Bytes := [0x0D, 0x0A]

def PAGESAVE_BOUNDARY_STR : Bytes :=
  text ['-', '-', '=', 'W', 'K', 'C', '-', 'P', 'a', 'g', 'e', 'S', 'a', 'v', 'e', '-',
    'B', 'o', 'u', 'n', 'd', 'a', 'r', 'y']

def PAGESAVE_BOUNDARY_LEN : Nat := 24

def mimeVersion : Bytes :=
  text ['M', 'i', 'm', 'e', '-', 'V', 'e', 'r', 's', 'i', 'o', 'n', ':', ' ', '1', '.', '0'] ++ CRLF

def contentType : Bytes := text ['C', 'o', 'n', 't', 'e', 'n', 't', '-', 'T', 'y', 'p', 'e', ':', ' ']

def contentLocation : Bytes :=
  text ['C', 'o', 'n', 't', 'e', 'n', 't', '-', 'L', 'o', 'c', 'a', 't', 'i', 'o', 'n', ':', ' ']

def multipartRelated : Bytes :=
  text ['m', 'u', 'l', 't', 'i', 'p', 'a', 'r', 't', '/', 'r', 'e', 'l', 'a', 't', 'e', 'd']

def boundaryIs : Bytes := text ['\t', 'b', 'o', 'u', 'n', 'd', 'a', 'r', 'y', '=', '"']

def typeIs : Bytes := text ['\t', 't', 'y', 'p', 'e', '=', '"']

def charsetIs : Bytes := text ['\t', 'c', 'h', 'a', 'r', 's', 'e', 't', '=', '"']

def preamble : Bytes :=
  text ['T', 'h', 'i', 's', ' ', 'i', 's', ' ', 'a', ' ', 'm', 'u', 'l', 't', 'i', '-', 'p', 'a', 'r', 't',
    ' ', 'm', 'e', 's', 's', 'a', 'g', 'e', ' ', 'i', 'n', ' ', 'M', 'I', 'M', 'E', ' ',
    'f', 'o', 'r', 'm', 'a', 't', '.'] ++ CRLF

/-! ## the text around the bodies -/

def makeMessageHeader (type : WString) (multipart : Bool) : Bytes :=
  mimeVersion ++
    if multipart then
      contentType ++ multipartRelated ++ text [';', ' '] ++ CRLF ++ boundaryIs ++ PAGESAVE_BOUNDARY_STR ++
        (if type.isEmpty then [] else text ['"', ';'] ++ CRLF ++ typeIs ++ chars type) ++
        text ['"'] ++ CRLF ++ CRLF ++ preamble
    else []

/-- nothing without a URL -/
def makePartHeader (r : ArchiveResource) : Bytes :=
  if r.url.isEmpty then []
  else
    (if r.mimeType.isEmpty then []
      else contentType ++ chars r.mimeType ++
        (if r.textEncoding.isEmpty then []
          else text [';'] ++ CRLF ++ charsetIs ++ chars r.textEncoding ++ text ['"']) ++ CRLF) ++
      contentLocation ++ chars r.url ++ CRLF ++ CRLF

/-- `last`: the boundary that ends the message -/
def makeBoundary (last : Bool) : Bytes :=
  CRLF ++ text ['-', '-'] ++ PAGESAVE_BOUNDARY_STR ++ (if last then text ['-', '-'] else []) ++ CRLF

/-! the same functions without a place to write to -/

def messageHeaderSize (type : WString) (multipart : Bool) : Nat :=
  if multipart then PAGESAVE_BOUNDARY_LEN + 116 + if type.isEmpty then 0 else type.length + 11
  else 19

def partHeaderSize (r : ArchiveResource) : Nat :=
  if r.url.isEmpty then 0
  else
    (if r.mimeType.isEmpty then 0
      else r.mimeType.length + 16 + if r.textEncoding.isEmpty then 0 else r.textEncoding.length + 14) +
      (r.url.length + 2) + 18 + 2

def boundarySize (last : Bool) : Nat :=
  if last then PAGESAVE_BOUNDARY_LEN + 8 else PAGESAVE_BOUNDARY_LEN + 6

theorem makeMessageHeader_length (type : WString) (multipart : Bool) :
    (makeMessageHeader type multipart).length = messageHeaderSize type multipart := by
  cases multipart with
  | false => rfl
  | true =>
    cases type with
    | nil =>
      simp [makeMessageHeader, messageHeaderSize, mimeVersion, contentType, multipartRelated, boundaryIs,
        PAGESAVE_BOUNDARY_STR, PAGESAVE_BOUNDARY_LEN, preamble, CRLF, text]
    | cons c type =>
      simp [makeMessageHeader, messageHeaderSize, mimeVersion, contentType, multipartRelated, boundaryIs,
        PAGESAVE_BOUNDARY_STR, PAGESAVE_BOUNDARY_LEN, typeIs, preamble, CRLF, text]
      omega

theorem makePartHeader_length (r : ArchiveResource) :
    (makePartHeader r).length = partHeaderSize r := by
  unfold makePartHeader partHeaderSize
  split
  · rfl
  · split
    · simp [contentLocation, CRLF, text]
    · split
      · simp [contentType, contentLocation, CRLF, text]
        omega
      · simp [contentType, contentLocation, charsetIs, CRLF, text]
        omega

theorem makeBoundary_length (last : Bool) : (makeBoundary last).length = boundarySize last := by
  cases last with
  | false | true => rfl

theorem makePartHeader_ne_nil {r : ArchiveResource} (h : r.url ≠ []) : makePartHeader r ≠ [] := by
  intro hnil
  have hlen := makePartHeader_length r
  have hurl : ¬ r.url.isEmpty = true := by simpa using h
  rw [hnil, partHeaderSize, if_neg hurl, List.length_nil] at hlen
  omega

end Mhtml

/-! ## the tree -/

inductive MHTMLWebArchive where
  | create (mainResource : ArchiveResource) (subresources : List ArchiveResource)
      (subframeArchives : List MHTMLWebArchive)

namespace MHTMLWebArchive
open Mhtml

def mainResource : MHTMLWebArchive → ArchiveResource
  | create main _ _ => main

mutual

/-- the resources in the order of a walk -/
def resources : MHTMLWebArchive → List ArchiveResource
  | create main subresources frames => main :: (subresources ++ framesResources frames)

def framesResources : List MHTMLWebArchive → List ArchiveResource
  | [] => []
  | a :: rest => a.resources ++ framesResources rest

end

/-- `visits` is not a variable of the source: for each resource of the tree, in the order of a walk,
whether it was taken -/
structure Walk where
  uniqueSubresources : List WString := []
  visits : List Bool := []

namespace Walk

def knows (w : Walk) (r : ArchiveResource) : Bool := w.uniqueSubresources.contains r.url

def add (w : Walk) (r : ArchiveResource) (taken : Bool) : Walk :=
  ⟨r.url :: w.uniqueSubresources, w.visits ++ [taken]⟩

/-- `n` resources are passed by -/
def skip (w : Walk) (n : Nat) : Walk := { w with visits := w.visits ++ List.replicate n false }

end Walk

/-- one resource of `caculateItems` -/
def countResource (items : Nat) (w : Walk) (r : ArchiveResource) : Nat × Walk :=
  if r.data.isEmpty || w.knows r then (items, w.skip 1) else (items + 1, w.add r true)

def countResources : List ArchiveResource → Nat → Walk → Nat × Walk
  | [], items, w => (items, w)
  | r :: rest, items, w =>
    let (items, w) := countResource items w r
    countResources rest items w

mutual

/-- `m_items`; a frame whose main resource is not new is left out with all that is in it -/
def caculateItems : MHTMLWebArchive → Nat → Walk → Nat × Walk
  | create main subresources frames, items, w =>
    if main.data.isEmpty || w.knows main then
      (items, w.skip (create main subresources frames).resources.length)
    else
      let (items, w) := countResources subresources (items + 1) (w.add main true)
      caculateFrames frames items w

def caculateFrames : List MHTMLWebArchive → Nat → Walk → Nat × Walk
  | [], items, w => (items, w)
  | a :: rest, items, w =>
    let (items, w) := a.caculateItems items w
    caculateFrames rest items w

end

def getOneItemSize (r : ArchiveResource) (multipart : Bool) : Option Nat :=
  if partHeaderSize r = 0 then none
  else some ((if multipart then boundarySize false else 0) + partHeaderSize r + r.data.length)

/-- the resource is recorded even if it is empty; `none` is the answer -1 -/
def sizeResource (multipart : Bool) (size : Nat) (w : Walk) (r : ArchiveResource) :
    Option (Nat × Walk) :=
  if r.data.isEmpty then some (size, w.add r false)
  else
    match getOneItemSize r multipart with
    | none => none
    | some len => some (size + len, w.add r true)

def sizeResources (multipart : Bool) : List ArchiveResource → Nat → Walk → Option (Nat × Walk)
  | [], size, w => some (size, w)
  | r :: rest, size, w =>
    if w.knows r then sizeResources multipart rest size (w.skip 1)
    else
      match sizeResource multipart size w r with
      | none => none
      | some (size, w) => sizeResources multipart rest size w

mutual

def getItemsSize (multipart : Bool) : MHTMLWebArchive → Walk → Option (Nat × Walk)
  | create main subresources frames, w =>
    if w.knows main then some (0, w.skip (create main subresources frames).resources.length)
    else
      match sizeResource multipart 0 w main with
      | none => none
      | some (size, w) =>
        match sizeResources multipart subresources size w with
        | none => none
        | some (size, w) => getFramesSize multipart frames size w

def getFramesSize (multipart : Bool) : List MHTMLWebArchive → Nat → Walk → Option (Nat × Walk)
  | [], size, w => some (size, w)
  | a :: rest, size, w =>
    match a.getItemsSize multipart w with
    | none => none
    | some (len, w) => getFramesSize multipart rest (size + len) w

end

/-- -1 if a size cannot be told -/
def getBufferSize (root : MHTMLWebArchive) (items : Nat) : Int :=
  let multipart := decide (1 < items)
  match root.getItemsSize multipart {} with
  | none => -1
  | some (len, _) =>
    if len = 0 then -1
    else
      (messageHeaderSize root.mainResource.mimeType multipart + len
        + if multipart then boundarySize true else 0 : Nat)

end MHTMLWebArchive

end Wkc
