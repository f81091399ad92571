import Mathlib.Data.List.AList
import WkcBrowser.Wtf.Url

/-!
# `HTTPCachedResource`: one entry of the HTTP cache

The fields of the class, what a response and an `http-equiv` directive write into them
(`setResourceResponse`, `update`, `setResourceData`), the size of its record in the FAT file
(`calcResourceSize`), and the transfer of the body to and from its file (`writeFile`, `readFile`).

A `double` is its bit pattern.  The answers of the file peers are an argument: whether the file
opens, and the counts that the successive `wkcFileFWritePeer` / `wkcFileFReadPeer` calls return
(a call beyond the list fails).
-/

namespace Wkc
open Buf

/-! ## doubles -/

structure Double where
  bits : UInt64
  deriving DecidableEq, Repr, Inhabited

namespace Double

def zero : Double := ⟨0⟩
def quietNaN : Double := ⟨0x7ff8000000000000⟩

def isfinite (d : Double) : Bool := d.bits.toNat / 2 ^ 52 % 2 ^ 11 != 2 ^ 11 - 1

def isnan (d : Double) : Bool := !d.isfinite && d.bits.toNat % 2 ^ 52 != 0

/-- sign and magnitude as one integer: the order of the doubles that are not NaN -/
def order (d : Double) : Int :=
  if d.bits.toNat < 2 ^ 63 then d.bits.toNat else -((d.bits.toNat : Int) - 2 ^ 63)

def gt (a b : Double) : Bool := !a.isnan && !b.isnan && decide (b.order < a.order)

end Double

/-! ## responses and bodies -/

structure ResourceResponse where
  mimeType : WString := []
  expectedContentLength : Int64 := 0
  textEncodingName : WString := []
  suggestedFilename : WString := []
  httpStatusCode : Int32 := 200
  expires : Double := Double.quietNaN
  date : Double := Double.quietNaN
  lastModified : Double := Double.quietNaN
  lastModifiedHeader : WString := []
  eTagHeader : WString := []
  cacheControlContainsNoCache : Bool := false
  cacheControlContainsNoStore : Bool := false
  cacheControlContainsMustRevalidate : Bool := false
  cacheControlMaxAge : Double := Double.quietNaN
  deriving DecidableEq, Inhabited

/-- `SharedBuffer`, as the pieces that `getSomeData` hands out one after the other -/
structure SharedBuffer where
  pieces : List Bytes
  pieces_ne : ∀ s ∈ pieces, s ≠ []
  size_lt : pieces.flatten.length < 2 ^ 32
  deriving DecidableEq

namespace SharedBuffer

def contents (d : SharedBuffer) : Bytes := d.pieces.flatten
def size (d : SharedBuffer) : Nat := d.contents.length

def getSome : List Bytes → Nat → Bytes
  | [], _ => []
  | s :: ss, position => if position < s.length then s.drop position else getSome ss (position - s.length)

def getSomeData (d : SharedBuffer) (position : Nat) : Bytes := getSome d.pieces position

end SharedBuffer

/-- conversion of an `unsigned` to `int` -/
@[irreducible] def toInt32 (n : Nat) : Int := Int.bmod n (2 ^ 32)

theorem toInt32_of_lt {n : Nat} (h : n < 2 ^ 31) : toInt32 n = n := by
  unfold toInt32
  exact Int.bmod_eq_of_le (by omega) (by omega)

theorem toInt32_lt (n : Nat) : toInt32 n < 2 ^ 31 := by
  have hbound : Int.bmod n (2 ^ 32) < (2 ^ 32 + 1) / 2 := Int.bmod_lt (by decide)
  unfold toInt32
  omega

theorem toInt32_le (n : Nat) : toInt32 n ≤ n := by
  rcases Nat.lt_or_ge n (2 ^ 31) with hsmall | hlarge
  · exact (toInt32_of_lt hsmall).le
  · have hlt := toInt32_lt n
    omega

/-! ## the entry -/

structure HTTPCachedResource where
  url : WString := []
  mimeType : WString := []
  expectedContentLength : Int64 := 0
  textEncodingName : WString := []
  suggestedFilename : WString := []
  httpStatusCode : Int32 := 0
  noCache : Bool := false
  mustRevalidate : Bool := false
  expires : Double := Double.zero
  maxAge : Double := Double.zero
  date : Double := Double.zero
  lastModified : Double := Double.zero
  lastModifiedHeader : WString := []
  eTagHeader : WString := []
  fileName : WString := []
  resourceData : Option SharedBuffer := none
  contentLength : Int64 := 0
  resourceSize : Int := 0
  used : Bool := false
  httpequivflags : UInt32 := 0
  deriving DecidableEq

instance : Inhabited HTTPCachedResource := ⟨{}⟩

def EHTTPEquivNoCache : UInt32 := 1
def EHTTPEquivMustRevalidate : UInt32 := 2
def EHTTPEquivMaxAge : UInt32 := 4

namespace HTTPCachedResource

/-- `now` is `currentTime()` -/
def setResourceResponse (r : HTTPCachedResource) (response : ResourceResponse) (now : Double) :
    HTTPCachedResource :=
  { r with
    mimeType := response.mimeType
    expectedContentLength := response.expectedContentLength
    textEncodingName := response.textEncodingName
    suggestedFilename := response.suggestedFilename
    httpStatusCode := response.httpStatusCode
    expires := response.expires
    date := if response.date.isfinite then response.date else now
    lastModified := response.lastModified
    lastModifiedHeader := response.lastModifiedHeader
    eTagHeader := response.eTagHeader
    noCache :=
      if r.httpequivflags &&& EHTTPEquivNoCache = 0 then response.cacheControlContainsNoCache
      else r.noCache
    mustRevalidate :=
      if r.httpequivflags &&& EHTTPEquivMustRevalidate = 0 then
        r.mustRevalidate || response.cacheControlContainsMustRevalidate
      else r.mustRevalidate
    maxAge :=
      if r.httpequivflags &&& EHTTPEquivMaxAge = 0 then response.cacheControlMaxAge else r.maxAge }

/-- `HTTPCachedResource(url, response)` -/
def create (url : KURL) (response : ResourceResponse) (now : Double) : HTTPCachedResource :=
  ({ url := url.string } : HTTPCachedResource).setResourceResponse response now

def setResourceData (r : HTTPCachedResource) (resourceData : SharedBuffer) : HTTPCachedResource :=
  { r with resourceData := some resourceData, contentLength := Int64.ofNat resourceData.size }

/-- the smaller of two times, an unset one (not finite) losing -/
def tighten (old new : Double) : Double :=
  if new.isfinite && (!old.isfinite || old.gt new) then new else old

def update (r : HTTPCachedResource) (noCache mustRevalidate : Bool) (expires maxAge : Double)
    (httpequivflags : UInt32) : HTTPCachedResource :=
  { r with
    noCache :=
      if r.httpequivflags &&& EHTTPEquivNoCache = 0 ∨ httpequivflags &&& EHTTPEquivNoCache ≠ 0 then
        noCache
      else r.noCache
    mustRevalidate :=
      if r.httpequivflags &&& EHTTPEquivMustRevalidate = 0
          ∨ httpequivflags &&& EHTTPEquivMustRevalidate ≠ 0 then mustRevalidate
      else r.mustRevalidate
    maxAge :=
      if r.httpequivflags &&& EHTTPEquivMaxAge = 0 ∨ httpequivflags &&& EHTTPEquivMaxAge ≠ 0 then
        tighten r.maxAge maxAge
      else r.maxAge
    expires := tighten r.expires expires
    httpequivflags := r.httpequivflags ||| httpequivflags }

def setUsed (r : HTTPCachedResource) (used : Bool) : HTTPCachedResource := { r with used := used }

/-- the seven strings of a record, in the order of the file -/
def strings (r : HTTPCachedResource) : List WString :=
  [r.url, r.mimeType, r.textEncodingName, r.suggestedFilename, r.fileName, r.lastModifiedHeader,
    r.eTagHeader]

/-- `sizeof(long long) * 2 + sizeof(int) * 3 + sizeof(double) * 4` -/
def numberFieldSize : Nat := 8 * 2 + 4 * 3 + 8 * 4

def recordSize (r : HTTPCachedResource) : Nat :=
  roundUp (numberFieldSize + (r.strings.map (fun s => 4 + roundUp (utf8 s).length 4)).sum) 4

def calcResourceSize (r : HTTPCachedResource) : HTTPCachedResource :=
  { r with resourceSize := r.recordSize }

end HTTPCachedResource

/-! ## the body file -/

abbrev Files := AList (fun _ : WString => Bytes)

def separator : UInt16 := 0x2F
def MAX_PATH : Nat := 260

/-- the peer that builds paths; none if the path does not fit -/
class FilePeers where
  wkcFilePathByAppendingComponentPeer (path component : WString) : Option WString

export FilePeers (wkcFilePathByAppendingComponentPeer)

/-- the directory, the separator and the component -/
def FilePeers.Joins [FilePeers] : Prop := ∀ path component, wkcFilePathByAppendingComponentPeer path component =
  if (utf8 path).length + 1 + (utf8 component).length < MAX_PATH then some (path ++ separator :: component) else none

/-- the paths of two components differ -/
def FilePeers.Injective [FilePeers] : Prop := ∀ path a b full : WString,
  wkcFilePathByAppendingComponentPeer path a = some full → wkcFilePathByAppendingComponentPeer path b = some full → a = b

@[reducible]
def FilePeers.joining : FilePeers where
  wkcFilePathByAppendingComponentPeer path component :=
    if (utf8 path).length + 1 + (utf8 component).length < MAX_PATH then some (path ++ separator :: component) else none

theorem FilePeers.joining_joins : @FilePeers.Joins FilePeers.joining := fun _ _ => rfl

theorem FilePeers.Joins.injective [FilePeers] (h : FilePeers.Joins) : FilePeers.Injective := by
  intro path a b full ha hb
  rw [h, Option.ite_none_right_eq_some, Option.some.injEq] at ha hb
  exact (List.cons.inj (List.append_cancel_left (ha.2.trans hb.2.symm))).2

section
variable [FilePeers]

/-- the null string if the path does not fit -/
def pathByAppendingComponent (path component : WString) : WString :=
  (wkcFilePathByAppendingComponentPeer path component).getD []

/-- what the file peers answer during one transfer -/
structure FileIo where
  opens : Bool
  counts : List Int

/-- `wkcFileFOpenPeer`; a null path never opens -/
def FileIo.fopen (io : FileIo) (path : WString) : Bool := io.opens && !path.isEmpty

namespace HTTPCachedResource

/-- the inner loop of `writeFile`: each call is given `buf` from its start -/
def writePiece (buf : Bytes) : Int → List Int → Bytes → Bool × List Int × Bytes
  | writelength, [], file => (decide (writelength ≤ 0), [], file)
  | writelength, written :: counts, file =>
    if writelength ≤ 0 then (true, written :: counts, file)
    else if written < 0 then (false, counts, file)
    else writePiece buf (writelength - written) counts (file ++ buf.take (min written writelength).toNat)

def writeLoop (data : SharedBuffer) : Nat → Int → Nat → List Int → Bytes → Bool × Bytes
  | 0, len, _, _, file => (decide (len ≤ 0), file)
  | fuel + 1, len, position, counts, file =>
    if len ≤ 0 then (true, file)
    else
      let buf := data.getSomeData position
      if buf.length = 0 then (false, file)
      else
        match writePiece buf buf.length counts file with
        | (false, _, file) => (false, file)
        | (true, counts, file) =>
          writeLoop data fuel (len - buf.length) (position + buf.length) counts file

/-- the entry after a complete write: its file and sizes are set, the body is released -/
def written (r : HTTPCachedResource) (data : SharedBuffer) (filename : WString) :
    HTTPCachedResource :=
  { ({ r with contentLength := Int64.ofNat data.size, fileName := filename } :
      HTTPCachedResource).calcResourceSize with resourceData := none }

/-- what the writes leave in the file, and whether they were all made -/
def writeBody (data : SharedBuffer) (io : FileIo) : Bool × Bytes :=
  writeLoop data data.size (toInt32 data.size) 0 io.counts []

def writeFile (r : HTTPCachedResource) (filename filepath : WString) (io : FileIo) (files : Files) :
    Bool × HTTPCachedResource × Files :=
  match r.resourceData with
  | none => (false, r, files)
  | some data =>
    let fileFullPath := pathByAppendingComponent filepath filename
    if io.fopen fileFullPath = false then (false, r, files)
    else if (writeBody data io).1 then
      (true, r.written data filename, files.insert fileFullPath (writeBody data io).2)
    else (false, r, files.insert fileFullPath (writeBody data io).2)

/-- the bytes that reach `out_buf`, in order; `file` is what is left of the file -/
def readLoop : Int → List Int → Bytes → Bytes → Bytes
  | _, [], _, out => out
  | len, read :: counts, file, out =>
    if len ≤ 0 then out
    else if read < 0 then out
    else readLoop (len - read) counts (file.drop read.toNat) (out ++ file.take read.toNat)

/-- result, bytes read, entry; a file that opens is a success whatever was read -/
def readFile (r : HTTPCachedResource) (filepath : WString) (io : FileIo) (files : Files) :
    Bool × Bytes × HTTPCachedResource :=
  let fileFullPath := pathByAppendingComponent filepath r.fileName
  match files.lookup fileFullPath with
  | none => (false, [], r)
  | some file =>
    if io.fopen fileFullPath = false then (false, [], r)
    else (true, readLoop (toInt32 r.contentLength.toBitVec.toNat) io.counts file [], r.setUsed true)

end HTTPCachedResource

end

end Wkc
