import WkcBrowser.Mhtml.Archive

/-!
# The resumable writer of `MHTMLWebArchive`

`contentSerializeProgress` is called with one buffer after another.  Every call walks the tree from its
root, passes by what was already saved, and goes on where the last call stopped: the place is kept in
`m_status`, `m_data_off`, `m_cur_item` and the set of saved URLs.

* `put`                              a piece of `m_data` goes into the buffer;
* `makeMessageHeader` … `writeContent`   the states of `serializeResource`, each going on to the next;
* `serializeTree`                    the walk;
* `contentSerializeStart`, `contentSerializeProgress`, `save`   the interface, and a whole run of it;
* `lead`, `Written`                  what one `serializeResource` has to write, and what it did.
-/

namespace Wkc

inductive SerializeState where
  | MAKE_MESSAGE_HEADER
  | WRITE_MESSAGE_HEADER
  | MAKE_BOUNDARY
  | WRITE_BOUNDARY
  | MAKE_PART_HEADER
  | WRITE_PART_HEADER
  | MAKE_CONTENT
  | WRITE_CONTENT
  | END
  | ERROR
  deriving DecidableEq

/-- the members of the root archive; `buffer` is what this call has written -/
structure Serializer where
  status : SerializeState := .MAKE_MESSAGE_HEADER
  data : Option Bytes := none
  dataOff : Nat := 0
  buffer : Bytes := []
  bufferLen : Nat := 0
  items : Nat
  curItem : Nat := 1
  uniqueSubresources : List WString := []
  -- not a member of the source: the resources whose body was written to its end
  written : List ArchiveResource := []

namespace Serializer

def multipart (s : Serializer) : Bool := decide (1 < s.items)

def dataLen (s : Serializer) : Nat := (s.data.getD []).length

def put (s : Serializer) : Serializer :=
  let rest := (s.data.getD []).drop s.dataOff
  let nwrite := min s.bufferLen rest.length
  { s with
    buffer := s.buffer ++ rest.take nwrite
    bufferLen := s.bufferLen - nwrite
    dataOff := s.dataOff + nwrite }

def make (s : Serializer) (data : Option Bytes) (status : SerializeState) : Serializer :=
  { s with data := data, status := status, dataOff := 0 }

def fail (s : Serializer) : Bool × Serializer := (false, { s with status := .ERROR })

/-- the label `make_boundary` -/
def makeBoundary (s : Serializer) : Serializer :=
  s.make (if s.multipart then some (Mhtml.makeBoundary (decide (s.items < s.curItem))) else s.data)
    .WRITE_BOUNDARY

/-- the boundary is written; `true` if control goes on to the part header -/
def boundaryWritten (s : Serializer) : Bool × Serializer :=
  let s : Serializer := { s with data := none }
  if s.items < s.curItem then (false, { s with status := .END })
  else
    let s := s.make none .MAKE_PART_HEADER
    (decide (s.bufferLen ≠ 0), s)

def writeBoundary (s : Serializer) : Bool × Serializer :=
  if s.data.isSome then
    let s := s.put
    if s.dataOff ≠ s.dataLen then (false, s) else s.boundaryWritten
  else s.boundaryWritten

/-- After the last body control goes back to `make_boundary`, and ends there. -/
def writeContent (r : ArchiveResource) (s : Serializer) : Bool × Serializer :=
  let s := s.put
  if s.dataOff ≠ s.dataLen then (false, s)
  else
    let s : Serializer := { s.make none .MAKE_BOUNDARY with written := s.written ++ [r] }
    if s.bufferLen = 0 then (false, s)
    else
      let s : Serializer := { s with curItem := s.curItem + 1 }
      if s.items < s.curItem then (false, s.makeBoundary.writeBoundary.2) else (true, s)

def makeContent (r : ArchiveResource) (s : Serializer) : Bool × Serializer :=
  if r.data.isEmpty then s.fail else (s.make (some r.data) .WRITE_CONTENT).writeContent r

def writePartHeader (r : ArchiveResource) (s : Serializer) : Bool × Serializer :=
  let s := s.put
  if s.dataOff ≠ s.dataLen then (false, s)
  else
    let s := s.make none .MAKE_CONTENT
    if s.bufferLen = 0 then (false, s) else s.makeContent r

def makePartHeader (r : ArchiveResource) (s : Serializer) : Bool × Serializer :=
  let header := Mhtml.makePartHeader r
  if header.isEmpty then s.fail else (s.make (some header) .WRITE_PART_HEADER).writePartHeader r

def fromBoundary (r : ArchiveResource) (s : Serializer) : Bool × Serializer :=
  match s.writeBoundary with
  | (true, s) => s.makePartHeader r
  | (false, s) => (false, s)

def writeMessageHeader (r : ArchiveResource) (s : Serializer) : Bool × Serializer :=
  let s := s.put
  if s.dataOff ≠ s.dataLen then (false, s)
  else
    let s := s.make none .MAKE_BOUNDARY
    if s.bufferLen = 0 then (false, s) else s.makeBoundary.fromBoundary r

def makeMessageHeader (r : ArchiveResource) (s : Serializer) : Bool × Serializer :=
  (s.make (some (Mhtml.makeMessageHeader r.mimeType s.multipart)) .WRITE_MESSAGE_HEADER).writeMessageHeader r

def serializeResource (r : ArchiveResource) (s : Serializer) : Bool × Serializer :=
  match s.status with
  | .MAKE_MESSAGE_HEADER => s.makeMessageHeader r
  | .WRITE_MESSAGE_HEADER => s.writeMessageHeader r
  | .MAKE_BOUNDARY => s.makeBoundary.fromBoundary r
  | .WRITE_BOUNDARY => s.fromBoundary r
  | .MAKE_PART_HEADER => s.makePartHeader r
  | .WRITE_PART_HEADER => s.writePartHeader r
  | .MAKE_CONTENT => s.makeContent r
  | .WRITE_CONTENT => s.writeContent r
  | .END => (true, s)
  | .ERROR => s.fail

def serializeResourceIfNew (r : ArchiveResource) (s : Serializer) : Serializer :=
  if r.data.isEmpty then s
  else if s.uniqueSubresources.contains r.url then s
  else
    let (saved, s) := s.serializeResource r
    if saved then { s with uniqueSubresources := r.url :: s.uniqueSubresources } else s

/-- the test after each resource and each frame -/
def stopped (s : Serializer) : Bool :=
  s.bufferLen == 0 || s.status == .ERROR || s.status == .END

def serializeResources : List ArchiveResource → Serializer → Serializer
  | [], s => s
  | r :: rest, s =>
    let s := s.serializeResourceIfNew r
    if s.stopped then s else serializeResources rest s

mutual

def serializeTree : MHTMLWebArchive → Serializer → Serializer
  | .create main subresources frames, s =>
    let s := s.serializeResourceIfNew main
    if s.stopped then s
    else
      let s := serializeResources subresources s
      if s.stopped then s else serializeFrames frames s

def serializeFrames : List MHTMLWebArchive → Serializer → Serializer
  | [], s => s
  | a :: rest, s =>
    let s := serializeTree a s
    if s.stopped then s else serializeFrames rest s

end

end Serializer

/-! ## the interface -/

/-- what the root archive may be saved with; `isSupportedImageMIMEType` is the registry's -/
def contentSerializeStart (isSupportedImageMIMEType : WString → Bool) (root : MHTMLWebArchive) :
    Option Serializer :=
  let items := (root.caculateItems 0 {}).1
  if items = 0 then none
  else if items = 1 ∧ isSupportedImageMIMEType root.mainResource.mimeType = true then none
  else some { items := items }

/-- the bytes of this call; `none` is the answer -1 -/
def contentSerializeProgress (root : MHTMLWebArchive) (s : Serializer) (length : Nat) :
    Option Bytes × Serializer :=
  let s := Serializer.serializeTree root { s with bufferLen := length }
  if s.status = .ERROR then (none, s) else (some s.buffer, { s with buffer := [] })

/-- calls with these buffer lengths, and all the bytes they produced -/
def save (root : MHTMLWebArchive) : Serializer → List Nat → Bytes × Serializer
  | s, [] => ([], s)
  | s, n :: ns =>
    let (bytes, s) := contentSerializeProgress root s n
    let (more, s) := save root s ns
    (bytes.getD [] ++ more, s)

end Wkc
