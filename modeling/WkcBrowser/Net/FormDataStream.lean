import WkcBrowser.Cache.Resource

/-!
# `FormDataStream`: the body of a request, read piece by piece

The place in the body is an element and an offset; an element that is a blob is a list of items.

* `readItem`, `readItems`, `FormDataStream.read`   one call: `none` if what it does is undefined, for bytes outside
                                                   the data of an item, or a result that nothing was assigned to;
* `setupMethod`                                    the length that is announced;
* `upload`                                         calls until there are no more elements;
* `regular`                                        the bodies that arrive;
* `upload_faithful`                                they arrive whole, and no others do.

`size_t` has 32 bits.
-/

namespace Wkc
open Buf

/-- `Vector<char>` -/
structure CharVector where
  bytes : Bytes
  size_lt : bytes.length < 2 ^ 32

/-- a range of the data, as the registry of blobs keeps it -/
structure DataItem where
  data : CharVector
  offset : Nat
  length : Nat
  fits : offset + length ≤ data.bytes.length

def DataItem.contents (item : DataItem) : Bytes := (item.data.bytes.drop item.offset).take item.length

def CharVector.whole (d : CharVector) : DataItem where
  data := d
  offset := 0
  length := d.bytes.length
  fits := by omega

inductive BlobDataItem where
  | Data (item : DataItem)
  | File

inductive FormDataElement where
  | data (m_data : CharVector)
  | encodedFile (m_filename : WString)
  | encodedBlob (m_blobURL : WString)

/-- the functions for files; `FRead` also says what it has written -/
structure FilePeer (φ : Type) where
  FOpen : WString → Option φ
  FRead : φ → Nat → Nat → Nat × Bytes × φ
  Feof : φ → Bool

/-- what a `ResourceHandle` has for its stream -/
structure ResourceHandle (φ : Type) where
  client : Bool
  httpBody : Option (List FormDataElement)
  blobs : WString → Option (List BlobDataItem)
  getFileSize : WString → Option Int
  peer : FilePeer φ

def ResourceHandle.elements {φ : Type} (job : ResourceHandle φ) : List FormDataElement := job.httpBody.getD []

structure FormDataStream (φ : Type) where
  m_file : Option φ := none
  m_formDataElementIndex : Nat := 0
  m_formDataElementDataOffset : Nat := 0
  deriving DecidableEq

namespace FormDataStream
variable {φ : Type}

/-- the offset after so many bytes of so many that are left, or the next element -/
def advance (s : FormDataStream φ) (sent elementSize : Nat) : FormDataStream φ :=
  if sent < elementSize then { s with m_formDataElementDataOffset := s.m_formDataElementDataOffset + sent }
  else { s with m_formDataElementDataOffset := 0, m_formDataElementIndex := s.m_formDataElementIndex + 1 }

/-- what is done with the data of an element, and with each item of a blob; the subtraction is one of `size_t` -/
def readItem (toSend : Nat) (item : DataItem) (s : FormDataStream φ) (ptr : Bytes) :
    Option (FormDataStream φ × Bytes × Nat) := do
  let elementSize := (item.length + 2 ^ 32 - s.m_formDataElementDataOffset) % 2 ^ 32
  let sent := if toSend < elementSize then toSend else elementSize
  let bytes ← load item.data.bytes (item.offset + s.m_formDataElementDataOffset) sent
  let ptr ← store ptr 0 bytes
  return (s.advance sent elementSize, ptr, sent)

/-- the loop over the items of a blob; `sent` starts without a value -/
def readItems (toSend : Nat) :
    List BlobDataItem → FormDataStream φ → Bytes → Option Nat → Option (FormDataStream φ × Bytes × Option Nat)
  | [], s, ptr, sent => some (s, ptr, sent)
  | .Data item :: items, s, ptr, _ => do
    let (s, ptr, sent) ← readItem toSend item s ptr
    readItems toSend items s ptr (some sent)
  | .File :: items, s, ptr, sent => readItems toSend items s ptr sent

def readFile (job : ResourceHandle φ) (name : WString) (s : FormDataStream φ) (ptr : Bytes)
    (blockSize numberOfBlocks : Nat) : Option (FormDataStream φ × Bytes × Nat) :=
  match s.m_file.orElse (fun _ => job.peer.FOpen name) with
  | none => some ({ s with m_file := none, m_formDataElementIndex := s.m_formDataElementIndex + 1 }, ptr, 0)
  | some file => do
    let (sent, bytes, file) := job.peer.FRead file blockSize numberOfBlocks
    let ptr ← store ptr 0 bytes
    if toInt32 sent < 0 then return ({ s with m_file := some file }, ptr, 0)
    else if job.peer.Feof file then
      return ({ s with m_file := none, m_formDataElementIndex := s.m_formDataElementIndex + 1 }, ptr, sent)
    else return ({ s with m_file := some file }, ptr, sent)

/-- the stream, the buffer and the result -/
def read (job : ResourceHandle φ) (s : FormDataStream φ) (ptr : Bytes) (blockSize numberOfBlocks : Nat) :
    Option (FormDataStream φ × Bytes × Nat) :=
  if job.client = false then some (s, ptr, 0)
  else if numberOfBlocks = 0 ∨ (2 ^ 32 - 1) / numberOfBlocks < blockSize then some (s, ptr, 0)
  else
    match job.elements[s.m_formDataElementIndex]? with
    | none => some (s, ptr, 0)
    | some (.encodedFile name) => readFile job name s ptr blockSize numberOfBlocks
    | some (.encodedBlob url) => do
      let (s, ptr, sent) ← readItems (blockSize * numberOfBlocks) ((job.blobs url).getD []) s ptr none
      return (s, ptr, ← sent)
    | some (.data d) => readItem (blockSize * numberOfBlocks) d.whole s ptr

def hasMoreElements (job : ResourceHandle φ) (s : FormDataStream φ) : Bool :=
  s.m_formDataElementIndex < job.elements.length

end FormDataStream

/-! ## the length -/

inductive HTTPMethod where
  | POST | OPTIONS | PUT
  deriving DecidableEq

inductive Announced where
  | length (size : Int)
  | chunked
  deriving DecidableEq

section
variable {φ : Type}

/-- `blobSizeResult` -/
def blobSize : List BlobDataItem → Nat
  | [] => 0
  | .Data item :: items => item.length + blobSize items
  | .File :: items => blobSize items

/-- the loop over the elements; `none` for a file whose size cannot be told -/
def bodySize (job : ResourceHandle φ) (maxCurlOffT : Int) : List FormDataElement → Option Nat
  | [] => some 0
  | .encodedFile name :: elements =>
    match job.getFileSize name with
    | none => bodySize job maxCurlOffT elements
    | some n => if maxCurlOffT < n ∨ n < 0 then none else (bodySize job maxCurlOffT elements).map (n.toNat + ·)
  | .encodedBlob url :: elements =>
    (bodySize job maxCurlOffT elements).map (blobSize ((job.blobs url).getD []) + ·)
  | .data d :: elements => (bodySize job maxCurlOffT elements).map (d.bytes.length + ·)

/-- the body that is not streamed -/
def simpleData (method : HTTPMethod) : List FormDataElement → Option CharVector
  | [.data d] => if method = .PUT then none else some d
  | _ => none

/-- `largeFile` if the `curl_off_t` of the library is a `long long`, rather than an `int` -/
def setupMethod (largeFile : Bool) (method : HTTPMethod) (job : ResourceHandle φ) : Announced :=
  if job.elements = [] then .length 0
  else
    match simpleData method job.elements with
    | some d => .length d.bytes.length
    | none =>
      match bodySize job (if largeFile then 2 ^ 63 - 1 else 2 ^ 31 - 1) job.elements with
      | none => .chunked
      | some size => .length (if largeFile then size else toInt32 size)

end

/-! ## the calls -/

/-- the arguments of a call: there is something to send, and room for it -/
structure ReadCall where
  blockSize : Nat
  numberOfBlocks : Nat
  ptr : Bytes
  positive : 0 < blockSize * numberOfBlocks
  fits : blockSize * numberOfBlocks < 2 ^ 32
  room : blockSize * numberOfBlocks ≤ ptr.length

def ReadCall.size (c : ReadCall) : Nat := c.blockSize * c.numberOfBlocks

theorem ReadCall.size_le (c : ReadCall) : c.size ≤ c.ptr.length := c.room

/-- a call that has returned -/
structure Read where
  call : ReadCall
  after : Bytes
  sent : Nat

def Read.returned (r : Read) : Bytes := r.after.take r.sent

/-- nothing is written behind the buffer -/
structure Read.Bounded (r : Read) : Prop where
  sent_le : r.sent ≤ r.call.size
  length_eq : r.after.length = r.call.ptr.length
  behind : r.after.drop r.call.size = r.call.ptr.drop r.call.size

section
variable {φ : Type} (job : ResourceHandle φ)

/-- calls until there are no more elements; `none` if so many are not enough, or one is undefined -/
def upload : Nat → (Nat → ReadCall) → FormDataStream φ → Option (List Read)
  | 0, _, _ => none
  | fuel + 1, calls, s =>
    if s.hasMoreElements job then do
      let (s, after, sent) ← s.read job (calls 0).ptr (calls 0).blockSize (calls 0).numberOfBlocks
      let reads ← upload fuel (fun n => calls (n + 1)) s
      return ⟨calls 0, after, sent⟩ :: reads
    else some []

/-- the ranges that an element is made of -/
def dataItems : List BlobDataItem → List DataItem
  | [] => []
  | .Data item :: items => item :: dataItems items
  | .File :: items => dataItems items

def parts : FormDataElement → List DataItem
  | .data d => [d.whole]
  | .encodedFile _ => []
  | .encodedBlob url => dataItems ((job.blobs url).getD [])

def bytesOf (items : List DataItem) : Bytes := items.flatMap DataItem.contents

/-- the body: the data of the elements, and of the items of the blobs, in order -/
def body : List (List DataItem) := job.elements.map (parts job)

def contents (elements : List (List DataItem)) : Bytes := elements.flatMap bytesOf

end

/-- Each element that is reached ends with a range, and the ranges before that one are empty; if there are any, the
range at the end is `ok`, and as many elements after it, which are passed over, are empty too. -/
def regularWith (ok : DataItem → Bool) : Nat → List (List DataItem) → Bool
  | _, [] => true
  | skipped + 1, items :: rest => items.all (fun item => item.length == 0) && regularWith ok skipped rest
  | 0, items :: rest =>
    match items.getLast? with
    | none => false
    | some last =>
      items.dropLast.all (fun item => item.length == 0) && (items.dropLast.isEmpty || ok last) &&
        regularWith ok items.dropLast.length rest

def regular (elements : List (List DataItem)) : Bool := regularWith (fun last => decide (last.length ≤ 1)) 0 elements

/-! ## one call -/

theorem DataItem.length_contents (item : DataItem) : item.contents.length = item.length := by
  have hfits := item.fits
  rw [contents, List.length_take, List.length_drop]
  omega

theorem DataItem.length_lt (item : DataItem) : item.length < 2 ^ 32 := by
  have hfits := item.fits
  have hsize := item.data.size_lt
  omega

theorem CharVector.contents_whole (d : CharVector) : d.whole.contents = d.bytes := by
  simp [whole, DataItem.contents]

theorem load_eq {buf bs : Bytes} {off n : Nat} (h : load buf off n = some bs) :
    off + n ≤ buf.length ∧ bs = (buf.drop off).take n := by
  unfold load at h
  split at h
  · next hle => exact ⟨hle, (Option.some.inj h).symm⟩
  · cases h

theorem store_zero {buf bs : Bytes} (h : bs.length ≤ buf.length) : store buf 0 bs = some (bs ++ buf.drop bs.length) := by
  simp [store, h]

namespace FormDataStream
variable {φ : Type}

@[simp] theorem advance_of_lt {s : FormDataStream φ} {sent elementSize : Nat} (h : sent < elementSize) :
    s.advance sent elementSize =
      { s with m_formDataElementDataOffset := s.m_formDataElementDataOffset + sent } := if_pos h

@[simp] theorem advance_self (s : FormDataStream φ) (n : Nat) :
    s.advance n n =
      { s with m_formDataElementDataOffset := 0, m_formDataElementIndex := s.m_formDataElementIndex + 1 } :=
  if_neg (Nat.lt_irrefl n)

theorem readItem_eq {toSend : Nat} {item : DataItem} {s : FormDataStream φ} {ptr : Bytes}
    (hoffset : s.m_formDataElementDataOffset ≤ item.length) (hroom : toSend ≤ ptr.length) :
    readItem toSend item s ptr =
      some (s.advance (min toSend (item.length - s.m_formDataElementDataOffset))
          (item.length - s.m_formDataElementDataOffset),
        (item.contents.drop s.m_formDataElementDataOffset).take toSend ++
          ptr.drop (min toSend (item.length - s.m_formDataElementDataOffset)),
        min toSend (item.length - s.m_formDataElementDataOffset)) := by
  have hfits := item.fits
  have hlength := item.length_lt
  generalize hoff : s.m_formDataElementDataOffset = o at *
  have hsize : (item.length + 2 ^ 32 - o) % 2 ^ 32 = item.length - o := by omega
  have hsent : (if toSend < item.length - o then toSend else item.length - o) = min toSend (item.length - o) := by
    split <;> omega
  have hload : load item.data.bytes (item.offset + o) (min toSend (item.length - o)) =
      some ((item.contents.drop o).take toSend) := by
    rw [load, if_pos (by omega), DataItem.contents, List.drop_take, List.drop_drop, List.take_take]
  have hlen : ((item.contents.drop o).take toSend).length = min toSend (item.length - o) := by
    rw [List.length_take, List.length_drop, item.length_contents]
  simp only [readItem, hoff, hsize, hsent, hload, Option.bind_eq_bind, Option.bind_some]
  rw [store_zero (by omega), hlen]
  rfl

theorem readItem_whole {toSend : Nat} {item : DataItem} {s : FormDataStream φ} {ptr : Bytes}
    (hlength : item.length ≤ toSend) (hoffset : s.m_formDataElementDataOffset = 0) (hroom : toSend ≤ ptr.length) :
    readItem toSend item s ptr =
      some ({ s with m_formDataElementIndex := s.m_formDataElementIndex + 1 },
        item.contents ++ ptr.drop item.length, item.length) := by
  rw [readItem_eq (by omega) hroom, hoffset, Nat.sub_zero, Nat.min_eq_right hlength, advance_self, List.drop_zero,
    List.take_of_length_le (by rw [item.length_contents]; exact hlength), ← hoffset]

theorem readItem_bounded {toSend : Nat} {item : DataItem} {s s' : FormDataStream φ} {ptr ptr' : Bytes} {sent : Nat}
    (h : readItem toSend item s ptr = some (s', ptr', sent)) :
    sent ≤ toSend ∧ ptr'.length = ptr.length ∧ ptr'.drop toSend = ptr.drop toSend := by
  obtain ⟨bytes, hload, h⟩ := Option.bind_eq_some_iff.mp h
  obtain ⟨written, hstore, h⟩ := Option.bind_eq_some_iff.mp h
  obtain ⟨-, rfl, rfl⟩ : _ ∧ written = ptr' ∧ _ = sent := by simpa using h
  have hlen : bytes.length ≤ toSend := by
    rw [(load_eq hload).2, List.length_take]
    split <;> omega
  unfold store at hstore
  split at hstore
  · next hfits =>
    have hwritten := (Option.some.inj hstore).symm
    simp only [List.take_zero, List.nil_append, Nat.zero_add] at hwritten hfits
    refine ⟨by split <;> omega, ?_, ?_⟩
    · rw [hwritten, List.length_append, List.length_drop]
      omega
    · rw [hwritten, List.drop_append, List.drop_of_length_le hlen, List.nil_append, List.drop_drop]
      congr 1
      omega
  · cases hstore

theorem readItems_bounded {toSend : Nat} (items : List BlobDataItem) :
    ∀ {s s' : FormDataStream φ} {ptr ptr' : Bytes} {sent sent' : Option Nat}, (∀ n ∈ sent, n ≤ toSend) →
      readItems toSend items s ptr sent = some (s', ptr', sent') →
      (∀ n ∈ sent', n ≤ toSend) ∧ ptr'.length = ptr.length ∧ ptr'.drop toSend = ptr.drop toSend := by
  induction items with
  | nil =>
    intro s s' ptr ptr' sent sent' hsent h
    obtain ⟨-, rfl, rfl⟩ : s = s' ∧ ptr = ptr' ∧ sent = sent' := by simpa [readItems] using h
    exact ⟨hsent, rfl, rfl⟩
  | cons item items ih =>
    intro s s' ptr ptr' sent sent' hsent h
    cases item with
    | File => exact ih hsent h
    | Data item =>
      obtain ⟨⟨s1, ptr1, sent1⟩, hone, h⟩ := Option.bind_eq_some_iff.mp h
      obtain ⟨hle, hlength, hbehind⟩ := readItem_bounded hone
      obtain ⟨hle', hlength', hbehind'⟩ := ih (fun n hn => by cases hn; exact hle) h
      exact ⟨hle', hlength'.trans hlength, hbehind'.trans hbehind⟩

theorem readItems_append {toSend : Nat} (a b : List BlobDataItem) :
    ∀ (s : FormDataStream φ) (ptr : Bytes) (sent : Option Nat), readItems toSend (a ++ b) s ptr sent =
      (readItems toSend a s ptr sent).bind (fun r => readItems toSend b r.1 r.2.1 r.2.2) := by
  induction a with
  | nil => intro s ptr sent; rfl
  | cons item a ih =>
    intro s ptr sent
    cases item with
    | File => exact ih s ptr sent
    | Data item =>
      simp only [List.cons_append, readItems, ih, Option.bind_eq_bind, Option.bind_assoc]

theorem readItems_dataItems {toSend : Nat} (items : List BlobDataItem) :
    ∀ (s : FormDataStream φ) (ptr : Bytes) (sent : Option Nat),
      readItems toSend items s ptr sent = readItems toSend ((dataItems items).map .Data) s ptr sent := by
  induction items with
  | nil => intro s ptr sent; rfl
  | cons item items ih =>
    intro s ptr sent
    cases item with
    | File => exact ih s ptr sent
    | Data item => simp only [dataItems, List.map_cons, readItems, ih]

/-- the ranges of an element one after the other -/
def readParts (toSend : Nat) (items : List DataItem) (s : FormDataStream φ) (ptr : Bytes) :
    Option (FormDataStream φ × Bytes × Nat) :=
  (readItems toSend (items.map .Data) s ptr none).bind (fun r => r.2.2.map (fun sent => (r.1, r.2.1, sent)))

theorem readItems_pass {toSend : Nat} (init : List DataItem) (hinit : ∀ item ∈ init, item.length ≤ toSend) :
    ∀ {s : FormDataStream φ} {ptr : Bytes} (sent : Option Nat), (init ≠ [] → s.m_formDataElementDataOffset = 0) →
      toSend ≤ ptr.length →
      ∃ ptr' sent', readItems toSend (init.map .Data) s ptr sent =
        some ({ s with m_formDataElementIndex := s.m_formDataElementIndex + init.length }, ptr', sent') ∧
        toSend ≤ ptr'.length := by
  induction init with
  | nil => exact fun sent _ hroom => ⟨_, sent, rfl, hroom⟩
  | cons item init ih =>
    intro s ptr sent hoffset hroom
    have hzero := hoffset (List.cons_ne_nil item init)
    have hone := readItem_whole (hinit item List.mem_cons_self) hzero hroom
    have hroom' := (readItem_bounded hone).2.1
    obtain ⟨ptr', sent', hrest, hlength⟩ := ih (fun item h => hinit item (List.mem_cons_of_mem _ h))
      (s := { s with m_formDataElementIndex := s.m_formDataElementIndex + 1 }) (some item.length) (fun _ => hzero)
      (hroom'.symm ▸ hroom)
    refine ⟨ptr', sent', ?_, hlength⟩
    simp only [List.map_cons, readItems, hone, Option.bind_eq_bind, Option.bind_some, hrest, List.length_cons,
      Nat.add_assoc, Nat.add_comm 1]

theorem readParts_last {toSend : Nat} (init : List DataItem) (last : DataItem) (s : FormDataStream φ) {ptr : Bytes}
    (hinit : ∀ item ∈ init, item.length ≤ toSend) (hoffset : init ≠ [] → s.m_formDataElementDataOffset = 0)
    (hlast : s.m_formDataElementDataOffset ≤ last.length) (hroom : toSend ≤ ptr.length) :
    ∃ after, readParts toSend (init ++ [last]) s ptr =
        some (({ s with m_formDataElementIndex := s.m_formDataElementIndex + init.length } : FormDataStream φ).advance
            (min toSend (last.length - s.m_formDataElementDataOffset)) (last.length - s.m_formDataElementDataOffset),
          after, min toSend (last.length - s.m_formDataElementDataOffset)) ∧
      after.take (min toSend (last.length - s.m_formDataElementDataOffset)) =
        (last.contents.drop s.m_formDataElementDataOffset).take toSend := by
  obtain ⟨ptr', sent', hpass, hroom'⟩ := readItems_pass init hinit none hoffset hroom
  have hlen : ((last.contents.drop s.m_formDataElementDataOffset).take toSend).length =
      min toSend (last.length - s.m_formDataElementDataOffset) := by
    rw [List.length_take, List.length_drop, last.length_contents]
  refine ⟨(last.contents.drop s.m_formDataElementDataOffset).take toSend ++
    ptr'.drop (min toSend (last.length - s.m_formDataElementDataOffset)), ?_, List.take_left' hlen⟩
  rw [readParts, List.map_append, readItems_append, hpass]
  have hone := readItem_eq (s := { s with m_formDataElementIndex := s.m_formDataElementIndex + init.length }) hlast hroom'
  rw [Option.bind_some, List.map_cons, List.map_nil, readItems, hone]
  simp only [Option.bind_eq_bind, Option.bind_some, readItems, Option.map_some]

theorem readParts_whole {toSend : Nat} (init : List DataItem) (last : DataItem) {s : FormDataStream φ} {ptr : Bytes}
    (hinit : ∀ item ∈ init, item.length ≤ toSend) (hoffset : s.m_formDataElementDataOffset = 0)
    (hlast : last.length ≤ toSend) (hroom : toSend ≤ ptr.length) :
    ∃ s' after, readParts toSend (init ++ [last]) s ptr = some (s', after, last.length) ∧
      after.take last.length = last.contents ∧
      s'.m_formDataElementIndex = s.m_formDataElementIndex + init.length + 1 ∧ s'.m_formDataElementDataOffset = 0 := by
  obtain ⟨after, hread, htake⟩ := readParts_last init last s hinit (fun _ => hoffset) (by omega) hroom
  have hall : last.contents.take toSend = last.contents :=
    List.take_of_length_le (by rw [last.length_contents]; exact hlast)
  rw [hoffset, Nat.sub_zero, Nat.min_eq_right hlast] at hread htake
  rw [advance_self] at hread
  rw [List.drop_zero, hall] at htake
  exact ⟨_, after, hread, htake, rfl, rfl⟩

/-- the elements are data and blobs -/
def NoFiles (job : ResourceHandle φ) : Prop := ∀ name, .encodedFile name ∉ job.elements

theorem read_eq {job : ResourceHandle φ} (hclient : job.client = true) (hfiles : NoFiles job) {s : FormDataStream φ}
    {items : List DataItem} (h : (body job)[s.m_formDataElementIndex]? = some items) (c : ReadCall) :
    s.read job c.ptr c.blockSize c.numberOfBlocks = readParts c.size items s c.ptr := by
  obtain ⟨element, hget, rfl⟩ : ∃ element, job.elements[s.m_formDataElementIndex]? = some element ∧
      parts job element = items := by simpa [body] using h
  have hfits : ¬ (c.numberOfBlocks = 0 ∨ (2 ^ 32 - 1) / c.numberOfBlocks < c.blockSize) := by
    have hpositive := c.positive
    have hsize := c.fits
    have hnum : 0 < c.numberOfBlocks := Nat.pos_of_mul_pos_left hpositive
    rintro (hzero | hover)
    · omega
    · rw [Nat.div_lt_iff_lt_mul hnum] at hover
      omega
  rw [read, hclient, if_neg Bool.noConfusion, if_neg hfits, hget]
  cases element with
  | encodedFile name => exact absurd (List.mem_of_getElem? hget) (hfiles name)
  | encodedBlob url =>
    rw [parts, readParts, ← readItems_dataItems, ReadCall.size]
    cases hread : readItems (c.blockSize * c.numberOfBlocks) ((job.blobs url).getD []) s c.ptr none with
    | none => simp [hread]
    | some r =>
      obtain ⟨s', ptr', sent⟩ := r
      cases sent <;> simp [hread]
  | data d =>
    rw [parts, readParts, ReadCall.size]
    cases hread : readItem (c.blockSize * c.numberOfBlocks) d.whole s c.ptr <;> simp [readItems, hread]

theorem bounded_of_readParts {items : List DataItem} {s s' : FormDataStream φ} {c : ReadCall} {after : Bytes} {sent : Nat}
    (h : readParts c.size items s c.ptr = some (s', after, sent)) : (Read.mk c after sent).Bounded := by
  obtain ⟨⟨s1, ptr1, sent1⟩, hread, h⟩ := Option.bind_eq_some_iff.mp h
  obtain ⟨n, hn, heq⟩ := Option.map_eq_some_iff.mp h
  obtain ⟨-, rfl, rfl⟩ : s1 = s' ∧ ptr1 = after ∧ n = sent := by simpa using heq
  obtain ⟨hsent, hlength, hbehind⟩ := readItems_bounded _ (by simp) hread
  exact ⟨hsent n hn, hlength, hbehind⟩

theorem hasMoreElements_iff {job : ResourceHandle φ} {s : FormDataStream φ} :
    s.hasMoreElements job = true ↔ s.m_formDataElementIndex < (body job).length := by
  simp [hasMoreElements, body]

/-- the calls end, and have returned these bytes -/
def Delivers (job : ResourceHandle φ) (s : FormDataStream φ) (calls : Nat → ReadCall) (bytes : Bytes) : Prop :=
  ∃ fuel reads, upload job fuel calls s = some reads ∧ reads.flatMap Read.returned = bytes ∧ ∀ r ∈ reads, r.Bounded

theorem Delivers.done {job : ResourceHandle φ} {s : FormDataStream φ} {calls : Nat → ReadCall}
    (h : (body job).length ≤ s.m_formDataElementIndex) : Delivers job s calls [] := by
  refine ⟨1, [], ?_, rfl, by simp⟩
  rw [upload, if_neg]
  rw [hasMoreElements_iff]
  omega

theorem Delivers.step {job : ResourceHandle φ} (hclient : job.client = true) (hfiles : NoFiles job)
    {s s' : FormDataStream φ} {calls : Nat → ReadCall} {items : List DataItem} {after rest : Bytes} {sent : Nat}
    (hitems : (body job)[s.m_formDataElementIndex]? = some items)
    (hread : readParts (calls 0).size items s (calls 0).ptr = some (s', after, sent))
    (h : Delivers job s' (fun n => calls (n + 1)) rest) : Delivers job s calls (after.take sent ++ rest) := by
  obtain ⟨fuel, reads, hupload, hreturned, hbounded⟩ := h
  refine ⟨fuel + 1, ⟨calls 0, after, sent⟩ :: reads, ?_, ?_, ?_⟩
  · have hmore : s.hasMoreElements job = true := hasMoreElements_iff.mpr (List.getElem?_eq_some_iff.mp hitems).1
    rw [upload, if_pos hmore, read_eq hclient hfiles hitems, hread]
    simp only [Option.bind_eq_bind, Option.bind_some, hupload]
    rfl
  · rw [List.flatMap_cons, hreturned]
    rfl
  · intro r hr
    rcases List.mem_cons.mp hr with rfl | hr
    · exact bounded_of_readParts hread
    · exact hbounded r hr

theorem Delivers.range {job : ResourceHandle φ} (hclient : job.client = true) (hfiles : NoFiles job) {item : DataItem}
    {index : Nat} (hitem : (body job)[index]? = some [item]) {rest : Bytes}
    (hrest : ∀ (s : FormDataStream φ) (calls : Nat → ReadCall), s.m_formDataElementIndex = index + 1 →
      s.m_formDataElementDataOffset = 0 → Delivers job s calls rest) :
    ∀ (left : Nat) (s : FormDataStream φ) (calls : Nat → ReadCall), s.m_formDataElementIndex = index →
      s.m_formDataElementDataOffset + left = item.length →
      Delivers job s calls (item.contents.drop s.m_formDataElementDataOffset ++ rest) := by
  intro left
  induction left using Nat.strong_induction_on with
  | _ left ih =>
    intro s calls hindex hleft
    obtain ⟨after, hread, htake⟩ := readParts_last [] item s
      (by simp) (by simp) (by omega) (calls 0).size_le
    rw [← hindex] at hitem
    have hpositive : 0 < (calls 0).size := (calls 0).positive
    have hsub : item.length - s.m_formDataElementDataOffset = left := by omega
    rw [hsub] at hread htake
    rcases Nat.lt_or_ge (calls 0).size left with hlt | hge
    · rw [Nat.min_eq_left (Nat.le_of_lt hlt), advance_of_lt hlt] at hread
      have hnext := ih (left - (calls 0).size) (by omega)
        { s with m_formDataElementDataOffset := s.m_formDataElementDataOffset + (calls 0).size }
        (fun n => calls (n + 1)) hindex (by dsimp only; omega)
      have hstep := Delivers.step hclient hfiles hitem hread hnext
      rw [Nat.min_eq_left (Nat.le_of_lt hlt)] at htake
      rw [htake, ← List.append_assoc, ← List.drop_drop, List.take_append_drop] at hstep
      exact hstep
    · have hall : (item.contents.drop s.m_formDataElementDataOffset).take (calls 0).size =
          item.contents.drop s.m_formDataElementDataOffset :=
        List.take_of_length_le (by rw [List.length_drop, item.length_contents]; omega)
      rw [Nat.min_eq_right hge, advance_self] at hread
      rw [Nat.min_eq_right hge, hall] at htake
      rw [← htake]
      exact Delivers.step hclient hfiles hitem hread (hrest _ _ (by simp [hindex]) rfl)

end FormDataStream

/-! ## the bodies that arrive -/

theorem bytesOf_append (a b : List DataItem) : bytesOf (a ++ b) = bytesOf a ++ bytesOf b := List.flatMap_append ..

theorem bytesOf_single (item : DataItem) : bytesOf [item] = item.contents := List.flatMap_singleton ..

theorem contents_cons (items : List DataItem) (rest : List (List DataItem)) :
    contents (items :: rest) = bytesOf items ++ contents rest := rfl

theorem bytesOf_eq_nil {items : List DataItem} :
    bytesOf items = [] ↔ items.all (fun item => item.length == 0) = true := by
  simp only [bytesOf, List.flatMap_eq_nil_iff, List.all_eq_true, beq_iff_eq, ← DataItem.length_contents,
    List.length_eq_zero_iff]

theorem regularWith_last (ok : DataItem → Bool) (init : List DataItem) (last : DataItem) (rest : List (List DataItem)) :
    regularWith ok 0 ((init ++ [last]) :: rest) =
      (init.all (fun item => item.length == 0) && (init.isEmpty || ok last) && regularWith ok init.length rest) := by
  simp [regularWith]

theorem regularWith_skipped {ok : DataItem → Bool} {elements : List (List DataItem)} :
    ∀ {skipped i : Nat} {items : List DataItem}, regularWith ok skipped elements = true → i < skipped →
      elements[i]? = some items → bytesOf items = [] := by
  induction elements with
  | nil => intro skipped i items _ _ hget; cases hget
  | cons first rest ih =>
    intro skipped i items h hi hget
    cases skipped with
    | zero => cases hi
    | succ skipped =>
      obtain ⟨hfirst, hrest⟩ := (Bool.and_eq_true _ _).mp h
      cases i with
      | zero => exact Option.some.inj hget ▸ bytesOf_eq_nil.mpr hfirst
      | succ i => exact ih hrest (Nat.lt_of_succ_lt_succ hi) hget

theorem drop_cons {α : Type} {l rest : List α} {pos : Nat} {a : α} (h : l.drop pos = a :: rest) :
    l[pos]? = some a ∧ l.drop (pos + 1) = rest := by
  constructor
  · have hget : (l.drop pos)[0]? = l[pos + 0]? := List.getElem?_drop
    rw [h, Nat.add_zero] at hget
    exact hget.symm
  · rw [← List.drop_drop, h]
    rfl

section
variable {φ : Type} {job : ResourceHandle φ}
open FormDataStream

theorem delivers_regular (hclient : job.client = true) (hfiles : NoFiles job) (todo : List (List DataItem)) :
    ∀ (skipped pos : Nat), (body job).drop pos = todo →
      regularWith (fun last => decide (last.length ≤ 1)) skipped todo = true →
      ∀ (s : FormDataStream φ) (calls : Nat → ReadCall), s.m_formDataElementIndex = pos + skipped →
        s.m_formDataElementDataOffset = 0 → Delivers job s calls (contents todo) := by
  induction todo with
  | nil =>
    intro skipped pos hdrop _ s calls hindex _
    have hend : (body job).length ≤ pos := List.drop_eq_nil_iff.mp hdrop
    exact Delivers.done (by omega)
  | cons items rest ih =>
    intro skipped pos hdrop hregular s calls hindex hoffset
    obtain ⟨hget, hnext⟩ := drop_cons hdrop
    cases skipped with
    | succ skipped =>
      obtain ⟨hempty, hrest⟩ := (Bool.and_eq_true _ _).mp hregular
      rw [contents_cons, bytesOf_eq_nil.mpr hempty]
      exact ih skipped (pos + 1) hnext hrest s calls (by omega) hoffset
    | zero =>
      rcases List.eq_nil_or_concat' items with rfl | ⟨init, last, rfl⟩
      · cases hregular
      · rw [regularWith_last] at hregular
        simp only [Bool.and_eq_true, Bool.or_eq_true, decide_eq_true_eq] at hregular
        obtain ⟨⟨hempty, hlast⟩, hrest⟩ := hregular
        cases init with
        | nil =>
          have hrange := Delivers.range hclient hfiles hget
            (fun s calls hindex hoffset => ih 0 (pos + 1) hnext hrest s calls hindex hoffset) last.length s calls
            hindex (by omega)
          rw [hoffset] at hrange
          rw [contents_cons, List.nil_append, bytesOf_single]
          exact hrange
        | cons first init =>
          have hshort : last.length ≤ 1 := hlast.resolve_left (by simp)
          have hpositive : 0 < (calls 0).size := (calls 0).positive
          have hinit : ∀ item ∈ first :: init, item.length ≤ (calls 0).size := by
            intro item hitem
            have hzero : item.length = 0 := by simpa using List.all_eq_true.mp hempty item hitem
            omega
          obtain ⟨s', after, hread, htake, hindex', hoffset'⟩ :=
            readParts_whole (first :: init) last hinit hoffset (by omega) (calls 0).size_le
          rw [contents_cons, bytesOf_append, bytesOf_eq_nil.mpr hempty, bytesOf_single, List.nil_append, ← htake]
          refine Delivers.step hclient hfiles (by rw [hindex]; exact hget) hread ?_
          exact ih (first :: init).length (pos + 1) hnext hrest s' _ (by omega) hoffset'

/-! ## the bodies that do not -/

theorem upload_cons (hclient : job.client = true) (hfiles : NoFiles job) {fuel : Nat} {calls : Nat → ReadCall}
    {s : FormDataStream φ} {reads : List Read} (h : upload job fuel calls s = some reads) (items : List DataItem)
    (hitems : (body job)[s.m_formDataElementIndex]? = some items) :
    ∃ fuel' s' after sent reads', readParts (calls 0).size items s (calls 0).ptr = some (s', after, sent) ∧
      upload job fuel' (fun n => calls (n + 1)) s' = some reads' ∧ fuel = fuel' + 1 ∧
      (reads.flatMap Read.returned).length = (after.take sent).length + (reads'.flatMap Read.returned).length := by
  cases fuel with
  | zero => cases h
  | succ fuel =>
    have hmore : s.hasMoreElements job = true := hasMoreElements_iff.mpr (List.getElem?_eq_some_iff.mp hitems).1
    rw [upload, if_pos hmore, read_eq hclient hfiles hitems] at h
    obtain ⟨⟨s', after, sent⟩, hread, h⟩ := Option.bind_eq_some_iff.mp h
    obtain ⟨reads', hrest, h⟩ := Option.bind_eq_some_iff.mp h
    obtain rfl : ⟨calls 0, after, sent⟩ :: reads' = reads := Option.some.inj h
    exact ⟨fuel, s', after, sent, reads', hread, hrest, rfl, by rw [List.flatMap_cons, List.length_append]; rfl⟩

theorem upload_done {fuel : Nat} {calls : Nat → ReadCall} {s : FormDataStream φ} {reads : List Read}
    (h : upload job fuel calls s = some reads) (hend : (body job).length ≤ s.m_formDataElementIndex) : reads = [] := by
  cases fuel with
  | zero => cases h
  | succ fuel =>
    have hmore : ¬ s.hasMoreElements job = true := by
      rw [hasMoreElements_iff]
      omega
    rw [upload, if_neg hmore] at h
    exact (Option.some.inj h).symm

/-- With room for anything, each call gets the range at the end of an element and passes over as many elements as there
are ranges: no bytes are gained. -/
theorem upload_large (hclient : job.client = true) (hfiles : NoFiles job) {c : ReadCall} (hsize : c.size = 2 ^ 32 - 1)
    (todo : List (List DataItem)) :
    ∀ (skipped pos : Nat), (body job).drop pos = todo → ∀ (s : FormDataStream φ),
      s.m_formDataElementIndex = pos + skipped → s.m_formDataElementDataOffset = 0 →
      ∀ (fuel : Nat) (reads : List Read), upload job fuel (fun _ => c) s = some reads →
      (reads.flatMap Read.returned).length ≤ (contents todo).length ∧
        ((contents todo).length ≤ (reads.flatMap Read.returned).length →
          regularWith (fun _ => true) skipped todo = true) := by
  induction todo with
  | nil =>
    intro skipped pos hdrop s hindex _ fuel reads h
    have hend : (body job).length ≤ pos := List.drop_eq_nil_iff.mp hdrop
    rw [upload_done h (by omega)]
    exact ⟨Nat.le_refl 0, fun _ => by cases skipped <;> rfl⟩
  | cons items rest ih =>
    intro skipped pos hdrop s hindex hoffset fuel reads h
    obtain ⟨hget, hnext⟩ := drop_cons hdrop
    rw [contents_cons, List.length_append]
    cases skipped with
    | succ skipped =>
      obtain ⟨hle, hregular⟩ := ih skipped (pos + 1) hnext s (by omega) hoffset fuel reads h
      refine ⟨by omega, fun hall => ?_⟩
      have hempty : bytesOf items = [] := List.length_eq_zero_iff.mp (by omega)
      exact (Bool.and_eq_true _ _).mpr ⟨bytesOf_eq_nil.mp hempty, hregular (by omega)⟩
    | zero =>
      obtain ⟨fuel', s', after, sent, reads', hread, hupload, -, hlength⟩ :=
        upload_cons hclient hfiles h items (by rw [hindex]; exact hget)
      rcases List.eq_nil_or_concat' items with rfl | ⟨init, last, rfl⟩
      · cases hread
      · have hroom : ∀ item : DataItem, item.length ≤ c.size := by
          intro item
          have hlt := item.length_lt
          omega
        obtain ⟨s1, after1, hread1, htake, hindex1, hoffset1⟩ :=
          readParts_whole init last (fun item _ => hroom item) hoffset (hroom last) c.size_le
        obtain ⟨rfl, rfl, rfl⟩ : s1 = s' ∧ after1 = after ∧ last.length = sent := by
          simpa using Option.some.inj (hread1.symm.trans hread)
        obtain ⟨hle, hregular⟩ := ih init.length (pos + 1) hnext s1 (by omega) hoffset1 fuel' reads' hupload
        rw [hlength, htake, bytesOf_append, bytesOf_single, List.length_append]
        refine ⟨by omega, fun hall => ?_⟩
        have hempty : bytesOf init = [] := List.length_eq_zero_iff.mp (by omega)
        rw [regularWith_last, bytesOf_eq_nil.mp hempty, hregular (by omega), Bool.or_true]
        rfl

theorem readItem_behind {item : DataItem} (hempty : item.length = 0) {s s' : FormDataStream φ} {ptr ptr' : Bytes}
    {sent : Nat} (hoffset : 0 < s.m_formDataElementDataOffset) (hlt : s.m_formDataElementDataOffset < 2 ^ 32)
    (h : readItem 1 item s ptr = some (s', ptr', sent)) :
    s'.m_formDataElementIndex = s.m_formDataElementIndex ∧ 0 < s'.m_formDataElementDataOffset ∧
      s'.m_formDataElementDataOffset < 2 ^ 32 := by
  obtain ⟨bytes, hload, h⟩ := Option.bind_eq_some_iff.mp h
  obtain ⟨written, _, h⟩ := Option.bind_eq_some_iff.mp h
  have hsize := item.data.size_lt
  obtain ⟨hin, -⟩ := load_eq hload
  have hsub : (item.length + 2 ^ 32 - s.m_formDataElementDataOffset) % 2 ^ 32 =
      2 ^ 32 - s.m_formDataElementDataOffset := by omega
  simp only [hsub] at hin h
  have hmore : 1 < 2 ^ 32 - s.m_formDataElementDataOffset := by
    by_contra hlast
    rw [if_neg hlast] at hin
    omega
  rw [if_pos hmore, advance_of_lt hmore] at h
  rw [if_pos hmore] at hin
  obtain ⟨rfl, -, -⟩ : _ = s' ∧ written = ptr' ∧ 1 = sent := by simpa using h
  exact ⟨rfl, Nat.succ_pos _, by dsimp only; omega⟩

theorem readItems_behind (items : List DataItem) (hempty : ∀ item ∈ items, item.length = 0) :
    ∀ {s s' : FormDataStream φ} {ptr ptr' : Bytes} {sent sent' : Option Nat}, 0 < s.m_formDataElementDataOffset →
      s.m_formDataElementDataOffset < 2 ^ 32 →
      readItems 1 (items.map .Data) s ptr sent = some (s', ptr', sent') →
      s'.m_formDataElementIndex = s.m_formDataElementIndex ∧ 0 < s'.m_formDataElementDataOffset ∧
        s'.m_formDataElementDataOffset < 2 ^ 32 := by
  induction items with
  | nil =>
    intro s s' ptr ptr' sent sent' hoffset hlt h
    obtain ⟨rfl, -, -⟩ : s = s' ∧ ptr = ptr' ∧ sent = sent' := by simpa [readItems] using h
    exact ⟨rfl, hoffset, hlt⟩
  | cons item items ih =>
    intro s s' ptr ptr' sent sent' hoffset hlt h
    obtain ⟨⟨s1, ptr1, sent1⟩, hone, h⟩ := Option.bind_eq_some_iff.mp h
    obtain ⟨hindex, hoffset1, hlt1⟩ := readItem_behind (hempty item List.mem_cons_self) hoffset hlt hone
    obtain ⟨hindex', hoffset', hlt'⟩ := ih (fun item h => hempty item (List.mem_cons_of_mem _ h)) hoffset1 hlt1 h
    exact ⟨hindex'.trans hindex, hoffset', hlt'⟩

theorem upload_behind (hclient : job.client = true) (hfiles : NoFiles job) {c : ReadCall} (hsize : c.size = 1)
    {items : List DataItem} (hempty : bytesOf items = []) (fuel : Nat) :
    ∀ s : FormDataStream φ, (body job)[s.m_formDataElementIndex]? = some items → 0 < s.m_formDataElementDataOffset →
      s.m_formDataElementDataOffset < 2 ^ 32 → upload job fuel (fun _ => c) s = none := by
  induction fuel with
  | zero => exact fun _ _ _ _ => rfl
  | succ fuel ih =>
    intro s hitems hoffset hlt
    cases h : upload job (fuel + 1) (fun _ => c) s with
    | none => rfl
    | some reads =>
      exfalso
      obtain ⟨fuel', s', after, sent, reads', hread, hupload, hfuel, -⟩ := upload_cons hclient hfiles h items hitems
      obtain rfl : fuel = fuel' := Nat.succ.inj hfuel
      obtain ⟨⟨s1, ptr1, sent1⟩, hmany, hread⟩ := Option.bind_eq_some_iff.mp hread
      obtain ⟨n, _, heq⟩ := Option.map_eq_some_iff.mp hread
      obtain ⟨rfl, -, -⟩ : s1 = s' ∧ ptr1 = after ∧ n = sent := by simpa using heq
      have hzero : ∀ item ∈ items, item.length = 0 := by simpa using bytesOf_eq_nil.mp hempty
      rw [hsize] at hmany
      obtain ⟨hindex, hoffset1, hlt1⟩ := readItems_behind items hzero hoffset hlt hmany
      rw [ih s1 (by rw [hindex]; exact hitems) hoffset1 hlt1] at hupload
      cases hupload

theorem upload_range (hclient : job.client = true) (hfiles : NoFiles job) {c : ReadCall} (hsize : c.size = 1)
    {item : DataItem} {index : Nat} (hitem : (body job)[index]? = some [item]) :
    ∀ (left : Nat) (s : FormDataStream φ), s.m_formDataElementIndex = index →
      s.m_formDataElementDataOffset + left = item.length → ∀ (fuel : Nat) (reads : List Read),
      upload job fuel (fun _ => c) s = some reads → ∃ fuel' s' reads', s'.m_formDataElementIndex = index + 1 ∧
        s'.m_formDataElementDataOffset = 0 ∧ upload job fuel' (fun _ => c) s' = some reads' ∧
        (reads.flatMap Read.returned).length = left + (reads'.flatMap Read.returned).length := by
  intro left
  induction left with
  | zero =>
    intro s hindex hleft fuel reads h
    obtain ⟨fuel', s', after, sent, reads', hread, hupload, -, hlength⟩ :=
      upload_cons hclient hfiles h [item] (by rw [hindex]; exact hitem)
    obtain ⟨after1, hread1, htake⟩ := readParts_last [] item s
      (by simp) (by simp) (by omega) c.size_le
    have hsub : item.length - s.m_formDataElementDataOffset = 0 := by omega
    rw [hsub, Nat.min_zero, advance_self] at hread1
    obtain ⟨rfl, rfl, rfl⟩ : _ = s' ∧ after1 = after ∧ 0 = sent := by
      simpa using Option.some.inj (hread1.symm.trans hread)
    exact ⟨fuel', _, reads', by simp [hindex], rfl, hupload, by simpa using hlength⟩
  | succ left ih =>
    intro s hindex hleft fuel reads h
    obtain ⟨fuel', s', after, sent, reads', hread, hupload, -, hlength⟩ :=
      upload_cons hclient hfiles h [item] (by rw [hindex]; exact hitem)
    obtain ⟨after1, hread1, htake⟩ := readParts_last [] item s
      (by simp) (by simp) (by omega) c.size_le
    have hsub : item.length - s.m_formDataElementDataOffset = left + 1 := by omega
    have hone : ((item.contents.drop s.m_formDataElementDataOffset).take 1).length = 1 := by
      rw [List.length_take, List.length_drop, item.length_contents]
      omega
    rw [hsub, hsize, Nat.min_eq_left (Nat.le_add_left 1 left)] at hread1 htake
    rw [← hsize] at hread1
    obtain ⟨hs', rfl, rfl⟩ : _ = s' ∧ after1 = after ∧ c.size = sent := by
      simpa using Option.some.inj (hread1.symm.trans hread)
    rw [hsize, htake, hone] at hlength
    rw [hsize] at hs'
    rcases Nat.eq_zero_or_pos left with rfl | hmore
    · rw [advance_self] at hs'
      subst hs'
      exact ⟨fuel', _, reads', by simp [hindex], rfl, hupload, by omega⟩
    · rw [advance_of_lt (by omega)] at hs'
      subst hs'
      obtain ⟨fuel1, s1, reads1, hindex1, hoffset1, hupload1, hlength1⟩ :=
        ih _ (by simp [hindex]) (by dsimp only; omega) fuel' reads' hupload
      exact ⟨fuel1, s1, reads1, hindex1, hoffset1, hupload1, by omega⟩

/-- Byte by byte, of a range behind empty ones only the first byte arrives: the next call starts at byte 1 of an element
that was passed over, or there is none. -/
theorem upload_passed (hclient : job.client = true) (hfiles : NoFiles job) {c : ReadCall} (hsize : c.size = 1)
    {first last : DataItem} {init : List DataItem} {rest : List (List DataItem)} {pos : Nat}
    (hdrop : (body job).drop pos = ((first :: init) ++ [last]) :: rest)
    (hinit : ∀ item ∈ first :: init, item.length ≤ c.size) (hlong : 1 < last.length)
    (hrest : regularWith (fun _ => true) (init.length + 1) rest = true) {s : FormDataStream φ}
    (hindex : s.m_formDataElementIndex = pos) (hoffset : s.m_formDataElementDataOffset = 0) {fuel : Nat}
    {reads : List Read} (h : upload job fuel (fun _ => c) s = some reads) :
    (reads.flatMap Read.returned).length ≤ 1 := by
  obtain ⟨hget, hnext⟩ := drop_cons hdrop
  obtain ⟨fuel', s', after, sent, reads', hread, hupload, -, hlength⟩ :=
    upload_cons hclient hfiles h ((first :: init) ++ [last]) (by rw [hindex]; exact hget)
  obtain ⟨after1, hread1, htake⟩ := readParts_last (first :: init) last s hinit (fun _ => hoffset) (by omega) c.size_le
  rw [hoffset, Nat.sub_zero, hsize, Nat.min_eq_left (by omega), advance_of_lt hlong] at hread1
  rw [← hsize] at hread1
  obtain ⟨rfl, rfl, rfl⟩ : _ = s' ∧ after1 = after ∧ c.size = sent := by
    simpa using Option.some.inj (hread1.symm.trans hread)
  have hone : (after1.take c.size).length ≤ 1 := by
    rw [List.length_take, hsize]
    omega
  have hplace : s.m_formDataElementIndex + (init.length + 1) = pos + 1 + init.length := by omega
  cases hover : rest[init.length]? with
  | none =>
    have hend : (body job).length ≤ pos + 1 + init.length := by
      rw [← hnext, List.getElem?_drop] at hover
      exact List.getElem?_eq_none_iff.mp hover
    rw [upload_done hupload (by dsimp only; omega)] at hlength
    simp only [List.flatMap_nil, List.length_nil] at hlength
    omega
  | some items =>
    have hempty : bytesOf items = [] := regularWith_skipped hrest (Nat.lt_succ_self _) hover
    rw [← hnext, List.getElem?_drop, ← hplace] at hover
    rw [upload_behind hclient hfiles hsize hempty fuel' _ hover (by dsimp only; omega) (by dsimp only; omega)] at hupload
    cases hupload

theorem upload_small (hclient : job.client = true) (hfiles : NoFiles job) {c : ReadCall} (hsize : c.size = 1)
    (todo : List (List DataItem)) :
    ∀ (skipped pos : Nat), (body job).drop pos = todo → regularWith (fun _ => true) skipped todo = true →
      ∀ (s : FormDataStream φ), s.m_formDataElementIndex = pos + skipped → s.m_formDataElementDataOffset = 0 →
      ∀ (fuel : Nat) (reads : List Read), upload job fuel (fun _ => c) s = some reads →
        (reads.flatMap Read.returned).length = (contents todo).length →
        regularWith (fun last => decide (last.length ≤ 1)) skipped todo = true := by
  induction todo with
  | nil => intro skipped pos _ _ s _ _ fuel reads _ _; cases skipped <;> rfl
  | cons items rest ih =>
    intro skipped pos hdrop hregular s hindex hoffset fuel reads h hall
    obtain ⟨hget, hnext⟩ := drop_cons hdrop
    rw [contents_cons, List.length_append] at hall
    cases skipped with
    | succ skipped =>
      obtain ⟨hempty, hrest⟩ := (Bool.and_eq_true _ _).mp hregular
      rw [bytesOf_eq_nil.mpr hempty, List.length_nil, Nat.zero_add] at hall
      exact (Bool.and_eq_true _ _).mpr
        ⟨hempty, ih skipped (pos + 1) hnext hrest s (by omega) hoffset fuel reads h hall⟩
    | zero =>
      rcases List.eq_nil_or_concat' items with rfl | ⟨init, last, rfl⟩
      · cases hregular
      · rw [regularWith_last] at hregular ⊢
        simp only [Bool.or_true, Bool.and_true, Bool.and_eq_true] at hregular
        obtain ⟨hempty, hrest⟩ := hregular
        rw [bytesOf_append, bytesOf_eq_nil.mpr hempty, bytesOf_single, List.nil_append, last.length_contents] at hall
        have hinit : ∀ item ∈ init, item.length ≤ c.size := by
          intro item hitem
          have hzero : item.length = 0 := by simpa using List.all_eq_true.mp hempty item hitem
          omega
        cases init with
        | nil =>
          obtain ⟨fuel', s', reads', hindex', hoffset', hupload, hlength⟩ :=
            upload_range hclient hfiles hsize hget last.length s hindex (by omega) fuel reads h
          exact ih 0 (pos + 1) hnext hrest s' hindex' hoffset' fuel' reads' hupload (by omega)
        | cons first init =>
          by_cases hshort : last.length ≤ 1
          · obtain ⟨fuel', s', after, sent, reads', hread, hupload, -, hlength⟩ :=
              upload_cons hclient hfiles h ((first :: init) ++ [last]) (by rw [hindex]; exact hget)
            obtain ⟨s1, after1, hread1, htake, hindex1, hoffset1⟩ :=
              readParts_whole (first :: init) last hinit hoffset (by omega : last.length ≤ c.size) c.size_le
            obtain ⟨rfl, rfl, rfl⟩ : s1 = s' ∧ after1 = after ∧ last.length = sent := by
              simpa using Option.some.inj (hread1.symm.trans hread)
            rw [htake, last.length_contents] at hlength
            rw [hempty, ih (first :: init).length (pos + 1) hnext hrest s1 (by omega) hoffset1 fuel' reads' hupload
              (by omega), decide_eq_true hshort, Bool.or_true]
            rfl
          · have hpassed := upload_passed hclient hfiles hsize hdrop hinit (by omega) hrest hindex hoffset h
            omega

/-! ## the length that is announced -/

theorem length_bytesOf_dataItems (items : List BlobDataItem) : (bytesOf (dataItems items)).length = blobSize items := by
  induction items with
  | nil => rfl
  | cons item items ih =>
    cases item with
    | File => exact ih
    | Data item =>
      show (item.contents ++ bytesOf (dataItems items)).length = item.length + blobSize items
      rw [List.length_append, ih, item.length_contents]

theorem bodySize_eq (maxCurlOffT : Int) {elements : List FormDataElement}
    (hfiles : ∀ name, .encodedFile name ∉ elements) :
    bodySize job maxCurlOffT elements = some (contents (elements.map (parts job))).length := by
  induction elements with
  | nil => rfl
  | cons element elements ih =>
    have hrest := ih (fun name h => hfiles name (List.mem_cons_of_mem _ h))
    rw [List.map_cons, contents_cons, List.length_append]
    cases element with
    | encodedFile name => exact absurd List.mem_cons_self (hfiles name)
    | encodedBlob url =>
      rw [bodySize, hrest, parts, length_bytesOf_dataItems]
      rfl
    | data d =>
      rw [bodySize, hrest, parts, bytesOf_single, d.contents_whole]
      rfl

theorem simpleData_eq {method : HTTPMethod} {elements : List FormDataElement} {d : CharVector}
    (h : simpleData method elements = some d) : elements = [.data d] := by
  unfold simpleData at h
  split at h
  · split at h
    · cases h
    · rw [Option.some.inj h]
  · cases h

theorem setupMethod_length (hfiles : NoFiles job) (largeFile : Bool) (method : HTTPMethod) :
    setupMethod largeFile method job = .length (contents (body job)).length ↔
      (simpleData method job.elements = none → largeFile = false → (contents (body job)).length < 2 ^ 31) := by
  unfold setupMethod
  by_cases hempty : job.elements = []
  · have hnone : contents (body job) = [] := by rw [body, hempty]; rfl
    simp [hempty, hnone]
  · rw [if_neg hempty]
    cases hsimple : simpleData method job.elements with
    | some d =>
      have hbody : contents (body job) = d.bytes := by
        rw [body, simpleData_eq hsimple]
        simp [parts, contents, bytesOf, d.contents_whole]
      simp [hbody]
    | none =>
      have hsize : ∀ n, bodySize job n job.elements = some (contents (body job)).length := fun n => bodySize_eq n hfiles
      simp only [hsize, Announced.length.injEq, true_imp_iff]
      cases largeFile with
      | true => simp
      | false =>
        simp only [Bool.false_eq_true, if_false, true_imp_iff]
        constructor
        · intro heq
          have hlt := toInt32_lt (contents (body job)).length
          omega
        · exact toInt32_of_lt

end

/-- **A body arrives whole**, however it is read, with no byte written behind a buffer and with the length announced
for it, exactly if it is regular and `curl_off_t` is wide enough. -/
theorem upload_faithful {φ : Type} {job : ResourceHandle φ} (hclient : job.client = true)
    (hfiles : FormDataStream.NoFiles job) (largeFile : Bool) (method : HTTPMethod) :
    (∀ calls : Nat → ReadCall, ∃ fuel reads, upload job fuel calls {} = some reads ∧
        reads.flatMap Read.returned = contents (body job) ∧ (∀ r ∈ reads, r.Bounded) ∧
        setupMethod largeFile method job = .length (reads.flatMap Read.returned).length) ↔
      regular (body job) = true ∧
        (simpleData method job.elements = none → largeFile = false → (contents (body job)).length < 2 ^ 31) := by
  rw [← setupMethod_length hfiles]
  constructor
  · intro h
    let large : ReadCall :=
      ⟨2 ^ 32 - 1, 1, zeros (2 ^ 32 - 1), by omega, by omega, by rw [zeros_length]; omega⟩
    obtain ⟨fuel, reads, hupload, hreturned, -, hannounced⟩ := h (fun _ => large)
    obtain ⟨-, hregular⟩ :=
      upload_large hclient hfiles (c := large) (by simp [large, ReadCall.size]) (body job) 0 0 rfl {} rfl rfl fuel reads hupload
    obtain ⟨fuel', reads', hupload', hreturned', -⟩ := h (fun _ => ⟨1, 1, [0], by decide, by decide, by decide⟩)
    refine ⟨?_, by rw [hannounced, hreturned]⟩
    exact upload_small hclient hfiles rfl (body job) 0 0 rfl (hregular (by rw [hreturned])) {} rfl rfl fuel' reads'
      hupload' (by rw [hreturned'])
  · rintro ⟨hregular, hannounced⟩ calls
    obtain ⟨fuel, reads, hupload, hreturned, hbounded⟩ :=
      delivers_regular hclient hfiles (body job) 0 0 rfl hregular {} calls rfl rfl
    exact ⟨fuel, reads, hupload, hreturned, hbounded, by rw [hreturned, hannounced]⟩

namespace FormDataStream.Sample

def vector (b : UInt8) : CharVector := ⟨[b], by simp⟩

/-- a body of one element, with a blob of two ranges registered -/
def job (element : FormDataElement) : ResourceHandle Unit where
  client := true
  httpBody := some [element]
  blobs _ := some [.Data (vector 0x61).whole, .Data (vector 0x62).whole]
  getFileSize _ := none
  peer := ⟨fun _ => none, fun _ _ _ => (0, [], ()), fun _ => true⟩

def call : ReadCall := ⟨1, 4, zeros 4, by decide, by decide, by decide⟩

/-- a data element, a blob of two ranges and another data element -/
def aroundBlob : ResourceHandle Unit :=
  { job (.encodedBlob []) with httpBody := some [.data (vector 0x63), .encodedBlob [], .data (vector 0x64)] }

end FormDataStream.Sample

open FormDataStream.Sample

theorem upload_faithful_blob :
    (∀ calls : Nat → ReadCall, ∃ fuel reads, upload aroundBlob fuel calls {} = some reads ∧
        reads.flatMap Read.returned = contents (body aroundBlob) ∧ (∀ r ∈ reads, r.Bounded) ∧
        setupMethod false .PUT aroundBlob = .length (reads.flatMap Read.returned).length) ↔
      regular (body aroundBlob) = true ∧
        (simpleData .PUT aroundBlob.elements = none → false = false → (contents (body aroundBlob)).length < 2 ^ 31) :=
  upload_faithful rfl (by simp [FormDataStream.NoFiles, ResourceHandle.elements, aroundBlob, job]) false .PUT

/-- of the two ranges of a blob, only the second arrives -/
theorem upload_twoRanges :
    (job (.encodedBlob [])).client = true ∧ FormDataStream.NoFiles (job (.encodedBlob [])) ∧
    contents (body (job (.encodedBlob []))) = [0x61, 0x62] ∧
    (∃ reads, upload (job (.encodedBlob [])) 2 (fun _ => call) {} = some reads ∧
      reads.flatMap Read.returned = [0x62]) ∧
    ¬ ∃ fuel reads, upload (job (.encodedBlob [])) fuel (fun _ => call) {} = some reads ∧
      reads.flatMap Read.returned = contents (body (job (.encodedBlob []))) := by
  have hrun : ∀ fuel, upload (job (.encodedBlob [])) (fuel + 2) (fun _ => call) {} =
      some [⟨call, [0x62, 0, 0, 0], 1⟩] := by
    intro fuel
    have hread : ({} : FormDataStream Unit).read (job (.encodedBlob [])) call.ptr call.blockSize call.numberOfBlocks =
        some ({ m_formDataElementIndex := 2 }, [0x62, 0, 0, 0], 1) := by decide +kernel
    have hend : upload (job (.encodedBlob [])) (fuel + 1) (fun _ => call) { m_formDataElementIndex := 2 } = some [] := rfl
    rw [upload, if_pos (by decide), hread]
    simp only [Option.bind_eq_bind, Option.bind_some, hend]
    rfl
  refine ⟨rfl, by simp [FormDataStream.NoFiles, ResourceHandle.elements, job], by decide, ⟨_, hrun 0, by decide⟩, ?_⟩
  rintro ⟨fuel, reads, hupload, hreturned⟩
  match fuel with
  | 0 | 1 => cases hupload
  | fuel + 2 =>
    rw [hrun fuel] at hupload
    rw [← Option.some.inj hupload] at hreturned
    exact absurd hreturned (by decide)

end Wkc
