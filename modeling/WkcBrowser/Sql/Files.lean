import WkcBrowser.Lib.Bytes
import WkcBrowser.Lib.Runs
import WkcBrowser.Lib.Tables

/-!
# The files of the SQLite VFS

`wkcOpen`, `wkcRead`, `wkcWrite`, `wkcTruncate`, `wkcFileSize`, `wkcDelete` and `wkcClose` over file peers that act
like C stdio: a stream keeps its error indicator, and a file that is open stays when its name goes.

* `Vfs`, `Op`, `step`    the card, the open files, and the calls in any order;
* `store`                bytes that replace a range of a file;
* `Contract`             what SQLite is promised of a call;
* `Fine`                 the calls that keep the promise;
* `sqlite_files`         the runs in which every call does.
-/

namespace Wkc
namespace SqliteFile

def MAX_PATH : Nat := 260

/-- `strncpy` copies the whole of such a name -/
abbrev Name := { name : Bytes // name.length < MAX_PATH }

/-! ## the peers -/

inductive FileMode where
  | READONLY
  | CREATE
  | READWRITE
  deriving DecidableEq

/-- `fFile` is the number of the file -/
structure WkcFile where
  fFile : Nat
  fFileName : Name
  fIsDeleteOnClose : Bool
  deriving DecidableEq

/-- `names`, `bytes` and `writeProtected` are the card's, and `next` is the number of the next file on it; `handles`
are the `sqlite3_file`s that are open, and `errors` what `wkcFileFErrorPeer` says of their streams. -/
structure Vfs where
  names : Name → Option Nat
  bytes : Nat → Bytes
  writeProtected : Nat → Bool
  next : Nat
  handles : Nat → Option WkcFile := fun _ => none
  errors : Nat → Bool := fun _ => false

/-- `data` in the place of what was there; a gap before it is filled with zeros -/
def store (bytes : Bytes) (offset : Nat) (data : Bytes) : Bytes :=
  if data = [] then bytes
  else (bytes ++ List.replicate (offset - bytes.length) 0).take offset ++ data ++ bytes.drop (offset + data.length)

namespace Vfs

def setBytes (s : Vfs) (file : Nat) (bytes : Bytes) : Vfs := { s with bytes := Function.update s.bytes file bytes }

/-- a new empty file -/
def create (s : Vfs) (name : Name) : Vfs :=
  { s with
    names := Function.update s.names name (some s.next)
    bytes := Function.update s.bytes s.next []
    writeProtected := Function.update s.writeProtected s.next false
    next := s.next + 1 }

def wkcFileFOpenPeer (s : Vfs) (name : Name) (mode : FileMode) : Option (Nat × Vfs) :=
  match s.names name with
  | none => if mode = .CREATE then some (s.next, s.create name) else none
  | some file =>
    match mode with
    | .READONLY => some (file, s)
    | .READWRITE => if s.writeProtected file then none else some (file, s)
    | .CREATE => if s.writeProtected file then none else some (file, s.setBytes file [])

/-- whether it has removed the file; `permits`: it would -/
def wkcFileUnlinkPeer (s : Vfs) (name : Name) (permits : Bool) : Bool × Vfs :=
  if (s.names name).isSome ∧ permits then (true, { s with names := Function.update s.names name none }) else (false, s)

end Vfs

/-! ## calls -/

inductive Result where
  | SQLITE_OK
  | SQLITE_FULL
  | SQLITE_CANTOPEN
  | SQLITE_IOERR_READ
  | SQLITE_IOERR_SHORT_READ
  | SQLITE_IOERR_WRITE
  | SQLITE_IOERR_CLOSE
  | SQLITE_IOERR_DELETE
  deriving DecidableEq

/-- the flags of `wkcOpen`, with its `ASSERT`s -/
structure OpenFlags where
  isExclusive : Bool := false
  isDelete : Bool := false
  isCreate : Bool := false
  isReadonly : Bool := false
  isReadWrite : Bool := false
  one : (isReadonly = false ∨ isReadWrite = false) ∧ (isReadWrite = true ∨ isReadonly = true)
  creates : isCreate = true → isReadWrite = true
  excludes : isExclusive = true → isCreate = true
  deletes : isDelete = true → isCreate = true

inductive OutFlags where
  | SQLITE_OPEN_READWRITE
  | SQLITE_OPEN_READONLY
  deriving DecidableEq

/-- what a call gives back: `pOutFlags` where a file has been opened, the buffer of `wkcRead`, or `*pSize` -/
inductive Returned where
  | nothing
  | result (result : Result)
  | opened (pOutFlags : OutFlags)
  | read (result : Result) (pBuf : Bytes)
  | size (size : Nat)
  deriving DecidableEq

namespace Vfs

def fileExists (s : Vfs) (path : Name) : Bool := (s.wkcFileFOpenPeer path .READONLY).isSome

/-- the mode that `fileMode` holds in the end: that of a read-only file is overwritten -/
def fileMode (s : Vfs) (zName : Name) (flags : OpenFlags) : FileMode :=
  if flags.isCreate then if flags.isExclusive ∨ ¬s.fileExists zName then .CREATE else .READWRITE else .READWRITE

def opened (s : Vfs) (h : Nat) (fp : Nat) (name : Name) (isDelete : Bool) : Vfs :=
  { s with
    handles := Function.update s.handles h (some { fFile := fp, fFileName := name, fIsDeleteOnClose := isDelete })
    errors := Function.update s.errors h false }

/-- `temporary`: the name that `wkcFileOpenTemporaryFilePeer` finds, if it does -/
def wkcOpen (s : Vfs) (h : Nat) (zName temporary : Option Name) (flags : OpenFlags) : Vfs × Returned :=
  match zName with
  | none =>
    match temporary with
    | none => (s, .result .SQLITE_CANTOPEN)
    | some fileName => ((s.create fileName).opened h s.next fileName flags.isDelete, .opened .SQLITE_OPEN_READWRITE)
  | some zName =>
    if flags.isExclusive ∧ s.fileExists zName then (s, .result .SQLITE_CANTOPEN)
    else
      match s.wkcFileFOpenPeer zName (s.fileMode zName flags) with
      | none => (s, .result .SQLITE_CANTOPEN)
      | some (fp, s) =>
        (s.opened h fp zName flags.isDelete,
          .opened (if flags.isReadWrite then .SQLITE_OPEN_READWRITE else .SQLITE_OPEN_READONLY))

/-- `pBuf` with what it holds before; its length is `amt` -/
def wkcRead (s : Vfs) (h : Nat) (file : WkcFile) (pBuf : Bytes) (offset : Nat) : Returned :=
  let reads := ((s.bytes file.fFile).drop offset).take pBuf.length
  if s.errors h then .read .SQLITE_IOERR_READ (reads ++ pBuf.drop reads.length)
  else if reads.length < pBuf.length then
    .read .SQLITE_IOERR_SHORT_READ (reads ++ List.replicate (pBuf.length - reads.length) 0)
  else .read .SQLITE_OK reads

/-- The loop of `wkcWrite`: whether `writes` is not 0 after it, and the file.  `answers` is what the peer would store
in each call, and 0 where it fails. -/
def writeLoop (answers : Nat → Nat) : Nat → Nat → Nat → Bytes → Bytes → Bool × Bytes
  | 0, _, _, _, bytes => (true, bytes)
  | rest + 1, calls, offset, pos, bytes =>
    if pos = [] then (true, bytes)
    else
      let writes := min (answers calls) pos.length
      if writes = 0 then (false, bytes)
      else writeLoop answers rest (calls + 1) (offset + writes) (pos.drop writes) (store bytes offset (pos.take writes))

/-- `noSpace`: the error of a call that fails is `ENOSPC` -/
def wkcWrite (s : Vfs) (h : Nat) (file : WkcFile) (pBuf : Bytes) (offset : Nat) (answers : Nat → Nat) (noSpace : Bool) :
    Vfs × Returned :=
  let written := writeLoop answers pBuf.length 0 offset pBuf (s.bytes file.fFile)
  let s := s.setBytes file.fFile written.2
  if written.1 then (s, .result .SQLITE_OK)
  else ({ s with errors := Function.update s.errors h true }, .result (if noSpace then .SQLITE_FULL else .SQLITE_IOERR_WRITE))

def truncated (bytes : Bytes) (nByte : Nat) : Bytes := bytes.take nByte ++ List.replicate (nByte - bytes.length) 0

def wkcTruncate (s : Vfs) (file : WkcFile) (nByte : Nat) : Vfs × Returned :=
  (s.setBytes file.fFile (truncated (s.bytes file.fFile) nByte), .result .SQLITE_OK)

def wkcFileSize (s : Vfs) (file : WkcFile) : Returned := .size (s.bytes file.fFile).length

def wkcDelete (s : Vfs) (zName : Name) (permits : Bool) : Vfs × Returned :=
  if ¬s.fileExists zName then (s, .result .SQLITE_OK)
  else
    let err := s.wkcFileUnlinkPeer zName permits
    (err.2, .result (if err.1 then .SQLITE_OK else .SQLITE_IOERR_DELETE))

def wkcClose (s : Vfs) (h : Nat) (file : WkcFile) (permits : Bool) : Vfs × Returned :=
  let s := { s with handles := Function.update s.handles h none }
  if file.fIsDeleteOnClose then
    let err := s.wkcFileUnlinkPeer file.fFileName permits
    (err.2, .result (if err.1 then .SQLITE_IOERR_CLOSE else .SQLITE_OK))
  else (s, .result .SQLITE_OK)

/-! ## steps -/

inductive Op where
  | wkcOpen (h : Nat) (zName temporary : Option Name) (flags : OpenFlags)
  | wkcRead (h : Nat) (pBuf : Bytes) (offset : Nat)
  | wkcWrite (h : Nat) (pBuf : { data : Bytes // data ≠ [] }) (offset : Nat) (answers : Nat → Nat) (noSpace : Bool)
  | wkcTruncate (h nByte : Nat)
  | wkcFileSize (h : Nat)
  | wkcDelete (zName : Name) (permits : Bool)
  | wkcClose (h : Nat) (permits : Bool)

/-- a call for a file that is open -/
def withFile (s : Vfs) (h : Nat) (call : WkcFile → Vfs × Returned) : Vfs × Returned :=
  match s.handles h with
  | none => (s, .nothing)
  | some file => call file

/-- the name of a temporary file is new -/
def unused (s : Vfs) (temporary : Option Name) : Option Name := temporary.filter fun name => (s.names name).isNone

def call (s : Vfs) : Op → Vfs × Returned
  | .wkcOpen h zName temporary flags =>
    match s.handles h with
    | none => s.wkcOpen h zName (s.unused temporary) flags
    | some _ => (s, .nothing)
  | .wkcRead h pBuf offset => s.withFile h fun file => (s, s.wkcRead h file pBuf offset)
  | .wkcWrite h pBuf offset answers noSpace =>
    s.withFile h fun file => s.wkcWrite h file pBuf.1 offset answers noSpace
  | .wkcTruncate h nByte => s.withFile h fun file => s.wkcTruncate file nByte
  | .wkcFileSize h => s.withFile h fun file => (s, s.wkcFileSize file)
  | .wkcDelete zName permits => s.wkcDelete zName permits
  | .wkcClose h permits => s.withFile h fun file => s.wkcClose h file permits

def step (s : Vfs) (op : Op) : Vfs := (s.call op).1

/-! ## the promise -/

/-- the bytes of a range, zero beyond the end -/
def readBytes (bytes : Bytes) (offset amt : Nat) : Bytes := (List.range amt).map fun i => bytes.getD (offset + i) 0

def ReadContract (s : Vfs) (file : WkcFile) (pBuf : Bytes) (offset : Nat) (out : Vfs × Returned) : Prop :=
  out = (s, .read (if pBuf ≠ [] ∧ (s.bytes file.fFile).length < offset + pBuf.length then .SQLITE_IOERR_SHORT_READ
    else .SQLITE_OK) (readBytes (s.bytes file.fFile) offset pBuf.length))

/-- `data` is what has changed; a file that grows has zeros where nothing was written -/
def Replaced (before after : Bytes) (offset : Nat) (data : Bytes) : Prop :=
  after.length = (if data = [] then before.length else max before.length (offset + data.length)) ∧
  ∀ i, after.getD i 0 = if offset ≤ i ∧ i < offset + data.length then data.getD (i - offset) 0 else before.getD i 0

/-- `n` bytes are stored, all of them if the call succeeds -/
def WriteContract (s : Vfs) (file : WkcFile) (pBuf : Bytes) (offset : Nat) (out : Vfs × Returned) : Prop :=
  ∃ n, n ≤ pBuf.length ∧ (out.2 = .result .SQLITE_OK ↔ n = pBuf.length) ∧
    Replaced (s.bytes file.fFile) (out.1.bytes file.fFile) offset (pBuf.take n) ∧
    (∀ other, other ≠ file.fFile → out.1.bytes other = s.bytes other) ∧
    out.1.names = s.names ∧ out.1.handles = s.handles

def TruncateContract (s : Vfs) (file : WkcFile) (nByte : Nat) (out : Vfs × Returned) : Prop :=
  out = (s.setBytes file.fFile (readBytes (s.bytes file.fFile) 0 nByte), .result .SQLITE_OK)

/-- A file that is not there is created.  Only a new file can be asked for, and only a file that may be written can
be opened for writing. -/
def Openable (s : Vfs) (zName : Name) (flags : OpenFlags) : Prop :=
  match s.names zName with
  | none => flags.isCreate = true
  | some file => flags.isExclusive = false ∧ (flags.isReadonly = true ∨ s.writeProtected file = false)

def found (s : Vfs) (zName : Name) : Nat × Vfs :=
  match s.names zName with
  | none => (s.next, s.create zName)
  | some file => (file, s)

def openedAs (flags : OpenFlags) : Returned :=
  .opened (if flags.isReadWrite then .SQLITE_OPEN_READWRITE else .SQLITE_OPEN_READONLY)

def OpenContract (s : Vfs) (h : Nat) (zName temporary : Option Name) (flags : OpenFlags) (out : Vfs × Returned) : Prop :=
  match zName, s.unused temporary with
  | some zName, _ =>
    (s.Openable zName flags → out = ((s.found zName).2.opened h (s.found zName).1 zName flags.isDelete, openedAs flags)) ∧
    (¬s.Openable zName flags → out = (s, .result .SQLITE_CANTOPEN))
  | none, some fileName =>
    out = ((s.create fileName).opened h s.next fileName flags.isDelete, .opened .SQLITE_OPEN_READWRITE)
  | none, none => out = (s, .result .SQLITE_CANTOPEN)

/-- the files that were there, or open, are what they were -/
def Undisturbed (s s' : Vfs) : Prop :=
  (∀ name file, s.names name = some file → s'.names name = some file ∧ s'.bytes file = s.bytes file) ∧
  ∀ h file, s.handles h = some file → s'.handles h = some file ∧ s'.bytes file.fFile = s.bytes file.fFile

def DeleteContract (s : Vfs) (zName : Name) (out : Vfs × Returned) : Prop :=
  (out.2 = .result .SQLITE_OK ↔ out.1.names zName = none) ∧
  (∀ name, name ≠ zName → out.1.names name = s.names name) ∧
  out.1.bytes = s.bytes ∧ out.1.handles = s.handles

def CloseContract (s : Vfs) (h : Nat) (file : WkcFile) (out : Vfs × Returned) : Prop :=
  (out.2 = .result .SQLITE_OK ↔ (file.fIsDeleteOnClose = true → out.1.names file.fFileName = none)) ∧
  (∀ name, file.fIsDeleteOnClose = false ∨ name ≠ file.fFileName → out.1.names name = s.names name) ∧
  out.1.bytes = s.bytes ∧ out.1.handles = Function.update s.handles h none

/-- what SQLite is promised of a call for a file that is open, or of `wkcOpen` for one that is not -/
def Contract (s : Vfs) (op : Op) (out : Vfs × Returned) : Prop :=
  match op with
  | .wkcOpen h zName temporary flags =>
    s.handles h = none → s.OpenContract h zName temporary flags out ∧ s.Undisturbed out.1
  | .wkcRead h pBuf offset => ∀ file, s.handles h = some file → s.ReadContract file pBuf offset out
  | .wkcWrite h pBuf offset _ _ => ∀ file, s.handles h = some file → s.WriteContract file pBuf.1 offset out
  | .wkcTruncate h nByte => ∀ file, s.handles h = some file → s.TruncateContract file nByte out
  | .wkcFileSize h => ∀ file, s.handles h = some file → out = (s, .size (s.bytes file.fFile).length)
  | .wkcDelete zName _ => s.DeleteContract zName out
  | .wkcClose h _ => ∀ file, s.handles h = some file → s.CloseContract h file out

/-- No file that is write-protected is opened to be read only, nothing is read after a write to the stream has
failed, and no file is deleted by closing it. -/
def Fine (s : Vfs) : Op → Prop
  | .wkcOpen h (some zName) _ flags =>
    s.handles h = none → flags.isReadonly = true → ∀ file, s.names zName = some file → s.writeProtected file = false
  | .wkcRead h _ _ => s.handles h ≠ none → s.errors h = false
  | .wkcClose h _ => ∀ file, s.handles h = some file → file.fIsDeleteOnClose = true → s.names file.fFileName = none
  | _ => True

/-! ## bytes -/

end Vfs

theorem store_nil (bytes : Bytes) (offset : Nat) : store bytes offset [] = bytes := rfl

theorem store_store (bytes : Bytes) (offset : Nat) {first : Bytes} (hfirst : first ≠ []) (second : Bytes) :
    store (store bytes offset first) (offset + first.length) second = store bytes offset (first ++ second) := by
  rcases eq_or_ne second [] with rfl | hsecond
  · rw [store_nil, List.append_nil]
  have hboth : first ++ second ≠ [] := fun h => hfirst (List.append_eq_nil_iff.mp h).1
  unfold store
  rw [if_neg hfirst, if_neg hsecond, if_neg hboth]
  have hhead : ((bytes ++ List.replicate (offset - bytes.length) 0).take offset).length = offset := by
    rw [List.length_take, List.length_append, List.length_replicate]
    omega
  generalize (bytes ++ List.replicate (offset - bytes.length) 0).take offset = head at hhead ⊢
  have hlength : (head ++ first ++ bytes.drop (offset + first.length)).length =
      offset + first.length + (bytes.drop (offset + first.length)).length := by
    rw [List.length_append, List.length_append, hhead]
  have hgap : offset + first.length - (head ++ first ++ bytes.drop (offset + first.length)).length = 0 := by omega
  have hstart : (head ++ first).length = offset + first.length := by rw [List.length_append, hhead]
  have hrest : offset + (first ++ second).length = offset + first.length + second.length := by
    rw [List.length_append, Nat.add_assoc]
  rw [hgap, List.replicate_zero, List.append_nil, List.take_left' hstart, hrest, ← List.drop_drop, ← List.append_assoc head]
  congr 1
  rw [← hstart, List.drop_append_length, List.drop_drop]

theorem store_replaced (bytes : Bytes) (offset : Nat) (data : Bytes) :
    Vfs.Replaced bytes (store bytes offset data) offset data := by
  rcases eq_or_ne data [] with rfl | hdata
  · exact ⟨rfl, fun i => (if_neg fun hin => absurd hin.2 (Nat.not_lt_of_le hin.1)).symm⟩
  have hhead : ((bytes ++ List.replicate (offset - bytes.length) 0).take offset).length = offset := by
    rw [List.length_take, List.length_append, List.length_replicate]
    omega
  unfold store
  rw [if_neg hdata]
  constructor
  · rw [if_neg hdata, List.length_append, List.length_append, hhead, List.length_drop]
    omega
  · intro i
    simp only [List.getD_eq_getElem?_getD]
    by_cases hbefore : i < offset
    · rw [if_neg fun hin => absurd hin.1 (Nat.not_le_of_lt hbefore), List.append_assoc,
        List.getElem?_append_left (hhead.symm ▸ hbefore), List.getElem?_take_of_lt hbefore]
      by_cases hin : i < bytes.length
      · rw [List.getElem?_append_left hin]
      · rw [List.getElem?_append_right (Nat.le_of_not_lt hin), List.getElem?_replicate,
          if_pos (by omega), List.getElem?_eq_none (Nat.le_of_not_lt hin)]
        rfl
    · have hfrom := Nat.le_of_not_lt hbefore
      rw [List.append_assoc, List.getElem?_append_right (hhead.symm ▸ hfrom), hhead]
      by_cases hin : i < offset + data.length
      · rw [if_pos ⟨hfrom, hin⟩, List.getElem?_append_left (by omega)]
      · rw [if_neg fun hrange => hin hrange.2, List.getElem?_append_right (by omega), List.getElem?_drop]
        congr 2
        omega

theorem readBytes_eq (bytes : Bytes) (offset amt : Nat) :
    (bytes.drop offset).take amt ++ List.replicate (amt - ((bytes.drop offset).take amt).length) 0 =
      Vfs.readBytes bytes offset amt := by
  unfold Vfs.readBytes
  refine List.ext_getElem ?_ fun i hi _ => ?_
  · rw [List.length_append, List.length_replicate, List.length_map, List.length_range, List.length_take]
    omega
  · rw [List.getElem_map, List.getElem_range, List.getD_eq_getElem?_getD]
    have hamt : i < amt := by
      rw [List.length_append, List.length_replicate, List.length_take] at hi
      omega
    by_cases hin : offset + i < bytes.length
    · have hread : i < ((bytes.drop offset).take amt).length := by
        rw [List.length_take, List.length_drop]
        omega
      rw [List.getElem_append_left hread, List.getElem_take, List.getElem_drop, List.getElem?_eq_getElem hin]
      rfl
    · have hread : ((bytes.drop offset).take amt).length ≤ i := by
        rw [List.length_take, List.length_drop]
        omega
      rw [List.getElem_append_right hread, List.getElem_replicate, List.getElem?_eq_none (Nat.le_of_not_lt hin)]
      rfl

namespace Vfs

/-- **The loop over short writes**, by what is left to write -/
theorem writeLoop_stores (answers : Nat → Nat) (rest : Nat) : ∀ (calls offset : Nat) (pos bytes : Bytes),
    pos.length ≤ rest → ∃ n, n ≤ pos.length ∧ ((writeLoop answers rest calls offset pos bytes).1 = true ↔ n = pos.length) ∧
      (writeLoop answers rest calls offset pos bytes).2 = store bytes offset (pos.take n) := by
  induction rest with
  | zero =>
    intro calls offset pos bytes hpos
    obtain rfl := List.length_eq_zero_iff.mp (Nat.le_zero.mp hpos)
    exact ⟨0, Nat.le_refl _, ⟨fun _ => rfl, fun _ => rfl⟩, rfl⟩
  | succ rest ih =>
    intro calls offset pos bytes hpos
    rw [writeLoop]
    split
    · next hnil =>
      subst hnil
      exact ⟨0, Nat.le_refl _, ⟨fun _ => rfl, fun _ => rfl⟩, rfl⟩
    · next hmore =>
      have hlength := List.length_pos_iff.mpr hmore
      dsimp only
      split
      · -- the peer has failed
        exact ⟨0, Nat.zero_le _, ⟨nofun, fun h => absurd h.symm (Nat.ne_of_gt hlength)⟩, rfl⟩
      · next hwrites =>
        generalize hw : min (answers calls) pos.length = writes at hwrites
        obtain ⟨n, hn, hall, hstored⟩ := ih (calls + 1) (offset + writes) (pos.drop writes)
          (store bytes offset (pos.take writes)) (by rw [List.length_drop]; omega)
        rw [List.length_drop] at hn hall
        have htake : (pos.take writes).length = writes := by
          rw [List.length_take]
          omega
        have hfirst : pos.take writes ≠ [] := by
          rw [← List.length_pos_iff, htake]
          exact Nat.pos_of_ne_zero hwrites
        refine ⟨writes + n, by omega, hall.trans (by omega), ?_⟩
        rw [hstored, List.take_add, ← store_store bytes offset hfirst, htake]

/-! ## calls -/

theorem fileExists_eq (s : Vfs) (path : Name) : s.fileExists path = (s.names path).isSome := by
  unfold fileExists wkcFileFOpenPeer
  cases s.names path <;> rfl

theorem unlink_missing {s : Vfs} {name : Name} (h : s.names name = none) (permits : Bool) :
    s.wkcFileUnlinkPeer name permits = (false, s) := by
  unfold wkcFileUnlinkPeer
  rw [h]
  exact if_neg fun hsome => nomatch hsome.1

theorem unlink_refused (s : Vfs) (name : Name) : s.wkcFileUnlinkPeer name false = (false, s) :=
  if_neg fun h => nomatch h.2

theorem unlink_present {s : Vfs} {name : Name} {file : Nat} (h : s.names name = some file) :
    s.wkcFileUnlinkPeer name true = (true, { s with names := Function.update s.names name none }) := by
  unfold wkcFileUnlinkPeer
  rw [h]
  exact if_pos ⟨rfl, rfl⟩

theorem wkcRead_contract (s : Vfs) (h : Nat) (file : WkcFile) (pBuf : Bytes) (offset : Nat) :
    s.ReadContract file pBuf offset (s, s.wkcRead h file pBuf offset) ↔ s.errors h = false := by
  unfold ReadContract wkcRead
  dsimp only
  have hlength : (((s.bytes file.fFile).drop offset).take pBuf.length).length < pBuf.length ↔
      pBuf ≠ [] ∧ (s.bytes file.fFile).length < offset + pBuf.length := by
    rw [← List.length_pos_iff, List.length_take, List.length_drop]
    omega
  cases s.errors h with
  | true =>
    rw [if_pos rfl]
    refine ⟨fun heq => ?_, nofun⟩
    have hresult := (Returned.read.inj (Prod.mk.inj heq).2).1
    split at hresult <;> cases hresult
  | false =>
    rw [if_neg Bool.false_ne_true]
    refine iff_of_true ?_ rfl
    rw [← readBytes_eq]
    by_cases hshort : (((s.bytes file.fFile).drop offset).take pBuf.length).length < pBuf.length
    · rw [if_pos hshort, if_pos (hlength.mp hshort)]
    · have hnone : pBuf.length - (((s.bytes file.fFile).drop offset).take pBuf.length).length = 0 := by omega
      rw [if_neg hshort, if_neg fun hpast => hshort (hlength.mpr hpast), hnone, List.replicate_zero, List.append_nil]

theorem wkcWrite_contract (s : Vfs) (h : Nat) (file : WkcFile) (pBuf : Bytes) (offset : Nat) (answers : Nat → Nat)
    (noSpace : Bool) : s.WriteContract file pBuf offset (s.wkcWrite h file pBuf offset answers noSpace) := by
  obtain ⟨n, hn, hall, hstored⟩ := writeLoop_stores answers pBuf.length 0 offset pBuf (s.bytes file.fFile) (Nat.le_refl _)
  have hreplaced : Replaced (s.bytes file.fFile) (Function.update s.bytes file.fFile
      (store (s.bytes file.fFile) offset (pBuf.take n)) file.fFile) offset (pBuf.take n) := by
    rw [Function.update_self]
    exact store_replaced _ _ _
  unfold wkcWrite
  dsimp only
  rw [hstored]
  split
  · next hdone =>
    exact ⟨n, hn, iff_of_true rfl (hall.mp hdone), hreplaced, fun _ hne => Function.update_of_ne hne _ _, rfl, rfl⟩
  · next hfailed =>
    refine ⟨n, hn, iff_of_false ?_ fun heq => hfailed (hall.mpr heq), hreplaced,
      fun _ hne => Function.update_of_ne hne _ _, rfl, rfl⟩
    cases noSpace <;> nofun

theorem wkcTruncate_contract (s : Vfs) (file : WkcFile) (nByte : Nat) :
    s.TruncateContract file nByte (s.wkcTruncate file nByte) := by
  have hbytes : truncated (s.bytes file.fFile) nByte = readBytes (s.bytes file.fFile) 0 nByte := by
    rw [← readBytes_eq, List.drop_zero, List.length_take]
    unfold truncated
    congr 2
    omega
  unfold TruncateContract wkcTruncate
  rw [hbytes]

theorem wkcDelete_contract (s : Vfs) (zName : Name) (permits : Bool) :
    s.DeleteContract zName (s.wkcDelete zName permits) := by
  unfold wkcDelete
  rw [fileExists_eq]
  cases hname : s.names zName with
  | none => exact ⟨iff_of_true rfl hname, fun _ _ => rfl, rfl, rfl⟩
  | some file =>
    rw [if_neg fun hnone => hnone rfl]
    cases permits with
    | false =>
      rw [unlink_refused]
      exact ⟨iff_of_false nofun fun hgone => (nomatch hname.symm.trans hgone), fun _ _ => rfl, rfl, rfl⟩
    | true =>
      rw [unlink_present hname]
      exact ⟨iff_of_true rfl (Function.update_self zName none s.names),
        fun name hne => Function.update_of_ne hne _ _, rfl, rfl⟩

theorem wkcClose_contract (s : Vfs) (h : Nat) (file : WkcFile) (permits : Bool) :
    s.CloseContract h file (s.wkcClose h file permits) ↔
      (file.fIsDeleteOnClose = true → s.names file.fFileName = none) := by
  unfold CloseContract wkcClose
  dsimp only
  cases file.fIsDeleteOnClose with
  | false => exact iff_of_true ⟨iff_of_true rfl nofun, fun _ _ => rfl, rfl, rfl⟩ nofun
  | true =>
    rw [if_pos rfl]
    cases hname : s.names file.fFileName with
    | none =>
      rw [unlink_missing (s := { s with handles := Function.update s.handles h none }) hname]
      exact iff_of_true ⟨iff_of_true rfl fun _ => hname, fun _ _ => rfl, rfl, rfl⟩ fun _ => rfl
    | some number =>
      refine iff_of_false ?_ fun hnone => nomatch hnone rfl
      rintro ⟨hresult, -⟩
      cases permits with
      | false =>
        rw [unlink_refused] at hresult
        have hgone : s.names file.fFileName = none := hresult.mp rfl rfl
        cases hname.symm.trans hgone
      | true =>
        rw [unlink_present (s := { s with handles := Function.update s.handles h none }) hname] at hresult
        cases hresult.mpr fun _ => Function.update_self file.fFileName none s.names

theorem fileMode_create {s : Vfs} {zName : Name} {flags : OpenFlags} (h : s.names zName = none)
    (hcreate : flags.isCreate = true) : s.fileMode zName flags = .CREATE := by
  unfold fileMode
  rw [fileExists_eq, h, if_pos hcreate]
  exact if_pos (.inr nofun)

theorem fileMode_existing {s : Vfs} {zName : Name} {flags : OpenFlags} {file : Nat} (h : s.names zName = some file)
    (hexclusive : flags.isExclusive = false) : s.fileMode zName flags = .READWRITE := by
  unfold fileMode
  rw [fileExists_eq, h, hexclusive]
  split
  · exact if_neg fun hnew => hnew.elim nofun fun hnone => hnone rfl
  · rfl

theorem not_exclusive_of_readonly (flags : OpenFlags) (h : flags.isReadonly = true) : flags.isExclusive = false := by
  refine Bool.eq_false_iff.mpr fun hexclusive => ?_
  have hwrite := flags.creates (flags.excludes hexclusive)
  rcases flags.one.1 with hread | hno
  · cases h.symm.trans hread
  · cases hwrite.symm.trans hno

/-- **`wkcOpen` with a name**, by whether there is a file of that name -/
theorem wkcOpen_named (s : Vfs) (h : Nat) (zName : Name) (temporary : Option Name) (flags : OpenFlags) :
    s.wkcOpen h (some zName) temporary flags =
      match s.names zName with
      | none =>
        if flags.isCreate then ((s.create zName).opened h s.next zName flags.isDelete, openedAs flags)
        else (s, .result .SQLITE_CANTOPEN)
      | some file =>
        if flags.isExclusive ∨ s.writeProtected file then (s, .result .SQLITE_CANTOPEN)
        else (s.opened h file zName flags.isDelete, openedAs flags) := by
  unfold wkcOpen
  dsimp only
  rw [fileExists_eq]
  cases hname : s.names zName with
  | none =>
    rw [if_neg fun hboth => nomatch hboth.2]
    cases hcreate : flags.isCreate with
    | true =>
      unfold wkcFileFOpenPeer
      rw [fileMode_create hname hcreate, hname]
      rfl
    | false =>
      unfold wkcFileFOpenPeer fileMode
      rw [hname, hcreate]
      rfl
  | some file =>
    cases hexclusive : flags.isExclusive with
    | true => rfl
    | false =>
      rw [if_neg fun hboth => nomatch hboth.1]
      unfold wkcFileFOpenPeer
      rw [fileMode_existing hname hexclusive, hname]
      dsimp only
      cases s.writeProtected file <;> rfl

theorem wkcOpen_contract (s : Vfs) (h : Nat) (zName temporary : Option Name) (flags : OpenFlags) :
    s.OpenContract h zName temporary flags (s.wkcOpen h zName (s.unused temporary) flags) ↔
      (∀ name, zName = some name → flags.isReadonly = true →
        ∀ file, s.names name = some file → s.writeProtected file = false) := by
  cases zName with
  | none =>
    refine iff_of_true ?_ nofun
    unfold OpenContract wkcOpen
    cases s.unused temporary <;> rfl
  | some zName =>
    unfold OpenContract
    dsimp only
    rw [wkcOpen_named]
    unfold Openable found
    cases hname : s.names zName with
    | none =>
      refine iff_of_true ?_ fun name heq _ file hfile => ?_
      · cases hcreate : flags.isCreate with
        | true => exact ⟨fun _ => rfl, fun hno => absurd rfl hno⟩
        | false => exact ⟨nofun, fun _ => rfl⟩
      · obtain rfl := Option.some.inj heq
        cases hname.symm.trans hfile
    | some file =>
      have hprotected : (∀ name, some zName = some name → flags.isReadonly = true →
          ∀ file, s.names name = some file → s.writeProtected file = false) ↔
            (flags.isReadonly = true → s.writeProtected file = false) := by
        constructor
        · exact fun hall hread => hall zName rfl hread file hname
        · rintro hone name heq hread other hother
          obtain rfl := Option.some.inj heq
          obtain rfl := Option.some.inj (hname.symm.trans hother)
          exact hone hread
      rw [hprotected]
      dsimp only
      cases hexclusive : flags.isExclusive with
      | true =>
        rw [if_pos (.inl rfl)]
        refine iff_of_true ⟨fun hopen => (nomatch hopen.1), fun _ => rfl⟩ fun hread => ?_
        cases hexclusive.symm.trans (not_exclusive_of_readonly flags hread)
      | false =>
        cases s.writeProtected file with
        | false =>
          rw [if_neg fun hrefused => hrefused.elim nofun nofun]
          exact iff_of_true ⟨fun _ => rfl, fun hno => absurd ⟨rfl, .inr rfl⟩ hno⟩ fun _ => rfl
        | true =>
          rw [if_pos (.inr rfl)]
          cases flags.isReadonly with
          | true =>
            -- it could be read
            refine iff_of_false (fun hopen => ?_) fun hwritable => nomatch hwritable rfl
            cases (Prod.mk.inj (hopen.1 ⟨rfl, .inl rfl⟩)).2
          | false => exact iff_of_true ⟨fun hopen => hopen.2.elim nofun nofun, fun _ => rfl⟩ nofun

/-! ## numbers of files -/

/-- the number of the next file is a new one -/
structure Allocated (s : Vfs) : Prop where
  names : ∀ name file, s.names name = some file → file < s.next
  handles : ∀ h file, s.handles h = some file → file.fFile < s.next

namespace Allocated
variable {s : Vfs}

theorem create (hs : s.Allocated) (name : Name) : (s.create name).Allocated where
  names _ _ := Tables.forall_update (P := fun _ file => file < s.next + 1)
    (fun other file hfile => Nat.lt_succ_of_lt (hs.names other file hfile))
    fun _ hnew => Option.some.inj hnew ▸ Nat.lt_succ_self _
  handles h file hfile := Nat.lt_succ_of_lt (hs.handles h file hfile)

theorem opened (hs : s.Allocated) (h : Nat) {fp : Nat} (hfp : fp < s.next) (name : Name) (isDelete : Bool) :
    (s.opened h fp name isDelete).Allocated where
  names := hs.names
  handles _ _ := Tables.forall_update (P := fun _ (file : WkcFile) => file.fFile < s.next) hs.handles
    fun _ hnew => Option.some.inj hnew ▸ hfp

theorem setBytes (hs : s.Allocated) (file : Nat) (bytes : Bytes) : (s.setBytes file bytes).Allocated :=
  ⟨hs.names, hs.handles⟩

theorem closed (hs : s.Allocated) (h : Nat) : Allocated { s with handles := Function.update s.handles h none } where
  names := hs.names
  handles other file hfile := hs.handles other file (Tables.update_taken hfile).2

theorem unlink (hs : s.Allocated) (name : Name) (permits : Bool) :
    (s.wkcFileUnlinkPeer name permits).2.Allocated := by
  unfold wkcFileUnlinkPeer
  split
  · exact ⟨fun other file hfile => hs.names other file (Tables.update_taken hfile).2, hs.handles⟩
  · exact hs

end Allocated

theorem wkcOpen_cases (s : Vfs) (h : Nat) (zName temporary : Option Name) (flags : OpenFlags) :
    (s.wkcOpen h zName (s.unused temporary) flags).1 = s ∨
    (∃ name file, s.names name = some file ∧
      (s.wkcOpen h zName (s.unused temporary) flags).1 = s.opened h file name flags.isDelete) ∨
    ∃ name, s.names name = none ∧
      (s.wkcOpen h zName (s.unused temporary) flags).1 = (s.create name).opened h s.next name flags.isDelete := by
  cases zName with
  | none =>
    unfold wkcOpen
    cases htemporary : s.unused temporary with
    | none => exact .inl rfl
    | some fileName =>
      obtain ⟨_, hnew⟩ := Option.filter_eq_some_iff.mp htemporary
      exact .inr (.inr ⟨fileName, Option.isNone_iff_eq_none.mp hnew, rfl⟩)
  | some zName =>
    rw [wkcOpen_named]
    cases hname : s.names zName with
    | none =>
      dsimp only
      split
      · exact .inr (.inr ⟨zName, hname, rfl⟩)
      · exact .inl rfl
    | some file =>
      dsimp only
      split
      · exact .inl rfl
      · exact .inr (.inl ⟨zName, file, hname, rfl⟩)

theorem Allocated.wkcOpen {s : Vfs} (hs : s.Allocated) (h : Nat) (zName temporary : Option Name) (flags : OpenFlags) :
    (s.wkcOpen h zName (s.unused temporary) flags).1.Allocated := by
  rcases wkcOpen_cases s h zName temporary flags with heq | ⟨name, file, hname, heq⟩ | ⟨name, _, heq⟩
  · rw [heq]
    exact hs
  · rw [heq]
    exact hs.opened h (hs.names name file hname) name flags.isDelete
  · rw [heq]
    exact (hs.create name).opened h (Nat.lt_succ_self _) name flags.isDelete

theorem Allocated.undisturbed {s : Vfs} (hs : s.Allocated) {h : Nat} (hclosed : s.handles h = none)
    (zName temporary : Option Name) (flags : OpenFlags) :
    s.Undisturbed (s.wkcOpen h zName (s.unused temporary) flags).1 := by
  rcases wkcOpen_cases s h zName temporary flags with heq | ⟨_, _, _, heq⟩ | ⟨name, hnew, heq⟩
  · rw [heq]
    exact ⟨fun _ _ hfile => ⟨hfile, rfl⟩, fun _ _ hfile => ⟨hfile, rfl⟩⟩
  · rw [heq]
    exact ⟨fun _ _ hfile => ⟨hfile, rfl⟩, fun _ _ hfile => ⟨Tables.update_other hclosed _ hfile, rfl⟩⟩
  · rw [heq]
    constructor
    · intro other file hfile
      exact ⟨Tables.update_other hnew _ hfile, Function.update_of_ne (Nat.ne_of_lt (hs.names other file hfile)) _ _⟩
    · intro other file hfile
      exact ⟨Tables.update_other hclosed _ hfile, Function.update_of_ne (Nat.ne_of_lt (hs.handles other file hfile)) _ _⟩

/-! ## runs -/

theorem withFile_some {s : Vfs} {h : Nat} {file : WkcFile} (hfile : s.handles h = some file)
    (call : WkcFile → Vfs × Returned) : s.withFile h call = call file := by
  unfold withFile
  rw [hfile]

theorem Allocated.withFile {s : Vfs} (hs : s.Allocated) (h : Nat) {call : WkcFile → Vfs × Returned}
    (hcall : ∀ file, (call file).1.Allocated) : (s.withFile h call).1.Allocated := by
  unfold Vfs.withFile
  split
  · exact hs
  · exact hcall _

/-- **One step**, by the call -/
theorem Allocated.step {s : Vfs} (hs : s.Allocated) (op : Op) : (s.step op).Allocated := by
  unfold Vfs.step
  cases op with
  | wkcOpen h zName temporary flags =>
    unfold call
    dsimp only
    split
    · exact hs.wkcOpen h zName temporary flags
    · exact hs
  | wkcRead h pBuf offset => exact hs.withFile h fun _ => hs
  | wkcWrite h pBuf offset answers noSpace =>
    refine hs.withFile h fun file => ?_
    unfold Vfs.wkcWrite
    dsimp only
    split
    · exact hs.setBytes _ _
    · exact ⟨hs.names, hs.handles⟩
  | wkcTruncate h nByte => exact hs.withFile h fun _ => hs.setBytes _ _
  | wkcFileSize h => exact hs.withFile h fun _ => hs
  | wkcDelete zName permits =>
    unfold call wkcDelete
    dsimp only
    split
    · exact hs
    · exact hs.unlink zName permits
  | wkcClose h permits =>
    refine hs.withFile h fun file => ?_
    unfold Vfs.wkcClose
    dsimp only
    split
    · exact (hs.closed h).unlink file.fFileName permits
    · exact hs.closed h

/-- **What a call promises**, by the call: it is kept exactly where the call is `Fine`. -/
theorem meets_iff {s : Vfs} (hs : s.Allocated) (op : Op) : s.Contract op (s.call op) ↔ s.Fine op := by
  have hopened : ∀ {h : Nat} {file : WkcFile} {P : WkcFile → Prop}, s.handles h = some file →
      ((∀ file, s.handles h = some file → P file) ↔ P file) := by
    intro h file P hfile
    constructor
    · exact fun hall => hall file hfile
    · rintro hP other hother
      obtain rfl := Option.some.inj (hfile.symm.trans hother)
      exact hP
  have hclosed : ∀ {h : Nat} {P : WkcFile → Prop}, s.handles h = none → ∀ file, s.handles h = some file → P file :=
    fun hnone _ hfile => nomatch hnone.symm.trans hfile
  cases op with
  | wkcOpen h zName temporary flags =>
    unfold call Contract
    dsimp only
    cases hh : s.handles h with
    | some _ =>
      refine iff_of_true nofun ?_
      cases zName with
      | none => trivial
      | some zName => exact fun hnone => nomatch hh.symm.trans hnone
    | none =>
      dsimp only
      rw [wkcOpen_contract, and_iff_left (hs.undisturbed hh zName temporary flags)]
      cases zName with
      | none => exact iff_of_true (fun _ => nofun) trivial
      | some zName =>
        constructor
        · exact fun hall _ => hall rfl zName rfl
        · rintro hfine _ name heq
          obtain rfl := Option.some.inj heq
          exact hfine hh
  | wkcRead h pBuf offset =>
    cases hh : s.handles h with
    | none => exact iff_of_true (hclosed hh) fun hopen => absurd hh hopen
    | some file =>
      have hfine : s.Fine (.wkcRead h pBuf offset) ↔ s.errors h = false :=
        ⟨fun hall => hall (by rw [hh]; nofun), fun hgood _ => hgood⟩
      rw [hfine]
      unfold Contract call
      dsimp only
      rw [hopened hh, withFile_some hh]
      exact wkcRead_contract s h file pBuf offset
  | wkcWrite h pBuf offset answers noSpace =>
    refine iff_of_true (fun file hfile => ?_) trivial
    unfold call
    dsimp only
    rw [withFile_some hfile]
    exact wkcWrite_contract s h file pBuf.1 offset answers noSpace
  | wkcTruncate h nByte =>
    refine iff_of_true (fun file hfile => ?_) trivial
    unfold call
    dsimp only
    rw [withFile_some hfile]
    exact wkcTruncate_contract s file nByte
  | wkcFileSize h =>
    refine iff_of_true (fun file hfile => ?_) trivial
    unfold call
    dsimp only
    rw [withFile_some hfile]
    rfl
  | wkcDelete zName permits => exact iff_of_true (wkcDelete_contract s zName permits) trivial
  | wkcClose h permits =>
    cases hh : s.handles h with
    | none => exact iff_of_true (hclosed hh) (hclosed hh)
    | some file =>
      unfold Fine Contract call
      dsimp only
      rw [hopened hh, hopened hh, withFile_some hh]
      exact wkcClose_contract s h file permits

end Vfs

/-- a card before any call -/
structure Card where
  names : Name → Option Nat
  bytes : Nat → Bytes
  writeProtected : Nat → Bool
  next : Nat
  allocated : ∀ name file, names name = some file → file < next

namespace Card

def vfs (card : Card) : Vfs :=
  { names := card.names, bytes := card.bytes, writeProtected := card.writeProtected, next := card.next }

theorem vfs_allocated (card : Card) : card.vfs.Allocated := ⟨card.allocated, nofun⟩

/-- no files but one that is write-protected -/
def oneFile (zName : Name) (bytes : Bytes) : Card where
  names := Function.update (fun _ => none) zName (some 0)
  bytes _ := bytes
  writeProtected _ := true
  next := 1
  allocated _ _ := Tables.forall_update (P := fun _ file => file < 1) nofun
    fun _ hnew => Option.some.inj hnew ▸ Nat.one_pos

end Card

namespace Vfs

/-- **The files of SQLite.**  In a run, every call keeps what SQLite is promised exactly if every call is `Fine`. -/
theorem sqlite_files (card : Card) (ops : List Op) :
    Runs.Along step (fun s op => s.Contract op (s.call op)) card.vfs ops ↔ Runs.Along step Fine card.vfs ops :=
  Runs.along_iff (P := Allocated) (fun _ op hs => hs.step op) (fun _ op hs => meets_iff hs op) card.vfs_allocated ops

/-- a database on a locked card, and a journal that is dropped or does not fit -/
theorem promise_broken :
    ¬Runs.Along step (fun s op => s.Contract op (s.call op)) (Card.oneFile ⟨[0x64, 0x62], by decide⟩ []).vfs
      [.wkcOpen 0 (some ⟨[0x64, 0x62], by decide⟩) none
        { isReadonly := true, one := by decide, creates := by decide, excludes := by decide, deletes := by decide }] ∧
    ¬Runs.Along step (fun s op => s.Contract op (s.call op)) (Card.oneFile ⟨[0x64, 0x62], by decide⟩ []).vfs
      [.wkcOpen 0 none (some ⟨[0x6A], by decide⟩)
          { isDelete := true, isCreate := true, isReadWrite := true, one := by decide, creates := by decide
            excludes := by decide, deletes := by decide },
        .wkcClose 0 true] ∧
    ¬Runs.Along step (fun s op => s.Contract op (s.call op)) (Card.oneFile ⟨[0x64, 0x62], by decide⟩ []).vfs
      [.wkcOpen 0 none (some ⟨[0x6A], by decide⟩)
          { isCreate := true, isReadWrite := true, one := by decide, creates := by decide, excludes := by decide
            deletes := by decide },
        .wkcWrite 0 ⟨[1, 2], by decide⟩ 0 (fun calls => if calls = 0 then 1 else 0) true,
        .wkcRead 0 [9] 0] := by
  have hcard := Card.vfs_allocated (.oneFile ⟨[0x64, 0x62], by decide⟩ [])
  refine ⟨?_, ?_, ?_⟩
  · rintro ⟨hopen, _⟩
    cases (meets_iff hcard _).mp hopen rfl rfl 0 rfl
  · rintro ⟨_, hclose, _⟩
    cases (meets_iff (hcard.step _) _).mp hclose _ rfl rfl
  · rintro ⟨_, _, hread, _⟩
    cases (meets_iff ((hcard.step _).step _) _).mp hread nofun

end Vfs
end SqliteFile
end Wkc
