import WkcBrowser.Cache.BodyWrite

/-!
# A body that is read in parts

`readFile`, when `wkcFileFReadPeer` delivers what it likes of what it is asked for and of what the file still has:
with the end of the file reached it delivers nothing, and so it does on an error.

* `readLoopFor`, `readFileFor`   the loop within a number of calls, through checked memory: `none` if the calls are
                                 not enough, a fault if a byte would fall outside `out_buf`;
* `readFileFor_readFile`         a run that ends is one of `readFile`;
* `readLoopFor_eq`               what the loop comes to, in closed form;
* `readFile_complete`            `readFile` ends with the whole body exactly if the file has it and the calls come to
                                 deliver it.
-/

set_option linter.unusedSectionVars false

namespace Wkc
open Buf

section
variable [FilePeers]

namespace HTTPCachedResource

/-- the loop of `readFile`: `calls` calls have delivered `buf` bytes, `file` is what is left of the file -/
def readLoopFor (counts : Counts) : Nat → Int → Nat → Nat → Bytes → Bytes → Option (Except Fault Bytes)
  | 0, len, _, _, _, out => if len ≤ 0 then some (.ok out) else none
  | fuel + 1, len, calls, buf, file, out =>
    if len ≤ 0 then some (.ok out)
    else
      let count := min (counts calls) (min len.toNat file.length)
      match store out buf (file.take count) with
      | none => some (.error .outOfBounds)
      | some out =>
        let read := toInt32 count
        if read < 0 then some (.ok out)
        else readLoopFor counts fuel (len - read) (calls + 1) (buf + count) (file.drop count) out

/-- result, `out_buf`, entry -/
def readFileFor (fuel : Nat) (r : HTTPCachedResource) (filepath : WString) (opens : Bool) (counts : Counts)
    (files : Files) (out : Bytes) : Option (Except Fault (Bool × Bytes × HTTPCachedResource)) :=
  let fileFullPath := pathByAppendingComponent filepath r.fileName
  match files.lookup fileFullPath with
  | none => some (.ok (false, out, r))
  | some file =>
    if FileIo.fopen ⟨opens, []⟩ fileFullPath = false then some (.ok (false, out, r))
    else
      (readLoopFor counts fuel (toInt32 r.contentLength.toBitVec.toNat) 0 0 file out).map
        (Except.map (fun out => (true, out, r.setUsed true)))

/-- how `readCacheTimerCallback` ends a load -/
inductive Told where
  | didReceiveData (buf : Bytes)
  | didFail

/-- a success hands over the whole buffer -/
def tell (out : Bool × Bytes × HTTPCachedResource) : Told :=
  if out.1 then .didReceiveData out.2.1 else .didFail

/-! ## a run that ends -/

theorem store_eq {out bs out' : Bytes} {off : Nat} (h : store out off bs = some out') :
    off + bs.length ≤ out.length ∧ out' = out.take off ++ bs ++ out.drop (off + bs.length) := by
  unfold store at h
  split at h
  · next hle => exact ⟨hle, (Option.some.inj h).symm⟩
  · cases h

theorem store_take {out bs out' : Bytes} {off : Nat} (h : store out off bs = some out') :
    out'.take (off + bs.length) = out.take off ++ bs ∧
      out'.drop (off + bs.length) = out.drop (off + bs.length) ∧ out'.length = out.length := by
  obtain ⟨hle, rfl⟩ := store_eq h
  have hlen : (out.take off ++ bs).length = off + bs.length := by
    rw [List.length_append, List.length_take_of_le (by omega)]
  refine ⟨List.take_left' hlen, List.drop_left' hlen, ?_⟩
  rw [List.length_append, hlen, List.length_drop]
  omega

theorem readLoopFor_done {out out' : Bytes} (len : Int) (buf : Nat) (file : Bytes) (h : out = out') :
    ∃ reads bytes, (∀ acc, readLoop len reads file acc = acc ++ bytes) ∧
      out' = out.take buf ++ bytes ++ out.drop (buf + bytes.length) := by
  subst h
  refine ⟨[], [], fun acc => ?_, ?_⟩
  · rw [readLoop, List.append_nil]
  · rw [List.append_nil, List.length_nil, Nat.add_zero, List.take_append_drop]

theorem readLoopFor_readLoop {counts : Counts} (fuel : Nat) :
    ∀ (len : Int) (calls buf : Nat) (file out out' : Bytes), len < 2 ^ 31 → buf ≤ out.length →
      readLoopFor counts fuel len calls buf file out = some (.ok out') →
      ∃ reads bytes, (∀ acc, readLoop len reads file acc = acc ++ bytes) ∧
        out' = out.take buf ++ bytes ++ out.drop (buf + bytes.length) := by
  induction fuel with
  | zero =>
    intro len calls buf file out out' _ hbuf h
    rw [readLoopFor] at h
    split at h
    · exact readLoopFor_done len buf file (by simpa using h)
    · cases h
  | succ fuel ih =>
    intro len calls buf file out out' hlen hbuf h
    rw [readLoopFor] at h
    split at h
    · exact readLoopFor_done len buf file (by simpa using h)
    · next hpos =>
      generalize hcount : min (counts calls) (min len.toNat file.length) = count at h
      have hsmall : toInt32 count = count := toInt32_of_lt (by omega)
      have htaken : (file.take count).length = count := List.length_take_of_le (by omega)
      dsimp only at h
      cases hstore : store out buf (file.take count) with
      | none =>
        rw [hstore] at h
        cases h
      | some mid =>
        obtain ⟨hbefore, hafter, hlength⟩ := store_take hstore
        have hfit := (store_eq hstore).1
        rw [htaken] at hbefore hafter hfit
        simp only [hstore, hsmall] at h
        rw [if_neg (by omega)] at h
        obtain ⟨reads, bytes, hreads, hout⟩ := ih _ _ _ _ _ _ (by omega) (by omega) h
        refine ⟨count :: reads, file.take count ++ bytes, fun acc => ?_, ?_⟩
        · rw [readLoop, if_neg hpos, if_neg (by omega), Int.toNat_natCast, hreads, List.append_assoc]
        · have hrest : mid.drop (buf + count + bytes.length) = out.drop (buf + count + bytes.length) := by
            rw [← List.drop_drop, hafter, List.drop_drop]
          rw [hout, hbefore, hrest, List.length_append, htaken, ← Nat.add_assoc]
          simp only [List.append_assoc]

theorem readFileFor_readFile {fuel : Nat} {r r' : HTTPCachedResource} {filepath : WString} {opens result : Bool}
    {counts : Counts} {files : Files} {out out' : Bytes}
    (h : readFileFor fuel r filepath opens counts files out = some (.ok (result, out', r'))) :
    ∃ reads bytes, readFile r filepath ⟨opens, reads⟩ files = (result, bytes, r') ∧
      out' = bytes ++ out.drop bytes.length := by
  have hlen := toInt32_lt r.contentLength.toBitVec.toNat
  unfold readFileFor at h
  dsimp only at h
  cases hfile : files.lookup (pathByAppendingComponent filepath r.fileName) with
  | none =>
    rw [hfile] at h
    obtain ⟨rfl, rfl, rfl⟩ : false = result ∧ out = out' ∧ r = r' := by simpa using h
    exact ⟨[], [], by simp only [readFile, hfile], rfl⟩
  | some file =>
    simp only [hfile] at h
    split at h
    · next hclosed =>
      obtain ⟨rfl, rfl, rfl⟩ : false = result ∧ out = out' ∧ r = r' := by simpa using h
      refine ⟨[], [], ?_, rfl⟩
      simp only [readFile, hfile]
      exact if_pos hclosed
    · next hopen =>
      cases hrun : readLoopFor counts fuel (toInt32 r.contentLength.toBitVec.toNat) 0 0 file out with
      | none =>
        rw [hrun] at h
        cases h
      | some ended =>
        cases ended with
        | error fault =>
          rw [hrun] at h
          cases h
        | ok mid =>
          rw [hrun] at h
          obtain ⟨rfl, rfl, rfl⟩ : true = result ∧ mid = out' ∧ r.setUsed true = r' := by
            simpa [Except.map] using h
          obtain ⟨reads, bytes, hreads, hout⟩ := readLoopFor_readLoop fuel _ 0 0 file out mid hlen (Nat.zero_le _) hrun
          refine ⟨reads, bytes, ?_, ?_⟩
          · simp only [readFile, hfile]
            exact (if_neg hopen).trans (by rw [hreads, List.nil_append])
          · rw [hout, List.take_zero, List.nil_append, Nat.zero_add]

/-! ## the loop in closed form -/

/-- what `k` calls would deliver of a file without end, from call `calls` on -/
def delivered (counts : Counts) (calls : Nat) : Nat → Nat
  | 0 => 0
  | k + 1 => counts calls + delivered counts (calls + 1) k

theorem store_middle (pre post : Bytes) {bs old : Bytes} (h : old.length = bs.length) :
    store (pre ++ (old ++ post)) pre.length bs = some (pre ++ bs ++ post) := by
  have hle : pre.length + bs.length ≤ (pre ++ (old ++ post)).length := by
    simp only [List.length_append]
    omega
  rw [store, if_pos hle, List.take_left, ← List.append_assoc pre old post,
    List.drop_left' (by rw [List.length_append, h])]

theorem store_read (file out : Bytes) {got count : Nat} (hfile : got + count ≤ file.length)
    (hout : got + count ≤ out.length) :
    store (file.take got ++ out.drop got) got ((file.drop got).take count) =
      some (file.take (got + count) ++ out.drop (got + count)) := by
  have hpre : (file.take got).length = got := List.length_take_of_le (by omega)
  have hold : ((out.drop got).take count).length = ((file.drop got).take count).length := by
    rw [List.length_take_of_le (by rw [List.length_drop]; omega),
      List.length_take_of_le (by rw [List.length_drop]; omega)]
  have hsplit : out.drop got = (out.drop got).take count ++ out.drop (got + count) := by
    rw [← List.drop_drop, List.take_append_drop]
  have hstore := store_middle (file.take got) (out.drop (got + count)) hold
  rw [hpre] at hstore
  rw [hsplit, hstore, List.take_add]

/-- The loop ends exactly if the file has the bytes and the calls come to deliver them; a call that delivers more
than is missing is cut short, which makes no difference to that. -/
theorem readLoopFor_eq (counts : Counts) {n : Nat} (hn : n < 2 ^ 31) (file : Bytes) {out : Bytes}
    (hout : n ≤ out.length) (fuel : Nat) : ∀ got calls : Nat, got ≤ n → got ≤ file.length →
    readLoopFor counts fuel (n - got) calls got (file.drop got) (file.take got ++ out.drop got) =
      if n ≤ file.length ∧ n ≤ got + delivered counts calls fuel then some (.ok (file.take n ++ out.drop n))
      else none := by
  induction fuel with
  | zero =>
    intro got calls hgot hfile
    rw [readLoopFor, delivered]
    by_cases hdone : got = n
    · subst hdone
      rw [if_pos (by omega), if_pos ⟨hfile, by omega⟩]
    · rw [if_neg (by omega), if_neg (by omega)]
  | succ fuel ih =>
    intro got calls hgot hfile
    rw [readLoopFor, delivered]
    by_cases hdone : got = n
    · subst hdone
      rw [if_pos (by omega), if_pos ⟨hfile, by omega⟩]
    · rw [if_neg (by omega)]
      have hmissing : ((n : Int) - got).toNat = n - got := by omega
      rw [hmissing, List.length_drop]
      generalize hcount : min (counts calls) (min (n - got) (file.length - got)) = count
      have hread : toInt32 count = count := toInt32_of_lt (by omega)
      have hstore : store (file.take got ++ out.drop got) got ((file.drop got).take count) = _ :=
        store_read file out (by omega) (by omega)
      have hnext : (n : Int) - got - count = n - (got + count : Nat) := by omega
      simp only [hstore, hread]
      rw [if_neg (by omega), hnext, List.drop_drop, ih _ _ (by omega) (by omega)]
      have hiff : n ≤ file.length ∧ n ≤ got + count + delivered counts (calls + 1) fuel ↔
          n ≤ file.length ∧ n ≤ got + (counts calls + delivered counts (calls + 1) fuel) := by
        omega
      rw [if_congr hiff rfl rfl]

theorem readLoopFor_nonpos (counts : Counts) {len : Int} (h : len ≤ 0) (fuel calls buf : Nat) (file out : Bytes) :
    readLoopFor counts fuel len calls buf file out = some (.ok out) := by
  cases fuel with
  | zero | succ => rw [readLoopFor, if_pos h]

theorem readLoopFor_start (counts : Counts) {len : Int} (hlen : len < 2 ^ 31) {file out : Bytes}
    (hout : len ≤ out.length) (fuel : Nat) : readLoopFor counts fuel len 0 0 file out =
      if len.toNat ≤ file.length ∧ len.toNat ≤ delivered counts 0 fuel then
        some (.ok (file.take len.toNat ++ out.drop len.toNat))
      else none := by
  rcases lt_or_ge 0 len with hpos | hneg
  · have hfits : len.toNat ≤ out.length := by omega
    have hclosed := readLoopFor_eq counts (n := len.toNat) (by omega) file hfits fuel 0 0 (Nat.zero_le _) (Nat.zero_le _)
    have hfrom : (len.toNat : Int) - (0 : Nat) = len := by omega
    rw [hfrom, List.drop_zero, List.take_zero, List.drop_zero, List.nil_append, Nat.zero_add] at hclosed
    exact hclosed
  · have hzero : len.toNat = 0 := by omega
    rw [readLoopFor_nonpos counts hneg, hzero, if_pos ⟨Nat.zero_le _, Nat.zero_le _⟩, List.take_zero,
      List.drop_zero, List.nil_append]

/-! ## complete reads -/

/-- a success leaves the leading bytes of the file in the buffer, all of it, and these are what the client is given -/
structure Complete (r : HTTPCachedResource) (filepath : WString) (files : Files)
    (ended : Bool × Bytes × HTTPCachedResource) : Prop where
  body : ended.1 = true → ∃ file, files.lookup (pathByAppendingComponent filepath r.fileName) = some file ∧
    r.contentLength.toInt ≤ file.length ∧ ended.2.1 = file.take r.contentLength.toInt.toNat
  handed : ∀ buf, tell ended = .didReceiveData buf →
    ∃ file, files.lookup (pathByAppendingComponent filepath r.fileName) = some file ∧ buf <+: file

/-- whatever the allocated buffer holds, `readFile` ends, within it, and completely -/
def ReadsBody (r : HTTPCachedResource) (filepath : WString) (opens : Bool) (counts : Counts) (files : Files) : Prop :=
  ∀ out : Bytes, (out.length : Int) = r.contentLength.toInt →
    ∃ fuel ended, readFileFor fuel r filepath opens counts files out = some (.ok ended) ∧
      Complete r filepath files ended

/-- the length is an `int`, the file is as long, and the calls come to deliver as much -/
structure Whole (r : HTTPCachedResource) (counts : Counts) (file : Bytes) : Prop where
  small : r.contentLength.toInt < 2 ^ 31
  long : r.contentLength.toInt ≤ file.length
  delivers : ∃ k, r.contentLength.toInt ≤ delivered counts 0 k

theorem Complete.of_body {r : HTTPCachedResource} {filepath : WString} {files : Files}
    {ended : Bool × Bytes × HTTPCachedResource}
    (h : ended.1 = true → ∃ file, files.lookup (pathByAppendingComponent filepath r.fileName) = some file ∧
      r.contentLength.toInt ≤ file.length ∧ ended.2.1 = file.take r.contentLength.toInt.toNat) :
    Complete r filepath files ended := by
  refine ⟨h, ?_⟩
  intro buf htold
  unfold tell at htold
  split at htold
  · next hresult =>
    obtain ⟨file, hfile, _, hbody⟩ := h hresult
    obtain rfl := Told.didReceiveData.inj htold
    exact ⟨file, hfile, hbody ▸ List.take_prefix _ _⟩
  · cases htold

theorem Complete.unread {r : HTTPCachedResource} {filepath : WString} {files : Files} (out : Bytes) :
    Complete r filepath files (false, out, r) := .of_body (fun h => Bool.noConfusion h)

section
variable {r : HTTPCachedResource} {filepath : WString} {opens : Bool} {counts : Counts} {files : Files} {file : Bytes}

theorem readFileFor_open (hfile : files.lookup (pathByAppendingComponent filepath r.fileName) = some file)
    (hopen : FileIo.fopen ⟨opens, []⟩ (pathByAppendingComponent filepath r.fileName) = true) (fuel : Nat) (out : Bytes) :
    readFileFor fuel r filepath opens counts files out =
      (readLoopFor counts fuel (toInt32 r.contentLength.toBitVec.toNat) 0 0 file out).map
        (Except.map (fun out => (true, out, r.setUsed true))) := by
  have hnot : ¬ FileIo.fopen ⟨opens, []⟩ (pathByAppendingComponent filepath r.fileName) = false := by
    rw [hopen]
    exact Bool.noConfusion
  rw [readFileFor]
  simp only [hfile]
  exact if_neg hnot

theorem contentLength_bits {n : Int64} (h : 0 ≤ n.toInt) : (n.toBitVec.toNat : Int) = n.toInt := by
  have hbits : n.toBitVec.toInt = n.toInt := rfl
  rw [BitVec.toInt_eq_toNat_cond] at hbits
  have hlt := n.toBitVec.isLt
  split at hbits <;> omega

theorem take_all {m n : Nat} (h : ∀ out : Bytes, out.length = n → file.take m ++ out.drop m = file.take n) :
    n ≤ m := by
  by_contra hlt
  have hout := h (List.replicate n (file.getD m 0 + 1)) List.length_replicate
  have hlen := congrArg List.length hout
  simp only [List.length_append, List.length_take, List.length_drop, List.length_replicate] at hlen
  have hat := congrArg (fun l => l[m]?) hout
  have htaken : (file.take m).length = m := List.length_take_of_le (by omega)
  simp only [List.getElem?_append_right (Nat.le_of_eq htaken), htaken, Nat.sub_self, List.getElem?_drop, Nat.add_zero,
    List.getElem?_replicate, List.getElem?_take] at hat
  rw [if_pos (by omega), if_pos (by omega), List.getElem?_eq_getElem (by omega)] at hat
  rw [List.getD_eq_getElem?_getD, List.getElem?_eq_getElem (by omega), Option.getD_some] at hat
  have hnext := congrArg UInt8.toNat (Option.some.inj hat)
  rw [UInt8.toNat_add] at hnext
  have hm : m < file.length := by omega
  have hone : (1 : UInt8).toNat = 1 := rfl
  omega

theorem readsBody_iff (hfile : files.lookup (pathByAppendingComponent filepath r.fileName) = some file)
    (hopen : FileIo.fopen ⟨opens, []⟩ (pathByAppendingComponent filepath r.fileName) = true)
    (hn : 0 ≤ r.contentLength.toInt) : ReadsBody r filepath opens counts files ↔ Whole r counts file := by
  have hbits := contentLength_bits hn
  have hlen := toInt32_lt r.contentLength.toBitVec.toNat
  generalize hbit : r.contentLength.toBitVec.toNat = bits at hbits hlen
  constructor
  · intro h
    have hout : ∀ out : Bytes, out.length = r.contentLength.toInt.toNat →
        ∃ fuel, r.contentLength.toInt ≤ file.length ∧ (toInt32 bits).toNat ≤ delivered counts 0 fuel ∧
          file.take (toInt32 bits).toNat ++ out.drop (toInt32 bits).toNat = file.take r.contentLength.toInt.toNat := by
      intro out hout
      have hle := toInt32_le bits
      obtain ⟨fuel, ended, hrun, hcomplete⟩ := h out (by omega)
      rw [readFileFor_open hfile hopen, hbit, readLoopFor_start counts hlen (by omega)] at hrun
      split at hrun
      · next hends =>
        obtain rfl : (true, _, _) = ended := by simpa [Except.map] using hrun
        obtain ⟨file', hfile', hlong, hbody⟩ := hcomplete.body rfl
        obtain rfl := Option.some.inj (hfile.symm.trans hfile')
        exact ⟨fuel, hlong, hends.2, hbody⟩
      · cases hrun
    have hall := take_all (fun out hlength => (hout out hlength).choose_spec.2.2)
    obtain ⟨fuel, hlong, hends, _⟩ := hout (List.replicate r.contentLength.toInt.toNat 0) List.length_replicate
    exact ⟨by omega, hlong, fuel, by omega⟩
  · rintro ⟨hsmall, hlong, k, hk⟩ out hout
    have hsame : toInt32 bits = r.contentLength.toInt := by
      rw [toInt32_of_lt (by omega)]
      exact hbits
    refine ⟨k, (true, file.take r.contentLength.toInt.toNat, r.setUsed true), ?_,
      .of_body (fun _ => ⟨file, hfile, hlong, rfl⟩)⟩
    rw [readFileFor_open hfile hopen, hbit, readLoopFor_start counts hlen (by omega), hsame,
      if_pos ⟨by omega, by omega⟩, List.drop_of_length_le (by omega), List.append_nil]
    rfl

end

/-- **A body read in parts.**  `readFile` ends, within the buffer, and with the whole body if it succeeds, exactly
if the file does not open, or the body's length is an `int`, the file is as long as that, and finitely many calls
deliver as much. -/
theorem readFile_complete (r : HTTPCachedResource) (filepath : WString) (opens : Bool) (counts : Counts)
    (files : Files) : ReadsBody r filepath opens counts files ↔
      ∀ file, files.lookup (pathByAppendingComponent filepath r.fileName) = some file →
        FileIo.fopen ⟨opens, []⟩ (pathByAppendingComponent filepath r.fileName) = true →
        0 ≤ r.contentLength.toInt → Whole r counts file := by
  have hunread : (∀ fuel out, readFileFor fuel r filepath opens counts files out = some (.ok (false, out, r))) →
      ReadsBody r filepath opens counts files :=
    fun h out _ => ⟨0, _, h 0 out, .unread out⟩
  cases hfile : files.lookup (pathByAppendingComponent filepath r.fileName) with
  | none =>
    refine iff_of_true (hunread ?_) (fun file h => nomatch h)
    intro fuel out
    rw [readFileFor]
    simp only [hfile]
  | some file =>
    cases hopen : FileIo.fopen ⟨opens, []⟩ (pathByAppendingComponent filepath r.fileName) with
    | false =>
      refine iff_of_true (hunread ?_) (fun _ _ h => Bool.noConfusion h)
      intro fuel out
      rw [readFileFor]
      simp only [hfile]
      exact if_pos hopen
    | true =>
      constructor
      · intro h file' hfile' _ hn
        obtain rfl := Option.some.inj hfile'
        exact (readsBody_iff hfile hopen hn).mp h
      · intro h out hout
        exact (readsBody_iff hfile hopen (by omega)).mpr (h file rfl rfl (by omega)) out hout

end HTTPCachedResource

end

namespace HTTPCachedResource

open Sample in
/-- two bytes are expected of a file of one byte: the calls deliver nothing any more, and the loop goes on -/
theorem readFile_stuck :
    ¬ ReadsBody { fileName := [0x66], contentLength := 2 } [0x63] true (fun _ => 2)
      (AList.insert [0x63, separator, 0x66] [1] ∅) := by
  intro h
  have hfile : AList.lookup (pathByAppendingComponent [0x63] [0x66])
      (AList.insert (β := fun _ => Bytes) [0x63, separator, 0x66] [1] ∅) = some [1] := by decide
  have hopen : FileIo.fopen ⟨true, []⟩ (pathByAppendingComponent [0x63] [0x66]) = true := by decide
  have hwhole := (readsBody_iff (r := { fileName := [0x66], contentLength := 2 }) hfile hopen (by decide)).mp h
  exact absurd hwhole.long (by decide)

end HTTPCachedResource

end Wkc
