import WkcBrowser.Cache.Keys

/-!
# A body that is written in parts

`writeFile`, when `wkcFileFWritePeer` may store fewer bytes than it is given, none included.  The inner loop gives
every call the piece from its start, so a piece is written as it is only if each call stores bytes that are due.

* `pieceFor`, `bodyFor`, `writeFileFor`   the loops within a number of calls; `none` if these are not enough;
* `writeFileFor_writeFile`                a run that ends is one of `writeFile`;
* `stored`, `sent`                        how much the first calls of a piece have stored, and what;
* `Due`, `AllDue`                         the counts, and the bytes of a piece, that make it come out right;
* `writeFile_partial`                     `writeFile` does what it should exactly then.
-/

set_option linter.unusedSectionVars false

namespace Wkc
open Buf

section
variable [FilePeers]

/-- what the successive `wkcFileFWritePeer` calls return; each stores as many leading bytes of its argument, at
most all -/
abbrev Counts := Nat → Nat

namespace HTTPCachedResource

/-- the inner loop of `writeFile`; `calls` have been made before it -/
def pieceFor (counts : Counts) (buf : Bytes) : Nat → Int → Nat → Bytes → Option (Bool × Nat × Bytes)
  | 0, writelength, calls, file => if writelength ≤ 0 then some (true, calls, file) else none
  | fuel + 1, writelength, calls, file =>
    if writelength ≤ 0 then some (true, calls, file)
    else
      let count := min (counts calls) writelength.toNat
      let written := toInt32 count
      if written < 0 then some (false, calls + 1, file ++ buf.take count)
      else pieceFor counts buf fuel (writelength - written) (calls + 1) (file ++ buf.take count)

/-- the outer loop; each of its rounds may make `fuel` calls -/
def bodyFor (counts : Counts) (data : SharedBuffer) (fuel : Nat) :
    Nat → Int → Nat → Nat → Bytes → Option (Bool × Bytes)
  | 0, len, _, _, file => if len ≤ 0 then some (true, file) else none
  | rounds + 1, len, position, calls, file =>
    if len ≤ 0 then some (true, file)
    else
      let buf := data.getSomeData position
      if buf.length = 0 then some (false, file)
      else
        match pieceFor counts buf fuel buf.length calls file with
        | none => none
        | some (false, _, file) => some (false, file)
        | some (true, calls, file) =>
          bodyFor counts data fuel rounds (len - buf.length) (position + buf.length) calls file

def writeFileFor (fuel : Nat) (r : HTTPCachedResource) (filename filepath : WString) (opens : Bool)
    (counts : Counts) (files : Files) : Option (Bool × HTTPCachedResource × Files) :=
  match r.resourceData with
  | none => some (false, r, files)
  | some data =>
    let fileFullPath := pathByAppendingComponent filepath filename
    if FileIo.fopen ⟨opens, []⟩ fileFullPath = false then some (false, r, files)
    else
      match bodyFor counts data fuel fuel (toInt32 data.size) 0 0 [] with
      | none => none
      | some (true, file) => some (true, r.written data filename, files.insert fileFullPath file)
      | some (false, file) => some (false, r, files.insert fileFullPath file)

/-! ## the counts as a list -/

theorem pieceFor_writePiece {counts : Counts} {buf : Bytes} (fuel : Nat) :
    ∀ {writelength : Int} {calls : Nat} {file : Bytes} {out : Bool × Nat × Bytes}, writelength < 2 ^ 31 →
      pieceFor counts buf fuel writelength calls file = some out →
      ∃ written : List Int, ∀ rest, writePiece buf writelength (written ++ rest) file = (out.1, rest, out.2.2) := by
  induction fuel with
  | zero =>
    intro writelength calls file out _ h
    rw [pieceFor] at h
    split at h
    · next hdone =>
      obtain rfl := Option.some.inj h
      exact ⟨[], fun rest => writePiece_done hdone rest file⟩
    · cases h
  | succ fuel ih =>
    intro writelength calls file out hsmall h
    rw [pieceFor] at h
    split at h
    · next hdone =>
      obtain rfl := Option.some.inj h
      exact ⟨[], fun rest => writePiece_done hdone rest file⟩
    · next hleft =>
      dsimp only at h
      have hcount : min (counts calls) writelength.toNat ≤ writelength.toNat := Nat.min_le_right _ _
      generalize min (counts calls) writelength.toNat = count at hcount h
      rw [toInt32_of_lt (by omega), if_neg (by omega)] at h
      obtain ⟨written, hwritten⟩ := ih (by omega) h
      refine ⟨count :: written, fun rest => ?_⟩
      have hmin : (min (count : Int) writelength).toNat = count := by omega
      rw [List.cons_append, writePiece, if_neg hleft, if_neg (by omega), hmin, hwritten]

theorem getSomeData_length (data : SharedBuffer) (position : Nat) :
    (data.getSomeData position).length ≤ data.size := by
  unfold SharedBuffer.getSomeData SharedBuffer.size SharedBuffer.contents
  generalize data.pieces = pieces
  induction pieces generalizing position with
  | nil => exact Nat.le_refl _
  | cons s ss ih =>
    have hrest := ih (position - s.length)
    rw [SharedBuffer.getSome, List.flatten_cons, List.length_append]
    split
    · rw [List.length_drop]
      omega
    · omega

theorem bodyFor_writeLoop {counts : Counts} {data : SharedBuffer} (hsmall : data.size < 2 ^ 31) (fuel rounds : Nat) :
    ∀ {len : Int} {position calls : Nat} {file : Bytes} {out : Bool × Bytes},
      bodyFor counts data fuel rounds len position calls file = some out →
      ∃ written : List Int, ∀ n, len.toNat ≤ n → writeLoop data n len position written file = out := by
  have hdone : ∀ {len : Int} (position : Nat) (file : Bytes), len ≤ 0 →
      ∃ written : List Int, ∀ n, len.toNat ≤ n → writeLoop data n len position written file = (true, file) := by
    intro len position file hlen
    refine ⟨[], fun n _ => ?_⟩
    cases n with
    | zero => rw [writeLoop, decide_eq_true hlen]
    | succ n => rw [writeLoop, if_pos hlen]
  induction rounds with
  | zero =>
    intro len position calls file out h
    rw [bodyFor] at h
    split at h
    · next hlen => exact Option.some.inj h ▸ hdone position file hlen
    · cases h
  | succ rounds ih =>
    intro len position calls file out h
    rw [bodyFor] at h
    split at h
    · next hlen => exact Option.some.inj h ▸ hdone position file hlen
    next hlen =>
    dsimp only at h
    split at h
    · next hempty =>
      obtain rfl := Option.some.inj h
      refine ⟨[], fun n hn => ?_⟩
      obtain ⟨n, rfl⟩ : ∃ m, n = m + 1 := ⟨n - 1, by omega⟩
      rw [writeLoop, if_neg hlen]
      exact if_pos hempty
    next hbytes =>
    cases hpiece : pieceFor counts (data.getSomeData position) fuel (data.getSomeData position).length calls file with
    | none =>
      rw [hpiece] at h
      cases h
    | some o =>
      rw [hpiece] at h
      have hlength := getSomeData_length data position
      obtain ⟨piece, hwrites⟩ := pieceFor_writePiece fuel (by omega) hpiece
      obtain ⟨ok, calls', file'⟩ := o
      cases ok with
      | false =>
        obtain rfl := Option.some.inj h
        refine ⟨piece ++ [], fun n hn => ?_⟩
        obtain ⟨n, rfl⟩ : ∃ m, n = m + 1 := ⟨n - 1, by omega⟩
        rw [writeLoop, if_neg hlen]
        dsimp only
        rw [if_neg hbytes, hwrites]
      | true =>
        obtain ⟨written, hrest⟩ := ih h
        refine ⟨piece ++ written, fun n hn => ?_⟩
        obtain ⟨n, rfl⟩ : ∃ m, n = m + 1 := ⟨n - 1, by omega⟩
        rw [writeLoop, if_neg hlen]
        dsimp only
        rw [if_neg hbytes, hwrites]
        exact hrest n (by omega)

theorem writeFileFor_writeFile {fuel : Nat} {r : HTTPCachedResource} {filename filepath : WString} {opens : Bool}
    {counts : Counts} {files : Files} {out : Bool × HTTPCachedResource × Files}
    (hsmall : ∀ data, r.resourceData = some data → data.size < 2 ^ 31)
    (h : writeFileFor fuel r filename filepath opens counts files = some out) :
    ∃ written, r.writeFile filename filepath ⟨opens, written⟩ files = out := by
  unfold writeFileFor at h
  unfold writeFile
  cases hdata : r.resourceData with
  | none =>
    rw [hdata] at h
    exact ⟨[], Option.some.inj h⟩
  | some data =>
    rw [hdata] at h
    dsimp only at h ⊢
    split at h
    · next hclosed => exact ⟨[], (if_pos hclosed).trans (Option.some.inj h)⟩
    next hopen =>
    have hsize := hsmall data hdata
    cases hbody : bodyFor counts data fuel fuel (toInt32 data.size) 0 0 [] with
    | none =>
      rw [hbody] at h
      cases h
    | some o =>
      rw [hbody] at h
      obtain ⟨written, hwritten⟩ := bodyFor_writeLoop hsize fuel fuel hbody
      have hall : writeBody data ⟨opens, written⟩ = o := hwritten data.size (by rw [toInt32_of_lt hsize]; omega)
      refine ⟨written, (if_neg hopen).trans ?_⟩
      rw [hall]
      obtain ⟨ok, file⟩ := o
      cases ok with
      | false | true => exact Option.some.inj h

/-! ## the calls of one piece -/

/-- how much of a piece of `length` bytes the first calls have stored -/
def stored (counts : Counts) (length calls : Nat) : Nat → Nat
  | 0 => 0
  | k + 1 => stored counts length calls k + min (counts (calls + k)) (length - stored counts length calls k)

/-- what call `k` of the piece stores -/
def count (counts : Counts) (length calls k : Nat) : Nat :=
  min (counts (calls + k)) (length - stored counts length calls k)

/-- what the first calls have put into the file -/
def sent (counts : Counts) (buf : Bytes) (calls : Nat) : Nat → Bytes
  | 0 => []
  | k + 1 => sent counts buf calls k ++ buf.take (count counts buf.length calls k)

/-- `n` calls make up the piece, and the bytes that each of them stores, the leading ones, are due -/
structure Due (counts : Counts) (buf : Bytes) (calls n : Nat) : Prop where
  complete : stored counts buf.length calls n = buf.length
  pending : ∀ k, k < n → stored counts buf.length calls k < buf.length
  due : ∀ k, k < n → buf.take (count counts buf.length calls k) =
    (buf.drop (stored counts buf.length calls k)).take (count counts buf.length calls k)

def AllDue (counts : Counts) : List Bytes → Nat → Prop
  | [], _ => True
  | buf :: rest, calls => ∃ n, Due counts buf calls n ∧ AllDue counts rest (calls + n)

section
variable {counts : Counts} {buf : Bytes} {calls : Nat}

theorem stored_succ (counts : Counts) (length calls k : Nat) :
    stored counts length calls (k + 1) = stored counts length calls k + count counts length calls k := rfl

theorem stored_le (counts : Counts) (length calls k : Nat) : stored counts length calls k ≤ length := by
  induction k with
  | zero => exact Nat.zero_le _
  | succ k ih =>
    have hcount : count counts length calls k ≤ length - stored counts length calls k := Nat.min_le_right _ _
    rw [stored_succ]
    omega

theorem count_le (counts : Counts) (length calls k : Nat) :
    count counts length calls k ≤ length - stored counts length calls k := Nat.min_le_right _ _

theorem sent_length (counts : Counts) (buf : Bytes) (calls k : Nat) :
    (sent counts buf calls k).length = stored counts buf.length calls k := by
  induction k with
  | zero => rfl
  | succ k ih =>
    have hcount := count_le counts buf.length calls k
    rw [sent, List.length_append, ih, List.length_take, stored_succ, Nat.min_eq_left (by omega)]

theorem sent_prefix (counts : Counts) (buf : Bytes) (calls : Nat) {k n : Nat} (h : k ≤ n) :
    sent counts buf calls k <+: sent counts buf calls n := by
  induction n, h using Nat.le_induction with
  | base => exact List.prefix_refl _
  | succ n _ ih => exact ih.trans (List.prefix_append _ _)

theorem sent_due {n : Nat} (h : ∀ k, k < n → buf.take (count counts buf.length calls k) =
    (buf.drop (stored counts buf.length calls k)).take (count counts buf.length calls k)) :
    sent counts buf calls n = buf.take (stored counts buf.length calls n) := by
  induction n with
  | zero => rfl
  | succ n ih =>
    rw [sent, ih (fun k hk => h k (Nat.lt_succ_of_lt hk)), h n (Nat.lt_succ_self n), stored_succ,
      List.take_add]

theorem due_of_sent {n : Nat} (hn : sent counts buf calls n = buf) (k : Nat) (hk : k < n) :
    buf.take (count counts buf.length calls k) =
      (buf.drop (stored counts buf.length calls k)).take (count counts buf.length calls k) := by
  have hprefix : ∀ j, j ≤ n → sent counts buf calls j = buf.take (stored counts buf.length calls j) := by
    intro j hj
    have hpre := sent_prefix counts buf calls hj
    rw [hn] at hpre
    rw [← sent_length counts buf calls j]
    exact List.prefix_iff_eq_take.mp hpre
  have hnext := hprefix (k + 1) hk
  rw [sent, hprefix k (Nat.le_of_lt hk), stored_succ, List.take_add] at hnext
  exact List.append_cancel_left hnext

/-! ## the loops -/

/-- the inner loop when the first `k` calls of the piece have been made -/
def pieceFrom (counts : Counts) (buf : Bytes) (calls : Nat) (file : Bytes) (fuel k : Nat) :
    Option (Bool × Nat × Bytes) :=
  pieceFor counts buf fuel ((buf.length : Int) - stored counts buf.length calls k) (calls + k)
    (file ++ sent counts buf calls k)

theorem pieceFrom_done {file : Bytes} {k : Nat} (h : stored counts buf.length calls k = buf.length) (fuel : Nat) :
    pieceFrom counts buf calls file fuel k = some (true, calls + k, file ++ sent counts buf calls k) := by
  have hdone : (buf.length : Int) - stored counts buf.length calls k ≤ 0 := by omega
  unfold pieceFrom
  cases fuel with
  | zero | succ => rw [pieceFor, if_pos hdone]

theorem pieceFrom_zero {file : Bytes} {k : Nat} (h : stored counts buf.length calls k < buf.length) :
    pieceFrom counts buf calls file 0 k = none := by
  rw [pieceFrom, pieceFor, if_neg (by omega)]

theorem pieceFrom_succ (hbuf : buf.length < 2 ^ 31) {file : Bytes} {k : Nat}
    (h : stored counts buf.length calls k < buf.length) (fuel : Nat) :
    pieceFrom counts buf calls file (fuel + 1) k = pieceFrom counts buf calls file fuel (k + 1) := by
  have hleft : ((buf.length : Int) - stored counts buf.length calls k).toNat =
      buf.length - stored counts buf.length calls k := by omega
  have hnext : (buf.length : Int) - ((stored counts buf.length calls k + count counts buf.length calls k : Nat) : Int)
      = (buf.length : Int) - stored counts buf.length calls k - count counts buf.length calls k := by omega
  have hmin : min (counts (calls + k)) (buf.length - stored counts buf.length calls k) =
      count counts buf.length calls k := rfl
  rw [pieceFrom, pieceFor, if_neg (by omega)]
  dsimp only
  rw [hleft, hmin, toInt32_of_lt (by omega), if_neg (by omega), pieceFrom, stored_succ, hnext, sent,
    List.append_assoc]
  rfl

theorem pieceFrom_some (hbuf : buf.length < 2 ^ 31) {file : Bytes} {out : Bool × Nat × Bytes} (fuel : Nat) :
    ∀ k, (∀ j, j < k → stored counts buf.length calls j < buf.length) →
      pieceFrom counts buf calls file fuel k = some out →
      ∃ n, stored counts buf.length calls n = buf.length ∧
        (∀ j, j < n → stored counts buf.length calls j < buf.length) ∧
        out = (true, calls + n, file ++ sent counts buf calls n) := by
  induction fuel with
  | zero =>
    intro k hk h
    rcases Nat.eq_or_lt_of_le (stored_le counts buf.length calls k) with hdone | hlt
    · rw [pieceFrom_done hdone] at h
      exact ⟨k, hdone, hk, (Option.some.inj h).symm⟩
    · rw [pieceFrom_zero hlt] at h
      cases h
  | succ fuel ih =>
    intro k hk h
    rcases Nat.eq_or_lt_of_le (stored_le counts buf.length calls k) with hdone | hlt
    · rw [pieceFrom_done hdone] at h
      exact ⟨k, hdone, hk, (Option.some.inj h).symm⟩
    · rw [pieceFrom_succ hbuf hlt] at h
      refine ih (k + 1) ?_ h
      intro j hj
      rcases Nat.eq_or_lt_of_le (Nat.le_of_lt_succ hj) with rfl | hjk
      · exact hlt
      · exact hk j hjk

theorem pieceFrom_enough (hbuf : buf.length < 2 ^ 31) {file : Bytes} {n : Nat}
    (hn : stored counts buf.length calls n = buf.length)
    (hpending : ∀ j, j < n → stored counts buf.length calls j < buf.length) (fuel : Nat) :
    ∀ k, k ≤ n → n ≤ k + fuel →
      pieceFrom counts buf calls file fuel k = some (true, calls + n, file ++ sent counts buf calls n) := by
  induction fuel with
  | zero =>
    intro k hk hle
    obtain rfl : k = n := Nat.le_antisymm hk hle
    exact pieceFrom_done hn 0
  | succ fuel ih =>
    intro k hk hle
    rcases Nat.eq_or_lt_of_le hk with rfl | hkn
    · exact pieceFrom_done hn _
    · rw [pieceFrom_succ hbuf (hpending k hkn)]
      exact ih (k + 1) hkn (by omega)

theorem pieceFor_eq (counts : Counts) (buf : Bytes) (calls : Nat) (file : Bytes) (fuel : Nat) :
    pieceFor counts buf fuel buf.length calls file = pieceFrom counts buf calls file fuel 0 := by
  have hzero : (buf.length : Int) - ((0 : Nat) : Int) = buf.length := by omega
  rw [pieceFrom, sent, List.append_nil, stored, hzero]
  rfl

end

section
variable {counts : Counts} {data : SharedBuffer}

theorem bodyFor_succ {done todo : List Bytes} {s : Bytes} (hpieces : data.pieces = done ++ s :: todo)
    (fuel rounds calls : Nat) (file : Bytes) :
    bodyFor counts data fuel (rounds + 1) (s :: todo).flatten.length done.flatten.length calls file =
      match pieceFor counts s fuel s.length calls file with
      | none => none
      | some (false, _, file) => some (false, file)
      | some (true, calls, file) =>
        bodyFor counts data fuel rounds todo.flatten.length (done ++ [s]).flatten.length calls file := by
  have hs : s ≠ [] := data.pieces_ne s (by rw [hpieces]; exact List.mem_append_right _ List.mem_cons_self)
  have hpos : 0 < s.length := List.length_pos_of_ne_nil hs
  have hlen : (s :: todo).flatten.length = s.length + todo.flatten.length := by
    rw [List.flatten_cons, List.length_append]
  have hdone : (done ++ [s]).flatten.length = done.flatten.length + s.length := by
    rw [List.flatten_append, List.flatten_singleton, List.length_append]
  have hleft : ((s.length + todo.flatten.length : Nat) : Int) - s.length = todo.flatten.length := by omega
  have hnext : data.getSomeData done.flatten.length = s := by
    rw [SharedBuffer.getSomeData, hpieces]
    exact getSome_next done hs todo
  rw [bodyFor, if_neg (by omega)]
  dsimp only
  rw [hnext, if_neg (by omega), hlen, hleft, hdone]

theorem bodyFor_nil (counts : Counts) (data : SharedBuffer) (fuel rounds position calls : Nat) (file : Bytes) :
    bodyFor counts data fuel rounds (0 : Nat) position calls file = some (true, file) := by
  cases rounds <;> rfl

theorem bodyFor_some (fuel : Nat) (todo : List Bytes) :
    ∀ (rounds : Nat) (done : List Bytes) (calls : Nat) (file : Bytes) (out : Bool × Bytes),
      data.pieces = done ++ todo → (∀ s ∈ todo, s.length < 2 ^ 31) →
      bodyFor counts data fuel rounds todo.flatten.length done.flatten.length calls file = some out →
      ∃ tail : Bytes, out = (true, file ++ tail) ∧ tail.length = todo.flatten.length ∧
        (tail = todo.flatten → AllDue counts todo calls) := by
  induction todo with
  | nil =>
    intro rounds done calls file out _ _ h
    rw [List.flatten_nil, List.length_nil, bodyFor_nil] at h
    exact ⟨[], by rw [List.append_nil, ← Option.some.inj h], rfl, fun _ => trivial⟩
  | cons s todo ih =>
    intro rounds done calls file out hpieces hsmall h
    have hs : 0 < s.length := List.length_pos_of_ne_nil
      (data.pieces_ne s (by rw [hpieces]; exact List.mem_append_right _ List.mem_cons_self))
    cases rounds with
    | zero =>
      have hlen : (s :: todo).flatten.length = s.length + todo.flatten.length := by
        rw [List.flatten_cons, List.length_append]
      rw [bodyFor, if_neg (by omega)] at h
      cases h
    | succ rounds =>
      have hpieces' : data.pieces = done ++ [s] ++ todo := by
        rw [hpieces, List.append_assoc]
        rfl
      have hbuf := hsmall s List.mem_cons_self
      rw [bodyFor_succ hpieces, pieceFor_eq] at h
      cases hpiece : pieceFrom counts s calls file fuel 0 with
      | none =>
        rw [hpiece] at h
        cases h
      | some o =>
        obtain ⟨n, hn, hpending, rfl⟩ := pieceFrom_some hbuf fuel 0 (fun _ hj => absurd hj (Nat.not_lt_zero _)) hpiece
        rw [hpiece] at h
        obtain ⟨tail, hout, htail, hdue⟩ := ih rounds (done ++ [s]) (calls + n) _ out hpieces'
          (fun t ht => hsmall t (List.mem_cons_of_mem s ht)) h
        have hsent : (sent counts s calls n).length = s.length := (sent_length counts s calls n).trans hn
        refine ⟨sent counts s calls n ++ tail, ?_, ?_, ?_⟩
        · rw [hout, List.append_assoc]
        · rw [List.length_append, hsent, htail, List.flatten_cons, List.length_append]
        · intro hall
          rw [List.flatten_cons] at hall
          obtain ⟨hpart, hrest⟩ := List.append_inj hall hsent
          exact ⟨n, ⟨hn, hpending, due_of_sent hpart⟩, hdue hrest⟩

theorem bodyFor_due (todo : List Bytes) :
    ∀ (done : List Bytes) (calls : Nat), data.pieces = done ++ todo → (∀ s ∈ todo, s.length < 2 ^ 31) →
      AllDue counts todo calls → ∃ enough, ∀ fuel, enough ≤ fuel → ∀ rounds, todo.length ≤ rounds → ∀ file,
        bodyFor counts data fuel rounds todo.flatten.length done.flatten.length calls file =
          some (true, file ++ todo.flatten) := by
  induction todo with
  | nil =>
    intro done calls _ _ _
    refine ⟨0, fun fuel _ rounds _ file => ?_⟩
    rw [List.flatten_nil, List.length_nil, bodyFor_nil, List.append_nil]
  | cons s todo ih =>
    rintro done calls hpieces hsmall ⟨n, hdue, hrest⟩
    have hpieces' : data.pieces = done ++ [s] ++ todo := by
      rw [hpieces, List.append_assoc]
      rfl
    obtain ⟨enough, henough⟩ := ih (done ++ [s]) (calls + n) hpieces'
      (fun t ht => hsmall t (List.mem_cons_of_mem s ht)) hrest
    refine ⟨max n enough, fun fuel hfuel rounds hrounds file => ?_⟩
    obtain ⟨rounds, rfl⟩ : ∃ m, rounds = m + 1 := ⟨rounds - 1, by rw [List.length_cons] at hrounds; omega⟩
    have hpiece : pieceFrom counts s calls file fuel 0 = some (true, calls + n, file ++ sent counts s calls n) :=
      pieceFrom_enough (hsmall s List.mem_cons_self) hdue.complete hdue.pending fuel 0 (Nat.zero_le n) (by omega)
    have hsent : sent counts s calls n = s := by
      rw [sent_due hdue.due, hdue.complete, List.take_length]
    rw [bodyFor_succ hpieces, pieceFor_eq, hpiece, hsent]
    dsimp only
    rw [henough fuel (by omega) rounds (by rw [List.length_cons] at hrounds; omega), List.append_assoc,
      List.flatten_cons]

end

/-! ## the whole file -/

theorem toInt32_nonpos {n : Nat} (hlow : 2 ^ 31 ≤ n) (hhigh : n < 2 ^ 32) : toInt32 n ≤ 0 := by
  unfold toInt32
  rw [Int.bmod_def]
  split <;> omega

theorem pieces_small {data : SharedBuffer} (h : data.size < 2 ^ 31) : ∀ s ∈ data.pieces, s.length < 2 ^ 31 := by
  intro s hs
  have hle : s.length ≤ data.size := (List.sublist_flatten_of_mem hs).length_le
  omega

/-- `writeFile` ends, a success leaves the body in the file and its length in the entry, a failure leaves the
entry as it was -/
def WritesBody (r : HTTPCachedResource) (filename filepath : WString) (opens : Bool) (counts : Counts)
    (files : Files) : Prop :=
  ∃ fuel result r' files', writeFileFor fuel r filename filepath opens counts files = some (result, r', files') ∧
    (result = true → ∃ data, r.resourceData = some data ∧
      files'.lookup (pathByAppendingComponent filepath filename) = some data.contents ∧
      r'.contentLength = Int64.ofNat data.size) ∧
    (result = false → r'.fileName = r.fileName ∧ r'.contentLength = r.contentLength ∧
      r'.resourceSize = r.resourceSize)

/-- the file is written at all -/
def Opens (filename filepath : WString) (opens : Bool) : Prop :=
  FileIo.fopen ⟨opens, []⟩ (pathByAppendingComponent filepath filename) = true

instance (filename filepath : WString) (opens : Bool) : Decidable (Opens filename filepath opens) :=
  inferInstanceAs (Decidable (_ = true))

section
variable {r : HTTPCachedResource} {filename filepath : WString} {opens : Bool} {counts : Counts} {files : Files}

theorem writeFileFor_noData (h : r.resourceData = none) (fuel : Nat) :
    writeFileFor fuel r filename filepath opens counts files = some (false, r, files) := by
  rw [writeFileFor, h]

theorem writeFileFor_closed {data : SharedBuffer} (h : r.resourceData = some data)
    (ho : ¬ Opens filename filepath opens) (fuel : Nat) :
    writeFileFor fuel r filename filepath opens counts files = some (false, r, files) := by
  rw [writeFileFor, h]
  dsimp only
  rw [if_pos (Bool.eq_false_of_not_eq_true ho)]

theorem writeFileFor_opens {data : SharedBuffer} (h : r.resourceData = some data)
    (ho : Opens filename filepath opens) (fuel : Nat) :
    writeFileFor fuel r filename filepath opens counts files =
      match bodyFor counts data fuel fuel (toInt32 data.size) 0 0 [] with
      | none => none
      | some (true, file) => some (true, r.written data filename,
          files.insert (pathByAppendingComponent filepath filename) file)
      | some (false, file) => some (false, r, files.insert (pathByAppendingComponent filepath filename) file) := by
  have hopen : ¬ FileIo.fopen ⟨opens, []⟩ (pathByAppendingComponent filepath filename) = false := by
    rw [ho]
    exact Bool.noConfusion
  rw [writeFileFor, h]
  dsimp only
  rw [if_neg hopen]

theorem writesBody_unwritten
    (h : ∀ fuel, writeFileFor fuel r filename filepath opens counts files = some (false, r, files)) :
    WritesBody r filename filepath opens counts files :=
  ⟨0, false, r, files, h 0, fun hfalse => Bool.noConfusion hfalse, fun _ => ⟨rfl, rfl, rfl⟩⟩

theorem bodyFor_large {data : SharedBuffer} (h : 2 ^ 31 ≤ data.size) (fuel : Nat) :
    bodyFor counts data fuel fuel (toInt32 data.size) 0 0 [] = some (true, []) := by
  have hneg := toInt32_nonpos h data.size_lt
  cases fuel with
  | zero | succ => rw [bodyFor, if_pos hneg]

theorem writesBody_iff {data : SharedBuffer} (h : r.resourceData = some data) (ho : Opens filename filepath opens) :
    WritesBody r filename filepath opens counts files ↔ data.size < 2 ^ 31 ∧ AllDue counts data.pieces 0 := by
  constructor
  · rintro ⟨fuel, result, r', files', hrun, htrue, hfalse⟩
    rw [writeFileFor_opens h ho] at hrun
    by_cases hsmall : data.size < 2 ^ 31
    · refine ⟨hsmall, ?_⟩
      rw [toInt32_of_lt hsmall] at hrun
      cases hbody : bodyFor counts data fuel fuel data.size 0 0 [] with
      | none =>
        rw [hbody] at hrun
        cases hrun
      | some out =>
        obtain ⟨tail, rfl, htail, hdue⟩ := bodyFor_some fuel data.pieces fuel [] 0 [] out rfl (pieces_small hsmall) hbody
        rw [hbody] at hrun
        obtain ⟨rfl, rfl, rfl⟩ : true = result ∧ _ = r' ∧ _ = files' := by
          simpa only [Option.some.injEq, Prod.mk.injEq] using hrun
        obtain ⟨data', hdata', hfile, _⟩ := htrue rfl
        obtain rfl : data = data' := Option.some.inj (h.symm.trans hdata')
        rw [AList.lookup_insert, List.nil_append] at hfile
        exact hdue (Option.some.inj hfile)
    · exfalso
      rw [bodyFor_large (Nat.le_of_not_lt hsmall)] at hrun
      obtain ⟨rfl, rfl, rfl⟩ : true = result ∧ _ = r' ∧ _ = files' := by
        simpa only [Option.some.injEq, Prod.mk.injEq] using hrun
      obtain ⟨data', hdata', hfile, _⟩ := htrue rfl
      obtain rfl : data = data' := Option.some.inj (h.symm.trans hdata')
      rw [AList.lookup_insert] at hfile
      have hlen : data.size = 0 := by
        rw [SharedBuffer.size, ← Option.some.inj hfile]
        rfl
      omega
  · rintro ⟨hsmall, hdue⟩
    obtain ⟨enough, henough⟩ := bodyFor_due data.pieces [] 0 rfl (pieces_small hsmall) hdue
    have hbody := henough (max enough data.pieces.length) (Nat.le_max_left ..) (max enough data.pieces.length)
      (Nat.le_max_right ..) []
    refine ⟨max enough data.pieces.length, true, r.written data filename,
      files.insert (pathByAppendingComponent filepath filename) data.contents, ?_, ?_, fun hfalse => Bool.noConfusion hfalse⟩
    · rw [writeFileFor_opens h ho, toInt32_of_lt hsmall]
      have hbody' : bodyFor counts data (max enough data.pieces.length) (max enough data.pieces.length) data.size 0 0 []
          = some (true, data.contents) := hbody
      rw [hbody']
    · exact fun _ => ⟨data, h, AList.lookup_insert _, rfl⟩

end

/-- **A body written in parts.**  `writeFile` ends and leaves the body in the file exactly if there is nothing to
write, or the body's length is an `int` and each piece is made up by finitely many calls that store bytes that are
due. -/
theorem writeFile_partial (r : HTTPCachedResource) (filename filepath : WString) (opens : Bool) (counts : Counts)
    (files : Files) :
    WritesBody r filename filepath opens counts files ↔
      ∀ data, r.resourceData = some data → Opens filename filepath opens →
        data.size < 2 ^ 31 ∧ AllDue counts data.pieces 0 := by
  cases h : r.resourceData with
  | none => exact ⟨fun _ => nofun, fun _ => writesBody_unwritten (writeFileFor_noData h)⟩
  | some data =>
    by_cases ho : Opens filename filepath opens
    · rw [writesBody_iff h ho]
      constructor
      · intro hdue data' hdata' _
        obtain rfl := Option.some.inj hdata'
        exact hdue
      · intro hdue
        exact hdue data rfl ho
    · exact ⟨fun _ _ _ hopens => absurd hopens ho, fun _ => writesBody_unwritten (writeFileFor_closed h ho)⟩

end HTTPCachedResource

end

namespace HTTPCachedResource

/-- a body of two bytes, and a card that takes them one by one -/
def twoBytes : SharedBuffer := ⟨[[1, 2]], by decide, by decide⟩

open Sample in
/-- the first byte is written twice -/
theorem writeFile_repeats :
    ¬ WritesBody { resourceData := some twoBytes } [0x66] [0x63] true (fun _ => 1) ∅ := by
  rw [writesBody_iff rfl (by decide)]
  rintro ⟨_, n, hdue, _⟩
  match n, hdue with
  | 0, hdue => exact absurd hdue.complete (by decide)
  | 1, hdue => exact absurd hdue.complete (by decide)
  | n + 2, hdue => exact absurd (hdue.due 1 (by omega)) (by decide)

end HTTPCachedResource

end Wkc
