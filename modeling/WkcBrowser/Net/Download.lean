import WkcBrowser.Lib.Runs
import WkcBrowser.Wtf.Text

/-!
# `WKCDownload`: one download and its two sides

The application starts, cancels and asks; the loader calls back.  Both write the status and the lengths.

* `Download`, `Op`, `step`     the members of `WKCDownloadPrivate`, and the calls of the two sides;
* `getProgressInPercent`       the only query that can go wrong;
* `InOrder`                    what should hold of a step;
* `Admits`                     the steps that are taken in the right state;
* `download_runs`              the runs whose steps are all in order.

`ResourceHandle::cancel` does not call the client back.
-/

namespace Wkc
namespace Download

inductive Status where
  | EError | ECreated | EStarted | ECancelled | EFinished
  deriving DecidableEq

def Status.terminal : Status → Bool
  | .EError | .ECancelled | .EFinished => true
  | .ECreated | .EStarted => false

inductive Error where
  | EErrorNone | EErrorNetwork | EErrorCancelled
  deriving DecidableEq

inductive Call where
  | didReceiveData (len : UInt32) (sum : Int64)
  | didFinishLoading
  | didFail (err : Error)
  deriving DecidableEq

def Call.terminal : Call → Bool
  | .didReceiveData _ _ => false
  | .didFinishLoading | .didFail _ => true

/-- what `setResponseInfo` takes from a response that is not null -/
structure Response where
  suggestedFilename : WString := []
  expectedContentLength : Int64
  url : WString := []

end Download

/-- `calls` and `answers`, the newest first, are what the application is told: an answer is `none` when the division
by zero has trapped. -/
structure Download where
  resourceHandle : Bool := false
  uri : Option WString := none
  suggestedFilename : WString
  status : Download.Status := .ECreated
  currentLength : Int64 := 0
  contentLength : Int64 := 0
  error : Download.Error := .EErrorNone
  calls : List Download.Call := []
  answers : List (Option Int32) := []

namespace Download

def setResponseInfo (d : Download) (response : Option Response) : Download :=
  match response with
  | none => d
  | some response =>
    { d with
      suggestedFilename :=
        if response.suggestedFilename.isEmpty then d.suggestedFilename else response.suggestedFilename
      contentLength := response.expectedContentLength
      uri := if response.url.isEmpty then none else some response.url }

def setResponse (d : Download) (response : Option Response) : Bool × Download :=
  if d.resourceHandle then (false, d) else (true, { d with resourceHandle := true }.setResponseInfo response)

/-- `created`: the outcome of `ResourceHandle::create` -/
def start (d : Download) (created : Bool) : Bool × Download :=
  if d.resourceHandle || created then (true, { d with resourceHandle := true, status := .EStarted }) else (false, d)

def call (d : Download) (what : Call) : Download := { d with calls := what :: d.calls }

def cancel (d : Download) : Download :=
  { d with status := .ECancelled, error := .EErrorCancelled }.call (.didFail .EErrorCancelled)

def getTotalSize (d : Download) : Int64 :=
  if d.currentLength < d.contentLength then d.contentLength else d.currentLength

def getCurrentSize (d : Download) : Int64 := d.currentLength

def getProgressInPercent (d : Download) : Option Int32 :=
  if d.getTotalSize = 0 then none else some (100 * d.getCurrentSize / d.getTotalSize).toInt32

def notifyReceivedData (d : Download) (length : UInt32) : Download :=
  let currentLength := d.currentLength + Int64.ofNat length.toNat
  { d with currentLength := currentLength }.call (.didReceiveData length currentLength)

def notifyFinishedLoading (d : Download) : Download := { d with status := .EFinished }.call .didFinishLoading

def notifyErrorInLoading (d : Download) : Download :=
  { d with status := .EError, error := .EErrorNetwork }.call (.didFail .EErrorNetwork)

/-- the calls of the application, and the callbacks of the loader -/
inductive Op where
  | setResponse (response : Option Response)
  | start (created : Bool)
  | cancel
  | getProgressInPercent
  | didReceiveResponse (response : Option Response)
  | didReceiveData (length : UInt32)
  | didFinishLoading
  | didFail

def step (d : Download) : Op → Download
  | .setResponse response => (d.setResponse response).2
  | .start created => (d.start created).2
  | .cancel => d.cancel
  | .getProgressInPercent => { d with answers := d.getProgressInPercent :: d.answers }
  | .didReceiveResponse response => d.setResponseInfo response
  | .didReceiveData length => d.notifyReceivedData length
  | .didFinishLoading => d.notifyFinishedLoading
  | .didFail => d.notifyErrorInLoading

/-! ## the property -/

def received : List Call → Nat
  | [] => 0
  | .didReceiveData len _ :: older => len.toNat + received older
  | _ :: older => received older

/-- every `didReceiveData` tells the sum of the lengths so far -/
def Sums : List Call → Prop
  | [] => True
  | .didReceiveData len sum :: older => sum.toInt = len.toNat + received older ∧ Sums older
  | _ :: older => Sums older

def terminals (calls : List Call) : Nat := calls.countP Call.terminal

/-- what the application has been told so far -/
structure Told (d : Download) : Prop where
  once : terminals d.calls ≤ 1
  sums : Sums d.calls
  percent : ∀ answer ∈ d.answers, ∃ n, answer = some n ∧ 0 ≤ n.toInt ∧ n.toInt ≤ 100

/-- a step that tells the right things and leaves no terminal status -/
def InOrder (d : Download) (op : Op) : Prop :=
  (d.step op).Told ∧ (d.status.terminal = true → (d.step op).status = d.status)

/-- Nothing that ends or starts the download comes after its end; nothing overflows; and the progress is not asked for
while both lengths are 0. -/
def Admits (d : Download) : Op → Prop
  | .start created => d.resourceHandle = true ∨ created = true → d.status.terminal = false
  | .cancel | .didFinishLoading | .didFail => d.status.terminal = false
  | .didReceiveData length => d.currentLength.toInt + length.toNat < 2 ^ 63
  | .getProgressInPercent => 0 < d.getTotalSize.toInt ∧ -d.getTotalSize.toInt < (100 * d.getCurrentSize).toInt
  | .setResponse _ | .didReceiveResponse _ => True

/-! ## the invariant -/

structure Inv (d : Download) : Prop where
  told : d.Told
  ended : terminals d.calls = if d.status.terminal then 1 else 0
  length : d.currentLength.toInt = received d.calls

theorem inv_first (suggestedFilename : WString) : Inv { suggestedFilename := suggestedFilename } where
  told := ⟨Nat.zero_le 1, trivial, nofun⟩
  ended := rfl
  length := rfl

/-! ## the progress -/

theorem getTotalSize_toInt (d : Download) :
    d.getTotalSize.toInt = max d.currentLength.toInt d.contentLength.toInt := by
  unfold getTotalSize
  split
  · next hlt => exact (max_eq_right (Int64.lt_iff_toInt_lt.mp hlt).le).symm
  · next hle => exact (max_eq_left (not_lt.mp fun hlt => hle (Int64.lt_iff_toInt_lt.mpr hlt))).symm

theorem percent_bounds {cur total : Int} (hcur : 0 ≤ cur) (hle : cur ≤ total) (htotal : 0 < total) :
    -100 ≤ ((100 * cur).bmod (2 ^ 64)).tdiv total ∧ ((100 * cur).bmod (2 ^ 64)).tdiv total ≤ 100 := by
  have hlow : -(2 ^ 63 : Int) ≤ (100 * cur).bmod (2 ^ 64) := Int.le_bmod (by decide)
  have hhigh : (100 * cur).bmod (2 ^ 64) < 2 ^ 63 := Int.bmod_lt (by decide)
  have hcut : -(100 * total) ≤ (100 * cur).bmod (2 ^ 64) ∧ (100 * cur).bmod (2 ^ 64) ≤ 100 * total := by
    rcases lt_or_ge (100 * cur) (2 ^ 63) with hsmall | hlarge
    · rw [Int.bmod_eq_of_le (by omega) (by omega)]
      omega
    · omega
  have hlow' := Int.tdiv_le_tdiv htotal (show -100 * total ≤ (100 * cur).bmod (2 ^ 64) by omega)
  have hhigh' := Int.tdiv_le_tdiv htotal hcut.2
  rw [Int.mul_tdiv_cancel _ htotal.ne'] at hlow' hhigh'
  exact ⟨hlow', hhigh'⟩

theorem tdiv_nonneg_iff {w total : Int} (htotal : 0 < total) : 0 ≤ w.tdiv total ↔ -total < w := by
  constructor
  · intro h
    by_contra hle
    have hdiv := Int.tdiv_le_tdiv htotal (show w ≤ -1 * total by omega)
    rw [Int.mul_tdiv_cancel _ htotal.ne'] at hdiv
    omega
  · intro h
    rcases lt_or_ge w 0 with hneg | hpos
    · have hzero : (-w).tdiv total = 0 := Int.tdiv_eq_zero_of_lt (by omega) (by omega)
      rw [Int.neg_tdiv] at hzero
      omega
    · exact Int.tdiv_nonneg hpos htotal.le

theorem hundred_toInt (cur : Int64) : (100 * cur).toInt = (100 * cur.toInt).bmod (2 ^ 64) := by
  rw [Int64.toInt_mul]
  rfl

theorem percent_toInt {cur total : Int64} (hcur : 0 ≤ cur.toInt) (hle : cur.toInt ≤ total.toInt)
    (htotal : 0 < total.toInt) : (100 * cur / total).toInt32.toInt = (100 * cur).toInt.tdiv total.toInt := by
  have hbounds := percent_bounds hcur hle htotal
  rw [Int64.toInt_toInt32, Int64.toInt_div, hundred_toInt,
    Int.bmod_eq_of_le (m := 2 ^ 64) (by omega) (by omega), Int.bmod_eq_of_le (by omega) (by omega)]

theorem Inv.progress_iff {d : Download} (h : d.Inv) :
    (∃ n, d.getProgressInPercent = some n ∧ 0 ≤ n.toInt ∧ n.toInt ≤ 100) ↔ d.Admits .getProgressInPercent := by
  have hcur : 0 ≤ d.currentLength.toInt := h.length ▸ Int.natCast_nonneg _
  have hle : d.currentLength.toInt ≤ d.getTotalSize.toInt := by
    rw [getTotalSize_toInt]
    exact le_max_left _ _
  have hzero : d.getTotalSize = 0 ↔ d.getTotalSize.toInt = 0 := Int64.toInt_inj.symm
  unfold getProgressInPercent
  show _ ↔ 0 < d.getTotalSize.toInt ∧ -d.getTotalSize.toInt < (100 * d.currentLength).toInt
  by_cases htotal : d.getTotalSize = 0
  · rw [if_pos htotal]
    constructor
    · rintro ⟨n, hn, _⟩
      cases hn
    · rintro ⟨hpos, _⟩
      have := hzero.mp htotal
      omega
  · have hpos : 0 < d.getTotalSize.toInt := by
      have := mt hzero.mpr htotal
      omega
    have hvalue := percent_toInt hcur hle hpos
    have hhigh := (percent_bounds hcur hle hpos).2
    rw [← hundred_toInt] at hhigh
    rw [if_neg htotal]
    constructor
    · rintro ⟨n, hn, hn0, _⟩
      obtain rfl := Option.some.inj hn
      exact ⟨hpos, (tdiv_nonneg_iff hpos).mp (hvalue ▸ hn0)⟩
    · rintro ⟨_, hlow⟩
      refine ⟨_, rfl, ?_, ?_⟩
      · rw [getCurrentSize, hvalue]
        exact (tdiv_nonneg_iff hpos).mpr hlow
      · rw [getCurrentSize, hvalue]
        exact hhigh

/-! ## steps -/

/-- a step that tells nothing, and that neither the status nor the length takes part in -/
structure Same (d e : Download) : Prop where
  status : e.status = d.status
  calls : e.calls = d.calls
  answers : e.answers = d.answers
  length : e.currentLength = d.currentLength

theorem Inv.same {d e : Download} (h : d.Inv) (hsame : Same d e) : e.Inv := by
  refine ⟨⟨?_, ?_, ?_⟩, ?_, ?_⟩
  · rw [hsame.calls]
    exact h.told.once
  · rw [hsame.calls]
    exact h.told.sums
  · rw [hsame.answers]
    exact h.told.percent
  · rw [hsame.calls, hsame.status]
    exact h.ended
  · rw [hsame.calls, hsame.length]
    exact h.length

theorem setResponseInfo_same (d : Download) (response : Option Response) : Same d (d.setResponseInfo response) := by
  cases response with
  | none | some => exact ⟨rfl, rfl, rfl, rfl⟩

theorem setResponse_same (d : Download) (response : Option Response) : Same d (d.setResponse response).2 := by
  unfold setResponse
  split
  · exact ⟨rfl, rfl, rfl, rfl⟩
  · obtain ⟨hstatus, hcalls, hanswers, hlength⟩ := setResponseInfo_same { d with resourceHandle := true } response
    exact ⟨hstatus, hcalls, hanswers, hlength⟩

theorem received_terminal {what : Call} (hwhat : what.terminal = true) (older : List Call) :
    received (what :: older) = received older := by
  cases what with
  | didReceiveData len sum => cases hwhat
  | didFinishLoading | didFail => rfl

theorem sums_terminal {what : Call} (hwhat : what.terminal = true) (older : List Call) :
    Sums (what :: older) ↔ Sums older := by
  cases what with
  | didReceiveData len sum => cases hwhat
  | didFinishLoading | didFail => exact Iff.rfl

theorem terminals_terminal {what : Call} (hwhat : what.terminal = true) (older : List Call) :
    terminals (what :: older) = terminals older + 1 := List.countP_cons_of_pos hwhat

/-- a step that tells the application of the end -/
structure Ends (d e : Download) (what : Call) : Prop where
  terminal : what.terminal = true
  calls : e.calls = what :: d.calls
  answers : e.answers = d.answers
  length : e.currentLength = d.currentLength
  status : e.status.terminal = true

theorem Inv.ends {d e : Download} (h : d.Inv) {what : Call} (hends : Ends d e what)
    (hgoes : d.status.terminal = false) : e.Inv := by
  have hcount : terminals e.calls = 1 := by
    rw [hends.calls, terminals_terminal hends.terminal, h.ended, hgoes]
    rfl
  refine ⟨⟨hcount.le, ?_, ?_⟩, ?_, ?_⟩
  · rw [hends.calls, sums_terminal hends.terminal]
    exact h.told.sums
  · rw [hends.answers]
    exact h.told.percent
  · rw [hcount, hends.status]
    rfl
  · rw [hends.calls, received_terminal hends.terminal, hends.length]
    exact h.length

theorem Inv.ends_iff {d e : Download} (h : d.Inv) {what : Call} (hends : Ends d e what) :
    e.Told ∧ (d.status.terminal = true → e.status = d.status) ↔ d.status.terminal = false := by
  constructor
  · rintro ⟨htold, _⟩
    have honce := htold.once
    rw [hends.calls, terminals_terminal hends.terminal, h.ended] at honce
    by_contra hterminal
    rw [Bool.not_eq_false] at hterminal
    rw [if_pos hterminal] at honce
    omega
  · intro hgoes
    refine ⟨(h.ends hends hgoes).told, fun hterminal => ?_⟩
    rw [hgoes] at hterminal
    cases hterminal

theorem cancel_ends (d : Download) : Ends d d.cancel (.didFail .EErrorCancelled) := ⟨rfl, rfl, rfl, rfl, rfl⟩

theorem notifyFinishedLoading_ends (d : Download) : Ends d d.notifyFinishedLoading .didFinishLoading :=
  ⟨rfl, rfl, rfl, rfl, rfl⟩

theorem notifyErrorInLoading_ends (d : Download) : Ends d d.notifyErrorInLoading (.didFail .EErrorNetwork) :=
  ⟨rfl, rfl, rfl, rfl, rfl⟩

theorem Inv.length_iff {d : Download} (h : d.Inv) (length : UInt32) :
    (d.currentLength + Int64.ofNat length.toNat).toInt = length.toNat + received d.calls ↔
      d.currentLength.toInt + length.toNat < 2 ^ 63 := by
  have hlength : length.toNat < 2 ^ 32 := length.toNat_lt
  have hlt := (d.currentLength + Int64.ofNat length.toNat).toInt_lt
  have hadd : (d.currentLength + Int64.ofNat length.toNat).toInt =
      (received d.calls + (length.toNat : Int)).bmod (2 ^ 64) := by
    rw [Int64.toInt_add, Int64.toInt_ofNat_of_lt (by omega), h.length]
  rw [h.length]
  constructor
  · intro heq
    omega
  · intro hfits
    rw [hadd, Int.bmod_eq_of_le (by omega) (by omega)]
    omega

theorem Inv.notifyReceivedData {d : Download} (h : d.Inv) {length : UInt32}
    (hfits : d.currentLength.toInt + length.toNat < 2 ^ 63) : (d.notifyReceivedData length).Inv := by
  have hsum := (h.length_iff length).mpr hfits
  exact ⟨⟨h.told.once, ⟨hsum, h.told.sums⟩, h.told.percent⟩, h.ended, hsum⟩

theorem Inv.answer {d : Download} (h : d.Inv) (hadmits : d.Admits .getProgressInPercent) :
    Inv { d with answers := d.getProgressInPercent :: d.answers } := by
  refine ⟨⟨h.told.once, h.told.sums, fun answer hmem => ?_⟩, h.ended, h.length⟩
  rcases List.mem_cons.mp hmem with rfl | hmem
  · exact h.progress_iff.mpr hadmits
  · exact h.told.percent answer hmem

theorem Inv.start {d : Download} (h : d.Inv) {created : Bool} (hadmits : d.Admits (.start created)) :
    (d.start created).2.Inv := by
  unfold Download.start
  split
  · next hstarts =>
    refine ⟨⟨h.told.once, h.told.sums, h.told.percent⟩, ?_, h.length⟩
    have hended := h.ended
    rw [hadmits (Bool.or_eq_true_iff.mp hstarts)] at hended
    exact hended
  · exact h

theorem Inv.step {d : Download} (h : d.Inv) {op : Op} (hadmits : d.Admits op) : (d.step op).Inv := by
  cases op with
  | setResponse response => exact h.same (d.setResponse_same response)
  | start created => exact h.start hadmits
  | cancel => exact h.ends d.cancel_ends hadmits
  | getProgressInPercent => exact h.answer hadmits
  | didReceiveResponse response => exact h.same (d.setResponseInfo_same response)
  | didReceiveData length => exact h.notifyReceivedData hadmits
  | didFinishLoading => exact h.ends d.notifyFinishedLoading_ends hadmits
  | didFail => exact h.ends d.notifyErrorInLoading_ends hadmits

theorem Inv.inOrder {d : Download} (h : d.Inv) (op : Op) : d.InOrder op ↔ d.Admits op := by
  constructor
  · rintro ⟨htold, hstays⟩
    cases op with
    | setResponse | didReceiveResponse => trivial
    | cancel => exact (h.ends_iff d.cancel_ends).mp ⟨htold, hstays⟩
    | didFinishLoading => exact (h.ends_iff d.notifyFinishedLoading_ends).mp ⟨htold, hstays⟩
    | didFail => exact (h.ends_iff d.notifyErrorInLoading_ends).mp ⟨htold, hstays⟩
    | didReceiveData length => exact (h.length_iff length).mp htold.sums.1
    | getProgressInPercent => exact h.progress_iff.mp (htold.percent _ List.mem_cons_self)
    | start created =>
      intro hstarts
      have hstatus : (d.start created).2.status = .EStarted := by
        unfold Download.start
        rw [if_pos (Bool.or_eq_true_iff.mpr hstarts)]
      by_contra hterminal
      rw [Bool.not_eq_false] at hterminal
      have hback := hstatus.symm.trans (hstays hterminal)
      rw [← hback] at hterminal
      cases hterminal
  · intro hadmits
    refine ⟨(h.step hadmits).told, fun hterminal => ?_⟩
    cases op with
    | setResponse response => exact (d.setResponse_same response).status
    | didReceiveResponse response => exact (d.setResponseInfo_same response).status
    | cancel | didFinishLoading | didFail => exact absurd (hadmits.symm.trans hterminal) Bool.false_ne_true
    | didReceiveData | getProgressInPercent => rfl
    | start created =>
      show (d.start created).2.status = d.status
      unfold Download.start
      split
      · next hstarts =>
        exact absurd ((hadmits (Bool.or_eq_true_iff.mp hstarts)).symm.trans hterminal) Bool.false_ne_true
      · rfl

/-! ## runs -/

/-- **The life of a download.**  In a run, every step tells the application the right things and leaves no terminal
status, exactly if every step is admitted in its state. -/
theorem download_runs (suggestedFilename : WString) (ops : List Op) :
    Runs.Along step InOrder { suggestedFilename := suggestedFilename } ops ↔
      Runs.Along step Admits { suggestedFilename := suggestedFilename } ops :=
  Runs.along_iff_kept (fun _ _ hadmits h => h.step hadmits) (fun _ op h => h.inOrder op)
    (inv_first suggestedFilename) ops

/-- the progress is asked for before the first byte of a body of unknown length -/
theorem download_trapped : ¬Runs.Along step InOrder { suggestedFilename := [] }
    [.setResponse (some { expectedContentLength := -1 }), .start false, .getProgressInPercent] := by
  rintro ⟨_, _, ⟨htold, _⟩, _⟩
  obtain ⟨n, hn, _⟩ := htold.percent none List.mem_cons_self
  cases hn

end Download
end Wkc
