import Mathlib.Data.List.Nodup
import WkcBrowser.Lib.Runs
import WkcBrowser.Wtf.Url

/-!
# The scheduler of `ResourceHandleManager`

Jobs wait in `m_scheduledJobList`, are handed to `startJob` by the download timer, and come back to the
list when they are redirected.  With the harmful site filter on, the application is asked about every
URL: it answers at once, or later through `permitRequest`.

* `canPermitRequest`, `permitRequest`           the question and the late answer;
* `shiftScheduledJob`, `turn`, `startJob`       one turn of the loop in `startScheduledJobs`;
* `didReceiveRedirect`, `removeFromCurl`        the way back;
* `Op`, `step`                                  the steps, in any order;
* `Entry`, `Sound`                              what is known of a job that waits.

The loop of `startScheduledJobs` is taken turn by turn, so that what a client does in a callback between
two turns is a step like any other.
-/

namespace Wkc

inductive PermitType where
  | CANCEL
  | SUSPEND
  | ASKING
  | PERMIT
  deriving DecidableEq

inductive ContentComposition where
  | error
  | inclusion
  | subFrameRoot
  | rootFrameRoot
  | other
  deriving DecidableEq

/-- `ResourceHandle` and its `ResourceHandleInternal` -/
structure Job where
  url : KURL
  permitSend : PermitType := .SUSPEND
  cancelled : Bool := false
  fileLoading : Bool := false
  dataLoading : Bool := false
  matchProxyFilter : Bool := false
  composition : ContentComposition := .inclusion
  redirectCount : Nat := 0
  doRedirectChallenge : Bool := false
  sslReconnect : Bool := false
  handle : Bool := false
  -- not a field of the source: the application has permitted this URL for this job
  permitted : Bool := false

def redirectMaxCount : Nat := 20

/-- what the frame loader says of a job, and what its client answers -/
structure Asked where
  composition : ContentComposition
  client : Bool
  answer : Int

namespace Job

/-- the filter does not apply -/
def exempt (d : Job) : Bool := d.url.isLocalFile || d.url.protocolIsData

def canPermitRequest (harmfulSiteFilter : Bool) (q : Asked) (d : Job) : Job :=
  if d.cancelled then d
  else if harmfulSiteFilter = false then { d with permitSend := .PERMIT }
  else if d.permitSend = .SUSPEND then
    if d.composition ≠ .error ∧ q.client = true then
      if q.answer = 1 then { d with permitSend := .PERMIT, permitted := true }
      else if q.answer = -1 then { d with permitSend := .CANCEL, cancelled := true }
      else { d with permitSend := .ASKING }
    else { d with permitSend := .CANCEL, cancelled := true }
  else d

/-- the answer of `permitRequest` -/
def permit (permit : Bool) (d : Job) : Job :=
  if d.cancelled then d
  else if d.permitSend ≠ .ASKING then d
  else if permit then { d with permitSend := .PERMIT, permitted := true }
  else { d with permitSend := .CANCEL, cancelled := true }

/-- a new URL, which nobody has permitted -/
def redirected (newURL : KURL) (d : Job) : Job := { d with url := newURL, permitted := false }

/-- a job as `appendScheduledJob` leaves it -/
def appended (harmfulSiteFilter : Bool) (q : Asked) (d : Job) : Job :=
  ({ d with
      permitSend := if d.exempt then .PERMIT else d.permitSend
      composition := q.composition } : Job).canPermitRequest harmfulSiteFilter q

end Job

/-- what libcurl answers while a job is started -/
structure Started where
  init : Bool := true
  pause : Bool := true
  add : Bool := true

structure Scheduler where
  harmfulSiteFilter : Bool
  redirectInWKC : Bool
  httpConnections : Nat
  tryProxySingleConnect : Bool
  jobs : Nat → Job
  next : Nat
  scheduledJobList : List Nat
  runningJobList : List Nat

namespace Scheduler

def setJob (s : Scheduler) (j : Nat) (d : Job) : Scheduler :=
  { s with jobs := Function.update s.jobs j d }

def appendScheduledJob (s : Scheduler) (j : Nat) (q : Asked) : Scheduler :=
  { s.setJob j ((s.jobs j).appended s.harmfulSiteFilter q) with
    scheduledJobList := s.scheduledJobList ++ [j] }

/-- a new job; one that the HTTP cache serves is not scheduled -/
def add (s : Scheduler) (url : KURL) (matchProxyFilter cached : Bool) (q : Asked) : Scheduler :=
  let j := s.next
  let s := { s.setJob j { url := url, matchProxyFilter := matchProxyFilter } with next := s.next + 1 }
  if cached then s else s.appendScheduledJob j q

/-- every occurrence of the job is looked at, with the same result -/
def permitRequest (s : Scheduler) (j : Nat) (permit : Bool) : Scheduler :=
  if j ∈ s.scheduledJobList then s.setJob j ((s.jobs j).permit permit) else s

def cancel (s : Scheduler) (j : Nat) : Scheduler :=
  if j ∈ s.scheduledJobList then { s with scheduledJobList := s.scheduledJobList.erase j }
  else s.setJob j { s.jobs j with cancelled := true }

/-- the place of the job that is taken; `i` is the place of the first job of the list.  The two
`break`s of the switch fall through to what follows it. -/
def shiftFrom (s : Scheduler) : List Nat → Nat → Option Nat
  | [], _ => none
  | j :: rest, i =>
    let d := s.jobs j
    if d.cancelled then some i
    else if d.permitSend = .PERMIT ∨ d.permitSend = .CANCEL then some i
    else if d.fileLoading || d.dataLoading || d.matchProxyFilter then some i
    else if s.tryProxySingleConnect = true ∧ 0 < s.runningJobList.length then shiftFrom s rest (i + 1)
    else some i

def shiftScheduledJob (s : Scheduler) : Option (Nat × Scheduler) :=
  match s.shiftFrom s.scheduledJobList 0 with
  | none => none
  | some i =>
    match s.scheduledJobList[i]? with
    | none => none
    | some j => some (j, { s with scheduledJobList := s.scheduledJobList.eraseIdx i })

def initializeHandle (d : Job) (r : Started) : Job :=
  if d.redirectCount = 0 ∧ r.init = false then { d with handle := false }
  else
    { d with
      handle := (d.redirectCount == 0 || d.handle) && r.pause
      cancelled := false
      fileLoading := d.fileLoading || d.url.isLocalFile
      dataLoading := d.dataLoading || d.url.protocolIsData }

def startJob (s : Scheduler) (j : Nat) (r : Started) : Scheduler :=
  if (s.jobs j).url.protocolIsData then s.cancel j
  else
    let s := s.setJob j (initializeHandle (s.jobs j) r)
    if (s.jobs j).handle = false then s
    else if r.add = false then
      let s := s.cancel j
      s.setJob j { s.jobs j with handle := false }
    else { s with runningJobList := s.runningJobList ++ [j] }

/-- the condition of the loop in `startScheduledJobs` -/
def admits (s : Scheduler) : Bool :=
  (s.httpConnections == 0 || decide (s.runningJobList.length < s.httpConnections * 2))
    && !(s.tryProxySingleConnect && decide (0 < s.runningJobList.length))

/-- one turn of the loop; `none` if it ends here -/
def turn (s : Scheduler) (r : Started) : Option Scheduler :=
  if s.admits = false then none
  else
    match s.shiftScheduledJob with
    | none => none
    | some (j, s) =>
      if (s.jobs j).cancelled then some (s.setJob j { s.jobs j with handle := false })
      else some (s.startJob j r)

def startLoop (r : Nat → Started) : Nat → Scheduler → Scheduler
  | 0, s => s
  | n + 1, s =>
    match s.turn (r n) with
    | none => s
    | some s => startLoop r n s

def startScheduledJobs (s : Scheduler) (r : Nat → Started) : Scheduler :=
  startLoop r s.scheduledJobList.length s

/-- the job that a turn hands to `startJob`, as it is at that moment -/
def handedOver (s : Scheduler) : Option Job :=
  if s.admits = false then none
  else
    match s.shiftScheduledJob with
    | none => none
    | some (j, _) => if (s.jobs j).cancelled then none else some (s.jobs j)

/-- the running jobs that were cancelled -/
def cancelScheduledJobs (s : Scheduler) : Scheduler :=
  { s with
    jobs := fun j => if j ∈ s.runningJobList ∧ (s.jobs j).cancelled = true then
      { s.jobs j with handle := false } else s.jobs j
    runningJobList := s.runningJobList.filter (fun j => !(s.jobs j).cancelled) }

/-- the job has a transfer in libcurl -/
def transfers (s : Scheduler) (j : Nat) : Prop :=
  j ∈ s.runningJobList ∨ (s.jobs j).doRedirectChallenge = true

instance (s : Scheduler) (j : Nat) : Decidable (s.transfers j) := inferInstanceAs (Decidable (_ ∨ _))

def didReceiveRedirect (s : Scheduler) (j : Nat) (newURL : KURL) : Scheduler :=
  if j ∉ s.runningJobList then s
  else if s.redirectInWKC = false then s.setJob j ((s.jobs j).redirected newURL)
  else if redirectMaxCount < (s.jobs j).redirectCount + 1 then
    s.setJob j { (s.jobs j).redirected newURL with redirectCount := (s.jobs j).redirectCount + 1 }
  else
    { s.setJob j { (s.jobs j).redirected newURL with
        redirectCount := (s.jobs j).redirectCount + 1
        doRedirectChallenge := true } with
      runningJobList := s.runningJobList.erase j }

def doRedirect (s : Scheduler) (j : Nat) (q : Asked) : Scheduler :=
  (s.setJob j { s.jobs j with permitSend := .SUSPEND, doRedirectChallenge := false }).appendScheduledJob
    j q

/-- the end of a transfer; `auth`: it is made again with a password -/
def removeFromCurl (s : Scheduler) (j : Nat) (auth : Bool) (q : Asked) : Scheduler :=
  if ¬ s.transfers j ∨ (s.jobs j).handle = false then s
  else if (s.jobs j).cancelled = false ∧ auth = true then s
  else if (s.jobs j).cancelled = false ∧ (s.jobs j).sslReconnect = true then
    s.setJob j { s.jobs j with permitSend := .PERMIT, sslReconnect := false }
  else if (s.jobs j).cancelled = false ∧ s.redirectInWKC = true ∧
      (s.jobs j).doRedirectChallenge = true then s.doRedirect j q
  else
    { s.setJob j { s.jobs j with handle := false } with
      runningJobList := s.runningJobList.erase j }

inductive Op where
  | add (url : KURL) (matchProxyFilter cached : Bool) (q : Asked)
  | permitRequest (j : Nat) (permit : Bool)
  | cancel (j : Nat)
  | turn (r : Started)
  | didReceiveRedirect (j : Nat) (newURL : KURL)
  | sslReconnect (j : Nat)
  | removeFromCurl (j : Nat) (auth : Bool) (q : Asked)
  | cancelScheduledJobs
  | setTryProxySingleConnect (b : Bool)

def step (s : Scheduler) : Op → Scheduler
  | .add url matchProxyFilter cached q => s.add url matchProxyFilter cached q
  | .permitRequest j permit => s.permitRequest j permit
  | .cancel j => s.cancel j
  | .turn r => (s.turn r).getD s
  | .didReceiveRedirect j newURL => s.didReceiveRedirect j newURL
  | .sslReconnect j =>
    if s.transfers j then s.setJob j { s.jobs j with sslReconnect := true } else s
  | .removeFromCurl j auth q => s.removeFromCurl j auth q
  | .cancelScheduledJobs => s.cancelScheduledJobs
  | .setTryProxySingleConnect b => { s with tryProxySingleConnect := b }

/-! ## what is known of a job that waits -/

/-- Permission was given for this URL; a prohibited job is cancelled; an exempt job is not asked about. -/
structure Entry (d : Job) : Prop where
  permit : d.permitSend = .PERMIT → d.exempt = true ∨ d.permitted = true
  cancel : d.permitSend = .CANCEL → d.cancelled = true
  exempt : d.exempt = true → d.permitSend = .PERMIT
  challenge : d.doRedirectChallenge = false

structure Sound (s : Scheduler) : Prop where
  filter : s.harmfulSiteFilter = true
  scheduled_nodup : s.scheduledJobList.Nodup
  running_nodup : s.runningJobList.Nodup
  fresh : ∀ j, j ∈ s.scheduledJobList ∨ j ∈ s.runningJobList → j < s.next
  apart : ∀ j ∈ s.scheduledJobList, j ∉ s.runningJobList
  challenge : ∀ j ∈ s.runningJobList, (s.jobs j).doRedirectChallenge = false
  known : ∀ j, (s.jobs j).doRedirectChallenge = true → j < s.next
  entry : ∀ j ∈ s.scheduledJobList, Entry (s.jobs j)

section
variable {s : Scheduler}

@[simp] theorem setJob_self (s : Scheduler) (j : Nat) (d : Job) : (s.setJob j d).jobs j = d :=
  Function.update_self ..

theorem setJob_ne (s : Scheduler) {i j : Nat} (h : i ≠ j) (d : Job) : (s.setJob j d).jobs i = s.jobs i :=
  Function.update_of_ne h ..

theorem Sound.setJob (h : s.Sound) {j : Nat} {d : Job} (he : j ∈ s.scheduledJobList → Entry d)
    (hc : j ∈ s.runningJobList → d.doRedirectChallenge = false)
    (hk : d.doRedirectChallenge = true → j < s.next) : (s.setJob j d).Sound := by
  refine ⟨h.filter, h.scheduled_nodup, h.running_nodup, h.fresh, h.apart, ?_, ?_, ?_⟩
  · intro i hi
    by_cases hij : i = j
    · subst hij
      rw [setJob_self]
      exact hc hi
    · rw [setJob_ne s hij]
      exact h.challenge i hi
  · intro i hi
    by_cases hij : i = j
    · subst hij
      rw [setJob_self] at hi
      exact hk hi
    · rw [setJob_ne s hij] at hi
      exact h.known i hi
  · intro i hi
    by_cases hij : i = j
    · subst hij
      rw [setJob_self]
      exact he hi
    · rw [setJob_ne s hij]
      exact h.entry i hi

theorem Sound.shrink (h : s.Sound) {l r : List Nat} (hl : l.Sublist s.scheduledJobList)
    (hr : r.Sublist s.runningJobList) :
    Sound { s with scheduledJobList := l, runningJobList := r } where
  filter := h.filter
  scheduled_nodup := h.scheduled_nodup.sublist hl
  running_nodup := h.running_nodup.sublist hr
  fresh j hj := h.fresh j (hj.imp (fun hj => hl.subset hj) (fun hj => hr.subset hj))
  apart j hj hj' := h.apart j (hl.subset hj) (hr.subset hj')
  challenge j hj := h.challenge j (hr.subset hj)
  known := h.known
  entry j hj := h.entry j (hl.subset hj)

theorem nodup_snoc {l : List Nat} (h : l.Nodup) {j : Nat} (hj : j ∉ l) : (l ++ [j]).Nodup := by
  rw [← List.concat_eq_append]
  exact h.concat hj

theorem Sound.schedule (h : s.Sound) {j : Nat} (hlt : j < s.next) (hs : j ∉ s.scheduledJobList)
    (hr : j ∉ s.runningJobList) (he : Entry (s.jobs j)) :
    Sound { s with scheduledJobList := s.scheduledJobList ++ [j] } := by
  refine ⟨h.filter, nodup_snoc h.scheduled_nodup hs, h.running_nodup, ?_, ?_, h.challenge, h.known, ?_⟩
  · intro i hi
    rcases hi with hi | hi
    · rcases List.mem_append.mp hi with hi | hi
      · exact h.fresh i (.inl hi)
      · rw [List.mem_singleton.mp hi]
        exact hlt
    · exact h.fresh i (.inr hi)
  · intro i hi
    rcases List.mem_append.mp hi with hi | hi
    · exact h.apart i hi
    · rw [List.mem_singleton.mp hi]
      exact hr
  · intro i hi
    rcases List.mem_append.mp hi with hi | hi
    · exact h.entry i hi
    · rw [List.mem_singleton.mp hi]
      exact he

theorem Sound.start (h : s.Sound) {j : Nat} (hlt : j < s.next) (hs : j ∉ s.scheduledJobList)
    (hr : j ∉ s.runningJobList) (hc : (s.jobs j).doRedirectChallenge = false) :
    Sound { s with runningJobList := s.runningJobList ++ [j] } := by
  refine ⟨h.filter, h.scheduled_nodup, nodup_snoc h.running_nodup hr, ?_, ?_, ?_, h.known, h.entry⟩
  · intro i hi
    rcases hi with hi | hi
    · exact h.fresh i (.inl hi)
    · rcases List.mem_append.mp hi with hi | hi
      · exact h.fresh i (.inr hi)
      · rw [List.mem_singleton.mp hi]
        exact hlt
  · intro i hi hi'
    rcases List.mem_append.mp hi' with hi' | hi'
    · exact h.apart i hi hi'
    · rw [List.mem_singleton.mp hi'] at hi
      exact hs hi
  · intro i hi
    rcases List.mem_append.mp hi with hi | hi
    · exact h.challenge i hi
    · rw [List.mem_singleton.mp hi]
      exact hc

/-! ## the question and its answers -/

theorem Entry.asked {d : Job} (q : Asked) (hs : d.permitSend = .SUSPEND) (hx : d.exempt = false)
    (hc : d.doRedirectChallenge = false) : Entry (d.canPermitRequest true q) := by
  have hnot : ∀ {P : Prop}, d.exempt = true → P := by
    intro P hp
    rw [hx] at hp
    cases hp
  unfold Job.canPermitRequest
  by_cases hcancel : d.cancelled = true
  · rw [if_pos hcancel]
    refine ⟨?_, ?_, hnot, hc⟩
    all_goals
      intro hp
      rw [hs] at hp
      cases hp
  · have hon : ¬ (true = false) := Bool.noConfusion
    rw [if_neg hcancel, if_neg hon, if_pos hs]
    split
    · split
      · exact ⟨fun _ => .inr rfl, PermitType.noConfusion, hnot, hc⟩
      · split
        · exact ⟨PermitType.noConfusion, fun _ => rfl, hnot, hc⟩
        · exact ⟨PermitType.noConfusion, PermitType.noConfusion, hnot, hc⟩
    · exact ⟨PermitType.noConfusion, fun _ => rfl, hnot, hc⟩

theorem Entry.appended {d : Job} (q : Asked) (hs : d.permitSend = .SUSPEND)
    (hc : d.doRedirectChallenge = false) : Entry (d.appended true q) := by
  cases hx : d.exempt with
  | true =>
    have heq : d.appended true q = { d with permitSend := .PERMIT, composition := q.composition } := by
      simp [Job.appended, Job.canPermitRequest, hx]
    rw [heq]
    exact ⟨fun _ => .inl hx, PermitType.noConfusion, fun _ => rfl, hc⟩
  | false =>
    have heq : d.appended true q
        = ({ d with composition := q.composition } : Job).canPermitRequest true q := by
      simp [Job.appended, hx]
    rw [heq]
    exact Entry.asked (d := { d with composition := q.composition }) q hs hx hc

theorem Entry.withHandle {d : Job} (h : Entry d) (b : Bool) : Entry { d with handle := b } :=
  ⟨h.permit, h.cancel, h.exempt, h.challenge⟩

theorem Entry.answered {d : Job} (h : Entry d) (permit : Bool) : Entry (d.permit permit) := by
  unfold Job.permit
  split
  · exact h
  · split
    · exact h
    · next hasking =>
      have hasking : d.permitSend = .ASKING := by simpa using hasking
      have hnot : ∀ {P : Prop}, d.exempt = true → P := by
        intro P hp
        have hpermit := h.exempt hp
        rw [hasking] at hpermit
        cases hpermit
      split
      · exact ⟨fun _ => .inr rfl, PermitType.noConfusion, hnot, h.challenge⟩
      · exact ⟨PermitType.noConfusion, fun _ => rfl, hnot, h.challenge⟩

/-! ## the steps -/

theorem Sound.append (h : s.Sound) {j : Nat} (hlt : j < s.next) (hs : j ∉ s.scheduledJobList)
    (hr : j ∉ s.runningJobList) (hsuspend : (s.jobs j).permitSend = .SUSPEND)
    (hc : (s.jobs j).doRedirectChallenge = false) (q : Asked) : (s.appendScheduledJob j q).Sound := by
  have hentry : Entry ((s.jobs j).appended s.harmfulSiteFilter q) := by
    rw [h.filter]
    exact Entry.appended q hsuspend hc
  have hset : (s.setJob j ((s.jobs j).appended s.harmfulSiteFilter q)).Sound := by
    refine h.setJob (fun _ => hentry) (fun _ => hentry.challenge) ?_
    intro _
    exact hlt
  refine hset.schedule hlt hs hr ?_
  rw [setJob_self]
  exact hentry

theorem Sound.add (h : s.Sound) (url : KURL) (matchProxyFilter cached : Bool) (q : Asked) :
    (s.add url matchProxyFilter cached q).Sound := by
  have hs : s.next ∉ s.scheduledJobList := fun hmem => Nat.lt_irrefl _ (h.fresh _ (.inl hmem))
  have hr : s.next ∉ s.runningJobList := fun hmem => Nat.lt_irrefl _ (h.fresh _ (.inr hmem))
  have hset : (s.setJob s.next { url := url, matchProxyFilter := matchProxyFilter }).Sound :=
    h.setJob (fun hmem => absurd hmem hs) (fun _ => rfl) Bool.noConfusion
  have hnext : Sound { s.setJob s.next { url := url, matchProxyFilter := matchProxyFilter } with
      next := s.next + 1 } := by
    refine ⟨hset.filter, hset.scheduled_nodup, hset.running_nodup, ?_, hset.apart, hset.challenge, ?_,
      hset.entry⟩
    · intro j hj
      exact Nat.lt_succ_of_lt (hset.fresh j hj)
    · intro j hj
      exact Nat.lt_succ_of_lt (hset.known j hj)
  unfold Scheduler.add
  dsimp only
  split
  · exact hnext
  · refine hnext.append (Nat.lt_succ_self _) hs hr ?_ ?_ q
    · exact congrArg Job.permitSend (setJob_self ..)
    · exact congrArg Job.doRedirectChallenge (setJob_self ..)

theorem Sound.permitRequest (h : s.Sound) (j : Nat) (permit : Bool) : (s.permitRequest j permit).Sound := by
  unfold Scheduler.permitRequest
  split
  · next hj =>
    have hentry := (h.entry j hj).answered permit
    refine h.setJob (fun _ => hentry) (fun _ => hentry.challenge) ?_
    intro _
    exact h.fresh j (.inl hj)
  · exact h

theorem Sound.cancel (h : s.Sound) (j : Nat) : (s.cancel j).Sound := by
  unfold Scheduler.cancel
  split
  · exact h.shrink List.erase_sublist (List.Sublist.refl _)
  · next hj => exact h.setJob (fun hmem => absurd hmem hj) (h.challenge j) (h.known j)

theorem initializeHandle_challenge (d : Job) (r : Started) :
    (initializeHandle d r).doRedirectChallenge = d.doRedirectChallenge := by
  unfold initializeHandle
  split <;> rfl

theorem Sound.startJob (h : s.Sound) {j : Nat} (hlt : j < s.next) (hs : j ∉ s.scheduledJobList)
    (hr : j ∉ s.runningJobList) (hc : (s.jobs j).doRedirectChallenge = false) (r : Started) :
    (s.startJob j r).Sound := by
  have hset : (s.setJob j (initializeHandle (s.jobs j) r)).Sound := by
    refine h.setJob (fun hmem => absurd hmem hs) (fun hmem => absurd hmem hr) ?_
    intro _
    exact hlt
  unfold Scheduler.startJob
  split
  · exact h.cancel j
  · dsimp only
    split
    · exact hset
    · split
      · have hcancel := hset.cancel j
        exact hcancel.setJob (fun hmem => (hcancel.entry j hmem).withHandle false)
          (hcancel.challenge j) (hcancel.known j)
      · refine hset.start hlt hs hr ?_
        rw [setJob_self, initializeHandle_challenge]
        exact hc

theorem shiftScheduledJob_head (hadm : s.admits = true) {j : Nat} {rest : List Nat}
    (hlist : s.scheduledJobList = j :: rest) :
    s.shiftScheduledJob = some (j, { s with scheduledJobList := rest }) := by
  have hsingle : ¬ (s.tryProxySingleConnect = true ∧ 0 < s.runningJobList.length) := by
    intro hboth
    simp [admits, hboth.1, hboth.2] at hadm
  have hfrom : s.shiftFrom s.scheduledJobList 0 = some 0 := by
    rw [hlist, shiftFrom]
    simp only [if_neg hsingle, ite_self]
  rw [shiftScheduledJob, hfrom, hlist]
  rfl

theorem shiftScheduledJob_nil (hlist : s.scheduledJobList = []) : s.shiftScheduledJob = none := by
  rw [shiftScheduledJob, hlist]
  rfl

theorem turn_eq (hadm : s.admits = true) {j : Nat} {rest : List Nat}
    (hlist : s.scheduledJobList = j :: rest) (r : Started) :
    s.turn r = some (if (s.jobs j).cancelled then
      ({ s with scheduledJobList := rest } : Scheduler).setJob j { s.jobs j with handle := false }
      else ({ s with scheduledJobList := rest } : Scheduler).startJob j r) := by
  rw [turn, if_neg (by rw [hadm]; exact Bool.noConfusion), shiftScheduledJob_head hadm hlist]
  dsimp only
  split <;> rfl

theorem turn_none (h : s.admits = false ∨ s.scheduledJobList = []) (r : Started) : s.turn r = none := by
  unfold turn
  split
  · rfl
  · next hadm =>
    rw [shiftScheduledJob_nil (h.resolve_left hadm)]

theorem Sound.turn (h : s.Sound) (r : Started) : ((s.turn r).getD s).Sound := by
  by_cases hidle : s.admits = false ∨ s.scheduledJobList = []
  · rw [turn_none hidle]
    exact h
  · obtain ⟨hadm, hne⟩ := not_or.mp hidle
    have hadm : s.admits = true := by simpa using hadm
    obtain ⟨j, rest, hlist⟩ := List.exists_cons_of_ne_nil hne
    have hmem : j ∈ s.scheduledJobList := by rw [hlist]; exact List.mem_cons_self
    have hnd := h.scheduled_nodup
    rw [hlist, List.nodup_cons] at hnd
    have hlt := h.fresh j (.inl hmem)
    have hc := (h.entry j hmem).challenge
    have hrest : Sound { s with scheduledJobList := rest } :=
      h.shrink (by rw [hlist]; exact List.sublist_cons_self j rest) (List.Sublist.refl _)
    rw [turn_eq hadm hlist, Option.getD_some]
    split
    · refine hrest.setJob (fun hj => absurd hj hnd.1) (fun hj => absurd hj (h.apart j hmem)) ?_
      intro _
      exact hlt
    · exact hrest.startJob hlt hnd.1 (h.apart j hmem) hc r

theorem Sound.didReceiveRedirect (h : s.Sound) (j : Nat) (newURL : KURL) :
    (s.didReceiveRedirect j newURL).Sound := by
  unfold Scheduler.didReceiveRedirect
  split
  · exact h
  · next hj =>
    have hj : j ∈ s.runningJobList := by simpa using hj
    have hs : j ∉ s.scheduledJobList := fun hmem => h.apart j hmem hj
    have hc := h.challenge j hj
    have hlt := h.fresh j (.inr hj)
    split
    · exact h.setJob (fun hmem => absurd hmem hs) (fun _ => hc) (fun _ => hlt)
    · split
      · exact h.setJob (fun hmem => absurd hmem hs) (fun _ => hc) (fun _ => hlt)
      · have hgone : Sound { s with runningJobList := s.runningJobList.erase j } :=
          h.shrink (List.Sublist.refl _) List.erase_sublist
        exact hgone.setJob (fun hmem => absurd hmem hs)
          (fun hmem => absurd hmem h.running_nodup.not_mem_erase) (fun _ => hlt)

theorem Sound.doRedirect (h : s.Sound) {j : Nat} (hc : (s.jobs j).doRedirectChallenge = true)
    (q : Asked) : (s.doRedirect j q).Sound := by
  have hs : j ∉ s.scheduledJobList := by
    intro hmem
    rw [(h.entry j hmem).challenge] at hc
    cases hc
  have hr : j ∉ s.runningJobList := by
    intro hmem
    rw [h.challenge j hmem] at hc
    cases hc
  have hset : (s.setJob j { s.jobs j with permitSend := .SUSPEND, doRedirectChallenge := false }).Sound :=
    h.setJob (fun hmem => absurd hmem hs) (fun _ => rfl) Bool.noConfusion
  refine hset.append (h.known j hc) hs hr ?_ ?_ q <;> rw [setJob_self]

theorem Sound.removeFromCurl (h : s.Sound) (j : Nat) (auth : Bool) (q : Asked) :
    (s.removeFromCurl j auth q).Sound := by
  unfold Scheduler.removeFromCurl
  split
  · exact h
  · next htransfers =>
    have htransfers : s.transfers j := not_not.mp (not_or.mp htransfers).1
    have hs : j ∉ s.scheduledJobList := by
      intro hmem
      rcases htransfers with hrun | hc
      · exact h.apart j hmem hrun
      · rw [(h.entry j hmem).challenge] at hc
        cases hc
    split
    · exact h
    · split
      · exact h.setJob (fun hmem => absurd hmem hs) (h.challenge j) (h.known j)
      · split
        · next hredirect => exact h.doRedirect hredirect.2.2 q
        · have hgone : Sound { s with runningJobList := s.runningJobList.erase j } :=
            h.shrink (List.Sublist.refl _) List.erase_sublist
          exact hgone.setJob (fun hmem => absurd hmem hs) (hgone.challenge j) (h.known j)

theorem Sound.cancelScheduledJobs (h : s.Sound) : s.cancelScheduledJobs.Sound := by
  have hjobs : ∀ j, s.cancelScheduledJobs.jobs j = s.jobs j ∨
      s.cancelScheduledJobs.jobs j = { s.jobs j with handle := false } := by
    intro j
    by_cases hj : j ∈ s.runningJobList ∧ (s.jobs j).cancelled = true
    · exact .inr (if_pos hj)
    · exact .inl (if_neg hj)
  have hchallenge : ∀ j, (s.cancelScheduledJobs.jobs j).doRedirectChallenge
      = (s.jobs j).doRedirectChallenge := by
    intro j
    rcases hjobs j with heq | heq <;> rw [heq]
  have hlists := h.shrink (List.Sublist.refl _)
    (List.filter_sublist (p := fun j => !(s.jobs j).cancelled) (l := s.runningJobList))
  refine ⟨h.filter, h.scheduled_nodup, hlists.running_nodup, hlists.fresh, hlists.apart, ?_, ?_, ?_⟩
  · intro j hj
    rw [hchallenge]
    exact hlists.challenge j hj
  · intro j hj
    rw [hchallenge] at hj
    exact h.known j hj
  · intro j hj
    rcases hjobs j with heq | heq
    · rw [heq]
      exact h.entry j hj
    · rw [heq]
      exact (h.entry j hj).withHandle false

theorem Sound.step (h : s.Sound) (op : Op) : (s.step op).Sound := by
  cases op with
  | add url matchProxyFilter cached q => exact h.add url matchProxyFilter cached q
  | permitRequest j permit => exact h.permitRequest j permit
  | cancel j => exact h.cancel j
  | turn r => exact h.turn r
  | didReceiveRedirect j newURL => exact h.didReceiveRedirect j newURL
  | sslReconnect j =>
    dsimp only [Scheduler.step]
    split
    · refine h.setJob ?_ (h.challenge j) (h.known j)
      intro hmem
      have he := h.entry j hmem
      exact ⟨he.permit, he.cancel, he.exempt, he.challenge⟩
    · exact h
  | removeFromCurl j auth q => exact h.removeFromCurl j auth q
  | cancelScheduledJobs => exact h.cancelScheduledJobs
  | setTryProxySingleConnect b =>
    exact ⟨h.filter, h.scheduled_nodup, h.running_nodup, h.fresh, h.apart, h.challenge, h.known, h.entry⟩

/-! ## the whole loop -/

theorem startJob_scheduled {j : Nat} (hs : j ∉ s.scheduledJobList) (r : Started) :
    (s.startJob j r).scheduledJobList = s.scheduledJobList := by
  have hcancel : ∀ t : Scheduler, j ∉ t.scheduledJobList →
      (t.cancel j).scheduledJobList = t.scheduledJobList := by
    intro t ht
    rw [Scheduler.cancel, if_neg ht]
    rfl
  unfold Scheduler.startJob
  split
  · exact hcancel s hs
  · dsimp only
    split
    · rfl
    · split
      · exact hcancel (s.setJob j (initializeHandle (s.jobs j) r)) hs
      · rfl

theorem turn_scheduled (h : s.scheduledJobList.Nodup) (hadm : s.admits = true) {j : Nat}
    {rest : List Nat} (hlist : s.scheduledJobList = j :: rest) (r : Started) :
    ((s.turn r).getD s).scheduledJobList = rest := by
  rw [hlist, List.nodup_cons] at h
  rw [turn_eq hadm hlist, Option.getD_some]
  split
  · rfl
  · exact startJob_scheduled (s := { s with scheduledJobList := rest }) h.1 r

theorem startLoop_run (r : Nat → Started) (n : Nat) (s : Scheduler) :
    ∃ starts : List Started, startLoop r n s = Runs.run Scheduler.step s (starts.map Op.turn) := by
  induction n generalizing s with
  | zero => exact ⟨[], rfl⟩
  | succ n ih =>
    rw [startLoop]
    cases hturn : s.turn (r n) with
    | none => exact ⟨[], rfl⟩
    | some t =>
      obtain ⟨starts, heq⟩ := ih t
      refine ⟨r n :: starts, ?_⟩
      rw [List.map_cons, Runs.run_cons]
      have hstep : Scheduler.step s (.turn (r n)) = t := by
        show (s.turn (r n)).getD s = t
        rw [hturn]
        rfl
      rw [hstep]
      exact heq

theorem startLoop_ends (h : s.Sound) (r : Nat → Started) : ∀ r', (s.startScheduledJobs r).turn r' = none := by
  have hloop : ∀ n (t : Scheduler), t.Sound → t.scheduledJobList.length = n →
      ∀ r', (startLoop r n t).turn r' = none := by
    intro n
    induction n with
    | zero =>
      intro t _ hlen r'
      exact turn_none (.inr (List.length_eq_zero_iff.mp hlen)) r'
    | succ n ih =>
      intro t ht hlen r'
      obtain ⟨j, rest, hlist⟩ := List.exists_cons_of_length_eq_add_one hlen
      rw [startLoop]
      cases hadm : t.admits with
      | false =>
        rw [turn_none (.inl hadm)]
        exact turn_none (.inl hadm) r'
      | true =>
        have hnext := ht.turn (r n)
        have hrest := turn_scheduled ht.scheduled_nodup hadm hlist (r n)
        rw [turn_eq hadm hlist, Option.getD_some] at hnext hrest
        rw [turn_eq hadm hlist]
        apply ih _ hnext
        rw [hrest]
        rw [hlist, List.length_cons] at hlen
        omega
  exact hloop _ s h rfl

end

end Scheduler

end Wkc
