import WkcBrowser.Net.Scheduler

/-!
# Transfers, references and last words

`Net/Scheduler` keeps the two lists.  Here the steps of `ResourceHandleManager` are taken with what they do
to libcurl's multi handle, to the reference that `add` takes, and to the client.

* `Transfer`                                whether a handle is attached, references, terminal callbacks;
* `startJob`, `turn`                        a job is handed to libcurl;
* `removeFromCurl`                          the end of a transfer, or its next attempt;
* `Message`, `report`                       what `_downloadTimerCallback` does with one message;
* `cancelScheduledJobs`, `resume`           jobs that are dropped together;
* `Op`, `step`                              the steps, in any order.

Every job has a client.  A job that is read from the HTTP cache only enters `m_readCacheJobList` here; how
that list is read is the matter of `Net/ReadQueue`.
-/

namespace Wkc

structure Transfer where
  -- the handle is in `m_curlMultiHandle`
  attached : Bool := false
  didAuthChallenge : Bool := false
  -- not fields of the source: calls of `ref` in `add`, of `deref`, and of `didFinishLoading` and `didFail`
  refs : Nat := 0
  derefs : Nat := 0
  terminals : Nat := 0

/-- a call of `removeAllScheduledJobs` between two turns of its loop: `num`, and whether there is a proxy if
`setProxyInfo` made the call -/
structure Removal where
  num : Nat
  host : Option Bool

structure Transfers extends Scheduler where
  transfer : Nat → Transfer
  readCacheJobList : List Nat
  -- the innermost first: a client that is told can set the proxy again
  removals : List Removal := []
  -- `m_scheduledJobList` was read behind its end
  astray : Bool := false

/-- the `CURLcode` of a message -/
inductive CurlResult where
  | ok
  | partialFile
  | operationTimedOut
  | failed
  deriving DecidableEq

/-- what libcurl, the client and the stores answer when a transfer is reported -/
structure Message where
  done : Bool := true
  result : CurlResult := .ok
  httpStatusCode : Nat := 200
  responseFired : Bool := true
  -- `m_didAuthChallenge` after the challenge, and what `setAuthChallenge` finds in the jar
  didAuthChallenge : Bool := false
  password : Bool := false
  -- `curl_multi_add_handle` takes the handle again
  added : Bool := true
  frame : Bool := true
  -- for 304: whether the cached resource is still there, if the request was made with it
  utilizedHTTPCache : Option Bool := none
  reconnect : Bool := false
  -- the client cancels the job when it hears of the challenge, of the response, or of the end
  cancelsChallenge : Bool := false
  cancelsResponse : Bool := false
  cancelsEnd : Bool := false
  asked : Asked := ⟨.inclusion, true, 1⟩

namespace Transfers

def lift (m : Transfers) (s : Scheduler) : Transfers := { m with toScheduler := s }

def setTransfer (m : Transfers) (j : Nat) (t : Transfer) : Transfers :=
  { m with transfer := Function.update m.transfer j t }

def deref (m : Transfers) (j : Nat) : Transfers :=
  m.setTransfer j { m.transfer j with derefs := (m.transfer j).derefs + 1 }

def tell (m : Transfers) (j : Nat) : Transfers :=
  m.setTransfer j { m.transfer j with terminals := (m.transfer j).terminals + 1 }

def attach (m : Transfers) (j : Nat) (added : Bool) : Transfers :=
  m.setTransfer j { m.transfer j with attached := added }

def add (m : Transfers) (url : KURL) (matchProxyFilter cached : Bool) (q : Asked) : Transfers :=
  let j := m.next
  let m := m.lift (m.toScheduler.add url matchProxyFilter cached q)
  if cached then { m.setTransfer j {} with readCacheJobList := m.readCacheJobList ++ [j] }
  else m.setTransfer j { refs := 1 }

def cancel (m : Transfers) (j : Nat) : Transfers :=
  if j ∈ m.scheduledJobList then (m.lift (m.toScheduler.cancel j)).deref j
  else if j ∈ m.readCacheJobList then { m with readCacheJobList := m.readCacheJobList.erase j }
  else m.lift (m.toScheduler.cancel j)

/-- the two loops, each from the end of its list -/
def cancelByFrame (m : Transfers) (frame : Nat → Bool) : Transfers :=
  (m.scheduledJobList.reverse.filter frame ++ m.runningJobList.reverse.filter frame).foldl cancel m

/-- without a comma the client only hears `cannotShowURL` -/
def handleDataURL (m : Transfers) (j : Nat) : Transfers :=
  if 0x2C ∈ (m.jobs j).url.string then m.tell j else m

/-- A data URL is told to the client at once.  Without a handle the job is left as it is. -/
def startJob (m : Transfers) (j : Nat) (r : Started) : Transfers :=
  if (m.jobs j).url.protocolIsData then ((m.handleDataURL j).cancel j).deref j
  else
    let m := m.lift (m.setJob j (Scheduler.initializeHandle (m.jobs j) r))
    if (m.jobs j).handle = false then m.tell j
    else if r.add = false then
      let m := (m.cancel j).tell j
      (m.lift (m.setJob j { m.jobs j with handle := false })).deref j
    else (m.lift { m.toScheduler with runningJobList := m.runningJobList ++ [j] }).attach j true

/-- one turn of the loop in `startScheduledJobs` -/
def turn (m : Transfers) (r : Started) : Transfers :=
  if m.admits = false then m
  else
    match m.shiftScheduledJob with
    | none => m
    | some (j, s) =>
      let m := m.lift s
      if (m.jobs j).cancelled then
        let m := if (m.jobs j).permitSend = .CANCEL then m.tell j else m
        (m.lift (m.setJob j { m.jobs j with handle := false })).deref j
      else m.startJob j r

/-- a redirect of a transfer, in the header callback -/
def didReceiveRedirect (m : Transfers) (j : Nat) (newURL : KURL) : Transfers :=
  if (m.transfer j).attached then m.lift (m.toScheduler.didReceiveRedirect j newURL) else m

/-- the end of a transfer -/
def remove (m : Transfers) (j : Nat) : Transfers :=
  (m.lift { m.setJob j { m.jobs j with handle := false } with
    runningJobList := m.runningJobList.erase j }).attach j false |>.deref j

def removeFromCurl (m : Transfers) (j : Nat) (c : Message) : Transfers :=
  if (m.jobs j).handle = false then m
  else if (m.jobs j).cancelled then m.remove j
  else
    let again := (m.transfer j).didAuthChallenge && c.password
    let m := m.setTransfer j { m.transfer j with didAuthChallenge := false }
    if again then m.attach j c.added
    else if (m.jobs j).sslReconnect then
      (m.lift (m.setJob j { m.jobs j with permitSend := .PERMIT, sslReconnect := false })).attach j c.added
    else if m.redirectInWKC && (m.jobs j).doRedirectChallenge then
      (m.attach j false).lift (m.toScheduler.doRedirect j c.asked)
    else m.remove j

/-! ## one message -/

/-- `cancels`: what the client does in a callback -/
def heard (m : Transfers) (j : Nat) (cancels : Bool) : Transfers := if cancels then m.cancel j else m

/-- a terminal callback -/
def ends (m : Transfers) (j : Nat) (c : Message) : Transfers := (m.tell j).heard j c.cancelsEnd

/-- what follows the switch -/
def leave (m : Transfers) (j : Nat) (c : Message) : Transfers :=
  if (m.jobs j).cancelled ∨ (m.jobs j).handle = false then m
  else if j ∉ m.runningJobList then m
  else m.removeFromCurl j c

/-- the default case -/
def fail (m : Transfers) (j : Nat) (c : Message) : Transfers :=
  if c.reconnect then (m.lift (m.setJob j { m.jobs j with sslReconnect := true })).leave j c
  else (m.ends j c).leave j c

/-- the response is there to its end -/
def finish (m : Transfers) (j : Nat) (c : Message) : Transfers :=
  let m := if c.responseFired then m else m.heard j c.cancelsResponse
  if c.responseFired = false ∧
      ((m.jobs j).cancelled ∨ (m.transfer j).didAuthChallenge ∨ (m.jobs j).doRedirectChallenge) then
    m.removeFromCurl j c
  else if c.httpStatusCode = 304 ∧ c.utilizedHTTPCache = some true then
    { m with readCacheJobList := m.readCacheJobList ++ [j] }.removeFromCurl j c
  else if c.httpStatusCode = 304 ∧ c.utilizedHTTPCache = some false then (m.ends j c).removeFromCurl j c
  else (m.ends j c).leave j c

/-- the switch over the result -/
def result (m : Transfers) (j : Nat) (c : Message) : Transfers :=
  if m.redirectInWKC ∧ redirectMaxCount < (m.jobs j).redirectCount then (m.ends j c).leave j c
  else
    match c.result with
    | .ok | .partialFile => m.finish j c
    | .operationTimedOut => if c.responseFired then (m.ends j c).leave j c else m.fail j c
    | .failed => m.fail j c

def challenge (m : Transfers) (j : Nat) (c : Message) : Transfers :=
  (m.setTransfer j { m.transfer j with didAuthChallenge := c.didAuthChallenge }).heard j c.cancelsChallenge

/-- one message of `curl_multi_info_read`, which only tells of attached handles -/
def report (m : Transfers) (j : Nat) (c : Message) : Transfers :=
  if (m.transfer j).attached = false then m
  else if (m.jobs j).cancelled ∨ (m.jobs j).doRedirectChallenge then m.removeFromCurl j c
  else if c.done = false then m
  else if c.httpStatusCode = 401 ∨ c.httpStatusCode = 407 then
    let m := m.challenge j c
    if (m.jobs j).cancelled ∨ (m.transfer j).didAuthChallenge then m.removeFromCurl j c
    else
      let m := m.heard j c.cancelsResponse
      if c.frame = false then m.removeFromCurl j c else m.result j c
  else m.result j c

/-! ## all at once -/

/-- the running jobs that were cancelled -/
def cancelScheduledJobs (m : Transfers) : Transfers :=
  (m.runningJobList.filter (fun j => (m.jobs j).cancelled)).foldl remove m

/-- `d` of `removeAllScheduledJobs` is told, unless it is cancelled already -/
def abort (m : Transfers) (j : Nat) : Transfers :=
  if (m.jobs j).cancelled then m else (m.lift (m.setJob j { m.jobs j with cancelled := true })).tell j

/-- One turn of the loop in `removeAllScheduledJobs`.  What the client does when it is told are the steps up to
the next turn; if it takes jobs off the list, the index is behind the end. -/
def dropScheduled (m : Transfers) (num : Nat) : Transfers :=
  match m.scheduledJobList[num]? with
  | none => { m with astray := true }
  | some j =>
    ((m.lift { m.toScheduler with scheduledJobList := m.scheduledJobList.eraseIdx num }).abort j).deref j

/-- one job of `removeAllRunningJobs` -/
def dropRunning (m : Transfers) (j : Nat) : Transfers :=
  let m := if (m.jobs j).handle = false then m
    else
      let m := m.abort j
      (m.attach j false).lift (m.setJob j { m.jobs j with handle := false })
  m.deref j

def removeAllRunningJobs (m : Transfers) : Transfers :=
  let l := m.runningJobList
  l.foldl dropRunning (m.lift { m.toScheduler with runningJobList := [] })

/-- the end of `setProxyInfo`: a new multi handle, with nothing attached to it; `host`: there is a proxy -/
def renew (m : Transfers) (host : Bool) : Transfers :=
  let m := m.removeAllRunningJobs
  { m.lift { m.toScheduler with tryProxySingleConnect := host } with
    transfer := fun j => { m.transfer j with attached := false } }

/-- the loop of `removeAllScheduledJobs` begins, in `setProxyInfo` or not -/
def removeAllScheduledJobs (m : Transfers) (host : Option Bool) : Transfers :=
  { m with removals := ⟨m.scheduledJobList.length, host⟩ :: m.removals }

/-- the next turn of the innermost loop, or what follows it -/
def resume (m : Transfers) : Transfers :=
  match m.removals with
  | [] => m
  | ⟨0, none⟩ :: rest => { m with removals := rest }
  | ⟨0, some host⟩ :: rest => { m with removals := rest }.renew host
  | ⟨num + 1, host⟩ :: rest => { m with removals := ⟨num, host⟩ :: rest }.dropScheduled num

inductive Op where
  | add (url : KURL) (matchProxyFilter cached : Bool) (q : Asked)
  | permitRequest (j : Nat) (permit : Bool)
  | cancel (j : Nat)
  | cancelByFrame (frame : Nat → Bool)
  | turn (r : Started)
  | didReceiveRedirect (j : Nat) (newURL : KURL)
  | report (j : Nat) (c : Message)
  | cancelScheduledJobs
  | removeAllScheduledJobs
  | removeAllRunningJobs
  | setProxyInfo (host : Bool)
  | resume
  | proxyAuthenticated

def step (m : Transfers) : Op → Transfers
  | .add url matchProxyFilter cached q => m.add url matchProxyFilter cached q
  | .permitRequest j permit => m.lift (m.toScheduler.permitRequest j permit)
  | .cancel j => m.cancel j
  | .cancelByFrame frame => m.cancelByFrame frame
  | .turn r => m.turn r
  | .didReceiveRedirect j newURL => m.didReceiveRedirect j newURL
  | .report j c => m.report j c
  | .cancelScheduledJobs => m.cancelScheduledJobs
  | .removeAllScheduledJobs => m.removeAllScheduledJobs none
  | .removeAllRunningJobs => m.removeAllRunningJobs
  | .setProxyInfo host => m.removeAllScheduledJobs (some host)
  | .resume => m.resume
  | .proxyAuthenticated => m.lift { m.toScheduler with tryProxySingleConnect := false }

end Transfers
end Wkc
