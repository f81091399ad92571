import Mathlib.Data.List.Nodup
import WkcBrowser.Cache.Manager

/-!
# `m_readCacheJobList`: the jobs the HTTP cache serves

The read timer takes the first job of the list, looks its resource up and talks to the client: may the
data come, here is the response, here is the data, that was all.  Every call runs client code, which
can cancel jobs, start others, let go of the job or have the cache cleared before it returns.

* `cancel`, `clearHTTPCache`, `finish`, `giveUp`   the ways off the list;
* `fire`                                           the timer, up to the first call;
* `resume`                                         from the return of one call to the next;
* `Op`, `step`                                     the steps, in any order;
* `Sound`                                          what holds in every state.

A job comes here once, from `add` or on a 304 answer, and is not on `m_scheduledJobList` then.  The
timer does not fire while a call is under way.  A job stays allocated while it is served: its loader
holds a reference of its own.
-/

set_option linter.unusedSectionVars false

namespace Wkc

section
variable [FilePeers]

/-- what a cached load needs of `ResourceHandle` and its `ResourceHandleInternal` -/
structure ReadJob where
  url : KURL
  client : Bool := true
  frameLoaderClient : Bool := true
  frame : Nat := 0
  handle : Bool := false
  cancelled : Bool := false
  -- not fields of the source: terminal callbacks received, references of the list released,
  -- a cancellation asked for, a firing of the timer that took the job
  terminals : Nat := 0
  released : Nat := 0
  asked : Bool := false
  served : Bool := false

/-- `frameloaderclientwkc` is not null -/
def ReadJob.frameloaderclientwkc (d : ReadJob) : Bool := d.frameLoaderClient && !d.cancelled

/-- the call that `readCacheTimerCallback` is in -/
inductive Call where
  | dispatchWillReceiveData
  | willReceiveData
  | didReceiveResponse
  | dispatchWillReceiveContent
  | willReceiveContent
  | didReceiveData
  | didFinishLoading
  | didFail
  | didFailAtExit
  deriving DecidableEq

def Call.terminal : Call → Bool
  | .didFinishLoading | .didFail | .didFailAtExit => true
  | _ => false

/-- the local variables of `readCacheTimerCallback` -/
structure Serving where
  job : Nat
  resource : Ptr
  frame : Nat
  call : Call

/-- what a call returns, and what the platform answers after it -/
structure Reply where
  answer : Bool := true
  alloc : Bool := true
  io : FileIo

structure ReadQueue where
  manager : Manager
  jobs : Nat → ReadJob
  next : Nat
  readCacheJobList : List Nat
  readCacheTimer : Bool
  serving : Option Serving
  -- not fields of the source: a null client or a deleted resource was used; for each removal by the
  -- timer, the job it served and the job it removed
  fault : Bool
  removed : List (Nat × Nat)

namespace ReadQueue

def setJob (q : ReadQueue) (j : Nat) (d : ReadJob) : ReadQueue :=
  { q with jobs := Function.update q.jobs j d }

/-- `ref` and `append` of a job that was never here -/
def scheduleLoadResourceFromHTTPCache (q : ReadQueue) (url : KURL) (client frameLoaderClient : Bool)
    (frame : Nat) (handle : Bool) : ReadQueue :=
  { q.setJob q.next { url, client, frameLoaderClient, frame, handle } with
    next := q.next + 1
    readCacheJobList := q.readCacheJobList ++ [q.next]
    readCacheTimer := true }

/-- `deref` of the reference that the list holds -/
def deref (q : ReadQueue) (j : Nat) : ReadQueue :=
  q.setJob j { q.jobs j with released := (q.jobs j).released + 1 }

def cancel (q : ReadQueue) (j : Nat) : ReadQueue :=
  if j ∈ q.readCacheJobList then
    ({ q with readCacheJobList := q.readCacheJobList.erase j } : ReadQueue).deref j
  else q.setJob j { q.jobs j with cancelled := true }

/-- the first lines of `clearHTTPCache` and `resetHTTPCache` -/
def dropReaders (q : ReadQueue) : ReadQueue :=
  { q with
    jobs := fun j => if j ∈ q.readCacheJobList then
      { q.jobs j with released := (q.jobs j).released + 1 } else q.jobs j
    readCacheJobList := []
    readCacheTimer := false }

/-- the operation empties the list -/
def clears (q : ReadQueue) : Manager.Op → Bool
  | .clearHTTPCache _ _ => !q.manager.cache.disabled
  | .resetHTTPCache => true
  | _ => false

def cacheOp (q : ReadQueue) (op : Manager.Op) : ReadQueue :=
  let q' := if q.clears op then q.dropReaders else q
  { q' with manager := q.manager.step op }

/-! ## `readCacheTimerCallback` -/

/-- a member of the resource is read -/
def useResource (q : ReadQueue) (p : Ptr) : ReadQueue :=
  { q with fault := q.fault || (q.manager.cache.heap p).isNone }

/-- a member function of the client is called -/
def useClient (q : ReadQueue) (j : Nat) : ReadQueue :=
  { q with fault := q.fault || !(q.jobs j).client }

def enter (q : ReadQueue) (v : Serving) (call : Call) : ReadQueue :=
  { q with serving := some { v with call := call } }

/-- a terminal callback -/
def tell (q : ReadQueue) (v : Serving) (call : Call) : ReadQueue :=
  (q.setJob v.job { q.jobs v.job with terminals := (q.jobs v.job).terminals + 1 }).enter v call

/-- the last lines of both ways out -/
def rearm (q : ReadQueue) : ReadQueue :=
  { q with
    serving := none
    readCacheTimer := q.readCacheTimer || !q.readCacheJobList.isEmpty }

/-- the way out at the end: `remove(0)` takes what is first by now -/
def finish (q : ReadQueue) (j : Nat) : ReadQueue :=
  match q.readCacheJobList with
  | [] => q.rearm
  | k :: rest =>
    (({ q with readCacheJobList := rest, removed := q.removed ++ [(j, k)] } : ReadQueue).deref j).rearm

/-- the label `cancel` -/
def giveUp (q : ReadQueue) (v : Serving) : ReadQueue :=
  if (q.jobs v.job).cancelled then q.rearm
  else
    let q := if (q.jobs v.job).handle then q.cancel v.job else q
    if (q.jobs v.job).client then q.tell v .didFailAtExit else q.rearm

def fire (q : ReadQueue) : ReadQueue :=
  if q.serving.isSome || !q.readCacheTimer then q
  else
    let q := { q with readCacheTimer := false }
    match q.readCacheJobList with
    | [] => q
    | j :: _ =>
      let q := q.setJob j { q.jobs j with served := true }
      match q.manager.cache.resourceForURL (q.jobs j).url with
      | none => q.finish j
      | some p =>
        if (q.jobs j).frameloaderclientwkc then
          (q.useResource p).enter ⟨j, p, (q.jobs j).frame, .dispatchWillReceiveData⟩
            .dispatchWillReceiveData
        else q.finish j

/-- the body is read into the buffer and handed over -/
def readBody (q : ReadQueue) (v : Serving) (io : FileIo) : ReadQueue :=
  let (ok, _, cache) := q.manager.cache.read v.resource io
  let q := { q with manager := { q.manager with cache := cache } }
  if ok then (q.useClient v.job).enter v .didReceiveData else (q.useClient v.job).tell v .didFail

/-- the call of `v` has returned -/
def resumeFrom (q : ReadQueue) (v : Serving) (r : Reply) : ReadQueue :=
  match v.call with
  | .dispatchWillReceiveData =>
    if r.answer = false then q.giveUp v
    else if (q.jobs v.job).client then (q.useResource v.resource).enter v .willReceiveData
    else (q.useResource v.resource).giveUp v
  | .willReceiveData =>
    if r.answer = false then q.giveUp v
    else if (q.jobs v.job).client then (q.useResource v.resource).enter v .didReceiveResponse
    else (q.useResource v.resource).giveUp v
  | .didReceiveResponse =>
    if (q.jobs v.job).cancelled then q.giveUp v
    else if v.frame ≠ (q.jobs v.job).frame then q.giveUp v
    else if (q.jobs v.job).frameloaderclientwkc = false then q.giveUp v
    else (q.useResource v.resource).enter v .dispatchWillReceiveContent
  | .dispatchWillReceiveContent =>
    if r.answer = false then q.giveUp v
    else ((q.useClient v.job).useResource v.resource).enter v .willReceiveContent
  | .willReceiveContent =>
    if r.answer = false then q.giveUp v
    else if r.alloc = false then (q.useResource v.resource).finish v.job
    else (q.useResource v.resource).readBody v r.io
  | .didReceiveData => (q.useClient v.job).tell v .didFinishLoading
  | .didFinishLoading => q.finish v.job
  | .didFail => q.finish v.job
  | .didFailAtExit => q.rearm

def resume (q : ReadQueue) (r : Reply) : ReadQueue :=
  match q.serving with
  | none => q
  | some v => q.resumeFrom v r

/-! ## runs -/

inductive Op where
  | schedule (url : KURL) (client frameLoaderClient : Bool) (frame : Nat) (handle : Bool)
  | fire
  | resume (r : Reply)
  | cancel (j : Nat)
  | cache (op : Manager.Op)
  | change (j : Nat) (client frameLoaderClient : Bool) (frame : Nat) (handle : Bool)

def step (q : ReadQueue) : Op → ReadQueue
  | .schedule url client frameLoaderClient frame handle =>
    q.scheduleLoadResourceFromHTTPCache url client frameLoaderClient frame handle
  | .fire => q.fire
  | .resume r => q.resume r
  | .cancel j =>
    let q := q.cancel j
    q.setJob j { q.jobs j with asked := true }
  | .cache op => q.cacheOp op
  -- the loader lets go of the job, or its frame changes
  | .change j client frameLoaderClient frame handle =>
    q.setJob j { q.jobs j with client, frameLoaderClient, frame, handle }

/-! ## what holds in every state -/

/-- no job is listed twice, and no listed job is cancelled -/
structure Listed (q : ReadQueue) : Prop where
  nodup : q.readCacheJobList.Nodup
  known : ∀ j ∈ q.readCacheJobList, j < q.next
  asked : ∀ j ∈ q.readCacheJobList, (q.jobs j).asked = false
  cancelled : ∀ j ∈ q.readCacheJobList, (q.jobs j).cancelled = false

/-- the job that is served is the first of the list, unless it has left it -/
structure Held (q : ReadQueue) (v : Serving) : Prop where
  known : v.job < q.next
  served : (q.jobs v.job).served = true
  head : v.job ∈ q.readCacheJobList → ∃ rest, q.readCacheJobList = v.job :: rest
  asked : v.call.terminal = false → (q.jobs v.job).cancelled = true → (q.jobs v.job).asked = true

structure Sound (q : ReadQueue) : Prop where
  listed : q.Listed
  held : ∀ v, q.serving = some v → q.Held v

section
variable {q : ReadQueue}

@[simp] theorem setJob_self (q : ReadQueue) (j : Nat) (d : ReadJob) : (q.setJob j d).jobs j = d :=
  Function.update_self ..

theorem setJob_ne (q : ReadQueue) {i j : Nat} (h : i ≠ j) (d : ReadJob) :
    (q.setJob j d).jobs i = q.jobs i := Function.update_of_ne h ..

theorem Listed.setJob (h : q.Listed) {j : Nat} {d : ReadJob}
    (hd : j ∈ q.readCacheJobList → d.asked = false ∧ d.cancelled = false) : (q.setJob j d).Listed := by
  refine ⟨h.nodup, h.known, ?_, ?_⟩
  · intro i hi
    by_cases hij : i = j
    · subst hij
      rw [setJob_self]
      exact (hd hi).1
    · rw [setJob_ne q hij]
      exact h.asked i hi
  · intro i hi
    by_cases hij : i = j
    · subst hij
      rw [setJob_self]
      exact (hd hi).2
    · rw [setJob_ne q hij]
      exact h.cancelled i hi

theorem Listed.shrink (h : q.Listed) {l : List Nat} (hl : l.Sublist q.readCacheJobList) :
    Listed { q with readCacheJobList := l } where
  nodup := h.nodup.sublist hl
  known j hj := h.known j (hl.subset hj)
  asked j hj := h.asked j (hl.subset hj)
  cancelled j hj := h.cancelled j (hl.subset hj)

theorem Listed.deref (h : q.Listed) (j : Nat) : (q.deref j).Listed :=
  h.setJob (fun hj => ⟨h.asked j hj, h.cancelled j hj⟩)

theorem Listed.cancel (h : q.Listed) (j : Nat) : (q.cancel j).Listed := by
  unfold ReadQueue.cancel
  split
  · exact (h.shrink List.erase_sublist).deref j
  · next hj => exact h.setJob (fun hmem => absurd hmem hj)

theorem cancel_list (q : ReadQueue) (j : Nat) :
    (q.cancel j).readCacheJobList = q.readCacheJobList.erase j := by
  unfold ReadQueue.cancel
  split
  · rfl
  · next hj => exact (List.erase_of_not_mem hj).symm

theorem not_mem_cancel (h : q.Listed) (j : Nat) : j ∉ (q.cancel j).readCacheJobList := by
  rw [cancel_list]
  exact h.nodup.not_mem_erase

theorem mem_cancel (q : ReadQueue) {i j : Nat} (hij : i ≠ j) :
    i ∈ (q.cancel j).readCacheJobList ↔ i ∈ q.readCacheJobList := by
  rw [cancel_list]
  exact List.mem_erase_of_ne hij

theorem cancel_jobs_ne (q : ReadQueue) {i j : Nat} (hij : i ≠ j) : (q.cancel j).jobs i = q.jobs i := by
  unfold ReadQueue.cancel
  split <;> exact setJob_ne _ hij _

theorem cancel_serving (q : ReadQueue) (j : Nat) : (q.cancel j).serving = q.serving := by
  unfold ReadQueue.cancel
  split <;> rfl

theorem cancel_next (q : ReadQueue) (j : Nat) : (q.cancel j).next = q.next := by
  unfold ReadQueue.cancel
  split <;> rfl

theorem cancel_self (q : ReadQueue) (j : Nat) : (q.cancel j).jobs j =
    if j ∈ q.readCacheJobList then { q.jobs j with released := (q.jobs j).released + 1 }
    else { q.jobs j with cancelled := true } := by
  unfold ReadQueue.cancel
  split <;> exact setJob_self ..

theorem Listed.finish (h : q.Listed) (j : Nat) : (q.finish j).Listed := by
  unfold ReadQueue.finish
  split
  · exact ⟨h.nodup, h.known, h.asked, h.cancelled⟩
  · next k rest hlist =>
    have hrest : rest.Sublist q.readCacheJobList := by
      rw [hlist]
      exact List.sublist_cons_self k rest
    have hnext := (h.shrink hrest).deref j
    exact ⟨hnext.nodup, hnext.known, hnext.asked, hnext.cancelled⟩

theorem finish_serving (q : ReadQueue) (j : Nat) : (q.finish j).serving = none := by
  unfold ReadQueue.finish
  split <;> rfl

theorem Held.setJob {v : Serving} (h : q.Held v) {j : Nat} {d : ReadJob}
    (hd : v.job = j → d.served = true ∧ (v.call.terminal = false → d.cancelled = true → d.asked = true)) :
    (q.setJob j d).Held v := by
  by_cases hj : v.job = j
  · refine ⟨h.known, ?_, h.head, ?_⟩
    · rw [hj, setJob_self]
      exact (hd hj).1
    · rw [hj, setJob_self]
      exact (hd hj).2
  · refine ⟨h.known, ?_, h.head, ?_⟩
    · rw [setJob_ne q hj]
      exact h.served
    · rw [setJob_ne q hj]
      exact h.asked

theorem Sound.enter {v : Serving} (h : q.Listed) (hv : q.Held v) (hcall : v.call.terminal = false)
    (call : Call) : (q.enter v call).Sound := by
  refine ⟨⟨h.nodup, h.known, h.asked, h.cancelled⟩, ?_⟩
  intro w hw
  obtain rfl := Option.some.inj hw
  exact ⟨hv.known, hv.served, hv.head, fun _ => hv.asked hcall⟩

theorem Sound.tell {v : Serving} (h : q.Listed) (hknown : v.job < q.next)
    (hserved : (q.jobs v.job).served = true)
    (hhead : v.job ∈ q.readCacheJobList → ∃ rest, q.readCacheJobList = v.job :: rest)
    {call : Call} (hcall : call.terminal = true) : (q.tell v call).Sound := by
  have hlisted := h.setJob (j := v.job)
    (d := { q.jobs v.job with terminals := (q.jobs v.job).terminals + 1 })
    (fun hj => ⟨h.asked v.job hj, h.cancelled v.job hj⟩)
  refine ⟨⟨hlisted.nodup, hlisted.known, hlisted.asked, hlisted.cancelled⟩, ?_⟩
  intro w hw
  obtain rfl := Option.some.inj hw
  refine ⟨hknown, ?_, hhead, ?_⟩
  · show ((q.setJob v.job _).jobs v.job).served = true
    rw [setJob_self]
    exact hserved
  · intro hno
    rw [show call.terminal = false from hno] at hcall
    cases hcall

theorem Sound.rearm (h : q.Listed) : q.rearm.Sound :=
  ⟨⟨h.nodup, h.known, h.asked, h.cancelled⟩, fun _ hv => nomatch hv⟩

theorem Sound.finish (h : q.Listed) (j : Nat) : (q.finish j).Sound := by
  refine ⟨h.finish j, ?_⟩
  intro v hv
  rw [finish_serving] at hv
  cases hv

theorem Sound.giveUp {v : Serving} (h : q.Listed) (hv : q.Held v) : (q.giveUp v).Sound := by
  have hend : ∀ t : ReadQueue, t.Listed → v.job < t.next → (t.jobs v.job).served = true →
      (v.job ∈ t.readCacheJobList → ∃ rest, t.readCacheJobList = v.job :: rest) →
      (if (t.jobs v.job).client then t.tell v .didFailAtExit else t.rearm).Sound := by
    intro t ht hknown hserved hhead
    split
    · exact Sound.tell ht hknown hserved hhead rfl
    · exact Sound.rearm ht
  unfold ReadQueue.giveUp
  split
  · exact Sound.rearm h
  · dsimp only
    split
    · apply hend _ (h.cancel v.job)
      · rw [cancel_next]
        exact hv.known
      · rw [cancel_self]
        split <;> exact hv.served
      · intro hmem
        exact absurd hmem (not_mem_cancel h v.job)
    · exact hend _ h hv.known hv.served hv.head

theorem Listed.useResource (h : q.Listed) (p : Ptr) : (q.useResource p).Listed :=
  ⟨h.nodup, h.known, h.asked, h.cancelled⟩

theorem Held.useResource {v : Serving} (h : q.Held v) (p : Ptr) : (q.useResource p).Held v :=
  ⟨h.known, h.served, h.head, h.asked⟩

theorem Sound.readBody {v : Serving} (h : q.Listed) (hv : q.Held v) (hcall : v.call.terminal = false)
    (io : FileIo) : (q.readBody v io).Sound := by
  unfold ReadQueue.readBody
  dsimp only
  split
  · refine Sound.enter ?_ ?_ hcall _
    · exact ⟨h.nodup, h.known, h.asked, h.cancelled⟩
    · exact ⟨hv.known, hv.served, hv.head, hv.asked⟩
  · apply Sound.tell
    · exact ⟨h.nodup, h.known, h.asked, h.cancelled⟩
    · exact hv.known
    · exact hv.served
    · exact hv.head
    · rfl

theorem Sound.resumeFrom {v : Serving} (h : q.Listed) (hv : q.Held v) (r : Reply) :
    (q.resumeFrom v r).Sound := by
  have hlisted := h.useResource v.resource
  have hheld := hv.useResource v.resource
  unfold ReadQueue.resumeFrom
  split
  · next hcall =>
    have hcall : v.call.terminal = false := by rw [hcall]; rfl
    split
    · exact Sound.giveUp h hv
    · split
      · exact Sound.enter hlisted hheld hcall _
      · exact Sound.giveUp hlisted hheld
  · next hcall =>
    have hcall : v.call.terminal = false := by rw [hcall]; rfl
    split
    · exact Sound.giveUp h hv
    · split
      · exact Sound.enter hlisted hheld hcall _
      · exact Sound.giveUp hlisted hheld
  · next hcall =>
    have hcall : v.call.terminal = false := by rw [hcall]; rfl
    split
    · exact Sound.giveUp h hv
    · split
      · exact Sound.giveUp h hv
      · split
        · exact Sound.giveUp h hv
        · exact Sound.enter hlisted hheld hcall _
  · next hcall =>
    have hcall : v.call.terminal = false := by rw [hcall]; rfl
    split
    · exact Sound.giveUp h hv
    · refine Sound.enter ?_ ?_ hcall _
      · exact ⟨h.nodup, h.known, h.asked, h.cancelled⟩
      · exact ⟨hv.known, hv.served, hv.head, hv.asked⟩
  · next hcall =>
    have hcall : v.call.terminal = false := by rw [hcall]; rfl
    split
    · exact Sound.giveUp h hv
    · split
      · exact Sound.finish hlisted v.job
      · exact Sound.readBody hlisted hheld hcall r.io
  · apply Sound.tell
    · exact ⟨h.nodup, h.known, h.asked, h.cancelled⟩
    · exact hv.known
    · exact hv.served
    · exact hv.head
    · rfl
  · exact Sound.finish h v.job
  · exact Sound.finish h v.job
  · exact Sound.rearm h

theorem Sound.fire (h : q.Sound) : q.fire.Sound := by
  unfold ReadQueue.fire
  split
  · exact h
  · dsimp only
    split
    · exact ⟨⟨h.listed.nodup, h.listed.known, h.listed.asked, h.listed.cancelled⟩, fun v hv =>
        ⟨(h.held v hv).known, (h.held v hv).served, (h.held v hv).head, (h.held v hv).asked⟩⟩
    · next j rest hlist =>
      have hmem : j ∈ q.readCacheJobList := by rw [hlist]; exact List.mem_cons_self
      have hlisted : ({ q with readCacheTimer := false } : ReadQueue).Listed :=
        ⟨h.listed.nodup, h.listed.known, h.listed.asked, h.listed.cancelled⟩
      have hserved := hlisted.setJob (j := j) (d := { q.jobs j with served := true })
        (fun hj => ⟨h.listed.asked j hj, h.listed.cancelled j hj⟩)
      split
      · exact Sound.finish hserved j
      · next p _ =>
        split
        · refine Sound.enter (hserved.useResource p) ?_ rfl _
          refine ⟨h.listed.known j hmem, ?_, fun _ => ⟨rest, hlist⟩, ?_⟩
          · exact congrArg ReadJob.served (setJob_self _ j _)
          · intro _ hcancelled
            have hno : ((({ q with readCacheTimer := false } : ReadQueue).setJob j
                { q.jobs j with served := true }).jobs j).cancelled = true := hcancelled
            rw [setJob_self] at hno
            rw [show ({ q.jobs j with served := true } : ReadJob).cancelled = (q.jobs j).cancelled from rfl,
              h.listed.cancelled j hmem] at hno
            cases hno
        · exact Sound.finish hserved j

theorem Sound.schedule (h : q.Sound) (url : KURL) (client frameLoaderClient : Bool) (frame : Nat)
    (handle : Bool) :
    (q.scheduleLoadResourceFromHTTPCache url client frameLoaderClient frame handle).Sound := by
  have hnew : q.next ∉ q.readCacheJobList := fun hmem => lt_irrefl _ (h.listed.known _ hmem)
  have hlisted := h.listed.setJob (j := q.next)
    (d := { url, client, frameLoaderClient, frame, handle }) (fun hmem => absurd hmem hnew)
  refine ⟨⟨?_, ?_, ?_, ?_⟩, ?_⟩
  · refine List.nodup_append.mpr ⟨h.listed.nodup, List.nodup_singleton _, ?_⟩
    intro i hi k hk hik
    rw [hik, List.mem_singleton.mp hk] at hi
    exact hnew hi
  · intro i hi
    rcases List.mem_append.mp hi with hi | hi
    · exact Nat.lt_succ_of_lt (h.listed.known i hi)
    · rw [List.mem_singleton.mp hi]
      exact Nat.lt_succ_self _
  · intro i hi
    rcases List.mem_append.mp hi with hi | hi
    · exact hlisted.asked i hi
    · rw [List.mem_singleton.mp hi]
      exact congrArg ReadJob.asked (setJob_self ..)
  · intro i hi
    rcases List.mem_append.mp hi with hi | hi
    · exact hlisted.cancelled i hi
    · rw [List.mem_singleton.mp hi]
      exact congrArg ReadJob.cancelled (setJob_self ..)
  · intro v hv
    have hheld := h.held v hv
    have hne : v.job ≠ q.next := Nat.ne_of_lt hheld.known
    have hset := hheld.setJob (j := q.next) (d := { url, client, frameLoaderClient, frame, handle })
      (fun heq => absurd heq hne)
    refine ⟨Nat.lt_succ_of_lt hheld.known, hset.served, ?_, hset.asked⟩
    intro hmem
    rcases List.mem_append.mp hmem with hmem | hmem
    · obtain ⟨rest, hlist⟩ := hheld.head hmem
      refine ⟨rest ++ [q.next], ?_⟩
      show q.readCacheJobList ++ [q.next] = _
      rw [hlist, List.cons_append]
    · exact absurd (List.mem_singleton.mp hmem) hne

theorem erase_head {l : List Nat} {i j : Nat} (hij : i ≠ j) (hmem : i ∈ l)
    (h : ∃ rest, l = i :: rest) : ∃ rest, l.erase j = i :: rest := by
  obtain ⟨rest, rfl⟩ := h
  refine ⟨rest.erase j, ?_⟩
  exact List.erase_cons_tail (by simpa using hij)

theorem Sound.cancel (h : q.Sound) (j : Nat) : (q.step (.cancel j)).Sound := by
  have hnot := not_mem_cancel h.listed j
  refine ⟨(h.listed.cancel j).setJob (fun hmem => absurd hmem hnot), ?_⟩
  intro v hv
  have hv : q.serving = some v := by
    rw [← cancel_serving q j]
    exact hv
  have hheld := h.held v hv
  by_cases hj : v.job = j
  · refine ⟨?_, ?_, ?_, ?_⟩
    · show v.job < (q.cancel j).next
      rw [cancel_next]
      exact hheld.known
    · show (((q.cancel j).setJob j _).jobs v.job).served = true
      rw [hj, setJob_self, cancel_self, ← hj]
      split <;> exact hheld.served
    · intro hmem
      rw [hj] at hmem
      exact absurd hmem hnot
    · intro _ _
      show (((q.cancel j).setJob j _).jobs v.job).asked = true
      rw [hj, setJob_self]
  · have hcancel : (q.cancel j).Held v := by
      refine ⟨?_, ?_, ?_, ?_⟩
      · rw [cancel_next]
        exact hheld.known
      · rw [cancel_jobs_ne q hj]
        exact hheld.served
      · intro hmem
        have hmem := (mem_cancel q hj).mp hmem
        rw [cancel_list]
        exact erase_head hj hmem (hheld.head hmem)
      · rw [cancel_jobs_ne q hj]
        exact hheld.asked
    exact hcancel.setJob (fun heq => absurd heq hj)

theorem Sound.cacheOp (h : q.Sound) (op : Manager.Op) : (q.cacheOp op).Sound := by
  unfold ReadQueue.cacheOp
  dsimp only
  split
  · refine ⟨⟨List.nodup_nil, ?_, ?_, ?_⟩, ?_⟩
    · exact fun j hj => absurd hj List.not_mem_nil
    · exact fun j hj => absurd hj List.not_mem_nil
    · exact fun j hj => absurd hj List.not_mem_nil
    · intro v hv
      have hheld := h.held v hv
      refine ⟨hheld.known, ?_, fun hmem => absurd hmem List.not_mem_nil, ?_⟩
      · show (if _ then _ else _ : ReadJob).served = true
        split <;> exact hheld.served
      · show _ → (if _ then _ else _ : ReadJob).cancelled = true → (if _ then _ else _ : ReadJob).asked = true
        split <;> exact hheld.asked
  · exact ⟨⟨h.listed.nodup, h.listed.known, h.listed.asked, h.listed.cancelled⟩, fun v hv =>
      ⟨(h.held v hv).known, (h.held v hv).served, (h.held v hv).head, (h.held v hv).asked⟩⟩

theorem Sound.step (h : q.Sound) (op : Op) : (q.step op).Sound := by
  cases op with
  | schedule url client frameLoaderClient frame handle =>
    exact h.schedule url client frameLoaderClient frame handle
  | fire => exact h.fire
  | resume r =>
    show (q.resume r).Sound
    unfold ReadQueue.resume
    split
    · exact h
    · next v hv => exact Sound.resumeFrom h.listed (h.held v hv) r
  | cancel j => exact h.cancel j
  | cache op => exact h.cacheOp op
  | change j client frameLoaderClient frame handle =>
    refine ⟨h.listed.setJob (fun hj => ⟨h.listed.asked j hj, h.listed.cancelled j hj⟩), ?_⟩
    intro v hv
    refine (h.held v hv).setJob ?_
    rintro rfl
    exact ⟨(h.held v hv).served, (h.held v hv).asked⟩

end

end ReadQueue

end

end Wkc
