import WkcBrowser.Net.ReadQueue

/-!
# Cached loads complete once

Every job that the read list takes should get one terminal callback and have its reference released
once, and the timer should take off the list the job it served.  The ways out of
`readCacheTimerCallback` do not keep to that: the label `cancel` leaves the job on the list, a missing
resource takes it off without a word, and `remove(0)` removes another job if the client has cancelled
the one that was served.

* `Settled`, `Complete`     what is promised of a job, of a state;
* `continues`, `Passes`     the steps that keep the promise;
* `Around`                  the promise to all jobs but the one that is served;
* `cached_loads_iff`        the promise is kept throughout a run exactly if every step passes.
-/

set_option linter.unusedSectionVars false

namespace Wkc

section
variable [FilePeers]
namespace ReadQueue

def queued (q : ReadQueue) (j : Nat) : Bool := decide (j ∈ q.readCacheJobList)

def serves (q : ReadQueue) (j : Nat) : Bool :=
  match q.serving with
  | none => false
  | some v => decide (v.job = j)

/-- the job is in its terminal callback -/
def told (q : ReadQueue) (j : Nat) : Bool :=
  match q.serving with
  | none => false
  | some v => decide (v.job = j) && v.call.terminal

/-- A job that nobody cancelled has no terminal callback while it waits, and one after that.  The
reference is released when the job leaves the list.  A job that was served is not left there. -/
structure Settled (d : ReadJob) (queued serves told : Bool) : Prop where
  once : d.asked = false → d.terminals = if (queued || serves) && !told then 0 else 1
  released : d.released = if queued then 0 else 1
  left : queued = true → d.served = true → serves = true

structure Complete (q : ReadQueue) : Prop where
  settled : ∀ j, j < q.next → Settled (q.jobs j) (q.queued j) (q.serves j) (q.told j)
  removed : ∀ r ∈ q.removed, r.1 = r.2
  defined : q.fault = false
  armed : q.serving = none → q.readCacheJobList ≠ [] → q.readCacheTimer = true

/-! ## the condition -/

def alive (q : ReadQueue) (p : Ptr) : Bool := (q.manager.cache.heap p).isSome

/-- the timer finds a resource and a client of the frame -/
def finds (q : ReadQueue) (j : Nat) : Bool :=
  (q.manager.cache.resourceForURL (q.jobs j).url).any q.alive && (q.jobs j).frameLoaderClient

/-- a job may be given up if it is cancelled, or if it has a client to be told -/
def gives (q : ReadQueue) (v : Serving) : Bool := (q.jobs v.job).asked || (q.jobs v.job).client

/-- the client has not let go of the job in `didReceiveResponse` -/
def kept (q : ReadQueue) (v : Serving) : Bool :=
  decide (v.frame = (q.jobs v.job).frame) && (q.jobs v.job).frameloaderclientwkc

def continues (q : ReadQueue) (v : Serving) (r : Reply) : Bool :=
  match v.call with
  | .dispatchWillReceiveData | .willReceiveData => q.gives v && (!r.answer || q.alive v.resource)
  | .didReceiveResponse => if q.kept v then q.alive v.resource else q.gives v
  | .dispatchWillReceiveContent =>
    if r.answer then (q.jobs v.job).client && q.alive v.resource else q.gives v
  | .willReceiveContent =>
    if r.answer then
      q.alive v.resource && if r.alloc then (q.jobs v.job).client
        else (q.jobs v.job).asked && q.readCacheJobList.isEmpty
    else q.gives v
  | .didReceiveData => (q.jobs v.job).client
  | .didFinishLoading | .didFail => q.queued v.job || q.readCacheJobList.isEmpty
  | .didFailAtExit => !q.queued v.job

/-- The timer finds what it serves; a call returns to a firing that can go on, or give the job up for
good; the list is cleared only if no other job than the one that is served is on it. -/
def Passes (q : ReadQueue) : Op → Prop
  | .fire => q.serving = none → q.readCacheTimer = true → ∀ j ∈ q.readCacheJobList.head?, q.finds j = true
  | .resume r => ∀ v ∈ q.serving, q.continues v r = true
  | .cache op => q.clears op = true → ∀ j ∈ q.readCacheJobList, q.serves j = true
  | _ => True

instance (q : ReadQueue) : ∀ op, Decidable (q.Passes op)
  | .fire => inferInstanceAs (Decidable (_ → _ → ∀ j ∈ _, _))
  | .resume _ => inferInstanceAs (Decidable (∀ v ∈ _, _))
  | .cache _ => inferInstanceAs (Decidable (_ → ∀ j ∈ _, _))
  | .schedule .. | .cancel _ | .change .. => inferInstanceAs (Decidable True)

/-! ## the served job and the others -/

/-- all is well but perhaps for the job `j`, which is the one that is served -/
structure Around (q : ReadQueue) (j : Nat) : Prop where
  others : ∀ i, i < q.next → i ≠ j → Settled (q.jobs i) (q.queued i) false false
  released : (q.jobs j).released = if q.queued j then 0 else 1
  removed : ∀ r ∈ q.removed, r.1 = r.2
  known : j < q.next
  served : (q.jobs j).served = true
  listed : q.Listed
  head : j ∈ q.readCacheJobList → ∃ rest, q.readCacheJobList = j :: rest

section
variable {q : ReadQueue} {j : Nat} {v : Serving}

theorem serves_of_none (h : q.serving = none) (i : Nat) : q.serves i = false := by
  unfold serves
  rw [h]

theorem told_of_none (h : q.serving = none) (i : Nat) : q.told i = false := by
  unfold told
  rw [h]

theorem serves_of_some (h : q.serving = some v) (i : Nat) : q.serves i = decide (v.job = i) := by
  unfold serves
  rw [h]

theorem told_of_some (h : q.serving = some v) (i : Nat) :
    q.told i = (decide (v.job = i) && v.call.terminal) := by
  unfold told
  rw [h]

theorem serves_other (h : ∀ v, q.serving = some v → v.job = j) {i : Nat} (hij : i ≠ j) :
    q.serves i = false ∧ q.told i = false := by
  cases hs : q.serving with
  | none => exact ⟨serves_of_none hs i, told_of_none hs i⟩
  | some v =>
    have hne : decide (v.job = i) = false := by
      rw [h v hs]
      exact decide_eq_false (Ne.symm hij)
    rw [serves_of_some hs, told_of_some hs, hne]
    exact ⟨rfl, rfl⟩

theorem Around.complete_iff (h : q.Around j) (hs : ∀ v, q.serving = some v → v.job = j)
    (harmed : q.serving = none → q.readCacheJobList ≠ [] → q.readCacheTimer = true) :
    q.Complete ↔ q.fault = false ∧ Settled (q.jobs j) (q.queued j) (q.serves j) (q.told j) := by
  constructor
  · intro hc
    exact ⟨hc.defined, hc.settled j h.known⟩
  · rintro ⟨hfault, hj⟩
    refine ⟨?_, h.removed, hfault, harmed⟩
    intro i hi
    by_cases hij : i = j
    · rw [hij]
      exact hj
    · obtain ⟨hserves, htold⟩ := serves_other hs hij
      rw [hserves, htold]
      exact h.others i hi hij

theorem queued_false : q.queued j = false ↔ j ∉ q.readCacheJobList := decide_eq_false_iff_not

theorem queued_true : q.queued j = true ↔ j ∈ q.readCacheJobList := decide_eq_true_iff

theorem Around.rearm (h : q.Around j) : q.rearm.Complete ↔
    q.fault = false ∧ j ∉ q.readCacheJobList ∧ ((q.jobs j).asked = false → (q.jobs j).terminals = 1) := by
  have hr : q.rearm.Around j := ⟨h.others, h.released, h.removed, h.known, h.served,
    ⟨h.listed.nodup, h.listed.known, h.listed.asked, h.listed.cancelled⟩, h.head⟩
  have harmed : q.rearm.serving = none → q.rearm.readCacheJobList ≠ [] → q.rearm.readCacheTimer = true := by
    intro _ hne
    have hne : q.readCacheJobList ≠ [] := hne
    show (q.readCacheTimer || !q.readCacheJobList.isEmpty) = true
    rw [List.isEmpty_eq_false_iff.mpr hne]
    exact Bool.or_true _
  rw [hr.complete_iff (fun _ hv => nomatch hv) harmed, serves_of_none (q := q.rearm) rfl,
    told_of_none (q := q.rearm) rfl]
  apply and_congr_right'
  show Settled (q.jobs j) (q.queued j) false false ↔ _
  constructor
  · intro hset
    have hnot : q.queued j = false := by
      cases hq : q.queued j with
      | false => rfl
      | true => exact absurd (hset.left hq h.served) Bool.false_ne_true
    refine ⟨queued_false.mp hnot, ?_⟩
    intro hasked
    rw [hset.once hasked, hnot]
    rfl
  · rintro ⟨hnot, hterminals⟩
    have hnot := queued_false.mpr hnot
    refine ⟨?_, h.released, ?_⟩
    · intro hasked
      rw [hterminals hasked, hnot]
      rfl
    · intro hq
      rw [hnot] at hq
      cases hq

theorem Around.enter (h : q.Around v.job) {call : Call} (hcall : call.terminal = false) :
    (q.enter v call).Complete ↔
      q.fault = false ∧ ((q.jobs v.job).asked = false → (q.jobs v.job).terminals = 0) := by
  have he : (q.enter v call).Around v.job := ⟨h.others, h.released, h.removed, h.known, h.served,
    ⟨h.listed.nodup, h.listed.known, h.listed.asked, h.listed.cancelled⟩, h.head⟩
  have hs : ∀ w, (q.enter v call).serving = some w → w.job = v.job := by
    intro w hw
    rw [← Option.some.inj hw]
  rw [he.complete_iff hs (fun hno => nomatch hno), serves_of_some (q := q.enter v call) rfl,
    told_of_some (q := q.enter v call) rfl]
  apply and_congr_right'
  rw [decide_eq_true rfl, Bool.true_and, hcall]
  show Settled (q.jobs v.job) (q.queued v.job) true false ↔ _
  constructor
  · intro hset hasked
    rw [hset.once hasked, Bool.or_true]
    rfl
  · intro hterminals
    refine ⟨?_, h.released, fun _ _ => rfl⟩
    intro hasked
    rw [hterminals hasked, Bool.or_true]
    rfl

theorem Around.setJob (h : q.Around j) {d : ReadJob} (hreleased : d.released = (q.jobs j).released)
    (hserved : d.served = true) (hd : j ∈ q.readCacheJobList → d.asked = false ∧ d.cancelled = false) :
    (q.setJob j d).Around j := by
  refine ⟨?_, ?_, h.removed, h.known, ?_, h.listed.setJob hd, h.head⟩
  · intro i hi hij
    rw [setJob_ne q hij]
    exact h.others i hi hij
  · rw [setJob_self, hreleased]
    exact h.released
  · rw [setJob_self]
    exact hserved

theorem Around.tell (h : q.Around v.job) {call : Call} (hcall : call.terminal = true) :
    (q.tell v call).Complete ↔
      q.fault = false ∧ ((q.jobs v.job).asked = false → (q.jobs v.job).terminals = 0) := by
  have ht := h.setJob (d := { q.jobs v.job with terminals := (q.jobs v.job).terminals + 1 }) rfl h.served
    (fun hj => ⟨h.listed.asked v.job hj, h.listed.cancelled v.job hj⟩)
  have he : (q.tell v call).Around v.job := ⟨ht.others, ht.released, ht.removed, ht.known, ht.served,
    ⟨ht.listed.nodup, ht.listed.known, ht.listed.asked, ht.listed.cancelled⟩, ht.head⟩
  have hs : ∀ w, (q.tell v call).serving = some w → w.job = v.job := by
    intro w hw
    rw [← Option.some.inj hw]
  rw [he.complete_iff hs (fun hno => nomatch hno), serves_of_some (q := q.tell v call) rfl,
    told_of_some (q := q.tell v call) rfl]
  apply and_congr_right'
  rw [decide_eq_true rfl, Bool.true_and, hcall]
  have hjob : (q.tell v call).jobs v.job
      = { q.jobs v.job with terminals := (q.jobs v.job).terminals + 1 } := setJob_self ..
  rw [hjob]
  show Settled _ (q.queued v.job) true true ↔ _
  constructor
  · intro hset hasked
    have honce := hset.once hasked
    rw [Bool.not_true, Bool.and_false] at honce
    exact Nat.succ.inj honce
  · intro hterminals
    refine ⟨?_, h.released, fun _ _ => rfl⟩
    intro hasked
    rw [Bool.not_true, Bool.and_false]
    exact congrArg Nat.succ (hterminals hasked)

theorem Around.cancel (h : q.Around j) : (q.cancel j).Around j := by
  have hnot := not_mem_cancel h.listed j
  refine ⟨?_, ?_, ?_, ?_, ?_, h.listed.cancel j, fun hmem => absurd hmem hnot⟩
  · intro i hi hij
    rw [cancel_next] at hi
    have hqueued : (q.cancel j).queued i = q.queued i := by
      unfold queued
      rw [decide_eq_decide]
      exact mem_cancel q hij
    rw [cancel_jobs_ne q hij, hqueued]
    exact h.others i hi hij
  · rw [queued_false.mpr hnot, cancel_self]
    split
    · next hmem =>
      show (q.jobs j).released + 1 = 1
      rw [h.released, queued_true.mpr hmem]
      rfl
    · next hmem =>
      show (q.jobs j).released = 1
      rw [h.released, queued_false.mpr hmem]
      rfl
  · unfold ReadQueue.cancel
    split <;> exact h.removed
  · rw [cancel_next]
    exact h.known
  · rw [cancel_self]
    split <;> exact h.served

theorem cancel_fault (q : ReadQueue) (j : Nat) : (q.cancel j).fault = q.fault := by
  unfold ReadQueue.cancel
  split <;> rfl

theorem cancel_rest (q : ReadQueue) (j : Nat) :
    ((q.cancel j).jobs j).asked = (q.jobs j).asked ∧
      ((q.cancel j).jobs j).terminals = (q.jobs j).terminals ∧
      ((q.cancel j).jobs j).client = (q.jobs j).client := by
  rw [cancel_self]
  split <;> exact ⟨rfl, rfl, rfl⟩

theorem Around.finish (h : q.Around j) : (q.finish j).Complete ↔
    q.fault = false ∧ (q.readCacheJobList = [] ∨ j ∈ q.readCacheJobList) ∧
      ((q.jobs j).asked = false → (q.jobs j).terminals = 1) := by
  unfold ReadQueue.finish
  split
  · next hlist =>
    rw [h.rearm, hlist]
    simp
  · next k rest hlist =>
    have hnodup := h.listed.nodup
    rw [hlist, List.nodup_cons] at hnodup
    by_cases hjk : j = k
    · subst hjk
      have hmem : j ∈ q.readCacheJobList := by rw [hlist]; exact List.mem_cons_self
      have hrest : rest.Sublist q.readCacheJobList := by
        rw [hlist]
        exact List.sublist_cons_self j rest
      have hjob : ((({ q with readCacheJobList := rest, removed := q.removed ++ [(j, j)] } :
          ReadQueue).deref j).jobs j) = { q.jobs j with released := (q.jobs j).released + 1 } :=
        setJob_self ..
      have ht : (({ q with readCacheJobList := rest, removed := q.removed ++ [(j, j)] } :
          ReadQueue).deref j).Around j := by
        have hlisted := (h.listed.shrink hrest).deref j
        refine ⟨?_, ?_, ?_, h.known, ?_, ⟨hlisted.nodup, hlisted.known, hlisted.asked,
          hlisted.cancelled⟩, fun hj => absurd hj hnodup.1⟩
        · intro i hi hij
          have hqueued : q.queued i = decide (i ∈ rest) := by
            unfold queued
            rw [decide_eq_decide, hlist, List.mem_cons]
            exact or_iff_right hij
          have hother := h.others i hi hij
          rw [hqueued] at hother
          show Settled ((q.setJob j _).jobs i) (decide (i ∈ rest)) false false
          rw [setJob_ne q hij]
          exact hother
        · rw [hjob]
          show (q.jobs j).released + 1 = if decide (j ∈ rest) = true then 0 else 1
          rw [h.released, queued_true.mpr hmem, decide_eq_false hnodup.1]
          rfl
        · intro r hr
          rcases List.mem_append.mp hr with hr | hr
          · exact h.removed r hr
          · rw [List.mem_singleton.mp hr]
        · rw [hjob]
          exact h.served
      rw [ht.rearm, hjob]
      show q.fault = false ∧ j ∉ rest ∧ _ ↔ _
      simp only [hnodup.1, hmem, not_false_eq_true, or_true, true_and]
    · have hnot : j ∉ q.readCacheJobList := by
        intro hmem
        obtain ⟨rest', hhead⟩ := h.head hmem
        rw [hlist] at hhead
        exact hjk (List.cons.inj hhead).1.symm
      constructor
      · intro hc
        exact absurd (hc.removed (j, k) (List.mem_append_right _ (List.mem_singleton_self _))) hjk
      · rintro ⟨_, hempty | hmem, _⟩
        · rw [hlist] at hempty
          cases hempty
        · exact absurd hmem hnot

theorem Around.giveUp (h : q.Around v.job)
    (hcancelled : (q.jobs v.job).cancelled = true → (q.jobs v.job).asked = true)
    (hterminals : (q.jobs v.job).asked = false → (q.jobs v.job).terminals = 0) :
    (q.giveUp v).Complete ↔ q.fault = false ∧ q.gives v = true := by
  have hasked : (q.jobs v.job).asked = true → v.job ∉ q.readCacheJobList := by
    intro htrue hmem
    rw [h.listed.asked v.job hmem] at htrue
    cases htrue
  have hgives : q.gives v = true ↔ (q.jobs v.job).asked = true ∨ (q.jobs v.job).client = true :=
    Bool.or_eq_true_iff
  have hend : ∀ t : ReadQueue, t.Around v.job → t.fault = q.fault →
      (t.jobs v.job).asked = (q.jobs v.job).asked →
      (t.jobs v.job).terminals = (q.jobs v.job).terminals →
      (t.jobs v.job).client = (q.jobs v.job).client →
      ((if (t.jobs v.job).client then t.tell v .didFailAtExit else t.rearm).Complete ↔
        q.fault = false ∧ q.gives v = true) := by
    intro t ht hfault ha hn hclient
    rw [hgives, hclient]
    split
    · next hc =>
      rw [ht.tell rfl, hfault, ha, hn]
      simp only [hc, or_true, and_true]
      exact and_iff_left hterminals
    · next hc =>
      rw [ht.rearm, hfault, ha, hn]
      simp only [hc, Bool.false_eq_true, or_false]
      apply and_congr_right'
      constructor
      · rintro ⟨_, hone⟩
        by_contra hno
        have hno : (q.jobs v.job).asked = false := by simpa using hno
        have hzero := hterminals hno
        rw [hone hno] at hzero
        cases hzero
      · intro htrue
        refine ⟨?_, ?_⟩
        · intro hmem
          have hfalse := ht.listed.asked v.job hmem
          rw [ha, htrue] at hfalse
          cases hfalse
        · intro hfalse
          rw [htrue] at hfalse
          cases hfalse
  unfold ReadQueue.giveUp
  split
  · next hc =>
    have htrue := hcancelled hc
    rw [h.rearm, hgives]
    simp [htrue, hasked htrue]
  · dsimp only
    split
    · obtain ⟨ha, hn, hclient⟩ := cancel_rest q v.job
      exact hend _ h.cancel (cancel_fault q v.job) ha hn hclient
    · exact hend q h rfl rfl rfl rfl

theorem Around.useResource (h : q.Around j) (p : Ptr) : (q.useResource p).Around j :=
  ⟨h.others, h.released, h.removed, h.known, h.served,
    ⟨h.listed.nodup, h.listed.known, h.listed.asked, h.listed.cancelled⟩, h.head⟩

theorem Around.useClient (h : q.Around j) (i : Nat) : (q.useClient i).Around j :=
  ⟨h.others, h.released, h.removed, h.known, h.served,
    ⟨h.listed.nodup, h.listed.known, h.listed.asked, h.listed.cancelled⟩, h.head⟩

theorem useResource_fault (h : q.fault = false) (p : Ptr) :
    (q.useResource p).fault = false ↔ q.alive p = true := by
  show (q.fault || (q.manager.cache.heap p).isNone) = false ↔ (q.manager.cache.heap p).isSome = true
  rw [h, Bool.false_or]
  cases q.manager.cache.heap p with
  | none | some => simp

theorem useClient_fault (h : q.fault = false) (j : Nat) :
    (q.useClient j).fault = false ↔ (q.jobs j).client = true := by
  show (q.fault || !(q.jobs j).client) = false ↔ _
  rw [h, Bool.false_or, Bool.not_eq_false']

/-! ## the steps -/

theorem useBoth_fault (h : q.fault = false) {j : Nat} {p : Ptr} :
    ((q.useClient j).useResource p).fault = false ↔ ((q.jobs j).client && q.alive p) = true := by
  show ((q.fault || !(q.jobs j).client) || (q.manager.cache.heap p).isNone) = false ↔
    ((q.jobs j).client && (q.manager.cache.heap p).isSome) = true
  rw [h]
  cases q.manager.cache.heap p with
  | none | some => simp

theorem Complete.around (hc : q.Complete) (h : q.Sound) (hv : q.serving = some v) : q.Around v.job := by
  have hheld := h.held v hv
  refine ⟨?_, (hc.settled v.job hheld.known).released, hc.removed, hheld.known, hheld.served, h.listed,
    hheld.head⟩
  intro i hi hij
  have hs : ∀ w, q.serving = some w → w.job = v.job := by
    intro w hw
    rw [hv] at hw
    rw [Option.some.inj hw]
  obtain ⟨hserves, htold⟩ := serves_other hs hij
  have hset := hc.settled i hi
  rw [hserves, htold] at hset
  exact hset

theorem Complete.terminals (hc : q.Complete) (h : q.Sound) (hv : q.serving = some v)
    (hasked : (q.jobs v.job).asked = false) :
    (q.jobs v.job).terminals = if v.call.terminal then 1 else 0 := by
  rw [(hc.settled v.job (h.held v hv).known).once hasked, serves_of_some hv, told_of_some hv]
  rw [decide_eq_true rfl, Bool.or_true, Bool.true_and, Bool.true_and]
  cases v.call.terminal with
  | false | true => rfl

theorem Around.readBody (h : q.Around v.job)
    (hterminals : (q.jobs v.job).asked = false → (q.jobs v.job).terminals = 0) (io : FileIo) :
    (q.readBody v io).Complete ↔ q.fault = false ∧ (q.jobs v.job).client = true := by
  have hend : ∀ (t : ReadQueue) (ok : Bool), t.Around v.job → t.fault = q.fault → t.jobs = q.jobs →
      ((if ok then (t.useClient v.job).enter v .didReceiveData
        else (t.useClient v.job).tell v .didFail).Complete ↔
          q.fault = false ∧ (q.jobs v.job).client = true) := by
    intro t ok ht hf hj
    have hfault : (t.useClient v.job).fault = false ↔ q.fault = false ∧ (q.jobs v.job).client = true := by
      show (t.fault || !(t.jobs v.job).client) = false ↔ _
      rw [hf, hj, Bool.or_eq_false_iff, Bool.not_eq_false']
    have hterminals : ((t.useClient v.job).jobs v.job).asked = false →
        ((t.useClient v.job).jobs v.job).terminals = 0 := by
      show (t.jobs v.job).asked = false → (t.jobs v.job).terminals = 0
      rw [hj]
      exact hterminals
    split
    · rw [(ht.useClient v.job).enter rfl, hfault]
      exact and_iff_left hterminals
    · rw [(ht.useClient v.job).tell rfl, hfault]
      exact and_iff_left hterminals
  refine hend _ _ ?_ rfl rfl
  exact ⟨h.others, h.released, h.removed, h.known, h.served,
    ⟨h.listed.nodup, h.listed.known, h.listed.asked, h.listed.cancelled⟩, h.head⟩

theorem Around.asks (h : q.Around v.job) (hfault : q.fault = false)
    (hcancelled : (q.jobs v.job).cancelled = true → (q.jobs v.job).asked = true)
    (hterminals : (q.jobs v.job).asked = false → (q.jobs v.job).terminals = 0) (r : Reply)
    {call : Call} (hcall : call.terminal = false) :
    (if r.answer = false then q.giveUp v
      else if (q.jobs v.job).client then (q.useResource v.resource).enter v call
      else (q.useResource v.resource).giveUp v).Complete ↔
        (q.gives v && (!r.answer || q.alive v.resource)) = true := by
  have huse := useResource_fault hfault v.resource
  have hu := h.useResource v.resource
  split
  · next hanswer =>
    rw [h.giveUp hcancelled hterminals, hanswer]
    simp [hfault]
  · next hanswer =>
    have hanswer : r.answer = true := by simpa using hanswer
    rw [hanswer, Bool.not_true, Bool.false_or, Bool.and_eq_true]
    split
    · next hclient =>
      have hgives : q.gives v = true := by
        unfold gives
        rw [hclient, Bool.or_true]
      rw [hu.enter hcall, huse, hgives]
      simp only [true_and]
      exact and_iff_left hterminals
    · rw [hu.giveUp hcancelled hterminals, huse]
      exact And.comm

theorem Around.finish_early (h : q.Around j) (hzero : (q.jobs j).asked = false → (q.jobs j).terminals = 0) :
    (q.finish j).Complete ↔ q.fault = false ∧ ((q.jobs j).asked = true ∧ q.readCacheJobList = []) := by
  rw [h.finish]
  apply and_congr_right'
  constructor
  · rintro ⟨hlist, hterminals⟩
    have hasked : (q.jobs j).asked = true := by
      by_contra hno'
      have hno' : (q.jobs j).asked = false := by simpa using hno'
      cases (hzero hno').symm.trans (hterminals hno')
    refine ⟨hasked, hlist.resolve_right ?_⟩
    intro hmem
    rw [h.listed.asked j hmem] at hasked
    cases hasked
  · rintro ⟨hasked, hlist⟩
    refine ⟨.inl hlist, ?_⟩
    intro hno'
    rw [hno'] at hasked
    cases hasked

theorem Complete.resumeFrom (hc : q.Complete) (h : q.Sound) (hv : q.serving = some v) (r : Reply) :
    (q.resumeFrom v r).Complete ↔ q.continues v r = true := by
  have hA := hc.around h hv
  have hu := hA.useResource v.resource
  have hfault := hc.defined
  have huse := useResource_fault hfault v.resource
  have hzero : v.call.terminal = false → (q.jobs v.job).asked = false → (q.jobs v.job).terminals = 0 := by
    intro hcall hno
    rw [hc.terminals h hv hno, hcall]
    rfl
  have hone : v.call.terminal = true → (q.jobs v.job).asked = false → (q.jobs v.job).terminals = 1 := by
    intro hcall hno
    rw [hc.terminals h hv hno, hcall]
    rfl
  have hgive : v.call.terminal = false → ((q.giveUp v).Complete ↔ q.gives v = true) := by
    intro hcall
    rw [hA.giveUp ((h.held v hv).asked hcall) (hzero hcall)]
    exact and_iff_right hfault
  have hfinish : v.call.terminal = true → ((q.finish v.job).Complete ↔
      (q.queued v.job || q.readCacheJobList.isEmpty) = true) := by
    intro hcall
    rw [hA.finish, Bool.or_eq_true, queued_true, List.isEmpty_iff]
    constructor
    · rintro ⟨_, hlist, _⟩
      exact hlist.symm
    · intro hlist
      exact ⟨hfault, hlist.symm, hone hcall⟩
  unfold ReadQueue.resumeFrom ReadQueue.continues
  cases hcall : v.call with
  | dispatchWillReceiveData | willReceiveData =>
    have hno : v.call.terminal = false := by rw [hcall]; rfl
    exact hA.asks hfault ((h.held v hv).asked hno) (hzero hno) r rfl
  | didReceiveResponse =>
    have hno : v.call.terminal = false := by rw [hcall]; rfl
    dsimp only
    by_cases hkept : q.kept v = true
    · obtain ⟨hframe, hclient⟩ := Bool.and_eq_true_iff.mp hkept
      have hcancelled : ¬ (q.jobs v.job).cancelled = true := by
        have hflag := (Bool.and_eq_true_iff.mp hclient).2
        simpa using hflag
      rw [if_neg hcancelled, if_neg (not_not_intro (of_decide_eq_true hframe)), if_neg (by simp [hclient]),
        if_pos hkept, hu.enter rfl, huse]
      exact and_iff_left (hzero hno)
    · rw [if_neg hkept]
      split
      · exact hgive hno
      · split
        · exact hgive hno
        · split
          · exact hgive hno
          · next hframe hclient =>
            refine absurd ?_ hkept
            unfold kept
            rw [decide_eq_true (not_not.mp hframe), Bool.true_and]
            simpa using hclient
  | dispatchWillReceiveContent =>
    have hno : v.call.terminal = false := by rw [hcall]; rfl
    dsimp only
    cases hanswer : r.answer with
    | false => exact hgive hno
    | true =>
      rw [if_neg Bool.noConfusion, if_pos rfl, ((hA.useClient v.job).useResource v.resource).enter rfl]
      rw [useBoth_fault hfault]
      exact and_iff_left (hzero hno)
  | willReceiveContent =>
    have hno : v.call.terminal = false := by rw [hcall]; rfl
    dsimp only
    cases hanswer : r.answer with
    | false => exact hgive hno
    | true =>
      rw [if_neg Bool.noConfusion, if_pos rfl, Bool.and_eq_true]
      cases halloc : r.alloc with
      | false =>
        rw [if_pos rfl, if_neg Bool.noConfusion, hu.finish_early (hzero hno), huse, Bool.and_eq_true, List.isEmpty_iff]
        rfl
      | true =>
        rw [if_neg Bool.noConfusion, if_pos rfl, hu.readBody (hzero hno), huse]
        rfl
  | didReceiveData =>
    have hno : v.call.terminal = false := by rw [hcall]; rfl
    dsimp only
    rw [(hA.useClient v.job).tell rfl, useClient_fault hfault]
    exact and_iff_left (hzero hno)
  | didFinishLoading | didFail => exact hfinish (by rw [hcall]; rfl)
  | didFailAtExit =>
    dsimp only
    rw [hA.rearm, Bool.not_eq_true', queued_false]
    constructor
    · rintro ⟨_, hlist, _⟩
      exact hlist
    · intro hlist
      exact ⟨hfault, hlist, hone (by rw [hcall]; rfl)⟩

theorem Complete.around_head (hc : q.Complete) (h : q.Sound) (hserving : q.serving = none) {rest : List Nat}
    (hlist : q.readCacheJobList = j :: rest) :
    (({ q with readCacheTimer := false } : ReadQueue).setJob j { q.jobs j with served := true }).Around j := by
  have hmem : j ∈ q.readCacheJobList := by rw [hlist]; exact List.mem_cons_self
  have hset := hc.settled j (h.listed.known j hmem)
  have hlisted : ({ q with readCacheTimer := false } : ReadQueue).Listed :=
    ⟨h.listed.nodup, h.listed.known, h.listed.asked, h.listed.cancelled⟩
  have hserved := hlisted.setJob (j := j) (d := { q.jobs j with served := true })
    (fun hj => ⟨h.listed.asked j hj, h.listed.cancelled j hj⟩)
  refine ⟨?_, ?_, hc.removed, h.listed.known j hmem, ?_, hserved, fun _ => ⟨rest, hlist⟩⟩
  · intro i hi hij
    have hother := hc.settled i hi
    rw [serves_of_none hserving, told_of_none hserving] at hother
    rw [setJob_ne _ hij]
    exact hother
  · rw [setJob_self]
    exact hset.released
  · rw [setJob_self]

theorem Complete.terminals_waiting (hc : q.Complete) (h : q.Sound) (hserving : q.serving = none)
    (hmem : j ∈ q.readCacheJobList) : (q.jobs j).terminals = 0 := by
  have hset := hc.settled j (h.listed.known j hmem)
  rw [hset.once (h.listed.asked j hmem), serves_of_none hserving, told_of_none hserving, queued_true.mpr hmem]
  rfl

theorem passes_head (hserving : q.serving = none) (htimer : q.readCacheTimer = true) {rest : List Nat}
    (hlist : q.readCacheJobList = j :: rest) : q.Passes .fire ↔ q.finds j = true := by
  show (q.serving = none → q.readCacheTimer = true → ∀ j ∈ q.readCacheJobList.head?, _) ↔ _
  rw [hlist]
  constructor
  · intro hp
    exact hp hserving htimer j rfl
  · intro hf _ _ i hi
    rw [← Option.some.inj hi]
    exact hf

theorem Complete.fire (hc : q.Complete) (h : q.Sound) : q.fire.Complete ↔ q.Passes .fire := by
  unfold ReadQueue.fire
  split
  · next hidle =>
    refine iff_of_true hc ?_
    intro hserving htimer
    rw [hserving, htimer] at hidle
    cases hidle
  · next hidle =>
    have hserving : q.serving = none := by
      cases hs : q.serving with
      | none => rfl
      | some v => rw [hs] at hidle; exact absurd rfl hidle
    have htimer : q.readCacheTimer = true := by
      rw [hserving] at hidle
      simpa using hidle
    dsimp only
    split
    · next hlist =>
      refine iff_of_true ?_ ?_
      · exact ⟨hc.settled, hc.removed, hc.defined, fun _ hne => absurd hlist hne⟩
      · intro _ _ j hj
        rw [hlist] at hj
        cases hj
    · next j rest hlist =>
      have hmem : j ∈ q.readCacheJobList := by rw [hlist]; exact List.mem_cons_self
      have hA := hc.around_head h hserving hlist
      have hjob : (({ q with readCacheTimer := false } : ReadQueue).setJob j
          { q.jobs j with served := true }).jobs j = { q.jobs j with served := true } := setJob_self ..
      have hasked := h.listed.asked j hmem
      have hzero := hc.terminals_waiting h hserving hmem
      have hpasses := passes_head hserving htimer hlist
      have hdrop : ¬ ((({ q with readCacheTimer := false } : ReadQueue).setJob j
          { q.jobs j with served := true }).finish j).Complete := by
        rw [hA.finish, hjob]
        rintro ⟨_, _, hterminals⟩
        have hone : (q.jobs j).terminals = 1 := hterminals hasked
        rw [hzero] at hone
        cases hone
      have hflc : ({ q.jobs j with served := true } : ReadJob).frameloaderclientwkc
          = (q.jobs j).frameLoaderClient := by
        show ((q.jobs j).frameLoaderClient && !(q.jobs j).cancelled) = _
        rw [h.listed.cancelled j hmem, Bool.not_false, Bool.and_true]
      rw [hpasses, hjob, hflc]
      unfold finds
      split
      · next hnone =>
        have hfound : q.manager.cache.resourceForURL (q.jobs j).url = none := hnone
        rw [hfound]
        refine iff_of_false hdrop ?_
        simp
      · next p hsome =>
        have hfound : q.manager.cache.resourceForURL (q.jobs j).url = some p := hsome
        rw [hfound, Option.any_some, Bool.and_eq_true]
        by_cases hclient : (q.jobs j).frameLoaderClient = true
        · rw [if_pos hclient, (hA.useResource p).enter rfl, and_iff_left hclient]
          have hfault := useResource_fault (q := ({ q with readCacheTimer := false } : ReadQueue).setJob j
            { q.jobs j with served := true }) hc.defined p
          rw [hfault]
          refine and_iff_left ?_
          intro _
          exact (congrArg ReadJob.terminals hjob).trans hzero
        · rw [if_neg hclient]
          exact iff_of_false hdrop (fun hboth => hclient hboth.2)

theorem Complete.setJob (hc : q.Complete) {d : ReadJob} (ha : d.asked = (q.jobs j).asked)
    (hn : d.terminals = (q.jobs j).terminals) (hr : d.released = (q.jobs j).released)
    (hs : d.served = (q.jobs j).served) : (q.setJob j d).Complete := by
  refine ⟨?_, hc.removed, hc.defined, hc.armed⟩
  intro i hi
  by_cases hij : i = j
  · subst hij
    have hset := hc.settled i hi
    rw [setJob_self]
    exact ⟨by rw [ha, hn]; exact hset.once, by rw [hr]; exact hset.released,
      by rw [hs]; exact hset.left⟩
  · rw [setJob_ne q hij]
    exact hc.settled i hi

theorem Complete.schedule (hc : q.Complete) (h : q.Sound) (url : KURL) (client frameLoaderClient : Bool)
    (frame : Nat) (handle : Bool) :
    (q.scheduleLoadResourceFromHTTPCache url client frameLoaderClient frame handle).Complete := by
  refine ⟨?_, hc.removed, hc.defined, fun _ _ => rfl⟩
  intro i hi
  show Settled ((q.setJob q.next _).jobs i) (decide (i ∈ q.readCacheJobList ++ [q.next])) (q.serves i)
    (q.told i)
  by_cases hin : i = q.next
  · have hno : q.serves i = false ∧ q.told i = false := by
      cases hs : q.serving with
      | none => exact ⟨serves_of_none hs i, told_of_none hs i⟩
      | some v =>
        have hne : decide (v.job = i) = false := by
          apply decide_eq_false
          rw [hin]
          exact Nat.ne_of_lt (h.held v hs).known
        rw [serves_of_some hs, told_of_some hs, hne]
        exact ⟨rfl, rfl⟩
    have hmem : i ∈ q.readCacheJobList ++ [q.next] := by
      rw [hin]
      exact List.mem_append_right _ (List.mem_singleton_self _)
    rw [hno.1, hno.2, decide_eq_true hmem, hin, setJob_self]
    refine ⟨fun _ => rfl, rfl, ?_⟩
    intro _ hserved
    cases hserved
  · have hmem : decide (i ∈ q.readCacheJobList ++ [q.next]) = q.queued i := by
      unfold queued
      rw [decide_eq_decide, List.mem_append, List.mem_singleton]
      exact or_iff_left hin
    rw [hmem, setJob_ne q hin]
    have hlt : i < q.next := Nat.lt_of_le_of_ne (Nat.lt_succ_iff.mp hi) hin
    exact hc.settled i hlt

theorem Complete.cancel (hc : q.Complete) (h : q.Sound) (j : Nat) : (q.step (.cancel j)).Complete := by
  have hnot := not_mem_cancel h.listed j
  have hserves : ∀ i, (q.step (.cancel j)).serves i = q.serves i := by
    intro i
    show (match (q.cancel j).serving with | none => false | some v => decide (v.job = i)) = _
    rw [cancel_serving]
    rfl
  have htold : ∀ i, (q.step (.cancel j)).told i = q.told i := by
    intro i
    show (match (q.cancel j).serving with
      | none => false | some v => decide (v.job = i) && v.call.terminal) = _
    rw [cancel_serving]
    rfl
  refine ⟨?_, ?_, ?_, ?_⟩
  · intro i hi
    have hi : i < q.next := by
      rw [← cancel_next q j]
      exact hi
    have hset := hc.settled i hi
    rw [hserves, htold]
    show Settled (((q.cancel j).setJob j _).jobs i) ((q.cancel j).queued i) _ _
    by_cases hij : i = j
    · subst hij
      rw [setJob_self, queued_false.mpr hnot]
      refine ⟨(fun hno => nomatch hno), ?_, (fun hno => nomatch hno)⟩
      show ((q.cancel i).jobs i).released = 1
      rw [cancel_self]
      split
      · next hmem =>
        show (q.jobs i).released + 1 = 1
        rw [hset.released, queued_true.mpr hmem]
        rfl
      · next hmem =>
        show (q.jobs i).released = 1
        rw [hset.released, queued_false.mpr hmem]
        rfl
    · have hqueued : (q.cancel j).queued i = q.queued i := by
        unfold queued
        rw [decide_eq_decide]
        exact mem_cancel q hij
      rw [setJob_ne _ hij, cancel_jobs_ne q hij, hqueued]
      exact hset
  · show ∀ r ∈ (q.cancel j).removed, r.1 = r.2
    unfold ReadQueue.cancel
    split <;> exact hc.removed
  · exact (cancel_fault q j).trans hc.defined
  · show (q.cancel j).serving = none → (q.cancel j).readCacheJobList ≠ [] →
      (q.cancel j).readCacheTimer = true
    have htimer : (q.cancel j).readCacheTimer = q.readCacheTimer := by
      unfold ReadQueue.cancel
      split <;> rfl
    rw [cancel_serving, cancel_list, htimer]
    intro hserving hne
    apply hc.armed hserving
    intro hnil
    rw [hnil] at hne
    exact hne rfl

/-- The list may be cleared while it holds no other job than the one that is served. -/
theorem Complete.cacheOp (hc : q.Complete) (h : q.Sound) (op : Manager.Op) :
    (q.cacheOp op).Complete ↔ q.Passes (.cache op) := by
  unfold ReadQueue.cacheOp
  dsimp only
  split
  · next hclears =>
    have hpasses : q.Passes (.cache op) ↔ ∀ j ∈ q.readCacheJobList, q.serves j = true :=
      ⟨fun hp => hp hclears, fun hp _ => hp⟩
    rw [hpasses]
    have hjob : ∀ i, q.dropReaders.jobs i = if i ∈ q.readCacheJobList then
        { q.jobs i with released := (q.jobs i).released + 1 } else q.jobs i := fun _ => rfl
    constructor
    · intro hd i hi
      by_contra hno
      have hno : q.serves i = false := by simpa using hno
      have htold : q.told i = false := by
        cases hs : q.serving with
        | none => exact told_of_none hs i
        | some v =>
          rw [serves_of_some hs] at hno
          rw [told_of_some hs, hno, Bool.false_and]
      have hlt := h.listed.known i hi
      have hasked := h.listed.asked i hi
      have hbefore := (hc.settled i hlt).once hasked
      rw [queued_true.mpr hi, htold] at hbefore
      have hafter : Settled (q.dropReaders.jobs i) false (q.serves i) (q.told i) := hd.settled i hlt
      rw [hjob, if_pos hi, hno, htold] at hafter
      have hone := hafter.once hasked
      rw [show (q.jobs i).terminals = 1 from hone] at hbefore
      cases hbefore
    · intro hall
      refine ⟨?_, hc.removed, hc.defined, fun _ hne => absurd rfl hne⟩
      intro i hi
      show Settled (q.dropReaders.jobs i) false (q.serves i) (q.told i)
      have hset := hc.settled i hi
      rw [hjob]
      by_cases hmem : i ∈ q.readCacheJobList
      · rw [queued_true.mpr hmem, hall i hmem] at hset
        rw [if_pos hmem, hall i hmem]
        refine ⟨hset.once, ?_, fun hno => nomatch hno⟩
        show (q.jobs i).released + 1 = 1
        rw [hset.released]
        rfl
      · rw [queued_false.mpr hmem] at hset
        rw [if_neg hmem]
        exact hset
  · next hclears =>
    exact iff_of_true ⟨hc.settled, hc.removed, hc.defined, hc.armed⟩ (fun hp => absurd hp hclears)

end

/-- no job yet; the cache may hold anything -/
structure Initial (q : ReadQueue) : Prop where
  next : q.next = 0
  list : q.readCacheJobList = []
  serving : q.serving = none
  fault : q.fault = false
  removed : q.removed = []

theorem Initial.sound {q : ReadQueue} (h : q.Initial) : q.Sound := by
  have hno : ∀ j, j ∉ q.readCacheJobList := by
    rw [h.list]
    exact fun j => List.not_mem_nil
  refine ⟨⟨?_, fun j hj => absurd hj (hno j), fun j hj => absurd hj (hno j),
    fun j hj => absurd hj (hno j)⟩, ?_⟩
  · rw [h.list]
    exact List.nodup_nil
  · intro v hv
    rw [h.serving] at hv
    cases hv

theorem Initial.complete {q : ReadQueue} (h : q.Initial) : q.Complete := by
  refine ⟨?_, ?_, h.fault, fun _ hne => absurd h.list hne⟩
  · intro j hj
    rw [h.next] at hj
    exact absurd hj (Nat.not_lt_zero j)
  · rw [h.removed]
    exact fun r hr => absurd hr List.not_mem_nil

end ReadQueue

end

namespace ReadQueue
open Sample

/-- an empty list -/
def idle : ReadQueue where
  manager := {}
  jobs := fun _ => { url := page 1 }
  next := 0
  readCacheJobList := []
  readCacheTimer := false
  serving := none
  fault := false
  removed := []

/-- `http://a/` is cached, and a job asks for it -/
def asked : List Op :=
  [.cache (got (page 1) byte), .cache (tick byte), .schedule (page 1) true true 0 false, .fire]

end ReadQueue

end Wkc
