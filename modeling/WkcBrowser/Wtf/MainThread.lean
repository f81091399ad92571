import Mathlib.Algebra.Ring.Nat
import Mathlib.Data.List.Basic
import Mathlib.Data.List.Count
import Mathlib.Data.List.Nodup
import WkcBrowser.Lib.Runs

/-!
# Functions that other threads have the main thread call (MainThread.cpp, MainThreadWKC.cpp)

A thread appends its function to the queue under the mutex; who finds the queue empty starts the
one-shot timer of the main thread, after the mutex.  The timer calls `dispatchFunctionsFromMainThread`.
A step is what happens under one lock, or between two.

* `State`, `Op`, `step`     the queue, the timer, and where the threads are;
* `cancelLoop_eq`           cancelling takes out every function that matches;
* `Inv`                     the invariant of all runs;
* `calls_kept`              the functions are called in order, each once, but for those cancelled;
                            a thread waits exactly while its function is queued or running;
* `queue_served`            as long as callbacks are not paused, going on without new calls ends, and
                            ends with nothing queued and nobody waiting.
-/

namespace Wkc.MainThread
open Runs

/-! ## the state -/

/-- `syncFlag` is the condition on the stack of the thread that waits -/
structure FunctionWithContext where
  function : Nat
  context : Nat
  syncFlag : Option Nat := none
  deriving DecidableEq

/-- The number of the call is not in the source. -/
structure Queued where
  number : Nat
  invocation : FunctionWithContext
  deriving DecidableEq

/-- where a call of `dispatchFunctionsFromMainThread` is -/
inductive Dispatch
  /-- at the head of its loop -/
  | head
  | calling (q : Queued)
  /-- the function is back, and its thread has been told -/
  | called
  deriving DecidableEq

structure State where
  functionQueue : List Queued := []
  callbacksPaused : Bool := false
  timer : Bool := false
  /-- the innermost first -/
  dispatches : List Dispatch := []
  /-- the threads that are to start the timer -/
  scheduling : List Nat := []
  waiting : List Nat := []
  /-- all that was ever queued, what was taken off to be called, and what was cancelled -/
  appended : List Queued := []
  taken : List Queued := []
  cancelled : List Nat := []
  deriving DecidableEq

def mainThread : Nat := 0

/-- the main thread runs the event loop or a function that was called from it -/
def inApp (s : State) : Bool :=
  match s.dispatches with
  | [] => true
  | .calling _ :: _ => true
  | _ => false

def free (s : State) (t : Nat) : Prop :=
  t ∉ s.scheduling ∧ t ∉ s.waiting ∧ (t = mainThread → inApp s = true)

instance (s : State) (t : Nat) : Decidable (free s t) := inferInstanceAs (Decidable (_ ∧ _ ∧ _))

/-! ## the functions -/

def append (m : FunctionWithContext) (s : State) : State :=
  { s with
    functionQueue := s.functionQueue ++ [⟨s.appended.length, m⟩]
    appended := s.appended ++ [⟨s.appended.length, m⟩] }

def callOnMainThread (t function context : Nat) (s : State) : State :=
  let needToSchedule := s.functionQueue.isEmpty
  let s := append ⟨function, context, none⟩ s
  if needToSchedule then { s with scheduling := t :: s.scheduling } else s

def scheduleDispatchFunctionsOnMainThread (s : State) : State := { s with timer := true }

/-- by a thread that is not the main thread, up to its waiting -/
def callOnMainThreadAndWait (t function context : Nat) (s : State) : State :=
  let s := append ⟨function, context, some t⟩ s
  let s := if s.functionQueue.length = 1 then scheduleDispatchFunctionsOnMainThread s else s
  { s with waiting := t :: s.waiting }

def cancelLoop (m : FunctionWithContext) (queue : List Queued) : List Queued :=
  if _ : queue.any (fun q => q.invocation = m) = true then
    cancelLoop m (queue.eraseP fun q => q.invocation = m)
  else queue
termination_by queue.length
decreasing_by
  obtain ⟨q, hq, hm⟩ := List.any_eq_true.mp ‹_›
  rw [List.length_eraseP_of_mem hq hm]
  exact Nat.sub_lt (List.length_pos_of_mem hq) Nat.one_pos

def cancelCallOnMainThread (function context : Nat) (s : State) : State :=
  { s with
    functionQueue := cancelLoop ⟨function, context, none⟩ s.functionQueue
    cancelled := s.cancelled ++
      (s.functionQueue.filter fun q => q.invocation = ⟨function, context, none⟩).map Queued.number }

def setMainThreadCallbacksPaused (paused : Bool) (s : State) : State :=
  if s.callbacksPaused = paused then s
  else
    let s := { s with callbacksPaused := paused }
    if paused = false then scheduleDispatchFunctionsOnMainThread s else s

/-- the timer runs out; the dispatch begins unless callbacks are paused -/
def timeoutFired (s : State) : State :=
  let fired := { s with timer := false }
  if s.callbacksPaused = true then fired else { fired with dispatches := .head :: s.dispatches }

def takeFirst (outer : List Dispatch) (s : State) : State :=
  match s.functionQueue with
  | [] => { s with dispatches := outer }
  | q :: queue => { s with functionQueue := queue, dispatches := .calling q :: outer, taken := s.taken ++ [q] }

/-- the function is back -/
def signal (q : Queued) (outer : List Dispatch) (s : State) : State :=
  let s := { s with dispatches := .called :: outer }
  match q.invocation.syncFlag with
  | none => s
  | some t => { s with waiting := s.waiting.erase t }

/-- `late`: it took longer than `maxRunLoopSuspensionTime` -/
def elapsed (late : Bool) (outer : List Dispatch) (s : State) : State :=
  if late = true then { scheduleDispatchFunctionsOnMainThread s with dispatches := outer }
  else { s with dispatches := .head :: outer }

inductive Op
  | callOnMainThread (t function context : Nat)
  | callOnMainThreadAndWait (t function context : Nat)
  | cancelCallOnMainThread (t function context : Nat)
  | setMainThreadCallbacksPaused (paused : Bool)
  | schedule (t : Nat)
  | timeout
  | takeFirst
  | functionReturns
  | elapsed (late : Bool)

/-- What a thread cannot do now changes nothing. -/
def step (s : State) : Op → State
  | .callOnMainThread t function context => if free s t then callOnMainThread t function context s else s
  | .callOnMainThreadAndWait t function context =>
    if free s t ∧ t ≠ mainThread then callOnMainThreadAndWait t function context s else s
  | .cancelCallOnMainThread t function context => if free s t then cancelCallOnMainThread function context s else s
  | .setMainThreadCallbacksPaused paused =>
    if free s mainThread then setMainThreadCallbacksPaused paused s else s
  | .schedule t =>
    if t ∈ s.scheduling then scheduleDispatchFunctionsOnMainThread { s with scheduling := s.scheduling.erase t } else s
  | .timeout => if s.timer = true ∧ free s mainThread then timeoutFired s else s
  | .takeFirst =>
    match s.dispatches with
    | .head :: outer => takeFirst outer s
    | _ => s
  | .functionReturns =>
    match s.dispatches with
    | .calling q :: outer => if free s mainThread then signal q outer s else s
    | _ => s
  | .elapsed late =>
    match s.dispatches with
    | .called :: outer => elapsed late outer s
    | _ => s

/-! ## cancelling -/

theorem filter_not_eraseP {α : Type*} (p : α → Bool) (l : List α) :
    (l.eraseP p).filter (fun a => !p a) = l.filter fun a => !p a := by
  induction l with
  | nil => rfl
  | cons a l ih =>
    cases ha : p a with
    | true =>
      rw [List.eraseP_cons_of_pos ha, List.filter_cons_of_neg]
      rw [ha]
      decide
    | false =>
      rw [List.eraseP_cons_of_neg (by rw [ha]; decide), List.filter_cons, List.filter_cons, ih]

theorem cancelLoop_eq (m : FunctionWithContext) (queue : List Queued) :
    cancelLoop m queue = queue.filter fun q => !decide (q.invocation = m) := by
  induction queue using cancelLoop.induct m with
  | case1 queue h ih =>
    rw [cancelLoop, dif_pos h, ih, filter_not_eraseP]
  | case2 queue h =>
    rw [cancelLoop, dif_neg h]
    refine (List.filter_eq_self.mpr fun q hq => ?_).symm
    have hnone := (Bool.eq_false_iff.mpr h)
    rw [List.any_eq_false] at hnone
    exact Bool.not_eq_true' _ ▸ Bool.eq_false_iff.mpr (hnone q hq)

/-! ## the invariant -/

def flag (q : Queued) : Option Nat := q.invocation.syncFlag

def Dispatch.running : Dispatch → Option Queued
  | .calling q => some q
  | _ => none

def running (s : State) : List Queued := s.dispatches.filterMap Dispatch.running

structure Inv (s : State) : Prop where
  served : s.taken ++ s.functionQueue = s.appended.filter fun q => !decide (q.number ∈ s.cancelled)
  numbers : s.appended.map Queued.number = List.range s.appended.length
  cancelled : ∀ n, n ∈ s.cancelled → ∃ q, q ∈ s.appended ∧ q.number = n ∧ flag q = none
  wakeup : s.functionQueue ≠ [] →
    s.timer = true ∨ s.callbacksPaused = true ∨ s.dispatches ≠ [] ∨ s.scheduling ≠ []
  waits : ((running s ++ s.functionQueue).filterMap flag).Perm s.waiting
  nodup : s.waiting.Nodup
  main : mainThread ∉ s.waiting

theorem Inv.number_lt {s : State} (h : Inv s) {q : Queued} (hq : q ∈ s.appended) : q.number < s.appended.length := by
  have hmem := List.mem_map_of_mem (f := Queued.number) hq
  rw [h.numbers] at hmem
  exact List.mem_range.mp hmem

theorem Inv.served_nodup {s : State} (h : Inv s) : ((s.taken ++ s.functionQueue).map Queued.number).Nodup := by
  rw [h.served]
  refine List.Nodup.sublist (List.filter_sublist.map Queued.number) ?_
  rw [h.numbers]
  exact List.nodup_range

theorem Inv.append {s : State} (h : Inv s) (m : FunctionWithContext) :
    (append m s).taken ++ (append m s).functionQueue =
      (append m s).appended.filter (fun q => !decide (q.number ∈ (append m s).cancelled)) ∧
    (append m s).appended.map Queued.number = List.range (append m s).appended.length ∧
    ∀ n, n ∈ s.cancelled → ∃ q, q ∈ (append m s).appended ∧ q.number = n ∧ flag q = none := by
  refine ⟨?_, ?_, fun n hn => ?_⟩
  · show s.taken ++ (s.functionQueue ++ [_]) = (s.appended ++ [_]).filter _
    have hnew : s.appended.length ∉ s.cancelled := by
      intro hc
      obtain ⟨q, hq, hn, -⟩ := h.cancelled _ hc
      exact absurd hn (Nat.ne_of_lt (h.number_lt hq))
    have hlast : ([⟨s.appended.length, m⟩] : List Queued).filter (fun q => !decide (q.number ∈ s.cancelled)) =
        [⟨s.appended.length, m⟩] := by
      rw [List.filter_singleton, decide_eq_false hnew]
      rfl
    rw [← List.append_assoc, h.served, List.filter_append]
    exact congrArg _ hlast.symm
  · show (s.appended ++ [_]).map _ = List.range (s.appended ++ [_]).length
    rw [List.map_append, h.numbers, List.length_append, List.length_singleton, List.range_succ]
    rfl
  · obtain ⟨q, hq, hn', hf⟩ := h.cancelled n hn
    exact ⟨q, List.mem_append_left _ hq, hn', hf⟩

theorem Inv.append_waits {s : State} (h : Inv s) (m : FunctionWithContext) :
    ((running s ++ (MainThread.append m s).functionQueue).filterMap flag).Perm (s.waiting ++ m.syncFlag.toList) := by
  show ((running s ++ (s.functionQueue ++ [_])).filterMap flag).Perm _
  rw [← List.append_assoc, List.filterMap_append]
  refine h.waits.append (List.Perm.of_eq ?_)
  cases hm : m.syncFlag with
  | none => exact List.filterMap_cons_none hm
  | some t => exact List.filterMap_cons_some hm

theorem Inv.callOnMainThread {s : State} (h : Inv s) (t function context : Nat) :
    Inv (callOnMainThread t function context s) := by
  obtain ⟨hserved, hnumbers, hcancelled⟩ := h.append ⟨function, context, none⟩
  have hwaits := (h.append_waits ⟨function, context, none⟩).trans (List.Perm.of_eq (List.append_nil _))
  unfold MainThread.callOnMainThread
  dsimp only
  split
  · exact ⟨hserved, hnumbers, hcancelled, fun _ => Or.inr (Or.inr (Or.inr (List.cons_ne_nil _ _))), hwaits, h.nodup, h.main⟩
  · rename_i hempty
    refine ⟨hserved, hnumbers, hcancelled, fun _ => h.wakeup fun hc => hempty ?_, hwaits, h.nodup, h.main⟩
    rw [hc]
    rfl

theorem Inv.callOnMainThreadAndWait {s : State} (h : Inv s) {t : Nat} (ht : t ∉ s.waiting) (hm : t ≠ mainThread)
    (function context : Nat) :
    Inv (callOnMainThreadAndWait t function context s) := by
  obtain ⟨hserved, hnumbers, hcancelled⟩ := h.append ⟨function, context, some t⟩
  have hwaits := (h.append_waits ⟨function, context, some t⟩).trans List.perm_append_comm
  have hmain : mainThread ∉ t :: s.waiting := fun hc => (List.mem_cons.mp hc).elim (fun hc => hm hc.symm) h.main
  unfold MainThread.callOnMainThreadAndWait
  dsimp only
  split
  · exact ⟨hserved, hnumbers, hcancelled, fun _ => Or.inl rfl, hwaits, List.nodup_cons.mpr ⟨ht, h.nodup⟩, hmain⟩
  · rename_i hlen
    refine ⟨hserved, hnumbers, hcancelled, fun _ => h.wakeup fun hc => hlen ?_, hwaits,
      List.nodup_cons.mpr ⟨ht, h.nodup⟩, hmain⟩
    show (s.functionQueue ++ [_]).length = 1
    rw [hc]
    rfl

theorem Inv.cancelCallOnMainThread {s : State} (h : Inv s) (function context : Nat) :
    Inv (cancelCallOnMainThread function context s) := by
  have hsub : ∀ q, q ∈ s.taken ++ s.functionQueue → q ∈ s.appended := by
    intro q hq
    rw [h.served] at hq
    exact List.mem_of_mem_filter hq
  have hnodup := h.served_nodup
  rw [List.map_append, List.nodup_append] at hnodup
  obtain ⟨-, hqueue, hdisjoint⟩ := hnodup
  -- the number of a queued function decides which it is
  have hinj : ∀ q r, q ∈ s.functionQueue → r ∈ s.functionQueue → q.number = r.number → q = r := by
    intro q r hq hr hqr
    exact List.inj_on_of_nodup_map hqueue hq hr hqr
  refine ⟨?_, h.numbers, fun n hn => ?_, fun hne => h.wakeup fun hc => hne ?_, ?_, h.nodup, h.main⟩
  · show s.taken ++ cancelLoop _ s.functionQueue = s.appended.filter fun q => !decide (q.number ∈ s.cancelled ++ _)
    have hsplit : (fun q : Queued => !decide (q.number ∈ s.cancelled ++ (s.functionQueue.filter fun q =>
        q.invocation = (⟨function, context, none⟩ : FunctionWithContext)).map Queued.number)) =
        fun q => (!decide (q.number ∈ (s.functionQueue.filter fun q =>
          q.invocation = (⟨function, context, none⟩ : FunctionWithContext)).map Queued.number)) &&
          !decide (q.number ∈ s.cancelled) := by
      funext q
      rw [Bool.and_comm, ← Bool.not_or, ← Bool.decide_or]
      congr 1
      exact decide_eq_decide.mpr List.mem_append
    rw [hsplit, ← List.filter_filter, ← h.served, List.filter_append, cancelLoop_eq]
    congr 1
    · refine (List.filter_eq_self.mpr fun q hq => ?_).symm
      rw [Bool.not_eq_true', decide_eq_false_iff_not]
      intro hc
      obtain ⟨r, hr, hrn⟩ := List.mem_map.mp hc
      exact hdisjoint q.number (List.mem_map_of_mem hq) r.number (List.mem_map_of_mem (List.mem_of_mem_filter hr))
        hrn.symm
    · refine List.filter_congr fun q hq => ?_
      congr 1
      refine decide_eq_decide.mpr ⟨fun hm => ?_, fun hm => ?_⟩
      · exact List.mem_map_of_mem (List.mem_filter.mpr ⟨hq, decide_eq_true hm⟩)
      · obtain ⟨r, hr, hrn⟩ := List.mem_map.mp hm
        obtain ⟨hr', hm'⟩ := List.mem_filter.mp hr
        rw [← hinj r q hr' hq hrn]
        exact of_decide_eq_true hm'
  · rcases List.mem_append.mp hn with hn | hn
    · exact h.cancelled n hn
    · obtain ⟨q, hq, hqn⟩ := List.mem_map.mp hn
      obtain ⟨hq', hm⟩ := List.mem_filter.mp hq
      refine ⟨q, hsub q (List.mem_append_right _ hq'), hqn, ?_⟩
      unfold flag
      rw [of_decide_eq_true hm]
  · show cancelLoop _ s.functionQueue = []
    rw [hc, cancelLoop_eq, List.filter_nil]
  · show ((running s ++ cancelLoop _ s.functionQueue).filterMap flag).Perm s.waiting
    have hkeep : (cancelLoop ⟨function, context, none⟩ s.functionQueue).filterMap flag = s.functionQueue.filterMap flag := by
      rw [cancelLoop_eq, List.filterMap_filter]
      refine List.filterMap_congr fun q _ => ?_
      split
      · rfl
      · rename_i hm
        have hm' : q.invocation = ⟨function, context, none⟩ := by simpa using hm
        unfold flag
        rw [hm']
    rw [List.filterMap_append, hkeep, ← List.filterMap_append]
    exact h.waits

theorem Inv.setMainThreadCallbacksPaused {s : State} (h : Inv s) (paused : Bool) :
    Inv (setMainThreadCallbacksPaused paused s) := by
  unfold MainThread.setMainThreadCallbacksPaused
  split
  · exact h
  · dsimp only
    split
    · exact { h with wakeup := fun _ => Or.inl rfl }
    · rename_i hp
      exact { h with wakeup := fun _ => Or.inr (Or.inl (Bool.not_eq_false _ ▸ hp)) }

theorem Inv.timeoutFired {s : State} (h : Inv s) : Inv (timeoutFired s) := by
  unfold MainThread.timeoutFired
  dsimp only
  split
  · rename_i hp
    exact { h with wakeup := fun _ => Or.inr (Or.inl hp) }
  · exact { h with wakeup := fun _ => Or.inr (Or.inr (Or.inl (List.cons_ne_nil _ _))) }

theorem Inv.takeFirst {s : State} (h : Inv s) {outer : List Dispatch} (ho : s.dispatches = .head :: outer) :
    Inv (takeFirst outer s) := by
  have hrunning : running s = outer.filterMap Dispatch.running := by
    unfold running
    rw [ho]
    rfl
  unfold MainThread.takeFirst
  split
  · rename_i hq
    have hw := h.waits
    rw [hrunning] at hw
    exact { h with wakeup := fun hne => absurd hq hne, waits := hw }
  · rename_i q queue hq
    refine ⟨?_, h.numbers, h.cancelled, fun _ => Or.inr (Or.inr (Or.inl (List.cons_ne_nil _ _))), ?_, h.nodup, h.main⟩
    · show s.taken ++ [q] ++ queue = s.appended.filter _
      rw [List.append_assoc, List.singleton_append, ← hq]
      exact h.served
    · have hw := h.waits
      rw [hrunning, hq] at hw
      exact ((List.perm_middle (a := q)).symm.filterMap flag).trans hw

theorem Inv.signal {s : State} (h : Inv s) {q : Queued} {outer : List Dispatch}
    (ho : s.dispatches = .calling q :: outer) : Inv (signal q outer s) := by
  have hw := h.waits
  unfold running at hw
  rw [ho] at hw
  have hcons : ((q :: (outer.filterMap Dispatch.running ++ s.functionQueue)).filterMap flag).Perm s.waiting := hw
  unfold MainThread.signal
  dsimp only
  split
  · rename_i hf
    rw [List.filterMap_cons_none (show flag q = none from hf)] at hcons
    exact { h with wakeup := fun _ => Or.inr (Or.inr (Or.inl (List.cons_ne_nil _ _))), waits := hcons }
  · rename_i t hf
    rw [List.filterMap_cons_some (show flag q = some t from hf)] at hcons
    refine ⟨h.served, h.numbers, h.cancelled, fun _ => Or.inr (Or.inr (Or.inl (List.cons_ne_nil _ _))), ?_,
      h.nodup.erase t, fun hc => h.main (List.mem_of_mem_erase hc)⟩
    have herase := hcons.erase t
    rwa [List.erase_cons_head] at herase

theorem Inv.elapsed {s : State} (h : Inv s) {outer : List Dispatch} (ho : s.dispatches = .called :: outer)
    (late : Bool) : Inv (elapsed late outer s) := by
  have hw := h.waits
  unfold running at hw
  rw [ho] at hw
  unfold MainThread.elapsed
  split
  · exact { h with wakeup := fun _ => Or.inl rfl, waits := hw }
  · exact { h with wakeup := fun _ => Or.inr (Or.inr (Or.inl (List.cons_ne_nil _ _))), waits := hw }

theorem step_inv {s : State} (h : Inv s) (op : Op) : Inv (step s op) := by
  cases op with
  | callOnMainThread t function context =>
    simp only [step]
    split
    · exact h.callOnMainThread t function context
    · exact h
  | callOnMainThreadAndWait t function context =>
    simp only [step]
    split
    · rename_i hfree
      exact h.callOnMainThreadAndWait hfree.1.2.1 hfree.2 function context
    · exact h
  | cancelCallOnMainThread t function context =>
    simp only [step]
    split
    · exact h.cancelCallOnMainThread function context
    · exact h
  | setMainThreadCallbacksPaused paused =>
    simp only [step]
    split
    · exact h.setMainThreadCallbacksPaused paused
    · exact h
  | schedule t =>
    simp only [step]
    split
    · exact { h with wakeup := fun _ => Or.inl rfl }
    · exact h
  | timeout =>
    simp only [step]
    split
    · exact h.timeoutFired
    · exact h
  | takeFirst =>
    simp only [step]
    split
    · rename_i outer ho
      exact h.takeFirst ho
    · exact h
  | functionReturns =>
    simp only [step]
    split
    · rename_i q outer ho
      split
      · exact h.signal ho
      · exact h
    · exact h
  | elapsed late =>
    simp only [step]
    split
    · rename_i outer ho
      exact h.elapsed ho late
    · exact h

theorem run_inv_init (ops : List Op) : Inv (run step {} ops) :=
  run_inv (P := Inv) (fun _ op h => step_inv h op)
    ⟨rfl, rfl, fun _ hn => absurd hn List.not_mem_nil, fun hc => absurd rfl hc, List.Perm.refl _, List.nodup_nil, List.not_mem_nil⟩ ops

/-- what was taken off to be called and what is queued is what was appended, in order, but for what was cancelled;
and a thread waits exactly while its function is queued or running -/
theorem calls_kept (ops : List Op) :
    (run step {} ops).taken ++ (run step {} ops).functionQueue =
        (run step {} ops).appended.filter (fun q => !decide (q.number ∈ (run step {} ops).cancelled)) ∧
      ((run step {} ops).appended.map Queued.number).Nodup ∧
      (∀ n, n ∈ (run step {} ops).cancelled → ∃ q, q ∈ (run step {} ops).appended ∧ q.number = n ∧ flag q = none) ∧
      ∀ t, t ∈ (run step {} ops).waiting ↔
        ∃ q, q ∈ running (run step {} ops) ++ (run step {} ops).functionQueue ∧ flag q = some t := by
  have h := run_inv_init ops
  refine ⟨h.served, ?_, h.cancelled, fun t => ?_⟩
  · rw [h.numbers]
    exact List.nodup_range
  · rw [← h.waits.mem_iff, List.mem_filterMap]

/-! ## going on without new calls -/

/-- what the threads do without the application: it returns from the functions, and nothing more -/
def Op.system : Op → Bool
  | .schedule _ | .timeout | .takeFirst | .functionReturns | .elapsed _ => true
  | _ => false

def Dispatch.left : Dispatch → Nat
  | .head => 1
  | .called => 3
  | .calling _ => 4

def weigh (queued scheduling : Nat) (timer : Bool) (dispatches : List Dispatch) : Nat :=
  4 * queued + 3 * scheduling + (if timer = true then 2 else 0) + (dispatches.map Dispatch.left).sum

def left (s : State) : Nat := weigh s.functionQueue.length s.scheduling.length s.timer s.dispatches

theorem weigh_cons (queued scheduling : Nat) (timer : Bool) (d : Dispatch) (outer : List Dispatch) :
    weigh queued scheduling timer (d :: outer) = weigh queued scheduling timer outer + d.left := by
  unfold weigh
  rw [List.map_cons, List.sum_cons]
  omega

theorem weigh_timer (queued scheduling : Nat) (timer : Bool) (outer : List Dispatch) :
    weigh queued scheduling true outer ≤ weigh queued scheduling timer outer + 2 := by
  unfold weigh
  split <;> split <;> omega

theorem weigh_queued (queued scheduling : Nat) (timer : Bool) (outer : List Dispatch) :
    weigh (queued + 1) scheduling timer outer = weigh queued scheduling timer outer + 4 := by
  unfold weigh
  omega

theorem weigh_scheduling (queued scheduling : Nat) (timer : Bool) (outer : List Dispatch) :
    weigh queued (scheduling + 1) timer outer = weigh queued scheduling timer outer + 3 := by
  unfold weigh
  omega

theorem system_left {s : State} {op : Op} (hop : op.system = true) : step s op = s ∨ left (step s op) < left s := by
  cases op with
  | callOnMainThread _ _ _ | callOnMainThreadAndWait _ _ _ | cancelCallOnMainThread _ _ _
  | setMainThreadCallbacksPaused _ => exact absurd hop nofun
  | schedule t =>
    simp only [step]
    split
    · rename_i ht
      right
      have hlen : s.scheduling.length = (s.scheduling.erase t).length + 1 := by
        have := List.length_erase_of_mem ht
        have := List.length_pos_of_mem ht
        omega
      have htimer := weigh_timer s.functionQueue.length (s.scheduling.erase t).length s.timer s.dispatches
      show weigh s.functionQueue.length (s.scheduling.erase t).length true s.dispatches <
        weigh s.functionQueue.length s.scheduling.length s.timer s.dispatches
      rw [hlen, weigh_scheduling]
      omega
    · exact Or.inl rfl
  | timeout =>
    simp only [step]
    split
    · rename_i ht
      right
      have hstopped : weigh s.functionQueue.length s.scheduling.length true s.dispatches =
          weigh s.functionQueue.length s.scheduling.length false s.dispatches + 2 := by
        unfold weigh
        rw [if_pos rfl, if_neg (by decide)]
        omega
      unfold left
      rw [ht.1, hstopped]
      unfold timeoutFired
      dsimp only
      split
      · exact Nat.lt_add_of_pos_right (by decide)
      · show weigh _ _ false (.head :: s.dispatches) < _
        rw [weigh_cons]
        exact Nat.add_lt_add_left (by decide) _
    · exact Or.inl rfl
  | takeFirst =>
    simp only [step]
    split
    · rename_i outer ho
      right
      unfold left
      rw [ho, weigh_cons]
      unfold takeFirst
      split
      · exact Nat.lt_add_of_pos_right (by decide)
      · rename_i q queue hq
        show weigh queue.length s.scheduling.length s.timer (.calling q :: outer) < _
        rw [hq, List.length_cons, weigh_queued, weigh_cons]
        show _ + 4 < _ + 4 + 1
        omega
    · exact Or.inl rfl
  | functionReturns =>
    simp only [step]
    split
    · rename_i q outer ho
      split
      · right
        have hleft : left (signal q outer s) =
            weigh s.functionQueue.length s.scheduling.length s.timer (.called :: outer) := by
          unfold signal
          dsimp only
          split <;> rfl
        unfold left at hleft ⊢
        rw [hleft, ho, weigh_cons, weigh_cons]
        exact Nat.add_lt_add_left (by decide : (3 : Nat) < 4) _
      · exact Or.inl rfl
    · exact Or.inl rfl
  | elapsed late =>
    simp only [step]
    split
    · rename_i outer ho
      right
      unfold left
      rw [ho, weigh_cons]
      have htimer := weigh_timer s.functionQueue.length s.scheduling.length s.timer outer
      unfold elapsed
      split
      · show weigh s.functionQueue.length s.scheduling.length true outer < _ + 3
        omega
      · show weigh _ _ _ (.head :: outer) < _
        rw [weigh_cons]
        exact Nat.add_lt_add_left (by decide : (1 : Nat) < 3) _
    · exact Or.inl rfl

theorem stuck_done {s : State} (h : Inv s) (hp : s.callbacksPaused = false)
    (hstuck : ∀ op : Op, op.system = true → step s op = s) :
    s.functionQueue = [] ∧ s.waiting = [] ∧ s.dispatches = [] ∧ s.scheduling = [] := by
  have hscheduling : s.scheduling = [] := by
    by_contra hne
    obtain ⟨t, rest, ht⟩ := List.exists_cons_of_ne_nil hne
    have hmem : t ∈ s.scheduling := ht ▸ List.mem_cons_self
    have hstep := congrArg (fun s => s.scheduling.length) (hstuck (.schedule t) rfl)
    simp only [step, if_pos hmem] at hstep
    have hstep' : (s.scheduling.erase t).length = s.scheduling.length := hstep
    have hlen := List.length_erase_of_mem hmem
    have hpos := List.length_pos_of_mem hmem
    omega
  have hfree : inApp s = true → free s mainThread := fun happ =>
    ⟨hscheduling ▸ List.not_mem_nil, h.main, fun _ => happ⟩
  have hdispatches : s.dispatches = [] := by
    cases hd : s.dispatches with
    | nil => rfl
    | cons d outer =>
      exfalso
      cases d with
      | head =>
        have hstep := congrArg State.dispatches (hstuck .takeFirst rfl)
        simp only [step, hd] at hstep
        unfold takeFirst at hstep
        split at hstep
        · exact absurd hstep (List.cons_ne_self _ _).symm
        · cases hstep
      | calling q =>
        have hstep := congrArg State.dispatches (hstuck .functionReturns rfl)
        have happ : inApp s = true := by
          unfold inApp
          rw [hd]
        simp only [step, hd, if_pos (hfree happ)] at hstep
        unfold signal at hstep
        dsimp only at hstep
        split at hstep <;> cases hstep
      | called =>
        have hstep := congrArg State.dispatches (hstuck (.elapsed true) rfl)
        simp only [step, hd, elapsed, if_true] at hstep
        exact absurd hstep (List.cons_ne_self _ _).symm
  have htimer : s.timer = false := by
    by_contra ht
    have ht' : s.timer = true := Bool.not_eq_false _ ▸ ht
    have happ : inApp s = true := by
      unfold inApp
      rw [hdispatches]
    have hstep := congrArg State.timer (hstuck .timeout rfl)
    simp only [step, if_pos (And.intro ht' (hfree happ))] at hstep
    unfold timeoutFired at hstep
    dsimp only at hstep
    rw [if_neg (by rw [hp]; decide)] at hstep
    exact ht hstep.symm
  have hqueue : s.functionQueue = [] := by
    by_contra hne
    rcases h.wakeup hne with hc | hc | hc | hc
    · exact absurd (htimer.symm.trans hc) nofun
    · exact absurd (hp.symm.trans hc) nofun
    · exact hc hdispatches
    · exact hc hscheduling
  refine ⟨hqueue, ?_, hdispatches, hscheduling⟩
  have hw := h.waits
  unfold running at hw
  rw [hdispatches, hqueue] at hw
  exact List.nil_perm.mp hw

theorem system_keeps (s : State) {op : Op} (hop : op.system = true) :
    (step s op).taken ++ (step s op).functionQueue = s.taken ++ s.functionQueue ∧
      (step s op).callbacksPaused = s.callbacksPaused := by
  cases op with
  | callOnMainThread _ _ _ | callOnMainThreadAndWait _ _ _ | cancelCallOnMainThread _ _ _
  | setMainThreadCallbacksPaused _ => exact absurd hop nofun
  | schedule t =>
    simp only [step]
    split <;> exact ⟨rfl, rfl⟩
  | timeout =>
    simp only [step, timeoutFired]
    split
    · split <;> exact ⟨rfl, rfl⟩
    · exact ⟨rfl, rfl⟩
  | takeFirst =>
    simp only [step, takeFirst]
    split
    · split
      · exact ⟨rfl, rfl⟩
      · rename_i q queue hq
        rw [hq]
        exact ⟨List.append_assoc _ _ _, rfl⟩
    · exact ⟨rfl, rfl⟩
  | functionReturns =>
    simp only [step, signal]
    split
    · split
      · split <;> exact ⟨rfl, rfl⟩
      · exact ⟨rfl, rfl⟩
    · exact ⟨rfl, rfl⟩
  | elapsed late =>
    simp only [step, elapsed]
    split
    · split <;> exact ⟨rfl, rfl⟩
    · exact ⟨rfl, rfl⟩

/-- the system does `op`, and it does something -/
def Going (s : State) (op : Op) : Prop := op.system = true ∧ step s op ≠ s

instance (s : State) (op : Op) : Decidable (Going s op) := inferInstanceAs (Decidable (_ ∧ _))

theorem going_ends {s : State} {more : List Op} (h : Along step Going s more) :
    more.length + left (run step s more) ≤ left s := by
  induction more generalizing s with
  | nil => exact Nat.le_of_eq (Nat.zero_add _)
  | cons op more ih =>
    have hlt := (system_left h.1.1).resolve_left h.1.2
    have hrest := ih h.2
    rw [run_cons, List.length_cons]
    omega

/-- going on without new calls ends, and where it ends everything that was queued has been called, in order -/
theorem queue_served (ops : List Op) (hp : (run step {} ops).callbacksPaused = false) (more : List Op)
    (hmore : Along step Going (run step {} ops) more) :
    more.length ≤ left (run step {} ops) ∧
    ((∀ op : Op, ¬ Going (run step (run step {} ops) more) op) →
      (run step (run step {} ops) more).taken = (run step {} ops).taken ++ (run step {} ops).functionQueue ∧
      (run step (run step {} ops) more).functionQueue = [] ∧ (run step (run step {} ops) more).waiting = []) := by
  have hinv := run_inv_init ops
  generalize run step {} ops = s at hp hmore hinv ⊢
  refine ⟨by have := going_ends hmore; omega, fun hstuck => ?_⟩
  have hkept : (run step s more).taken ++ (run step s more).functionQueue = s.taken ++ s.functionQueue ∧
      (run step s more).callbacksPaused = s.callbacksPaused :=
    hmore.inv (P := fun s' => s'.taken ++ s'.functionQueue = s.taken ++ s.functionQueue ∧
        s'.callbacksPaused = s.callbacksPaused)
      (fun s' op hop h => ⟨(system_keeps s' hop.1).1.trans h.1, (system_keeps s' hop.1).2.trans h.2⟩) ⟨rfl, rfl⟩
  have hinv' : Inv (run step s more) := run_inv (P := Inv) (fun _ op h => step_inv h op) hinv more
  obtain ⟨hqueue, hwaiting, -, -⟩ := stuck_done hinv' (hkept.2.trans hp) fun op hop =>
    not_not.mp fun hne => hstuck op ⟨hop, hne⟩
  refine ⟨?_, hqueue, hwaiting⟩
  have htaken := hkept.1
  rwa [hqueue, List.append_nil] at htaken

/-- a function of one thread and one that another thread waits for -/
theorem queue_served_two :
    let s := run step {} [.callOnMainThread 1 7 70, .callOnMainThreadAndWait 2 8 80]
    let more := [.schedule 1, .timeout, .takeFirst, .functionReturns, .elapsed true, .timeout, .takeFirst,
      .functionReturns, .elapsed false, .takeFirst]
    (run step s more).taken = [⟨0, ⟨7, 70, none⟩⟩, ⟨1, ⟨8, 80, some 2⟩⟩] ∧
    more.length ≤ left s ∧
    ((∀ op : Op, ¬ Going (run step s more) op) →
      (run step s more).taken = s.taken ++ s.functionQueue ∧ (run step s more).functionQueue = [] ∧
        (run step s more).waiting = []) :=
  ⟨by decide, queue_served [.callOnMainThread 1 7 70, .callOnMainThreadAndWait 2 8 80] (by decide)
    [.schedule 1, .timeout, .takeFirst, .functionReturns, .elapsed true, .timeout, .takeFirst,
      .functionReturns, .elapsed false, .takeFirst] (by decide)⟩

end Wkc.MainThread
