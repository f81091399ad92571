import WkcBrowser.Lib.Runs
import WkcBrowser.Wtf.Text
import Mathlib.Data.List.Nodup
import Mathlib.Logic.Function.Basic

/-!
# WebSocket connections: `SocketStreamHandle` and its reservations

A handle reserves a connection while it is constructed and gives it back in `platformClose`.  Both call clients,
which may construct, disconnect and destroy handles in turn; the calls that are still running are a stack.

* `Handle`, `Frame`, `Streams`          the handles by their addresses, the running calls, the list;
* `reserveWebSocketConnection`, ...     the functions of the source, up to the next call of a client;
* `Act`, `step`                         what happens next;
* `Kept`                                the invariant of the list;
* `connections_reserved`                the list is the handles that are open, whatever happens.
-/

namespace Wkc
namespace Stream

inductive SocketState where
  | None
  | Initialized
  | Connected
  | Active
  deriving DecidableEq

inductive StreamState where
  | Connecting
  | Open
  | Closing
  | Closed
  deriving DecidableEq

structure Target where
  host : WString
  port : Nat
  deriving DecidableEq

/-- The memory of a handle; it stays as it is when the handle is destroyed.  `performed`: `curl_multi_perform` has
been run. -/
structure Handle where
  alive : Bool := false
  url : Target := ⟨[], 0⟩
  client : Bool := false
  handle : Bool := false
  multiHandle : Bool := false
  state : StreamState := .Connecting
  socketState : SocketState := .None
  performed : Bool := false

/-- `m_handle && m_multiHandle` -/
def Handle.isSet (x : Handle) : Bool := x.handle && x.multiHandle

/-- how far `construct` comes -/
inductive Outcome where
  | noManager
  | noAuthJar
  | noMultiHandle
  | noHandle
  | noRecvData
  | initialized
  deriving DecidableEq

/-- a call that waits for a client, or for a call it has made itself -/
inductive Frame where
  -- `disconnect`, in `didCloseSocketStream`
  | closing (h : Nat)
  -- `construct`, in the loop over `underClosing`
  | reserving (h : Nat) (underClosing : List Nat) (outcome : Outcome)
  -- `construct`, in `willOpenSocketStream`
  | opening (h : Nat)
  -- `progressTimerFired`, in `didOpenSocketStream`
  | opened (h : Nat)
  deriving DecidableEq

structure Streams where
  handles : Nat → Handle := fun _ => {}
  socketStreamHandleList : List Nat := []
  stack : List Frame := []

namespace Streams

def set (s : Streams) (h : Nat) (x : Handle) : Streams := { s with handles := Function.update s.handles h x }

def push (s : Streams) (f : Frame) : Streams := { s with stack := f :: s.stack }

def releaseWebSocketConnection (s : Streams) (h : Nat) : Streams :=
  { s with socketStreamHandleList := s.socketStreamHandleList.erase h }

def cleared (s : Streams) (h : Nat) : Streams := s.set h { s.handles h with handle := false, multiHandle := false }

/-- up to `didCloseSocketStream`, if there is a client -/
def platformClose (s : Streams) (h : Nat) : Streams :=
  if (s.handles h).isSet = false then s
  else if (s.handles h).client then (s.cleared h).push (.closing h)
  else (s.cleared h).releaseWebSocketConnection h

def closed (s : Streams) (h : Nat) : Streams := s.set h { s.handles h with state := .Closed }

/-- with a client, `m_state` is set when it has returned -/
def disconnect (s : Streams) (h : Nat) : Streams :=
  if (s.handles h).isSet && (s.handles h).client then s.platformClose h else (s.platformClose h).closed h

def close (s : Streams) (h : Nat) (buffered : Bool) : Streams :=
  let x := s.handles h
  match x.state with
  | .Closed => s
  -- nothing can be sent before the stream is open
  | .Connecting => (s.set h { x with state := .Closing }).disconnect h
  | _ =>
    let s := s.set h { x with state := .Closing }
    if buffered then s else s.disconnect h

/-- the end of `reserveWebSocketConnection`, and `construct` after it -/
def construct (max : Nat) (s : Streams) (h : Nat) (outcome : Outcome) : Streams :=
  if max ≤ s.socketStreamHandleList.length then s
  else
    let s := { s with socketStreamHandleList := s.socketStreamHandleList ++ [h] }
    match outcome with
    | .initialized =>
      let x := s.handles h
      let s := s.set h { x with handle := true, multiHandle := true, socketState := .Initialized }
      if x.client then s.push (.opening h) else s
    | _ => s.releaseWebSocketConnection h

/-- The constructor, up to the first `disconnect` of a full list.  `isClosing` is what the clients answer. -/
def create (max : Nat) (s : Streams) (h : Nat) (url : Target) (client : Bool) (outcome : Outcome)
    (isClosing : Nat → Bool) : Streams :=
  let s := s.set h { alive := true, url := url, client := client }
  if outcome = .noManager then s
  else if max ≤ s.socketStreamHandleList.length then
    s.push (.reserving h
      (s.socketStreamHandleList.filter fun item => (s.handles item).client && isClosing item) outcome)
  else s.construct max h outcome

/-- `~SocketStreamHandle` -/
def destroy (s : Streams) (h : Nat) : Streams :=
  let s := (s.set h { s.handles h with client := false }).platformClose h
  s.set h { s.handles h with alive := false }

/-- another handle of the same server that does not let this one start -/
def blocks (s : Streams) (h item : Nat) : Bool :=
  item != h && (s.handles item).url == (s.handles h).url &&
    match (s.handles item).socketState with
    | .Initialized => false
    | .Active => false
    | _ => true

def canStartWebSocketConnecting (s : Streams) (h : Nat) : Bool :=
  s.socketStreamHandleList.contains h && !s.socketStreamHandleList.any (s.blocks h)

/-- what curl or the socket has to say -/
inductive Event where
  | nothing
  | failed
  | ready
  deriving DecidableEq

/-- Up to `didOpenSocketStream`.  The calls of other clients come last, and what they do comes after the timer. -/
def progressTimerFired (s : Streams) (h : Nat) (event : Event) : Streams :=
  let x := s.handles h
  if x.socketState = .None then s.closed h
  else if x.isSet = false then s
  else
    match x.state with
    | .Connecting =>
      if s.canStartWebSocketConnecting h = false then s
      else
        match event with
        | .nothing => s.set h { x with performed := true }
        | .failed => s.set h { x with performed := true, state := .Closed }
        | .ready => (s.set h { x with performed := true, state := .Open }).push (.opened h)
    | .Open => if event = .ready then s.set h { x with socketState := .Active } else s
    | _ => s

/-- the innermost call goes on -/
def resume (max : Nat) (s : Streams) : Streams :=
  match s.stack with
  | [] => s
  | .closing h :: stack => ({ s with stack := stack }.releaseWebSocketConnection h).closed h
  | .reserving h [] outcome :: stack => { s with stack := stack }.construct max h outcome
  | .reserving h (item :: underClosing) outcome :: stack =>
    { s with stack := .reserving h underClosing outcome :: stack }.disconnect item
  | .opening _ :: stack => { s with stack := stack }
  | .opened h :: stack => { s with stack := stack }.set h { s.handles h with socketState := .Connected }

end Streams

def Frame.subject : Frame → Nat
  | .closing h => h
  | .reserving h _ _ => h
  | .opening h => h
  | .opened h => h

inductive Act where
  | create (h : Nat) (url : Target) (client : Bool) (outcome : Outcome) (isClosing : Nat → Bool)
  | disconnect (h : Nat)
  | close (h : Nat) (buffered : Bool)
  | clearClient (h : Nat)
  | destroy (h : Nat)
  | timer (h : Nat) (event : Streams.Event)
  | resume

/-- A handle is created in free memory and used while it is alive.  A running call of it keeps it alive, and timers
fire when no call is running. -/
def step (max : Nat) (s : Streams) : Act → Streams
  | .create h url client outcome isClosing =>
    if (s.handles h).alive then s else s.create max h url client outcome isClosing
  | .disconnect h => if (s.handles h).alive then s.disconnect h else s
  | .close h buffered => if (s.handles h).alive then s.close h buffered else s
  | .clearClient h => if (s.handles h).alive then s.set h { s.handles h with client := false } else s
  | .destroy h => if (s.handles h).alive ∧ h ∉ s.stack.map Frame.subject then s.destroy h else s
  | .timer h event => if (s.handles h).alive ∧ s.stack = [] then s.progressTimerFired h event else s
  | .resume => s.resume max

/-! ## the list -/

/-- a call of the handle that has it out of `m_handle`: it is being closed, or its connection reserved -/
def Frame.owner : Frame → Option Nat
  | .closing h => some h
  | .reserving h _ _ => some h
  | _ => none

def owners (stack : List Frame) : List Nat := stack.filterMap Frame.owner

/-- the invariant; a handle that is being closed is still in the list -/
structure Kept (max : Nat) (s : Streams) : Prop where
  listed : ∀ h, h ∈ s.socketStreamHandleList ↔ (s.handles h).isSet = true ∨ .closing h ∈ s.stack
  both : ∀ h, (s.handles h).handle = (s.handles h).multiHandle
  nodup : s.socketStreamHandleList.Nodup
  bound : s.socketStreamHandleList.length ≤ max
  alone : (owners s.stack).Nodup
  unset : ∀ h, h ∈ owners s.stack → (s.handles h).alive = true ∧ (s.handles h).isSet = false
  alive : ∀ h, (s.handles h).isSet = true → (s.handles h).alive = true

section
variable {max : Nat} {s : Streams} {h : Nat}

theorem set_self (s : Streams) (h : Nat) (x : Handle) : (s.set h x).handles h = x := Function.update_self ..

theorem set_ne (s : Streams) {h j : Nat} (hj : j ≠ h) (x : Handle) : (s.set h x).handles j = s.handles j :=
  Function.update_of_ne hj ..

theorem owner_closing {stack : List Frame} (hc : .closing h ∈ stack) : h ∈ owners stack :=
  List.mem_filterMap.mpr ⟨_, hc, rfl⟩

theorem owner_subject {stack : List Frame} (ho : h ∈ owners stack) : h ∈ stack.map Frame.subject := by
  obtain ⟨f, hf, howner⟩ := List.mem_filterMap.mp ho
  refine List.mem_map.mpr ⟨f, hf, ?_⟩
  cases f with
  | closing | reserving => exact Option.some.inj howner
  | opening | opened => cases howner

theorem Kept.not_listed (hk : Kept max s) (hset : (s.handles h).isSet = false) (ho : h ∉ owners s.stack) :
    h ∉ s.socketStreamHandleList := by
  intro hmem
  rcases (hk.listed h).mp hmem with hisSet | hclosing
  · rw [hset] at hisSet
    cases hisSet
  · exact ho (owner_closing hclosing)

theorem Kept.set (hk : Kept max s) {x : Handle} (hhandle : x.handle = (s.handles h).handle)
    (hmulti : x.multiHandle = (s.handles h).multiHandle) (halive : x.alive = (s.handles h).alive) :
    Kept max (s.set h x) := by
  have hsame : ∀ j, ((s.set h x).handles j).handle = (s.handles j).handle ∧
      ((s.set h x).handles j).multiHandle = (s.handles j).multiHandle ∧
      ((s.set h x).handles j).alive = (s.handles j).alive := by
    intro j
    by_cases hj : j = h
    · subst hj
      rw [set_self]
      exact ⟨hhandle, hmulti, halive⟩
    · rw [set_ne s hj]
      exact ⟨rfl, rfl, rfl⟩
  have hisSet : ∀ j, ((s.set h x).handles j).isSet = (s.handles j).isSet := by
    intro j
    rw [Handle.isSet, Handle.isSet, (hsame j).1, (hsame j).2.1]
  refine ⟨?_, ?_, hk.nodup, hk.bound, hk.alone, ?_, ?_⟩
  · intro j
    rw [hisSet]
    exact hk.listed j
  · intro j
    rw [(hsame j).1, (hsame j).2.1]
    exact hk.both j
  · intro j hj
    rw [(hsame j).2.2, hisSet]
    exact hk.unset j hj
  · intro j hj
    rw [hisSet] at hj
    rw [(hsame j).2.2]
    exact hk.alive j hj

theorem Kept.closed (hk : Kept max s) (h : Nat) : Kept max (s.closed h) := hk.set rfl rfl rfl

theorem Kept.restack (hk : Kept max s) {stack : List Frame} (ho : owners stack = owners s.stack)
    (hc : ∀ j, .closing j ∈ stack ↔ .closing j ∈ s.stack) : Kept max { s with stack := stack } where
  listed j := by
    rw [hc j]
    exact hk.listed j
  both := hk.both
  nodup := hk.nodup
  bound := hk.bound
  alone := by
    show (owners stack).Nodup
    rw [ho]
    exact hk.alone
  unset j hj := by
    have hj' : j ∈ owners stack := hj
    rw [ho] at hj'
    exact hk.unset j hj'
  alive := hk.alive

theorem closing_cons {f : Frame} {stack : List Frame} (hf : ∀ j, f ≠ .closing j) (j : Nat) :
    Frame.closing j ∈ f :: stack ↔ .closing j ∈ stack := by
  rw [List.mem_cons]
  exact or_iff_right fun heq => hf j heq.symm

theorem closing_reserving (h : Nat) (underClosing : List Nat) (outcome : Outcome) (stack : List Frame) (j : Nat) :
    Frame.closing j ∈ .reserving h underClosing outcome :: stack ↔ .closing j ∈ stack :=
  closing_cons (fun _ heq => Frame.noConfusion heq) j

theorem Kept.pushed (hk : Kept max s) {f : Frame} (hf : f.owner = none) : Kept max (s.push f) := by
  have hclosing : ∀ j, f ≠ .closing j := by
    rintro j rfl
    cases hf
  exact hk.restack (List.filterMap_cons_none hf) (closing_cons hclosing)

theorem Kept.popped {stack : List Frame} {f : Frame} (hk : Kept max s) (hs : s.stack = f :: stack)
    (hf : f.owner = none) : Kept max { s with stack := stack } := by
  have hclosing : ∀ j, f ≠ .closing j := by
    rintro j rfl
    cases hf
  refine hk.restack ?_ fun j => ?_
  · rw [hs]
    exact (List.filterMap_cons_none hf).symm
  · rw [hs]
    exact (closing_cons hclosing j).symm

/-! ### what the functions do -/

theorem cleared_isSet (s : Streams) (h j : Nat) :
    ((s.cleared h).handles j).isSet = (decide (j ≠ h) && (s.handles j).isSet) := by
  unfold Streams.cleared
  by_cases hj : j = h
  · subst hj
    rw [set_self]
    simp [Handle.isSet]
  · rw [set_ne s hj]
    simp [hj]

theorem cleared_alive (s : Streams) (h j : Nat) : ((s.cleared h).handles j).alive = (s.handles j).alive := by
  unfold Streams.cleared
  by_cases hj : j = h
  · subst hj
    rw [set_self]
  · rw [set_ne s hj]

theorem cleared_both (hk : Kept max s) (h j : Nat) :
    ((s.cleared h).handles j).handle = ((s.cleared h).handles j).multiHandle := by
  unfold Streams.cleared
  by_cases hj : j = h
  · subst hj
    rw [set_self]
  · rw [set_ne s hj]
    exact hk.both j

theorem Kept.unowned (hk : Kept max s) (hset : (s.handles h).isSet = true) : h ∉ owners s.stack := by
  intro ho
  rw [(hk.unset h ho).2] at hset
  cases hset

theorem Kept.platformClose (hk : Kept max s) (h : Nat) : Kept max (s.platformClose h) := by
  unfold Streams.platformClose
  split
  · exact hk
  next hset =>
  have hset' : (s.handles h).isSet = true := Bool.eq_true_of_not_eq_false hset
  have hunowned := hk.unowned hset'
  have halive : ∀ j, ((s.cleared h).handles j).isSet = true → ((s.cleared h).handles j).alive = true := by
    intro j hj
    rw [cleared_isSet, Bool.and_eq_true] at hj
    rw [cleared_alive]
    exact hk.alive j hj.2
  have hunset : ∀ j, j ∈ owners s.stack →
      ((s.cleared h).handles j).alive = true ∧ ((s.cleared h).handles j).isSet = false := by
    intro j hj
    rw [cleared_isSet, cleared_alive]
    exact ⟨(hk.unset j hj).1, by rw [(hk.unset j hj).2, Bool.and_false]⟩
  split
  · -- the client is called while the handle is in the list
    refine ⟨?_, cleared_both hk h, hk.nodup, hk.bound, List.nodup_cons.mpr ⟨hunowned, hk.alone⟩, ?_, halive⟩
    · intro j
      show j ∈ s.socketStreamHandleList ↔
        ((s.cleared h).handles j).isSet = true ∨ Frame.closing j ∈ Frame.closing h :: s.stack
      rw [cleared_isSet, hk.listed j, List.mem_cons]
      by_cases hj : j = h
      · subst hj
        simp [hset']
      · simp [hj]
    · intro j hj
      rcases List.mem_cons.mp (show j ∈ h :: owners s.stack from hj) with rfl | hj
      · show ((s.cleared j).handles j).alive = true ∧ ((s.cleared j).handles j).isSet = false
        rw [cleared_isSet, cleared_alive]
        exact ⟨hk.alive j hset', by simp⟩
      · exact hunset j hj
  · -- without a client the connection is released at once
    refine ⟨?_, cleared_both hk h, hk.nodup.erase h, Nat.le_trans List.length_erase_le hk.bound, hk.alone, hunset,
      halive⟩
    intro j
    show j ∈ s.socketStreamHandleList.erase h ↔ ((s.cleared h).handles j).isSet = true ∨ Frame.closing j ∈ s.stack
    rw [cleared_isSet, hk.nodup.mem_erase_iff, hk.listed j]
    by_cases hj : j = h
    · subst hj
      have hnot : Frame.closing j ∉ s.stack := fun hc => hunowned (owner_closing hc)
      simp [hnot]
    · simp [hj]

theorem Kept.disconnect (hk : Kept max s) (h : Nat) : Kept max (s.disconnect h) := by
  unfold Streams.disconnect
  split
  · exact hk.platformClose h
  · exact (hk.platformClose h).closed h

theorem Kept.close (hk : Kept max s) (h : Nat) (buffered : Bool) : Kept max (s.close h buffered) := by
  have hclosing : Kept max (s.set h { s.handles h with state := .Closing }) := hk.set rfl rfl rfl
  unfold Streams.close
  dsimp only
  split
  · exact hk
  · exact hclosing.disconnect h
  · split
    · exact hclosing
    · exact hclosing.disconnect h

theorem Kept.returning {stack : List Frame} (hk : Kept max s) (ho : owners s.stack = h :: owners stack) :
    ((s.handles h).alive = true ∧ (s.handles h).isSet = false) ∧ h ∉ owners stack ∧ (owners stack).Nodup ∧
      ∀ j ∈ owners stack, (s.handles j).alive = true ∧ (s.handles j).isSet = false := by
  have hnodup := hk.alone
  rw [ho] at hnodup
  obtain ⟨hnot, htail⟩ := List.nodup_cons.mp hnodup
  refine ⟨hk.unset h ?_, hnot, htail, ?_⟩
  · rw [ho]
    exact List.mem_cons_self
  · intro j hj
    refine hk.unset j ?_
    rw [ho]
    exact List.mem_cons_of_mem h hj

theorem Kept.release {stack : List Frame} (hk : Kept max s) (hs : s.stack = .closing h :: stack) :
    Kept max ({ s with stack := stack }.releaseWebSocketConnection h) := by
  obtain ⟨hhead, hnot, hnodup, htail⟩ := hk.returning (congrArg owners hs)
  refine ⟨?_, hk.both, hk.nodup.erase h, Nat.le_trans List.length_erase_le hk.bound, hnodup, htail, hk.alive⟩
  intro j
  show j ∈ s.socketStreamHandleList.erase h ↔ (s.handles j).isSet = true ∨ Frame.closing j ∈ stack
  rw [hk.nodup.mem_erase_iff, hk.listed j, hs, List.mem_cons]
  by_cases hj : j = h
  · subst hj
    have hclosing : Frame.closing j ∉ stack := fun hc => hnot (owner_closing hc)
    simp [hclosing, hhead.2]
  · have hne : Frame.closing j ≠ .closing h := fun heq => hj (Frame.closing.inj heq)
    simp [hj, hne]

theorem Kept.unreserved {stack : List Frame} {u : List Nat} {o : Outcome} (hk : Kept max s)
    (hs : s.stack = .reserving h u o :: stack) : Kept max { s with stack := stack } := by
  obtain ⟨-, -, hnodup, htail⟩ := hk.returning (congrArg owners hs)
  refine ⟨?_, hk.both, hk.nodup, hk.bound, hnodup, htail, hk.alive⟩
  intro j
  rw [hk.listed j, hs, closing_reserving]

theorem Kept.reserving {stack : List Frame} {u : List Nat} {o : Outcome} (hk : Kept max s)
    (hs : s.stack = .reserving h u o :: stack) (u' : List Nat) :
    Kept max { s with stack := .reserving h u' o :: stack } := by
  refine hk.restack ?_ fun j => ?_
  · rw [hs]
    rfl
  · rw [hs, closing_reserving, closing_reserving]

theorem Kept.reserved_released (hk : Kept max s) (hset : (s.handles h).isSet = false) (ho : h ∉ owners s.stack) :
    { s with socketStreamHandleList := s.socketStreamHandleList ++ [h] }.releaseWebSocketConnection h = s := by
  have hlist : (s.socketStreamHandleList ++ [h]).erase h = s.socketStreamHandleList := by
    rw [List.erase_append_right _ (hk.not_listed hset ho), List.erase_cons_head, List.append_nil]
  unfold Streams.releaseWebSocketConnection
  dsimp only
  rw [hlist]

theorem Kept.reserved (hk : Kept max s) (halive : (s.handles h).alive = true) (hset : (s.handles h).isSet = false)
    (ho : h ∉ owners s.stack) (hroom : s.socketStreamHandleList.length < max) :
    Kept max ({ s with socketStreamHandleList := s.socketStreamHandleList ++ [h] }.set h
      { s.handles h with handle := true, multiHandle := true, socketState := .Initialized }) := by
  have hnot := hk.not_listed hset ho
  have hself : ∀ j, j = h → ({ s with socketStreamHandleList := s.socketStreamHandleList ++ [h] }.set h
      { s.handles h with handle := true, multiHandle := true, socketState := .Initialized }).handles j =
      { s.handles h with handle := true, multiHandle := true, socketState := .Initialized } := by
    rintro j rfl
    exact set_self _ j _
  have hother : ∀ j, j ≠ h → ({ s with socketStreamHandleList := s.socketStreamHandleList ++ [h] }.set h
      { s.handles h with handle := true, multiHandle := true, socketState := .Initialized }).handles j =
      s.handles j := fun j hj => set_ne _ hj _
  refine ⟨?_, ?_, ?_, ?_, hk.alone, ?_, ?_⟩
  · intro j
    show j ∈ s.socketStreamHandleList ++ [h] ↔ _ ∨ Frame.closing j ∈ s.stack
    rw [List.mem_append, List.mem_singleton]
    by_cases hj : j = h
    · rw [hself j hj]
      exact iff_of_true (.inr hj) (.inl rfl)
    · rw [hother j hj, hk.listed j]
      exact or_iff_left hj
  · intro j
    by_cases hj : j = h
    · rw [hself j hj]
    · rw [hother j hj]
      exact hk.both j
  · exact List.nodup_append.mpr ⟨hk.nodup, List.nodup_singleton h, fun a ha b hb hab => by
      rw [List.mem_singleton.mp hb] at hab
      subst hab
      exact hnot ha⟩
  · show (s.socketStreamHandleList ++ [h]).length ≤ max
    rw [List.length_append]
    exact hroom
  · intro j hj
    have hne : j ≠ h := fun heq => ho (heq ▸ hj)
    rw [hother j hne]
    exact hk.unset j hj
  · intro j hj
    by_cases hjh : j = h
    · rw [hself j hjh]
      exact halive
    · rw [hother j hjh] at hj ⊢
      exact hk.alive j hj

theorem Kept.construct (hk : Kept max s) (halive : (s.handles h).alive = true)
    (hset : (s.handles h).isSet = false) (ho : h ∉ owners s.stack) (outcome : Outcome) :
    Kept max (s.construct max h outcome) := by
  unfold Streams.construct
  split
  · exact hk
  next hroom =>
  have hreserved := hk.reserved halive hset ho (Nat.lt_of_not_le hroom)
  have hreleased : Kept max ({ s with socketStreamHandleList := s.socketStreamHandleList ++ [h]
      }.releaseWebSocketConnection h) := by
    rw [hk.reserved_released hset ho]
    exact hk
  cases outcome with
  | initialized =>
    dsimp only
    split
    · exact hreserved.pushed rfl
    · exact hreserved
  | noManager | noAuthJar | noMultiHandle | noHandle | noRecvData => exact hreleased

theorem Kept.fresh (hk : Kept max s) (hfree : (s.handles h).alive = false) {x : Handle} (halive : x.alive = true)
    (hhandle : x.handle = false) (hmulti : x.multiHandle = false) :
    Kept max (s.set h x) ∧ h ∉ owners s.stack := by
  have ho : h ∉ owners s.stack := by
    intro ho
    rw [(hk.unset h ho).1] at hfree
    cases hfree
  have hunset : (s.handles h).isSet = false := by
    by_contra hset
    rw [hk.alive h (Bool.eq_true_of_not_eq_false hset)] at hfree
    cases hfree
  have hisSet : ∀ j, ((s.set h x).handles j).isSet = (s.handles j).isSet := by
    intro j
    by_cases hj : j = h
    · subst hj
      rw [set_self, hunset, Handle.isSet, hhandle, Bool.false_and]
    · rw [set_ne s hj]
  refine ⟨⟨?_, ?_, hk.nodup, hk.bound, hk.alone, ?_, ?_⟩, ho⟩
  · intro j
    rw [hisSet]
    exact hk.listed j
  · intro j
    by_cases hj : j = h
    · subst hj
      rw [set_self, hhandle, hmulti]
    · rw [set_ne s hj]
      exact hk.both j
  · intro j hj
    have hne : j ≠ h := fun heq => ho (heq ▸ hj)
    rw [set_ne s hne]
    exact hk.unset j hj
  · intro j hj
    by_cases hjh : j = h
    · subst hjh
      rw [set_self]
      exact halive
    · rw [set_ne s hjh] at hj ⊢
      exact hk.alive j hj

theorem Kept.create (hk : Kept max s) (hfree : (s.handles h).alive = false) (url : Target) (client : Bool)
    (outcome : Outcome) (isClosing : Nat → Bool) : Kept max (s.create max h url client outcome isClosing) := by
  obtain ⟨hfresh, ho⟩ := hk.fresh hfree (x := { alive := true, url := url, client := client }) rfl rfl rfl
  have halive : ((s.set h { alive := true, url := url, client := client }).handles h).alive = true := by
    rw [set_self]
  have hset : ((s.set h { alive := true, url := url, client := client }).handles h).isSet = false := by
    rw [set_self]
    rfl
  unfold Streams.create
  dsimp only
  split
  · exact hfresh
  split
  · -- the handle waits for the others to be closed
    refine ⟨?_, hfresh.both, hfresh.nodup, hfresh.bound, List.nodup_cons.mpr ⟨ho, hfresh.alone⟩, ?_, hfresh.alive⟩
    · intro j
      show _ ↔ _ ∨ Frame.closing j ∈ Frame.reserving _ _ _ :: s.stack
      rw [closing_reserving]
      exact hfresh.listed j
    · intro j hj
      rcases List.mem_cons.mp (show j ∈ h :: owners s.stack from hj) with rfl | hj
      · exact ⟨halive, hset⟩
      · exact hfresh.unset j hj
  · exact hfresh.construct halive hset ho outcome

theorem Kept.destroy (hk : Kept max s) (hfree : h ∉ s.stack.map Frame.subject) : Kept max (s.destroy h) := by
  have ho : h ∉ owners s.stack := fun ho => hfree (owner_subject ho)
  have hquiet : Kept max (s.set h { s.handles h with client := false }) := hk.set rfl rfl rfl
  have hclient : ((s.set h { s.handles h with client := false }).handles h).client = false := by
    rw [set_self]
  have hclosed := hquiet.platformClose h
  have hstack : ((s.set h { s.handles h with client := false }).platformClose h).stack = s.stack := by
    unfold Streams.platformClose
    rw [hclient]
    split <;> rfl
  have hunset : (((s.set h { s.handles h with client := false }).platformClose h).handles h).isSet = false := by
    unfold Streams.platformClose
    rw [hclient]
    split
    · next hunset => exact hunset
    · show (((s.set h { s.handles h with client := false }).cleared h).handles h).isSet = false
      rw [cleared_isSet]
      simp
  unfold Streams.destroy
  dsimp only
  generalize (s.set h { s.handles h with client := false }).platformClose h = t at hclosed hstack hunset
  have hisSet : ∀ j, ((t.set h { t.handles h with alive := false }).handles j).isSet = (t.handles j).isSet := by
    intro j
    by_cases hj : j = h
    · subst hj
      rw [set_self]
      rfl
    · rw [set_ne t hj]
  refine ⟨?_, ?_, hclosed.nodup, hclosed.bound, hclosed.alone, ?_, ?_⟩
  · intro j
    rw [hisSet]
    exact hclosed.listed j
  · intro j
    by_cases hj : j = h
    · subst hj
      rw [set_self]
      exact hclosed.both j
    · rw [set_ne t hj]
      exact hclosed.both j
  · intro j hj
    have hj' : j ∈ owners t.stack := hj
    have hne : j ≠ h := by
      rintro rfl
      rw [hstack] at hj'
      exact ho hj'
    rw [set_ne t hne]
    exact hclosed.unset j hj'
  · intro j hj
    have hne : j ≠ h := by
      rintro rfl
      rw [hisSet, hunset] at hj
      cases hj
    rw [hisSet] at hj
    rw [set_ne t hne]
    exact hclosed.alive j hj

theorem Kept.timer (hk : Kept max s) (h : Nat) (event : Streams.Event) : Kept max (s.progressTimerFired h event) := by
  unfold Streams.progressTimerFired
  dsimp only
  split
  · exact hk.closed h
  split
  · exact hk
  split
  · split
    · exact hk
    cases event with
    | nothing | failed => exact hk.set rfl rfl rfl
    | ready =>
      have hopen : Kept max (s.set h { s.handles h with performed := true, state := .Open }) := hk.set rfl rfl rfl
      exact hopen.pushed (f := .opened h) rfl
  · split
    · exact hk.set rfl rfl rfl
    · exact hk
  · exact hk

theorem Kept.resume (hk : Kept max s) : Kept max (s.resume max) := by
  unfold Streams.resume
  split
  · exact hk
  · next h stack hs => exact (hk.release hs).closed h
  · next h outcome stack hs =>
    obtain ⟨hhead, hnot, -, -⟩ := hk.returning (congrArg owners hs)
    exact (hk.unreserved hs).construct hhead.1 hhead.2 hnot outcome
  · next h item underClosing outcome stack hs => exact (hk.reserving hs underClosing).disconnect item
  · next h stack hs => exact hk.popped hs rfl
  · next h stack hs => exact (hk.popped hs rfl).set rfl rfl rfl

theorem Kept.step (hk : Kept max s) (act : Act) : Kept max (step max s act) := by
  cases act with
  | create h url client outcome isClosing =>
    show Kept max (if _ then _ else _)
    split
    · exact hk
    · next hfree => exact hk.create (Bool.eq_false_of_not_eq_true hfree) url client outcome isClosing
  | disconnect h =>
    show Kept max (if _ then _ else _)
    split
    · exact hk.disconnect h
    · exact hk
  | close h buffered =>
    show Kept max (if _ then _ else _)
    split
    · exact hk.close h buffered
    · exact hk
  | clearClient h =>
    show Kept max (if _ then _ else _)
    split
    · exact hk.set rfl rfl rfl
    · exact hk
  | destroy h =>
    show Kept max (if _ then _ else _)
    split
    · next hfree => exact hk.destroy hfree.2
    · exact hk
  | timer h event =>
    show Kept max (if _ then _ else _)
    split
    · exact hk.timer h event
    · exact hk
  | resume => exact hk.resume

theorem kept_new (max : Nat) : Kept max {} where
  listed h := iff_of_false List.not_mem_nil (by rintro (hset | hclosing) <;> contradiction)
  both _ := rfl
  nodup := List.nodup_nil
  bound := Nat.zero_le max
  alone := List.nodup_nil
  unset _ hj := by cases hj
  alive _ hj := by cases hj

end

/-- what the list is when no call is running -/
def Reserved (max : Nat) (s : Streams) : Prop :=
  s.stack = [] →
    (∀ h, h ∈ s.socketStreamHandleList ↔ (s.handles h).handle = true ∧ (s.handles h).multiHandle = true) ∧
      s.socketStreamHandleList.Nodup ∧ s.socketStreamHandleList.length ≤ max

/-- **Reserved connections.**  Whatever the handles and their clients do, between calls the list holds the open
handles, each once, and no more than there may be. -/
theorem connections_reserved (max : Nat) (acts : List Act) : Reserved max (Runs.run (step max) {} acts) := by
  intro hidle
  have hk : Kept max (Runs.run (step max) {} acts) := Runs.run_inv (fun _ act h => h.step act) (kept_new max) acts
  refine ⟨fun h => ?_, hk.nodup, hk.bound⟩
  rw [hk.listed h, hidle, Handle.isSet, Bool.and_eq_true]
  exact or_iff_left List.not_mem_nil

end Stream
end Wkc
