import WkcBrowser.Lib.Runs
import WkcBrowser.Net.SocketStream
import Mathlib.Data.List.Infix

/-!
# The bytes of a WebSocket

* `Handle`                a connection that has been opened: its state and `m_buffer`, and what was sent through it;
* `platformSend`          one call of `curl_easy_send`, and what the callers are told of it;
* `send`, `close`, `sendPendingData`, `progressTimerFired`      the functions of the source;
* `Whole`                 what curl has accepted and what is buffered are together what was sent;
* `closing_stays`         no timer does anything for a handle that is closing;
* `streams_iff`           a run loses nothing exactly as long as nothing is buffered when the handle is closed, and no
  write is accepted in part of data that the buffer cannot take.

No data is longer than an `int` can count.
-/

namespace Wkc
namespace StreamBytes
open Runs
open Wkc.Stream (StreamState)

def bufferSize : Nat := 100 * 1024 * 1024

structure Handle where
  m_state : StreamState := .Open
  m_buffer : List UInt8 := []
  /-- `m_handle`, `m_multiHandle` and `m_socket` -/
  isSet : Bool := true
  /-- not in the source: the bytes that curl has accepted -/
  accepted : List UInt8 := []
  /-- not in the source: the data of the calls of `send` that returned true -/
  sent : List UInt8 := []

/-- What `curl_easy_send` does, and where it asks for it the loop that reads on for a FIN. -/
inductive CurlSend where
  -- `CURLE_OK`, with as many bytes as this of what it is given
  | ok (count : Nat)
  -- `CURLE_AGAIN`
  | again
  -- `CURLE_UNSUPPORTED_PROTOCOL`, and then a FIN
  | fin
  -- any other code, or an error of the loop
  | failed
  deriving DecidableEq

/-- one turn of the loop of `progressTimerFired` -/
inductive Turn where
  -- `wkcNetSelectPeer` gives 0, or -1
  | nothing
  -- `wd`: the socket can be written; it is only asked for with data in the buffer
  | ready (wd : Bool) (sending : CurlSend) (rd : Bool) (received : Bool)

/-! ## the functions of the source -/

/-- `CURLE_OK` with less than all is not told apart from `CURLE_AGAIN`. -/
def platformSend (s : Handle) (data : List UInt8) (sending : CurlSend) : Handle × Int :=
  if s.m_state ≠ .Open ∨ s.isSet = false then (s, -1)
  else
    match sending with
    | .ok count => ({ s with accepted := s.accepted ++ data.take count }, (data.take count).length)
    | .again => (s, 0)
    | .fin => (s, data.length)
    | .failed => (s, -1)

def send (s : Handle) (data : List UInt8) (sending : CurlSend) : Handle × Bool :=
  if s.m_state = .Connecting ∨ s.m_state = .Closing then (s, false)
  else if s.m_buffer ≠ [] then
    if bufferSize < s.m_buffer.length + data.length then (s, false)
    else ({ s with m_buffer := s.m_buffer ++ data }, true)
  else
    let written := if s.m_state = .Open then platformSend s data sending else (s, 0)
    if written.2 < 0 then (written.1, false)
    else
      let bytesWritten := written.2.toNat
      if bufferSize < s.m_buffer.length + data.length - bytesWritten then (written.1, false)
      else if bytesWritten < data.length then
        ({ written.1 with m_buffer := s.m_buffer ++ data.drop bytesWritten }, true)
      else (written.1, true)

/-- `platformClose` clears the handles. -/
def disconnect (s : Handle) : Handle := { s with isSet := false, m_state := .Closed }

def close (s : Handle) : Handle :=
  if s.m_state = .Closed then s
  else
    let s := { s with m_state := .Closing }
    if s.m_buffer ≠ [] then s else disconnect s

def sendPendingData (s : Handle) (sending : CurlSend) : Handle × Bool :=
  if s.m_state ≠ .Open ∧ s.m_state ≠ .Closing then (s, false)
  else if s.m_buffer = [] then
    if s.m_state = .Open then (s, false) else (disconnect s, false)
  else
    let written := platformSend s s.m_buffer sending
    if written.2 ≤ 0 then (written.1, false)
    else ({ written.1 with m_buffer := s.m_buffer.drop written.2.toNat }, true)

/-- The loop of an open handle; where the turns are used up, it waits for the next timer. -/
def openLoop (s : Handle) : List Turn → Handle
  | [] => s
  | .nothing :: _ => s
  | .ready wd sending rd received :: rest =>
    if wd && !s.m_buffer.isEmpty then (sendPendingData s sending).1
    else if rd && !received then s
    else openLoop s rest

def progressTimerFired (s : Handle) (turns : List Turn) : Handle :=
  if s.isSet = false then s
  else
    match s.m_state with
    | .Open => openLoop s turns
    -- the handle has been opened
    | .Connecting => s
    | .Closing => s
    | .Closed => s

inductive Op where
  | send (data : List UInt8) (sending : CurlSend)
  | close
  | sendPendingData (sending : CurlSend)
  | progressTimerFired (turns : List Turn)

def step (s : Handle) : Op → Handle
  | .send data sending =>
    let done := send s data sending
    if done.2 then { done.1 with sent := done.1.sent ++ data } else done.1
  | .close => close s
  | .sendPendingData sending => (sendPendingData s sending).1
  | .progressTimerFired turns => progressTimerFired s turns

/-! ## what is wanted -/

/-- The bytes that curl has accepted are the beginning of what was sent, and the buffer has the rest; a handle that is
closing still sends it, and disconnects when there is none. -/
structure Streams (s : Handle) : Prop where
  accepted : s.accepted <+: s.sent
  buffered : s.m_buffer = s.sent.drop s.accepted.length
  flushes : s.m_state = .Closing → s.m_buffer ≠ [] → ∃ turns, (progressTimerFired s turns).accepted ≠ s.accepted
  disconnects : s.m_state = .Closing → s.m_buffer = [] → ∃ turns, (progressTimerFired s turns).m_state = .Closed

def CurlSend.isFin : CurlSend → Bool
  | .fin => true
  | _ => false

def Turn.isFin : Turn → Bool
  | .nothing => false
  | .ready _ sending _ _ => sending.isFin

/-- `curl_easy_send` gives `CURLE_OK` or `CURLE_AGAIN`, or it fails. -/
def Sends : Handle → Op → Prop
  | _, .send _ sending => sending.isFin = false
  | _, .close => True
  | _, .sendPendingData sending => sending.isFin = false
  | _, .progressTimerFired turns => ∀ turn ∈ turns, turn.isFin = false

/-- Nothing is buffered when the handle is closed; and what curl accepts a part of fits into the buffer. -/
def Clear (s : Handle) : Op → Prop
  | .send data (.ok count) =>
    s.m_state = .Open → s.m_buffer = [] → 0 < (data.take count).length →
      data.length - (data.take count).length ≤ bufferSize
  | .close => s.m_state = .Closed ∨ s.m_buffer = []
  | _ => True

/-- what is so of a handle that has been opened, after every call -/
structure Sound (s : Handle) : Prop where
  opened : s.m_state ≠ .Connecting
  isSet : s.m_state = .Open → s.isSet = true
  closing : s.m_state = .Closing → s.m_buffer ≠ []

/-! ## one call -/

section
variable {s : Handle} {data : List UInt8} {sending : CurlSend} {turns : List Turn}

theorem closing_stays (h : s.m_state = .Closing) (turns : List Turn) : progressTimerFired s turns = s := by
  unfold progressTimerFired
  split
  · rfl
  · rw [h]

theorem whole_iff (s : Handle) :
    (s.accepted <+: s.sent ∧ s.m_buffer = s.sent.drop s.accepted.length) ↔ s.accepted ++ s.m_buffer = s.sent := by
  constructor
  · rintro ⟨⟨rest, hrest⟩, hbuffer⟩
    rw [hbuffer, ← hrest, List.drop_left' rfl]
  · intro hwhole
    rw [← hwhole]
    exact ⟨List.prefix_append _ _, (List.drop_left' rfl).symm⟩

theorem streams_iff_whole (h : Sound s) : Streams s ↔ s.accepted ++ s.m_buffer = s.sent ∧ s.m_state ≠ .Closing := by
  constructor
  · intro hstreams
    refine ⟨(whole_iff s).mp ⟨hstreams.accepted, hstreams.buffered⟩, fun hclosing => ?_⟩
    obtain ⟨turns, hmore⟩ := hstreams.flushes hclosing (h.closing hclosing)
    rw [closing_stays hclosing] at hmore
    exact hmore rfl
  · rintro ⟨hwhole, hopen⟩
    obtain ⟨haccepted, hbuffered⟩ := (whole_iff s).mpr hwhole
    exact ⟨haccepted, hbuffered, fun hclosing => absurd hclosing hopen, fun hclosing => absurd hclosing hopen⟩

theorem platformSend_open (hopen : s.m_state = .Open) (hset : s.isSet = true) (data : List UInt8)
    (hfin : sending.isFin = false) :
    ∃ count, (platformSend s data sending).1 = { s with accepted := s.accepted ++ data.take count } ∧
      ((platformSend s data sending).2 = (data.take count).length ∨
        (platformSend s data sending).2 = -1 ∧ data.take count = []) := by
  have hgoes : ¬ (s.m_state ≠ .Open ∨ s.isSet = false) := by
    rw [hopen, hset]
    simp
  have hnone : ({ s with accepted := s.accepted ++ data.take 0 } : Handle) = s := by simp
  unfold platformSend
  rw [if_neg hgoes]
  cases sending with
  | ok count => exact ⟨count, rfl, Or.inl rfl⟩
  | again => exact ⟨0, hnone.symm, Or.inl rfl⟩
  | fin => exact absurd hfin (by simp [CurlSend.isFin])
  | failed => exact ⟨0, hnone.symm, Or.inr ⟨rfl, rfl⟩⟩

theorem take_append_rest (data : List UInt8) (count : Nat) :
    data.take count ++ data.drop (data.take count).length = data := by
  rw [List.length_take]
  rcases Nat.le_total count data.length with h | h
  · rw [Nat.min_eq_left h, List.take_append_drop]
  · rw [Nat.min_eq_right h, List.drop_length, List.append_nil, List.take_of_length_le h]

theorem sendPendingData_whole (h : Sound s) (hfin : sending.isFin = false) (hopen : s.m_state ≠ .Closing)
    (hwhole : s.accepted ++ s.m_buffer = s.sent) :
    (sendPendingData s sending).1.accepted ++ (sendPendingData s sending).1.m_buffer =
      (sendPendingData s sending).1.sent := by
  unfold sendPendingData
  split
  · exact hwhole
  · next hgoes =>
    have hOpen : s.m_state = .Open := by
      by_contra hnot
      exact hgoes ⟨hnot, hopen⟩
    split
    · exact hwhole
    · obtain ⟨count, hs, hresult⟩ := platformSend_open hOpen (h.isSet hOpen) s.m_buffer hfin
      dsimp only
      rw [hs]
      split
      · next hnone =>
        have hempty : s.m_buffer.take count = [] := by
          rcases hresult with hlength | ⟨-, hempty⟩
          · rw [hlength] at hnone
            exact List.eq_nil_of_length_eq_zero (by omega)
          · exact hempty
        rw [hempty, List.append_nil]
        exact hwhole
      · next hsome =>
        have hlength : (platformSend s s.m_buffer sending).2.toNat = (s.m_buffer.take count).length := by
          rcases hresult with hlength | ⟨herror, -⟩
          · rw [hlength, Int.toNat_natCast]
          · rw [herror] at hsome
            exact absurd (by decide) hsome
        rw [hlength]
        show s.accepted ++ s.m_buffer.take count ++ s.m_buffer.drop (s.m_buffer.take count).length = s.sent
        rw [List.append_assoc, take_append_rest, hwhole]

theorem openLoop_whole (h : Sound s) (hfin : ∀ turn ∈ turns, turn.isFin = false) (hopen : s.m_state ≠ .Closing)
    (hwhole : s.accepted ++ s.m_buffer = s.sent) :
    (openLoop s turns).accepted ++ (openLoop s turns).m_buffer = (openLoop s turns).sent := by
  induction turns with
  | nil => exact hwhole
  | cons turn rest ih =>
    rw [List.forall_mem_cons] at hfin
    cases turn with
    | nothing => exact hwhole
    | ready wd sending rd received =>
      unfold openLoop
      split
      · exact sendPendingData_whole h hfin.1 hopen hwhole
      · split
        · exact hwhole
        · exact ih hfin.2

theorem send_written {w : Handle} {n : Nat} (hstate : s.m_state ≠ .Connecting ∧ s.m_state ≠ .Closing)
    (hempty : s.m_buffer = []) (hw : w.m_buffer = [])
    (hwritten : (if s.m_state = .Open then platformSend s data sending else (s, 0)) = (w, (n : Int))) :
    send s data sending =
      if bufferSize < data.length - n then (w, false) else ({ w with m_buffer := data.drop n }, true) := by
  unfold send
  rw [if_neg (not_or.mpr hstate), if_neg (not_not.mpr hempty)]
  dsimp only
  rw [hwritten, hempty, if_neg (by omega)]
  dsimp only
  rw [Int.toNat_natCast, List.length_nil, Nat.zero_add, List.nil_append]
  split
  · rfl
  · split
    · rfl
    · next hall =>
      rw [List.drop_of_length_le (Nat.le_of_not_lt hall), ← hw]

theorem step_send {w : Handle} {went : Bool} (hsend : send s data sending = (w, went)) :
    step s (.send data sending) = if went then { w with sent := w.sent ++ data } else w := by
  show (if (send s data sending).2 then _ else _) = _
  rw [hsend]

theorem send_unwritten (hstate : s.m_state ≠ .Connecting ∧ s.m_state ≠ .Closing) (hempty : s.m_buffer = [])
    (hwritten : (if s.m_state = .Open then platformSend s data sending else (s, 0)) = (s, 0))
    (hwhole : s.accepted ++ s.m_buffer = s.sent) :
    (step s (.send data sending)).accepted ++ (step s (.send data sending)).m_buffer =
      (step s (.send data sending)).sent := by
  have hsend := send_written (n := 0) hstate hempty hempty hwritten
  split at hsend
  · rw [step_send hsend]
    exact hwhole
  · rw [step_send hsend, if_pos rfl]
    rw [hempty, List.append_nil] at hwhole
    show s.accepted ++ data.drop 0 = s.sent ++ data
    rw [hwhole, List.drop_zero]

theorem send_ok_iff (h : Sound s) (hopen : s.m_state = .Open) (hempty : s.m_buffer = [])
    (hwhole : s.accepted ++ s.m_buffer = s.sent) (count : Nat) :
    (step s (.send data (.ok count))).accepted ++ (step s (.send data (.ok count))).m_buffer =
      (step s (.send data (.ok count))).sent ↔ Clear s (.send data (.ok count)) := by
  have hstate : s.m_state ≠ .Connecting ∧ s.m_state ≠ .Closing := by
    rw [hopen]
    exact ⟨by simp, by simp⟩
  have hwritten : (if s.m_state = .Open then platformSend s data (.ok count) else (s, 0)) =
      ({ s with accepted := s.accepted ++ data.take count }, ((data.take count).length : Int)) := by
    rw [if_pos hopen]
    unfold platformSend
    rw [if_neg (by rw [hopen, h.isSet hopen]; simp)]
  have hsend := send_written (w := { s with accepted := s.accepted ++ data.take count }) hstate hempty hempty hwritten
  have hclear : Clear s (.send data (.ok count)) ↔
      (0 < (data.take count).length → data.length - (data.take count).length ≤ bufferSize) :=
    ⟨fun hclear => hclear hopen hempty, fun hrest _ _ => hrest⟩
  rw [hclear]
  rw [hempty, List.append_nil] at hwhole
  split at hsend
  · next hlong =>
    rw [step_send hsend]
    show s.accepted ++ data.take count ++ s.m_buffer = s.sent ↔ _
    rw [hempty, List.append_nil, hwhole, List.append_right_eq_self]
    constructor
    · intro hnone
      rw [hnone]
      exact fun hpos => absurd hpos (by simp)
    · intro hfits
      by_contra hsome
      exact absurd (hfits (List.length_pos_iff.mpr hsome)) (by omega)
  · next hfits =>
    rw [step_send hsend, if_pos rfl]
    refine iff_of_true ?_ fun _ => Nat.le_of_not_lt hfits
    show s.accepted ++ data.take count ++ data.drop (data.take count).length = s.sent ++ data
    rw [hwhole, List.append_assoc, take_append_rest]

theorem send_iff (h : Sound s) (hopen : s.m_state ≠ .Closing) (hwhole : s.accepted ++ s.m_buffer = s.sent)
    (hfin : sending.isFin = false) :
    (step s (.send data sending)).accepted ++ (step s (.send data sending)).m_buffer =
      (step s (.send data sending)).sent ↔ Clear s (.send data sending) := by
  have hstate : s.m_state ≠ .Connecting ∧ s.m_state ≠ .Closing := ⟨h.opened, hopen⟩
  by_cases hempty : s.m_buffer = []
  · by_cases hOpen : s.m_state = .Open
    · have hgoes : ¬ (s.m_state ≠ .Open ∨ s.isSet = false) := by
        rw [hOpen, h.isSet hOpen]
        simp
      cases sending with
      | ok count => exact send_ok_iff h hOpen hempty hwhole count
      | again =>
        refine iff_of_true (send_unwritten hstate hempty ?_ hwhole) trivial
        rw [if_pos hOpen]
        unfold platformSend
        rw [if_neg hgoes]
      | fin => exact absurd hfin (by simp [CurlSend.isFin])
      | failed =>
        have hsend : send s data .failed = (s, false) := by
          unfold send platformSend
          rw [if_neg (not_or.mpr hstate), if_neg (not_not.mpr hempty), if_pos hOpen, if_neg hgoes]
          rfl
        refine iff_of_true ?_ trivial
        rw [step_send hsend]
        exact hwhole
    · have hclear : Clear s (.send data sending) := by
        cases sending with
        | ok count => exact fun h => absurd h hOpen
        | _ => trivial
      exact iff_of_true (send_unwritten hstate hempty (if_neg hOpen) hwhole) hclear
  · have hclear : Clear s (.send data sending) := by
      cases sending with
      | ok count => exact fun _ h => absurd h hempty
      | _ => trivial
    refine iff_of_true ?_ hclear
    by_cases hlong : bufferSize < s.m_buffer.length + data.length
    · have hsend : send s data sending = (s, false) := by
        unfold send
        rw [if_neg (not_or.mpr hstate), if_pos hempty, if_pos hlong]
      rw [step_send hsend]
      exact hwhole
    · have hsend : send s data sending = ({ s with m_buffer := s.m_buffer ++ data }, true) := by
        unfold send
        rw [if_neg (not_or.mpr hstate), if_pos hempty, if_neg hlong]
      rw [step_send hsend, if_pos rfl]
      show s.accepted ++ (s.m_buffer ++ data) = s.sent ++ data
      rw [← List.append_assoc, hwhole]

/-! ## a run -/

theorem platformSend_state (s : Handle) (data : List UInt8) (sending : CurlSend) :
    (platformSend s data sending).1.m_state = s.m_state ∧ (platformSend s data sending).1.isSet = s.isSet := by
  unfold platformSend
  split
  · exact ⟨rfl, rfl⟩
  · cases sending <;> exact ⟨rfl, rfl⟩

theorem send_state (s : Handle) (data : List UInt8) (sending : CurlSend) :
    (step s (.send data sending)).m_state = s.m_state ∧ (step s (.send data sending)).isSet = s.isSet := by
  have hwritten : (if s.m_state = .Open then platformSend s data sending else (s, 0)).1.m_state = s.m_state ∧
      (if s.m_state = .Open then platformSend s data sending else (s, 0)).1.isSet = s.isSet := by
    split
    · exact platformSend_state s data sending
    · exact ⟨rfl, rfl⟩
  have hsend : (send s data sending).1.m_state = s.m_state ∧ (send s data sending).1.isSet = s.isSet := by
    unfold send
    dsimp only
    generalize (if s.m_state = .Open then platformSend s data sending else (s, 0)) = written at hwritten ⊢
    split
    · exact ⟨rfl, rfl⟩
    split
    · split <;> exact ⟨rfl, rfl⟩
    split
    · exact hwritten
    split
    · exact hwritten
    split <;> exact hwritten
  rw [step_send (Prod.mk.eta.symm : send s data sending = ((send s data sending).1, (send s data sending).2))]
  split <;> exact hsend

theorem sound_new : Sound {} := ⟨by simp, fun _ => rfl, by simp⟩

theorem streams_new : Streams {} := (streams_iff_whole sound_new).mpr ⟨rfl, by simp⟩

theorem progressTimerFired_open (hopen : s.m_state = .Open) (hset : s.isSet = true) (turns : List Turn) :
    progressTimerFired s turns = openLoop s turns := by
  unfold progressTimerFired
  rw [if_neg (by rw [hset]; simp), hopen]

theorem progressTimerFired_closed (hclosed : s.m_state = .Closed) (turns : List Turn) : progressTimerFired s turns = s := by
  unfold progressTimerFired
  split
  · rfl
  · rw [hclosed]

theorem sendPendingData_closing (hclosing : s.m_state = .Closing) (hdata : s.m_buffer ≠ []) (sending : CurlSend) :
    sendPendingData s sending = (s, false) := by
  have hwritten : platformSend s s.m_buffer sending = (s, -1) := by
    unfold platformSend
    rw [if_pos (Or.inl (by rw [hclosing]; simp))]
  unfold sendPendingData
  rw [if_neg (by rw [hclosing]; simp), if_neg hdata, hwritten]
  rfl

theorem sendPendingData_state (hopen : s.m_state = .Open) (sending : CurlSend) :
    (sendPendingData s sending).1.m_state = s.m_state ∧ (sendPendingData s sending).1.isSet = s.isSet := by
  have hwritten := platformSend_state s s.m_buffer sending
  unfold sendPendingData
  split
  · exact ⟨rfl, rfl⟩
  split
  · exact ⟨rfl, rfl⟩
  dsimp only
  split <;> exact hwritten

theorem openLoop_state (hopen : s.m_state = .Open) (turns : List Turn) :
    (openLoop s turns).m_state = s.m_state ∧ (openLoop s turns).isSet = s.isSet := by
  induction turns with
  | nil => exact ⟨rfl, rfl⟩
  | cons turn rest ih =>
    cases turn with
    | nothing => exact ⟨rfl, rfl⟩
    | ready wd sending rd received =>
      unfold openLoop
      split
      · exact sendPendingData_state hopen sending
      split
      · exact ⟨rfl, rfl⟩
      · exact ih

theorem sendPendingData_closed (hclosed : s.m_state = .Closed) (sending : CurlSend) :
    sendPendingData s sending = (s, false) := by
  unfold sendPendingData
  rw [if_pos (by rw [hclosed]; simp)]

theorem Sound.open_or_closed (h : Sound s) (hopen : s.m_state ≠ .Closing) : s.m_state = .Open ∨ s.m_state = .Closed := by
  cases hstate : s.m_state with
  | Connecting => exact absurd hstate h.opened
  | Open => exact Or.inl rfl
  | Closing => exact absurd hstate hopen
  | Closed => exact Or.inr rfl

theorem close_open (hopen : s.m_state = .Open) :
    close s = if s.m_buffer ≠ [] then { s with m_state := .Closing } else disconnect { s with m_state := .Closing } := by
  unfold close
  rw [if_neg (by rw [hopen]; simp)]

theorem Sound.of_open {s' : Handle} (h : Sound s) (hopen : s.m_state = .Open)
    (hs : s'.m_state = s.m_state ∧ s'.isSet = s.isSet) : Sound s' := by
  refine ⟨by rw [hs.1, hopen]; simp, fun _ => hs.2.trans (h.isSet hopen), fun hclosing => ?_⟩
  rw [hs.1, hopen] at hclosing
  exact absurd hclosing (by simp)

theorem send_of_closing (hclosing : s.m_state = .Closing) (data : List UInt8) (sending : CurlSend) :
    step s (.send data sending) = s := by
  have hsend : send s data sending = (s, false) := by
    unfold send
    rw [if_pos (Or.inr hclosing)]
  rw [step_send hsend]
  rfl

theorem sound_step (s : Handle) (op : Op) (h : Sound s) : Sound (step s op) := by
  cases hstate : s.m_state with
  | Connecting => exact absurd hstate h.opened
  | Open =>
    cases op with
    | send data sending => exact h.of_open hstate (send_state s data sending)
    | close =>
      show Sound (close s)
      rw [close_open hstate]
      split
      · next hdata => exact ⟨by simp, by simp, fun _ => hdata⟩
      · exact ⟨by simp [disconnect], by simp [disconnect], by simp [disconnect]⟩
    | sendPendingData sending => exact h.of_open hstate (sendPendingData_state hstate sending)
    | progressTimerFired turns =>
      show Sound (progressTimerFired s turns)
      rw [progressTimerFired_open hstate (h.isSet hstate)]
      exact h.of_open hstate (openLoop_state hstate turns)
  | Closing =>
    have hdata := h.closing hstate
    cases op with
    | send data sending =>
      rw [send_of_closing hstate]
      exact h
    | close =>
      show Sound (close s)
      unfold close
      rw [if_neg (by rw [hstate]; simp), if_pos hdata]
      exact ⟨by simp, by simp, fun _ => hdata⟩
    | sendPendingData sending =>
      show Sound (sendPendingData s sending).1
      rw [sendPendingData_closing hstate hdata]
      exact h
    | progressTimerFired turns =>
      show Sound (progressTimerFired s turns)
      rw [closing_stays hstate]
      exact h
  | Closed =>
    have hclosed : ∀ s' : Handle, s'.m_state = s.m_state → Sound s' := by
      intro s' hs'
      rw [hstate] at hs'
      exact ⟨by simp [hs'], by simp [hs'], by simp [hs']⟩
    cases op with
    | send data sending => exact hclosed _ (send_state s data sending).1
    | close =>
      show Sound (close s)
      unfold close
      rw [if_pos hstate]
      exact h
    | sendPendingData sending =>
      show Sound (sendPendingData s sending).1
      rw [sendPendingData_closed hstate]
      exact h
    | progressTimerFired turns =>
      show Sound (progressTimerFired s turns)
      rw [progressTimerFired_closed hstate]
      exact h

theorem streams_step (s : Handle) (op : Op) (hsends : Sends s op) (h : Sound s) (hs : Streams s) :
    Streams (step s op) ↔ Clear s op := by
  rw [streams_iff_whole (sound_step s op h)]
  obtain ⟨hwhole, hopen⟩ := (streams_iff_whole h).mp hs
  cases op with
  | send data sending =>
    rw [(send_state s data sending).1, and_iff_left hopen]
    exact send_iff h hopen hwhole hsends
  | close =>
    show (close s).accepted ++ (close s).m_buffer = (close s).sent ∧ (close s).m_state ≠ .Closing ↔
      s.m_state = .Closed ∨ s.m_buffer = []
    by_cases hclosed : s.m_state = .Closed
    · refine iff_of_true ?_ (Or.inl hclosed)
      unfold close
      rw [if_pos hclosed]
      exact ⟨hwhole, hopen⟩
    · unfold close
      rw [if_neg hclosed, or_iff_right hclosed]
      by_cases hempty : s.m_buffer = []
      · refine iff_of_true ?_ hempty
        dsimp only
        rw [if_neg (not_not.mpr hempty)]
        exact ⟨hwhole, by simp [disconnect]⟩
      · refine iff_of_false (fun hafter => ?_) hempty
        dsimp only at hafter
        rw [if_pos hempty] at hafter
        exact hafter.2 rfl
  | sendPendingData sending =>
    refine iff_of_true ⟨sendPendingData_whole h hsends hopen hwhole, ?_⟩ trivial
    rcases h.open_or_closed hopen with hOpen | hclosed
    · show (sendPendingData s sending).1.m_state ≠ .Closing
      rw [(sendPendingData_state hOpen sending).1]
      exact hopen
    · show (sendPendingData s sending).1.m_state ≠ .Closing
      rw [sendPendingData_closed hclosed]
      exact hopen
  | progressTimerFired turns =>
    refine iff_of_true ?_ trivial
    show (progressTimerFired s turns).accepted ++ (progressTimerFired s turns).m_buffer =
      (progressTimerFired s turns).sent ∧ (progressTimerFired s turns).m_state ≠ .Closing
    rcases h.open_or_closed hopen with hOpen | hclosed
    · rw [progressTimerFired_open hOpen (h.isSet hOpen)]
      refine ⟨openLoop_whole h hsends hopen hwhole, ?_⟩
      rw [(openLoop_state hOpen turns).1]
      exact hopen
    · rw [progressTimerFired_closed hclosed]
      exact ⟨hwhole, hopen⟩

/-- A run streams its bytes exactly as long as nothing is buffered when the handle is closed, and nothing that is
accepted in part is too long for the buffer. -/
theorem streams_iff (ops : List Op) (hsends : Along step Sends {} ops) :
    (∀ pre, pre <+: ops → Streams (run step {} pre)) ↔ Along step Clear {} ops :=
  prefix_iff_along_of (fun s op _ => sound_step s op) streams_step sound_new streams_new hsends

/-- three bytes in three calls, and the handle is closed when all have been sent -/
def flushed : List Op :=
  [.send [1, 2, 3] (.ok 1), .sendPendingData .again, .sendPendingData (.ok 1),
    .progressTimerFired [.ready false .again true true, .ready true (.ok 5) false false], .close]

theorem streams_iff_flushed :
    Along step Clear {} flushed ∧ ∀ pre, pre <+: flushed → Streams (run step {} pre) := by
  have hsends : Along step Sends {} flushed := by
    simp [flushed, Along, Sends, CurlSend.isFin, Turn.isFin]
  have hclear : Along step Clear {} flushed := by
    refine ⟨fun _ _ _ => by decide, trivial, trivial, trivial, Or.inr ?_, trivial⟩
    decide
  exact ⟨hclear, (streams_iff flushed hsends).mpr hclear⟩

/-- One of two bytes is sent, and the handle is closed: the other byte stays where it is, and so does the handle. -/
theorem tail_lost :
    let s := run step {} [.send [1, 2] (.ok 1), .close]
    s.m_state = .Closing ∧ s.sent = [1, 2] ∧ s.accepted = [1] ∧ s.m_buffer = [2] ∧
      (∀ turns, progressTimerFired s turns = s) ∧ (∀ sending, sendPendingData s sending = (s, false)) ∧ ¬ Streams s := by
  refine ⟨by decide, by decide, by decide, by decide, fun turns => closing_stays (by decide) turns,
    fun sending => sendPendingData_closing (by decide) (by decide) sending, fun hstreams => ?_⟩
  obtain ⟨turns, hmore⟩ := hstreams.flushes (by decide) (by decide)
  rw [closing_stays (by decide)] at hmore
  exact hmore rfl

end

end StreamBytes
end Wkc
