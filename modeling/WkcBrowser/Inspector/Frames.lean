import WkcBrowser.Lib.Bytes
import WkcBrowser.Lib.Runs
import Mathlib.Data.Nat.Notation

/-!
# The frames that a `WebSocketServerConnection` reads

The bytes of the socket are collected in `m_bufferedData` and cut into frames by `WebSocketFrame::parseFrame`.  A
frame in error has no end, and the loop goes on with the one of an earlier frame, or with none at all.

* `parseFrame`                         the frame at the beginning of a buffer;
* `Connection`, `readWebSocketFrames`  the loop over the buffer;
* `scan`                               the text frames of a whole stream, and whether it is malformed;
* `parseFrame_append`                  more data does not change a frame that has been found;
* `frames_read`                        which streams are read as they should be, however they are split.
-/

namespace Wkc
namespace Inspector
open Buf

/-! ## one frame -/

/-- `payload` is unmasked -/
structure WebSocketFrame where
  opCode : Nat
  final : Bool
  compress : Bool
  reserved2 : Bool
  reserved3 : Bool
  masked : Bool
  payload : Bytes
  deriving DecidableEq

inductive ParseFrameResult where
  | FrameOK (frame : WebSocketFrame) (frameEnd : Nat)
  | FrameIncomplete
  | FrameError
  deriving DecidableEq

def OpCodeText : Nat := 1

def maxPayloadLength : Nat := 0x7FFFFFFFFFFFFFFF

/-- `numeric_limits<size_t>::max()` -/
def maxSize : Nat := 0xFFFFFFFF

def ofBE (bs : Bytes) : Nat := ofLE bs.reverse

inductive LengthResult where
  | length (payloadLength : Nat) (fieldSize : Nat)
  | incomplete
  | error

def extendedLength (extendedPayloadLengthSize : Nat) (p : Bytes) : LengthResult :=
  if p.length < extendedPayloadLengthSize then .incomplete
  else
    let length := ofBE (p.take extendedPayloadLengthSize)
    -- "The minimal number of bytes MUST be used to encode the length"
    if extendedPayloadLengthSize = 2 ∧ length ≤ 125 then .error
    else if extendedPayloadLengthSize = 8 ∧ length ≤ 0xFFFF then .error
    else .length length extendedPayloadLengthSize

/-- the length, with what follows the first two bytes -/
def payloadLength (length7 : Nat) (p : Bytes) : LengthResult :=
  if length7 ≤ 125 then .length length7 0 else extendedLength (if length7 = 126 then 2 else 8) p

/-- `payload[i] ^= maskingKey[i % maskingKeyWidthInBytes]` -/
def unmask (maskingKey payload : Bytes) : Bytes :=
  payload.mapIdx fun i b => b ^^^ maskingKey.getD (i % 4) 0

def maskingKeyLength (masked : Bool) : Nat := if masked then 4 else 0

/-- what follows the length -/
def parsePayload (firstByte : UInt8) (masked : Bool) (payloadLength headerLength : Nat) (p : Bytes) :
    ParseFrameResult :=
  -- "WebSocket frame length too large: "
  if maxPayloadLength < payloadLength ∨ maxSize < payloadLength + maskingKeyLength masked then .FrameError
  else if p.length < maskingKeyLength masked + payloadLength then .FrameIncomplete
  else
    let payload := (p.drop (maskingKeyLength masked)).take payloadLength
    .FrameOK
      { opCode := firstByte.toNat % 0x10
        final := decide (firstByte.toNat / 0x80 % 2 = 1)
        compress := decide (firstByte.toNat / 0x40 % 2 = 1)
        reserved2 := decide (firstByte.toNat / 0x20 % 2 = 1)
        reserved3 := decide (firstByte.toNat / 0x10 % 2 = 1)
        masked := masked
        payload := if masked then unmask (p.take (maskingKeyLength masked)) payload else payload }
      (headerLength + maskingKeyLength masked + payloadLength)

/-- The frame at the beginning of the data.  A complete frame is unmasked in place, and removed by the caller. -/
def parseFrame (data : Bytes) : ParseFrameResult :=
  match data with
  | firstByte :: secondByte :: p =>
    match payloadLength (secondByte.toNat % 0x80) p with
    | .incomplete => .FrameIncomplete
    | .error => .FrameError
    | .length payloadLength fieldSize =>
      parsePayload firstByte (decide (0x80 ≤ secondByte.toNat)) payloadLength (2 + fieldSize) (p.drop fieldSize)
  | _ => .FrameIncomplete

/-! ## the connection -/

/-- A connection in WebSocket mode.  `messages` are the payloads of the calls of `didReceiveWebSocketMessage`;
`overrun`: more bytes have been removed from the buffer than it had. -/
structure Connection where
  bufferedData : Bytes := []
  messages : List Bytes := []
  errors : Nat := 0
  overrun : Bool := false
  deriving DecidableEq

namespace Connection

/-- `shutdownNow` is called for every frame in error -/
def shutdown (c : Connection) : Bool := decide (0 < c.errors)

/-- `m_bufferedData.remove(0, length)` -/
def remove (c : Connection) (length : Nat) : Connection :=
  if length ≤ c.bufferedData.length then { c with bufferedData := c.bufferedData.drop length }
  else { c with bufferedData := [], overrun := true }

/-- `garbage` are the lengths that are computed from a `frameEnd` that was not set -/
def readWebSocketFrame (garbage : Nat → Nat) (c : Connection) : Bool × Connection :=
  match parseFrame c.bufferedData with
  | .FrameIncomplete => (false, c)
  | .FrameError => (true, { c with errors := c.errors + 1 }.remove (garbage c.errors))
  | .FrameOK frame frameEnd =>
    if frame.opCode = OpCodeText then
      (true, { c with messages := c.messages ++ [frame.payload] }.remove frameEnd)
    else (true, c.remove frameEnd)

/-- within a number of frames -/
def readWebSocketFrames (garbage : Nat → Nat) : Nat → Connection → Option Connection
  | 0, _ => none
  | fuel + 1, c =>
    match c.readWebSocketFrame garbage with
    | (false, c) => some c
    | (true, c) => if c.bufferedData.isEmpty then some c else readWebSocketFrames garbage fuel c

def didReceiveSocketStreamData (garbage : Nat → Nat) (fuel : Nat) (c : Connection) (data : Bytes) :
    Option Connection :=
  readWebSocketFrames garbage fuel { c with bufferedData := c.bufferedData ++ data }

/-- one call after another -/
def receive (garbage : Nat → Nat) (fuel : Nat) : Connection → List Bytes → Option Connection
  | c, [] => some c
  | c, data :: rest =>
    match c.didReceiveSocketStreamData garbage fuel data with
    | none => none
    | some c => receive garbage fuel c rest

end Connection

/-! ## the stream -/

/-- what a whole stream holds: the payloads of its text frames up to the first malformed frame, whether there is
one, and what is left behind the well-formed frames -/
structure Scanned where
  texts : List Bytes
  malformed : Bool
  rest : Bytes

def scanFor : Nat → Bytes → Scanned
  | 0, stream => ⟨[], false, stream⟩
  | n + 1, stream =>
    match parseFrame stream with
    | .FrameIncomplete => ⟨[], false, stream⟩
    | .FrameError => ⟨[], true, stream⟩
    | .FrameOK frame frameEnd =>
      let s := scanFor n (stream.drop frameEnd)
      if frame.opCode = OpCodeText then { s with texts := frame.payload :: s.texts } else s

/-- a stream has no more frames than bytes -/
def scan (stream : Bytes) : Scanned := scanFor stream.length stream

/-! ## more data -/

theorem extendedLength_append {size : Nat} {p : Bytes} (h : size ≤ p.length) (more : Bytes) :
    extendedLength size (p ++ more) = extendedLength size p := by
  have hmore : ¬(p ++ more).length < size := by
    rw [List.length_append]
    omega
  unfold extendedLength
  rw [if_neg hmore, if_neg (Nat.not_lt_of_le h), List.take_append_of_le_length h]

theorem extendedLength_complete {size : Nat} {p : Bytes} (h : extendedLength size p ≠ .incomplete) :
    size ≤ p.length := by
  unfold extendedLength at h
  split at h
  · exact absurd rfl h
  · next henough => exact Nat.le_of_not_lt henough

theorem extendedLength_size {size : Nat} {p : Bytes} {length fieldSize : Nat}
    (h : extendedLength size p = .length length fieldSize) : fieldSize = size := by
  unfold extendedLength at h
  dsimp only at h
  split at h
  · cases h
  split at h
  · cases h
  split at h
  · cases h
  · exact (LengthResult.length.inj h).2.symm

theorem payloadLength_append {length7 : Nat} {p : Bytes} (h : payloadLength length7 p ≠ .incomplete) (more : Bytes) :
    payloadLength length7 (p ++ more) = payloadLength length7 p := by
  unfold payloadLength at h ⊢
  split
  · rfl
  · next hlong =>
    rw [if_neg hlong] at h
    exact extendedLength_append (extendedLength_complete h) more

theorem payloadLength_fieldSize {length7 : Nat} {p : Bytes} {length fieldSize : Nat}
    (h : payloadLength length7 p = .length length fieldSize) : fieldSize ≤ p.length := by
  unfold payloadLength at h
  split at h
  · obtain ⟨_, rfl⟩ := LengthResult.length.inj h
    exact Nat.zero_le _
  · rw [extendedLength_size h]
    refine extendedLength_complete ?_
    rw [h]
    nofun

theorem parsePayload_append {firstByte : UInt8} {masked : Bool} {length header : Nat} {p : Bytes}
    (h : parsePayload firstByte masked length header p ≠ .FrameIncomplete) (more : Bytes) :
    parsePayload firstByte masked length header (p ++ more) = parsePayload firstByte masked length header p := by
  unfold parsePayload at h ⊢
  split
  · rfl
  next hsmall =>
  rw [if_neg hsmall] at h
  have henough : maskingKeyLength masked + length ≤ p.length := by
    by_contra hshort
    rw [if_pos (Nat.lt_of_not_le hshort)] at h
    exact h rfl
  rw [if_neg (by rw [List.length_append]; omega), if_neg (by omega),
    List.drop_append_of_le_length (by omega), List.take_append_of_le_length (by rw [List.length_drop]; omega),
    List.take_append_of_le_length (by omega)]

theorem parseFrame_append {data : Bytes} (h : parseFrame data ≠ .FrameIncomplete) (more : Bytes) :
    parseFrame (data ++ more) = parseFrame data := by
  match data with
  | [] => exact absurd rfl h
  | [_] => exact absurd rfl h
  | firstByte :: secondByte :: p =>
    show parseFrame (firstByte :: secondByte :: (p ++ more)) = _
    unfold parseFrame at h ⊢
    dsimp only at h ⊢
    have hlength : payloadLength (secondByte.toNat % 0x80) p ≠ .incomplete := by
      intro hincomplete
      rw [hincomplete] at h
      exact h rfl
    rw [payloadLength_append hlength]
    cases hresult : payloadLength (secondByte.toNat % 0x80) p with
    | incomplete | error => rfl
    | length length fieldSize =>
      rw [hresult] at h
      dsimp only at h ⊢
      rw [List.drop_append_of_le_length (payloadLength_fieldSize hresult)]
      exact parsePayload_append h more

theorem parseFrame_end {data : Bytes} {frame : WebSocketFrame} {frameEnd : Nat}
    (h : parseFrame data = .FrameOK frame frameEnd) : 2 ≤ frameEnd ∧ frameEnd ≤ data.length := by
  match data with
  | [] => cases h
  | [_] => cases h
  | firstByte :: secondByte :: p =>
    unfold parseFrame at h
    dsimp only at h
    cases hresult : payloadLength (secondByte.toNat % 0x80) p with
    | incomplete | error =>
      rw [hresult] at h
      cases h
    | length length fieldSize =>
      have hfield := payloadLength_fieldSize hresult
      rw [hresult] at h
      dsimp only at h
      unfold parsePayload at h
      split at h
      · cases h
      split at h
      · cases h
      next henough =>
      obtain ⟨_, rfl⟩ := ParseFrameResult.FrameOK.inj h
      rw [List.length_drop] at henough
      rw [List.length_cons, List.length_cons]
      omega

/-! ## the frames of a stream -/

theorem scanFor_enough (n : Nat) : ∀ (stream : Bytes) (m : Nat), stream.length ≤ n → n ≤ m →
    scanFor m stream = scanFor n stream := by
  induction n with
  | zero =>
    intro stream m hn _
    obtain rfl := List.length_eq_zero_iff.mp (Nat.le_zero.mp hn)
    cases m <;> rfl
  | succ n ih =>
    intro stream m hn hm
    obtain ⟨m, rfl⟩ : ∃ k, m = k + 1 := ⟨m - 1, by omega⟩
    unfold scanFor
    cases hparse : parseFrame stream with
    | FrameIncomplete | FrameError => rfl
    | FrameOK frame frameEnd =>
      have hend := parseFrame_end hparse
      dsimp only
      rw [ih _ m (by rw [List.length_drop]; omega) (by omega)]

theorem scan_incomplete {stream : Bytes} (h : parseFrame stream = .FrameIncomplete) : scan stream = ⟨[], false, stream⟩ := by
  unfold scan
  cases stream with
  | nil => rfl
  | cons b bs => rw [List.length_cons, scanFor, h]

theorem scan_error {stream : Bytes} (h : parseFrame stream = .FrameError) : scan stream = ⟨[], true, stream⟩ := by
  unfold scan
  cases stream with
  | nil => cases h
  | cons b bs => rw [List.length_cons, scanFor, h]

/-- the payload of a text frame -/
def WebSocketFrame.texts (frame : WebSocketFrame) : List Bytes :=
  if frame.opCode = OpCodeText then [frame.payload] else []

theorem scan_ok {stream : Bytes} {frame : WebSocketFrame} {frameEnd : Nat}
    (h : parseFrame stream = .FrameOK frame frameEnd) :
    scan stream = { scan (stream.drop frameEnd) with
      texts := frame.texts ++ (scan (stream.drop frameEnd)).texts } := by
  have hend := parseFrame_end h
  unfold scan
  obtain ⟨n, hn⟩ : ∃ n, stream.length = n + 1 := ⟨stream.length - 1, by omega⟩
  have hrest := scanFor_enough (stream.drop frameEnd).length (stream.drop frameEnd) n (Nat.le_refl _)
    (by rw [List.length_drop]; omega)
  rw [hn, scanFor, h]
  dsimp only
  rw [hrest]
  unfold WebSocketFrame.texts
  split <;> rfl

theorem stream_induction {P : Bytes → Prop}
    (hincomplete : ∀ stream, parseFrame stream = .FrameIncomplete → P stream)
    (herror : ∀ stream, parseFrame stream = .FrameError → P stream)
    (hok : ∀ stream frame frameEnd, parseFrame stream = .FrameOK frame frameEnd → P (stream.drop frameEnd) → P stream)
    (stream : Bytes) : P stream := by
  induction hlen : stream.length using Nat.strong_induction_on generalizing stream with
  | _ n ih =>
    cases hparse : parseFrame stream with
    | FrameIncomplete => exact hincomplete stream hparse
    | FrameError => exact herror stream hparse
    | FrameOK frame frameEnd =>
      have hend := parseFrame_end hparse
      exact hok stream frame frameEnd hparse (ih _ (by rw [List.length_drop]; omega) _ rfl)

/-- **A stream that goes on.**  What follows joins what was left; a malformed frame stays. -/
theorem scan_append (stream more : Bytes) :
    ((scan stream).malformed = false →
      scan (stream ++ more) = { scan ((scan stream).rest ++ more) with
        texts := (scan stream).texts ++ (scan ((scan stream).rest ++ more)).texts }) ∧
    ((scan stream).malformed = true → (scan (stream ++ more)).malformed = true) := by
  induction stream using stream_induction with
  | hincomplete stream h =>
    rw [scan_incomplete h]
    exact ⟨fun _ => rfl, nofun⟩
  | herror stream h =>
    have hmore : parseFrame (stream ++ more) = .FrameError := by
      rw [parseFrame_append (by rw [h]; nofun), h]
    rw [scan_error h, scan_error hmore]
    exact ⟨nofun, fun _ => rfl⟩
  | hok stream frame frameEnd h ih =>
    have hend := parseFrame_end h
    have hmore : parseFrame (stream ++ more) = .FrameOK frame frameEnd := by
      rw [parseFrame_append (by rw [h]; nofun), h]
    have hdrop : (stream ++ more).drop frameEnd = stream.drop frameEnd ++ more := List.drop_append_of_le_length hend.2
    rw [scan_ok h, scan_ok hmore, hdrop]
    dsimp only
    constructor
    · intro hfine
      rw [ih.1 hfine]
      dsimp only
      rw [List.append_assoc]
    · exact ih.2

theorem scan_rest (stream : Bytes) : (scan stream).rest.length ≤ stream.length ∧
    ((scan stream).malformed = false → parseFrame (scan stream).rest = .FrameIncomplete) := by
  induction stream using stream_induction with
  | hincomplete stream h =>
    rw [scan_incomplete h]
    exact ⟨Nat.le_refl _, fun _ => h⟩
  | herror stream h =>
    rw [scan_error h]
    exact ⟨Nat.le_refl _, nofun⟩
  | hok stream frame frameEnd h ih =>
    rw [scan_ok h]
    rw [List.length_drop] at ih
    exact ⟨Nat.le_trans ih.1 (Nat.sub_le _ _), ih.2⟩

/-! ## the loop -/

namespace Connection

/-- the connection after the frames of its buffer -/
def scanned (c : Connection) : Connection :=
  { c with bufferedData := (scan c.bufferedData).rest, messages := c.messages ++ (scan c.bufferedData).texts }

theorem readWebSocketFrame_ok {garbage : Nat → Nat} {c : Connection} {frame : WebSocketFrame} {frameEnd : Nat}
    (h : parseFrame c.bufferedData = .FrameOK frame frameEnd) :
    c.readWebSocketFrame garbage = (true,
      { c with bufferedData := c.bufferedData.drop frameEnd, messages := c.messages ++ frame.texts }) := by
  have hend := (parseFrame_end h).2
  unfold readWebSocketFrame WebSocketFrame.texts
  rw [h]
  dsimp only
  split
  · unfold remove
    rw [if_pos hend]
  · unfold remove
    rw [if_pos hend, List.append_nil]

theorem readWebSocketFrames_ok {garbage : Nat → Nat} {c : Connection} {frame : WebSocketFrame} {frameEnd : Nat}
    (h : parseFrame c.bufferedData = .FrameOK frame frameEnd) (fuel : Nat) :
    readWebSocketFrames garbage (fuel + 1) c =
      if (c.bufferedData.drop frameEnd).isEmpty then
        some { c with bufferedData := c.bufferedData.drop frameEnd, messages := c.messages ++ frame.texts }
      else readWebSocketFrames garbage fuel
        { c with bufferedData := c.bufferedData.drop frameEnd, messages := c.messages ++ frame.texts } := by
  rw [readWebSocketFrames, readWebSocketFrame_ok h]

/-- **The loop on well-formed frames**, by the frames of the buffer: it hands over the texts, and it ends. -/
theorem readWebSocketFrames_fine (garbage : Nat → Nat) (stream : Bytes) :
    ∀ (fuel : Nat) (c : Connection), c.bufferedData = stream → (scan stream).malformed = false →
      (∀ c', readWebSocketFrames garbage fuel c = some c' → c' = c.scanned) ∧
      (stream.length < fuel → readWebSocketFrames garbage fuel c = some c.scanned) := by
  induction stream using stream_induction with
  | hincomplete stream h =>
    rintro fuel c rfl _
    have hscanned : c.scanned = c := by
      unfold scanned
      rw [scan_incomplete h, List.append_nil]
    rw [hscanned]
    cases fuel with
    | zero => exact ⟨nofun, nofun⟩
    | succ fuel =>
      have hstop : readWebSocketFrames garbage (fuel + 1) c = some c := by
        rw [readWebSocketFrames, readWebSocketFrame, h]
      exact ⟨fun _ hrun => (Option.some.inj (hstop.symm.trans hrun)).symm, fun _ => hstop⟩
  | herror stream h =>
    intro _ _ _ hfine
    rw [scan_error h] at hfine
    cases hfine
  | hok stream frame frameEnd h ih =>
    rintro fuel c rfl hfine
    have hend := parseFrame_end h
    rw [scan_ok h] at hfine
    cases fuel with
    | zero => exact ⟨nofun, nofun⟩
    | succ fuel =>
      have hscanned : c.scanned =
          scanned { c with bufferedData := c.bufferedData.drop frameEnd, messages := c.messages ++ frame.texts } := by
        unfold scanned
        rw [scan_ok h]
        dsimp only
        rw [List.append_assoc]
      rw [hscanned, readWebSocketFrames_ok h]
      split
      · next hempty =>
        have hnil := List.isEmpty_iff.mp hempty
        have hdone : scanned
            { c with bufferedData := c.bufferedData.drop frameEnd, messages := c.messages ++ frame.texts } =
            { c with bufferedData := c.bufferedData.drop frameEnd, messages := c.messages ++ frame.texts } := by
          unfold scanned
          dsimp only
          rw [hnil, scan_incomplete rfl, List.append_nil]
        rw [hdone]
        exact ⟨fun _ hrun => (Option.some.inj hrun).symm, fun _ => rfl⟩
      · obtain ⟨hresult, hends⟩ := ih fuel
          { c with bufferedData := c.bufferedData.drop frameEnd, messages := c.messages ++ frame.texts } rfl hfine
        rw [List.length_drop] at hends
        exact ⟨hresult, fun hfuel => hends (by omega)⟩

theorem remove_overrun (c : Connection) (length : Nat) (h : c.overrun = true) : (c.remove length).overrun = true := by
  unfold remove
  split
  · exact h
  · rfl

theorem readWebSocketFrame_overrun {garbage : Nat → Nat} {c : Connection} (h : c.overrun = true) :
    (c.readWebSocketFrame garbage).2.overrun = true := by
  unfold readWebSocketFrame
  split
  · exact h
  · exact remove_overrun _ _ h
  · split <;> exact remove_overrun _ _ h

theorem readWebSocketFrames_overrun {garbage : Nat → Nat} {fuel : Nat} {c c' : Connection} (h : c.overrun = true)
    (hrun : readWebSocketFrames garbage fuel c = some c') : c'.overrun = true := by
  induction fuel generalizing c with
  | zero => cases hrun
  | succ fuel ih =>
    have hframe : (c.readWebSocketFrame garbage).2.overrun = true := readWebSocketFrame_overrun h
    rw [readWebSocketFrames] at hrun
    split at hrun
    · next heq =>
      rw [heq] at hframe
      exact Option.some.inj hrun ▸ hframe
    · next heq =>
      rw [heq] at hframe
      split at hrun
      · exact Option.some.inj hrun ▸ hframe
      · exact ih hframe hrun

theorem receive_overrun {garbage : Nat → Nat} {fuel : Nat} {chunks : List Bytes} {c c' : Connection}
    (h : c.overrun = true) (hrun : receive garbage fuel c chunks = some c') : c'.overrun = true := by
  induction chunks generalizing c with
  | nil => exact Option.some.inj hrun ▸ h
  | cons data rest ih =>
    rw [receive] at hrun
    split at hrun
    · cases hrun
    · next c₁ hdata =>
      unfold didReceiveSocketStreamData at hdata
      exact ih (readWebSocketFrames_overrun (c := { c with bufferedData := c.bufferedData ++ data }) h hdata) hrun

theorem readWebSocketFrames_malformed (stray : Nat) (stream : Bytes) :
    ∀ (fuel : Nat) (c c' : Connection), c.bufferedData = stream → (scan stream).malformed = true →
      stream.length < stray → readWebSocketFrames (fun _ => stray) fuel c = some c' → c'.overrun = true := by
  induction stream using stream_induction with
  | hincomplete stream h =>
    intro _ _ _ _ hmalformed
    rw [scan_incomplete h] at hmalformed
    cases hmalformed
  | herror stream h =>
    rintro fuel c c' rfl _ hstray hrun
    cases fuel with
    | zero => cases hrun
    | succ fuel =>
      have herror : c.readWebSocketFrame (fun _ => stray) =
          (true, { c with errors := c.errors + 1, bufferedData := [], overrun := true }) := by
        rw [readWebSocketFrame, h]
        dsimp only
        unfold remove
        rw [if_neg (Nat.not_le_of_lt hstray)]
      rw [readWebSocketFrames, herror] at hrun
      exact Option.some.inj hrun ▸ rfl
  | hok stream frame frameEnd h ih =>
    rintro fuel c c' rfl hmalformed hstray hrun
    rw [scan_ok h] at hmalformed
    cases fuel with
    | zero => cases hrun
    | succ fuel =>
      rw [readWebSocketFrames_ok h] at hrun
      split at hrun
      · next hempty =>
        rw [List.isEmpty_iff.mp hempty] at hmalformed
        cases hmalformed
      · refine ih fuel _ c' rfl hmalformed (Nat.lt_of_le_of_lt ?_ hstray) hrun
        rw [List.length_drop]
        exact Nat.sub_le _ _

/-! ## one call after another -/

/-- a connection that waits for the rest of a frame -/
def Waiting (c : Connection) : Prop := parseFrame c.bufferedData = .FrameIncomplete

theorem Waiting.scanned {c : Connection} (h : c.Waiting) : c.scanned = c := by
  unfold Connection.scanned
  rw [scan_incomplete h, List.append_nil]

theorem scanned_append (c : Connection) (data more : Bytes) (h : (scan (c.bufferedData ++ data)).malformed = false) :
    scanned { c with bufferedData := c.bufferedData ++ (data ++ more) } =
      scanned { scanned { c with bufferedData := c.bufferedData ++ data } with
        bufferedData := (scan (c.bufferedData ++ data)).rest ++ more } := by
  unfold scanned
  dsimp only
  rw [← List.append_assoc, (scan_append _ more).1 h]
  dsimp only
  rw [List.append_assoc]

/-- **However it is split**, a stream without a malformed frame ends as in one call, by the calls. -/
theorem receive_fine (garbage : Nat → Nat) (fuel : Nat) (chunks : List Bytes) (c : Connection) (hwaiting : c.Waiting)
    (hfine : (scan (c.bufferedData ++ chunks.flatten)).malformed = false)
    (hfuel : (c.bufferedData ++ chunks.flatten).length < fuel) :
    receive garbage fuel c chunks = some (scanned { c with bufferedData := c.bufferedData ++ chunks.flatten }) := by
  induction chunks generalizing c with
  | nil =>
    rw [List.flatten_nil, List.append_nil, hwaiting.scanned]
    rfl
  | cons data rest ih =>
    rw [List.flatten_cons] at hfine hfuel ⊢
    have hfirst : (scan (c.bufferedData ++ data)).malformed = false := by
      refine Bool.eq_false_iff.mpr fun hmalformed => ?_
      have hstays := (scan_append _ rest.flatten).2 hmalformed
      rw [List.append_assoc, hfine] at hstays
      cases hstays
    have hread := (readWebSocketFrames_fine garbage _ fuel { c with bufferedData := c.bufferedData ++ data } rfl
      hfirst).2 (by simp only [List.length_append] at hfuel ⊢; omega)
    have hrest := scan_rest (c.bufferedData ++ data)
    rw [receive, didReceiveSocketStreamData, hread, scanned_append c data _ hfirst]
    refine ih (scanned { c with bufferedData := c.bufferedData ++ data }) (hrest.2 hfirst) ?_ ?_
    · rw [← List.append_assoc, (scan_append _ rest.flatten).1 hfirst] at hfine
      exact hfine
    · have hlength : (scan (c.bufferedData ++ data)).rest.length ≤ (c.bufferedData ++ data).length := hrest.1
      show ((scan (c.bufferedData ++ data)).rest ++ rest.flatten).length < fuel
      simp only [List.length_append] at hfuel hlength ⊢
      omega

theorem receive_malformed (stray fuel : Nat) (chunks : List Bytes) (c c' : Connection) (hwaiting : c.Waiting)
    (hmalformed : (scan (c.bufferedData ++ chunks.flatten)).malformed = true)
    (hstray : (c.bufferedData ++ chunks.flatten).length < stray)
    (hrun : receive (fun _ => stray) fuel c chunks = some c') : c'.overrun = true := by
  induction chunks generalizing c with
  | nil =>
    rw [List.flatten_nil, List.append_nil, scan_incomplete hwaiting] at hmalformed
    cases hmalformed
  | cons data rest ih =>
    rw [List.flatten_cons] at hmalformed hstray
    rw [receive] at hrun
    split at hrun
    · cases hrun
    · next c₁ hdata =>
      cases hfirst : (scan (c.bufferedData ++ data)).malformed with
      | true =>
        have hshort : (c.bufferedData ++ data).length < stray := by
          simp only [List.length_append] at hstray ⊢
          omega
        exact receive_overrun (readWebSocketFrames_malformed stray _ fuel _ _ rfl hfirst hshort hdata) hrun
      | false =>
        obtain rfl := (readWebSocketFrames_fine _ _ fuel _ rfl hfirst).1 c₁ hdata
        have hrest := scan_rest (c.bufferedData ++ data)
        refine ih (scanned { c with bufferedData := c.bufferedData ++ data }) (hrest.2 hfirst) ?_ ?_ hrun
        · rw [← List.append_assoc, (scan_append _ rest.flatten).1 hfirst] at hmalformed
          exact hmalformed
        · have hlength : (scan (c.bufferedData ++ data)).rest.length ≤ (c.bufferedData ++ data).length := hrest.1
          show ((scan (c.bufferedData ++ data)).rest ++ rest.flatten).length < stray
          simp only [List.length_append] at hstray hlength ⊢
          omega

end Connection

/-- The calls of `didReceiveSocketStreamData` all return.  They have handed over the text frames before the first
malformed frame, the connection is shut down if there is one, and the buffer has lost no bytes but its own. -/
def ReadsStream (garbage : Nat → Nat) (chunks : List Bytes) : Prop :=
  ∃ fuel c, Connection.receive garbage fuel {} chunks = some c ∧
    c.messages = (scan chunks.flatten).texts ∧
    c.shutdown = (scan chunks.flatten).malformed ∧
    c.overrun = false

/-- **The frame stream.**  A stream is read as it should be, whatever was in `frameEnd`, when it has no malformed
frame; how it is split does not matter. -/
theorem frames_read (chunks : List Bytes) :
    (∀ garbage, ReadsStream garbage chunks) ↔ (scan chunks.flatten).malformed = false := by
  constructor
  · intro h
    obtain ⟨fuel, c, hrun, _, _, hbuffer⟩ := h fun _ => chunks.flatten.length + 1
    refine Bool.eq_false_iff.mpr fun hmalformed => ?_
    have hoverrun := Connection.receive_malformed _ fuel chunks {} c rfl hmalformed (Nat.lt_succ_self _) hrun
    rw [hbuffer] at hoverrun
    cases hoverrun
  · intro hfine garbage
    have hrun := Connection.receive_fine garbage (chunks.flatten.length + 1) chunks {} rfl hfine (Nat.lt_succ_self _)
    exact ⟨_, _, hrun, rfl, hfine.symm, rfl⟩

/-- a length that should have been in the second byte, with a `frameEnd` at the end of the address space -/
theorem malformed_overruns : ¬ReadsStream (fun _ => 0xFFFFFFFF) [[0x81, 0x01, 0x41], [0x81, 0x7E, 0x00, 0x01, 0x42]] := by
  rintro ⟨fuel, c, hrun, _, _, hbuffer⟩
  have hoverrun := Connection.receive_malformed 0xFFFFFFFF fuel _ {} c rfl (by decide) (by decide) hrun
  rw [hbuffer] at hoverrun
  cases hoverrun

end Inspector
end Wkc
