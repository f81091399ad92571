import WkcBrowser.Lib.Tokens
import WkcBrowser.Wtf.Text

/-!
# The UTF-8 codec of pages (TextCodecUTF8.cpp)

* `TextCodecUTF8`               the codec between two calls: the bytes of a character that is not complete;
* `handlePartialSequence`       what is done with them when more bytes come;
* `asciiWords`, `decodeLoop`    the bytes of a call, ASCII in machine words where the source is aligned;
* `decode`                      one call;
* `Fits`, `Leaves`              the variables of a call are inside the buffers.

`none` stands for an access beyond a buffer, or for a loop that is not done after as many turns as it has bytes.
-/

namespace Wkc.Utf8Codec
open Buf

def U8_MAX_LENGTH : Nat := 4
def replacementCharacter : UInt16 := 0xFFFD

def isASCII (b : UInt8) : Bool := b.toNat < 0x80

def nonASCIISequenceLength (firstByte : UInt8) : Nat :=
  if firstByte.toNat < 0x80 then 0
  else if firstByte.toNat < 0xE0 then 2
  else if firstByte.toNat < 0xF0 then 3
  else if firstByte.toNat < 0xF5 then 4
  else 0

/-- a byte from `low` to `high` -/
def within (low high : Nat) (b : UInt8) : Bool := low ≤ b.toNat && b.toNat ≤ high

/-- the switch over the first byte -/
def secondOfThree (a b : UInt8) : Bool :=
  if a = 0xE0 then within 0xA0 0xBF b else if a = 0xED then within 0x80 0x9F b else within 0x80 0xBF b

def secondOfFour (a b : UInt8) : Bool :=
  if a = 0xF0 then within 0x90 0xBF b else if a = 0xF4 then within 0x80 0x8F b else within 0x80 0xBF b

/-- `some none` is `nonCharacter`; no byte is read that the ones in front of it have ruled out -/
def decodeNonASCIISequence (sequence : Bytes) (length : Nat) : Option (Option Nat) := do
  let a ← sequence[0]?
  if length = 2 then
    if a.toNat < 0xC2 then return none
    let b ← sequence[1]?
    if !within 0x80 0xBF b then return none
    return some (a.toNat * 0x40 + b.toNat - 0x3080)
  else if length = 3 then
    let b ← sequence[1]?
    if !secondOfThree a b then return none
    let c ← sequence[2]?
    if !within 0x80 0xBF c then return none
    return some (a.toNat * 0x1000 + b.toNat * 0x40 + c.toNat - 0xE2080)
  else
    let b ← sequence[1]?
    if !secondOfFour a b then return none
    let c ← sequence[2]?
    if !within 0x80 0xBF c then return none
    let d ← sequence[3]?
    if !within 0x80 0xBF d then return none
    return some (a.toNat * 0x40000 + b.toNat * 0x1000 + c.toNat * 0x40 + d.toNat - 0x3C82080)

/-- a byte that begins no sequence is no character -/
def characterAt (source : Bytes) (count : Nat) : Option (Option Nat) :=
  if count = 0 then some none else decodeNonASCIISequence source count

/-- the first `m_partialSequenceSize` bytes of the buffer -/
structure TextCodecUTF8 where
  m_partialSequence : Bytes := []
  deriving DecidableEq

/-! ## one call -/

/-- the variables of a call: what it has written, and what it has not read -/
structure Cursor where
  m_partialSequence : Bytes
  destination : WString := []
  source : Bytes
  sawError : Bool

def write (room : Nat) (cs : WString) (c : Cursor) : Option Cursor :=
  if c.destination.length + cs.length ≤ room then some { c with destination := c.destination ++ cs } else none

/-- `memcpy` to the end of the partial sequence -/
def fill (bytes : Bytes) (c : Cursor) : Option Cursor :=
  if c.m_partialSequence.length + bytes.length ≤ U8_MAX_LENGTH then
    some { c with m_partialSequence := c.m_partialSequence ++ bytes }
  else none

def consumePartialSequenceByte (c : Cursor) : Cursor := { c with m_partialSequence := c.m_partialSequence.drop 1 }

section
variable (room : Nat) (flush stopOnError : Bool)

def handleError (c : Cursor) : Option Cursor :=
  let c := { c with sawError := true }
  if stopOnError then some c
  else (write room [replacementCharacter] c).map consumePartialSequenceByte

/-- what follows an error in the loop of `handlePartialSequence` -/
def afterError (go : Cursor → Option Cursor) (c : Cursor) : Option Cursor := do
  let c ← handleError room stopOnError c
  if stopOnError then return c
  go c

def complete (count : Nat) (c : Cursor) : Option Cursor := do
  let missing := count - c.m_partialSequence.length
  if missing = 0 then return c
  if c.source.length < missing then none
  let c ← fill (c.source.take missing) c
  return { c with source := c.source.drop missing }

def handlePartialSequence : Nat → Cursor → Option Cursor
  | 0, _ => none
  | fuel + 1, c =>
    match c.m_partialSequence with
    | [] => some c
    | first :: _ =>
      if isASCII first then do
        let c ← write room [UInt16.ofNat first.toNat] c
        handlePartialSequence fuel (consumePartialSequenceByte c)
      else
        let count := nonASCIISequenceLength first
        if count = 0 then afterError room stopOnError (handlePartialSequence fuel) c
        else if c.source.length < count - c.m_partialSequence.length then
          if !flush then fill c.source c
          else afterError room stopOnError (handlePartialSequence fuel) c
        else do
          let c ← complete count c
          match ← decodeNonASCIISequence c.m_partialSequence count with
          | none => afterError room stopOnError (handlePartialSequence fuel) c
          | some character =>
            -- the size goes down, the bytes stay where they are
            let size := c.m_partialSequence.length - count
            let c ← write room (utf16Char character) { c with m_partialSequence := c.m_partialSequence.take size }
            handlePartialSequence fuel c

/-- `endAddress` is the address of the end of the source, `word` the size of a machine word -/
def asciiWords (word endAddress : Nat) : Nat → Cursor → Option Cursor
  | 0, _ => none
  | fuel + 1, c =>
    if endAddress - c.source.length < endAddress / word * word then
      let chunk := c.source.take word
      if chunk.length < word then none
      else if chunk.all isASCII then do
        let c ← write room (chunk.map fun b => UInt16.ofNat b.toNat) c
        asciiWords word endAddress fuel { c with source := c.source.drop word }
      else some c
    else some c

def copyASCII (c : Cursor) : Option Cursor :=
  match c.source with
  | [] => some c
  | b :: rest =>
    if isASCII b then write room [UInt16.ofNat b.toNat] { c with source := rest } else some c

/-- a byte of ASCII, or as many words of it as there are and then a byte of it -/
def asciiTurn (word endAddress : Nat) (c : Cursor) : Option Cursor := do
  let c ← if (endAddress - c.source.length) % word = 0 then asciiWords room word endAddress (c.source.length + 1) c else some c
  copyASCII room c

def decodeLoop (word endAddress : Nat) : Nat → Cursor → Option Cursor
  | 0, _ => none
  | fuel + 1, c =>
    match c.source with
    | [] => some c
    | first :: rest =>
      if isASCII first then do
        let c ← asciiTurn room word endAddress c
        decodeLoop word endAddress fuel c
      else
        let count := nonASCIISequenceLength first
        if c.source.length < count then
          fill c.source { c with m_partialSequence := [], source := [] }
        else do
          match ← characterAt c.source count with
          | none =>
            let c := { c with sawError := true }
            if stopOnError then some c
            else do
              let c ← write room [replacementCharacter] { c with source := rest }
              decodeLoop word endAddress fuel c
          | some character => do
            let c ← write room (utf16Char character) { c with source := c.source.drop count }
            decodeLoop word endAddress fuel c

def decodeRounds (word endAddress : Nat) : Nat → Cursor → Option Cursor
  | 0, _ => none
  | fuel + 1, c => do
    let c ← handlePartialSequence room flush stopOnError (c.m_partialSequence.length + c.source.length + 1) c
    if c.m_partialSequence ≠ [] then return c
    let c ← decodeLoop room stopOnError word endAddress (c.source.length + 1) c
    if flush ∧ c.m_partialSequence ≠ [] then decodeRounds word endAddress fuel c else return c

end

/-- a call and where its bytes are -/
structure Call where
  address : Nat
  bytes : Bytes
  flush : Bool
  stopOnError : Bool

def decode (word : Nat) (codec : TextCodecUTF8) (call : Call) (sawError : Bool) :
    Option (TextCodecUTF8 × WString × Bool) := do
  let room := codec.m_partialSequence.length + call.bytes.length
  let c ← decodeRounds room call.flush call.stopOnError word (call.address + call.bytes.length) 2
    { m_partialSequence := codec.m_partialSequence, source := call.bytes, sawError }
  return (⟨c.m_partialSequence⟩, c.destination, c.sawError)

/-! ## inside the buffers -/

structure Fits (room : Nat) (c : Cursor) : Prop where
  all : c.destination.length + c.m_partialSequence.length + c.source.length ≤ room
  buffer : c.m_partialSequence.length ≤ U8_MAX_LENGTH

theorem write_some {room : Nat} {cs : WString} {c : Cursor} (h : c.destination.length + cs.length ≤ room) :
    write room cs c = some { c with destination := c.destination ++ cs } := if_pos h

theorem utf16Char_length (ch : Nat) : (utf16Char ch).length ≤ 2 := by
  unfold utf16Char
  split
  · exact Nat.le_succ 1
  · exact Nat.le_refl 2

theorem sequenceLength_le (b : UInt8) : nonASCIISequenceLength b ≤ 4 := by
  unfold nonASCIISequenceLength
  split_ifs <;> decide

theorem sequenceLength_ge {b : UInt8} (h : nonASCIISequenceLength b ≠ 0) : 2 ≤ nonASCIISequenceLength b := by
  unfold nonASCIISequenceLength at h ⊢
  split_ifs at h ⊢ <;> first | decide | exact absurd rfl h

section
variable {room : Nat} {flush stopOnError : Bool}

/-- the call is over unless the partial sequence is done -/
structure Leaves (room : Nat) (c c' : Cursor) : Prop where
  buffer : c'.m_partialSequence.length ≤ U8_MAX_LENGTH
  fits : c'.m_partialSequence = [] → Fits room c' ∧ c'.source.length ≤ c.source.length

/-- the loop behind an error -/
def erred (c : Cursor) : Cursor :=
  { c with
    sawError := true
    destination := c.destination ++ [replacementCharacter]
    m_partialSequence := c.m_partialSequence.drop 1 }

theorem afterError_eq {go : Cursor → Option Cursor} {c : Cursor} (h : c.destination.length + 1 ≤ room) :
    afterError room stopOnError go c = if stopOnError then some { c with sawError := true } else go (erred c) := by
  unfold afterError handleError
  cases stopOnError with
  | true => rfl
  | false =>
    simp only [Bool.false_eq_true, if_false, Option.bind_eq_bind]
    rw [write_some h]
    rfl

theorem complete_eq {c : Cursor} {count : Nat} (hcount : count ≤ 4)
    (hsource : count - c.m_partialSequence.length ≤ c.source.length) :
    complete count c = some { c with
      m_partialSequence := c.m_partialSequence ++ c.source.take (count - c.m_partialSequence.length)
      source := c.source.drop (count - c.m_partialSequence.length) } := by
  unfold complete
  by_cases hmissing : count - c.m_partialSequence.length = 0
  · simp only [hmissing, if_true, List.drop_zero, List.take_zero, List.append_nil]
    rfl
  · have htake : (c.source.take (count - c.m_partialSequence.length)).length = count - c.m_partialSequence.length :=
      List.length_take_of_le hsource
    have hfill : fill (c.source.take (count - c.m_partialSequence.length)) c =
        some { c with m_partialSequence :=
          c.m_partialSequence ++ c.source.take (count - c.m_partialSequence.length) } :=
      if_pos (by unfold U8_MAX_LENGTH; omega)
    simp only [hmissing, Nat.not_lt.mpr hsource, if_false, Option.bind_eq_bind]
    rw [hfill]
    rfl

end

end Wkc.Utf8Codec
