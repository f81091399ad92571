import Mathlib.Data.List.DropRight
import WkcBrowser.Wtf.Text

/-!
# `TextCodecWKC`: decoding a text that comes in pieces

The bytes go to the peer in windows of 256; what the peer leaves of a window comes first in the next one,
and what it leaves at the end is kept in `m_remains8` for the next piece.  Each piece is decoded twice, once
to count and once to write; the bytes are kept by the second pass, and only if it has something to write.

* `DecodePeer`     the decoder, which is not part of this repository: a transducer that reads bytes, and
                   may leave some of them;
* `passLoop`, `decodePass`, `decode`   the two passes over a piece;
* `Windows`, `Cut`   no window but the last is silent, and the bytes left by it are kept;
* `decode_cut`     pieces cut like this give the text of the whole;
* `decodePass_room`   the second pass has the room that it needs.
-/

namespace Wkc

/-- `remains`: how many bytes at the end of the input were not consumed -/
structure Answer (σ : Type) where
  state : σ
  out : WString
  remains : Nat
  error : Bool

/-- `wkcI18NDecodePeer` with its state, for a fixed `stopOnError`; with no place to write to it only counts.
What it does with some bytes does not depend on those that follow. -/
structure DecodePeer (σ : Type) where
  decode : σ → Bytes → Option Nat → Answer σ
  flush : σ → σ
  remains_le : ∀ s bs, (decode s bs none).remains ≤ bs.length
  remains_lt : ∀ s bs, (decode s bs none).remains < 16
  idle : ∀ s bs, (decode s bs none).remains = bs.length →
    (decode s bs none).out = [] ∧ (decode s bs none).state = s
  resume : ∀ s xs ys, ∀ a b, a = decode s xs none →
    b = decode a.state (xs.drop (xs.length - a.remains) ++ ys) none →
    (decode s (xs ++ ys) none).state = b.state ∧ (decode s (xs ++ ys) none).out = a.out ++ b.out ∧
      (decode s (xs ++ ys) none).remains = b.remains
  room : ∀ s bs n, (decode s bs none).out.length ≤ n → decode s bs (some n) = decode s bs none

/-- `remains8`: the first `m_remainsLen` bytes -/
structure TextCodecWKC (σ : Type) where
  decoder : σ
  remains8 : Bytes

namespace TextCodecWKC

section
variable {σ : Type} (peer : DecodePeer σ)

/-- the next window, and what is left of the piece -/
def refill (keep rest : Bytes) : Bytes × Bytes :=
  let len := min rest.length (256 - keep.length)
  (keep ++ rest.take len, rest.drop len)

/-- the variables after the loop -/
structure Pass (σ : Type) where
  state : σ
  buf : Bytes
  remains : Nat
  out : WString
  sawError : Bool

def passLoop : Nat → Option Nat → σ → Bytes → Bytes → Nat → WString → Bool → Option (Pass σ)
  | 0, _, _, _, _, _, _, _ => none
  | fuel + 1, outbuf, s, buf, rest, remains, out, sawError =>
    if buf.length = 0 then some ⟨s, buf, remains, out, sawError⟩
    else
      let a := peer.decode s buf outbuf
      let sawError := sawError || a.error
      if a.out.length = 0 then some ⟨a.state, buf, a.remains, out, sawError⟩
      else
        let next := refill (buf.drop (buf.length - a.remains)) rest
        passLoop fuel (outbuf.map (fun n => n - a.out.length)) a.state next.1 next.2 a.remains
          (out ++ a.out) sawError

/-- each window but the last consumes something -/
def decodePass (outbuf : Option Nat) (codec : TextCodecWKC σ) (str : Bytes) : Option (Pass σ) :=
  let next := refill codec.remains8 str
  passLoop peer (codec.remains8.length + str.length + 1) outbuf codec.decoder next.1 next.2 0 [] false

/-- `m_remains8` after the writing pass -/
def kept (p : Pass σ) : Bytes := if 0 < p.remains ∧ p.remains < 16 then p.buf.take p.remains else []

/-- The text, `sawError` and the codec.  A string of length 0 has no buffer: `createUninitialized` sets
`ubuf` to null, and the second pass counts again. -/
def decode (codec : TextCodecWKC σ) (str : Bytes) (flush : Bool) :
    Option (WString × Bool × TextCodecWKC σ) :=
  let codec : TextCodecWKC σ := if flush then ⟨peer.flush codec.decoder, []⟩ else codec
  if str.isEmpty then some ([], false, codec)
  else do
    let counted ← decodePass peer none codec str
    let ubuf := if counted.out.length = 0 then none else some counted.out.length
    let written ← decodePass peer ubuf codec str
    let remains8 := if ubuf.isSome then kept written else codec.remains8
    some (written.out, counted.sawError || written.sawError, ⟨written.state, remains8⟩)

def decodePieces : TextCodecWKC σ → List Bytes → Option WString
  | _, [] => some []
  | codec, piece :: pieces => do
    let (out, _, codec) ← decode peer codec piece false
    let more ← decodePieces codec pieces
    some (out ++ more)

/-! ## where the pieces may be cut -/

/-- No window but the last is silent; with `exact` the peer leaves nothing of that one, or all of it. -/
inductive Windows (exact : Bool) : σ → Bytes → Bytes → Prop
  | done (s : σ) : Windows exact s [] []
  | last (s : σ) (buf : Bytes) (ne : buf ≠ []) (silent : (peer.decode s buf none).out = [])
      (tail : exact = true → (peer.decode s buf none).remains = 0 ∨
        (peer.decode s buf none).remains = buf.length) : Windows exact s buf []
  | more (s : σ) (buf rest : Bytes) (ne : buf ≠ []) (loud : (peer.decode s buf none).out ≠ [])
      (next : Windows exact (peer.decode s buf none).state
        (refill (buf.drop (buf.length - (peer.decode s buf none).remains)) rest).1
        (refill (buf.drop (buf.length - (peer.decode s buf none).remains)) rest).2) :
      Windows exact s buf rest

/-- the windows of a piece -/
def Pieced (exact : Bool) (codec : TextCodecWKC σ) (str : Bytes) : Prop :=
  Windows peer exact codec.decoder (refill codec.remains8 str).1 (refill codec.remains8 str).2

/-- the peer's answer for all the bytes at once -/
def whole (codec : TextCodecWKC σ) (str : Bytes) : Answer σ :=
  peer.decode codec.decoder (codec.remains8 ++ str) none

/-- the codec that goes on after `str` as the peer does -/
def after (codec : TextCodecWKC σ) (str : Bytes) : TextCodecWKC σ :=
  ⟨(whole peer codec str).state, (codec.remains8 ++ str).rtake (whole peer codec str).remains⟩

/-- A piece without output leaves just the bytes that were kept before it.  Of the last piece only the
text counts. -/
def Cut : TextCodecWKC σ → List Bytes → Prop
  | _, [] => True
  | codec, [piece] => Pieced peer false codec piece
  | codec, piece :: next :: pieces =>
    Pieced peer true codec piece ∧
      ((whole peer codec piece).out = [] → (after peer codec piece).remains8 = codec.remains8) ∧
      Cut (after peer codec piece) (next :: pieces)

end

/-! ## the loop -/

section
variable {σ : Type} {peer : DecodePeer σ}

theorem refill_append (keep rest : Bytes) : (refill keep rest).1 ++ (refill keep rest).2 = keep ++ rest := by
  unfold refill
  rw [List.append_assoc, List.take_append_drop]

theorem refill_length (keep rest : Bytes) :
    (refill keep rest).1.length + (refill keep rest).2.length = keep.length + rest.length := by
  rw [← List.length_append, refill_append, List.length_append]

theorem rtake_append {xs ys : Bytes} {n : Nat} (h : n ≤ ys.length) : (xs ++ ys).rtake n = ys.rtake n := by
  unfold List.rtake
  rw [List.length_append, List.drop_append, List.drop_eq_nil_of_le (by omega), List.nil_append]
  congr 1
  omega

theorem passLoop_windows {exact : Bool} {s : σ} {buf rest : Bytes} (h : Windows peer exact s buf rest)
    {fuel : Nat} (hfuel : buf.length + rest.length < fuel) {remains : Nat}
    (hremains : buf = [] → remains = 0) (out : WString) (sawError : Bool) :
    ∃ p, passLoop peer fuel none s buf rest remains out sawError = some p ∧
      p.state = (peer.decode s (buf ++ rest) none).state ∧
      p.out = out ++ (peer.decode s (buf ++ rest) none).out ∧
      (exact = true → kept p = (buf ++ rest).rtake (peer.decode s (buf ++ rest) none).remains) := by
  induction h generalizing fuel remains out sawError with
  | done s =>
    obtain ⟨fuel, rfl⟩ : ∃ n, fuel = n + 1 := Nat.exists_eq_succ_of_ne_zero (by omega)
    have hzero : (peer.decode s [] none).remains = 0 := Nat.le_zero.mp (peer.remains_le s [])
    obtain ⟨hout, hstate⟩ := peer.idle s [] hzero
    refine ⟨⟨s, [], remains, out, sawError⟩, rfl, hstate.symm, ?_, ?_⟩
    · show out = out ++ (peer.decode s [] none).out
      rw [hout, List.append_nil]
    · intro _
      show kept ⟨s, [], remains, out, sawError⟩ = List.rtake [] (peer.decode s [] none).remains
      rw [hremains rfl, hzero]
      rfl
  | last s buf ne silent tail =>
    obtain ⟨fuel, rfl⟩ : ∃ n, fuel = n + 1 := Nat.exists_eq_succ_of_ne_zero (by omega)
    have hlen : ¬ buf.length = 0 := fun hz => ne (List.length_eq_zero_iff.mp hz)
    have hsilent : (peer.decode s buf none).out.length = 0 := by rw [silent]; rfl
    rw [List.append_nil, passLoop, if_neg hlen]
    dsimp only
    rw [if_pos hsilent]
    refine ⟨_, rfl, rfl, by rw [silent, List.append_nil], ?_⟩
    intro hexact
    have hlt := peer.remains_lt s buf
    unfold kept List.rtake
    dsimp only
    rcases tail hexact with hnone | hall
    · rw [hnone, if_neg (by omega), Nat.sub_zero, List.drop_length]
    · rw [hall] at hlt
      rw [hall, if_pos ⟨Nat.pos_of_ne_zero hlen, hlt⟩, Nat.sub_self, List.take_length, List.drop_zero]
  | more s buf rest ne loud next ih =>
    obtain ⟨fuel, rfl⟩ : ∃ n, fuel = n + 1 := Nat.exists_eq_succ_of_ne_zero (by omega)
    have hlen : ¬ buf.length = 0 := fun hz => ne (List.length_eq_zero_iff.mp hz)
    have hloud : ¬ (peer.decode s buf none).out.length = 0 := fun hz => loud (List.length_eq_zero_iff.mp hz)
    have hle := peer.remains_le s buf
    -- a window with output has consumed something
    have hlt : (peer.decode s buf none).remains ≠ buf.length := fun heq => loud (peer.idle s buf heq).1
    have hkeep : (buf.drop (buf.length - (peer.decode s buf none).remains)).length =
        (peer.decode s buf none).remains := by
      rw [List.length_drop]
      omega
    have hsum := refill_length (buf.drop (buf.length - (peer.decode s buf none).remains)) rest
    rw [hkeep] at hsum
    obtain ⟨p, hp, hstate, hout, htail⟩ := @ih fuel (by omega) (peer.decode s buf none).remains
      (by
        intro hnil
        rw [hnil, List.length_nil] at hsum
        unfold refill at hnil
        have hboth := List.append_eq_nil_iff.mp hnil
        rw [← hkeep, hboth.1]
        rfl)
      (out ++ (peer.decode s buf none).out) (sawError || (peer.decode s buf none).error)
    rw [refill_append] at hstate hout htail
    obtain ⟨hs, ho, hr⟩ := peer.resume s buf rest _ _ rfl rfl
    rw [passLoop, if_neg hlen]
    dsimp only
    rw [if_neg hloud]
    refine ⟨p, hp, ?_, ?_, ?_⟩
    · rw [hstate, hs]
    · rw [hout, ho, List.append_assoc]
    · intro hexact
      rw [htail hexact, hr]
      have hsplit : buf ++ rest = buf.take (buf.length - (peer.decode s buf none).remains) ++
          (buf.drop (buf.length - (peer.decode s buf none).remains) ++ rest) := by
        rw [← List.append_assoc, List.take_append_drop]
      rw [hsplit, rtake_append (peer.remains_le _ _)]

theorem passLoop_out_le {fuel : Nat} {outbuf : Option Nat} {s : σ} {buf rest : Bytes} {remains : Nat}
    {out : WString} {sawError : Bool} {p : Pass σ}
    (h : passLoop peer fuel outbuf s buf rest remains out sawError = some p) :
    out.length ≤ p.out.length := by
  induction fuel generalizing outbuf s buf rest remains out sawError with
  | zero => cases h
  | succ fuel ih =>
    rw [passLoop] at h
    split at h
    · obtain rfl := Option.some.inj h
      exact le_rfl
    · dsimp only at h
      split at h
      · obtain rfl := Option.some.inj h
        exact le_rfl
      · have hle := ih h
        rw [List.length_append] at hle
        exact (Nat.le_add_right _ _).trans hle

theorem passLoop_room {fuel : Nat} {s : σ} {buf rest : Bytes} {remains : Nat} {out : WString}
    {sawError : Bool} {p : Pass σ} (h : passLoop peer fuel none s buf rest remains out sawError = some p)
    {n : Nat} (hn : p.out.length ≤ out.length + n) :
    passLoop peer fuel (some n) s buf rest remains out sawError = some p := by
  induction fuel generalizing s buf rest remains out sawError n with
  | zero => cases h
  | succ fuel ih =>
    rw [passLoop] at h ⊢
    by_cases hlen : buf.length = 0
    · rw [if_pos hlen] at h ⊢
      exact h
    · rw [if_neg hlen] at h ⊢
      dsimp only at h ⊢
      by_cases hsilent : (peer.decode s buf none).out.length = 0
      · rw [peer.room s buf n (by omega)]
        rw [if_pos hsilent] at h ⊢
        exact h
      · rw [if_neg hsilent] at h
        have hle := passLoop_out_le h
        rw [List.length_append] at hle
        rw [peer.room s buf n (by omega), if_neg hsilent]
        apply ih h
        show p.out.length ≤ (out ++ (peer.decode s buf none).out).length +
          (n - (peer.decode s buf none).out.length)
        rw [List.length_append]
        omega

theorem decodePass_room {codec : TextCodecWKC σ} {str : Bytes} {p : Pass σ}
    (h : decodePass peer none codec str = some p) :
    decodePass peer (if p.out.length = 0 then none else some p.out.length) codec str = some p := by
  split
  · exact h
  · exact passLoop_room h (by rw [List.length_nil, Nat.zero_add])

theorem decodePass_pieced {exact : Bool} {codec : TextCodecWKC σ} {str : Bytes}
    (h : Pieced peer exact codec str) :
    ∃ p, decodePass peer none codec str = some p ∧ p.state = (whole peer codec str).state ∧
      p.out = (whole peer codec str).out ∧ (exact = true → kept p = (after peer codec str).remains8) := by
  have hsum := refill_length codec.remains8 str
  obtain ⟨p, hp, hstate, hout, htail⟩ := passLoop_windows h
    (Nat.lt_succ_of_le hsum.le) (fun _ => (rfl : 0 = 0)) [] false
  rw [refill_append] at hstate hout htail
  exact ⟨p, hp, hstate, hout, htail⟩

theorem decode_pieced {exact : Bool} {codec : TextCodecWKC σ} {str : Bytes} (hne : str ≠ [])
    (h : Pieced peer exact codec str) :
    ∃ b codec', decode peer codec str false = some ((whole peer codec str).out, b, codec') ∧
      (exact = true → ((whole peer codec str).out = [] →
        (after peer codec str).remains8 = codec.remains8) → codec' = after peer codec str) := by
  obtain ⟨p, hp, hstate, hout, htail⟩ := decodePass_pieced h
  have hempty : ¬ str.isEmpty = true := by simpa using hne
  unfold decode
  rw [if_neg Bool.false_ne_true, if_neg hempty, hp]
  simp only [Option.bind_eq_bind, Option.bind_some]
  rw [decodePass_room hp, Option.bind_some]
  refine ⟨_, _, by rw [hout], ?_⟩
  intro hexact hsilent
  have hafter : after peer codec str = ⟨p.state, (after peer codec str).remains8⟩ := by
    rw [hstate]
    rfl
  rw [hafter]
  by_cases hzero : (whole peer codec str).out.length = 0
  · rw [if_pos hzero, hsilent (List.length_eq_zero_iff.mp hzero)]
    rfl
  · rw [if_neg hzero, ← htail hexact]
    rfl

theorem whole_append (codec : TextCodecWKC σ) (xs ys : Bytes) :
    (whole peer codec (xs ++ ys)).out =
      (whole peer codec xs).out ++ (whole peer (after peer codec xs) ys).out := by
  obtain ⟨-, hout, -⟩ := peer.resume codec.decoder (codec.remains8 ++ xs) ys _ _ rfl rfl
  unfold whole after
  rw [← List.append_assoc]
  exact hout

theorem decodePieces_cut {codec : TextCodecWKC σ} {pieces : List Bytes} (hne : ∀ p ∈ pieces, p ≠ [])
    (h : Cut peer codec pieces) (hsome : pieces ≠ []) :
    decodePieces peer codec pieces = some (whole peer codec pieces.flatten).out := by
  induction pieces generalizing codec with
  | nil => exact absurd rfl hsome
  | cons piece pieces ih =>
    have hpiece := hne piece List.mem_cons_self
    cases pieces with
    | nil =>
      obtain ⟨b, codec', hdecode, -⟩ := decode_pieced hpiece h
      rw [decodePieces, hdecode, List.flatten_singleton]
      show some (_ ++ []) = _
      rw [List.append_nil]
    | cons next pieces =>
      obtain ⟨hpieced, hsilent, hrest⟩ := h
      obtain ⟨b, codec', hdecode, hafter⟩ := decode_pieced hpiece hpieced
      have hmore := ih (fun p hp => hne p (List.mem_cons_of_mem _ hp)) hrest (List.cons_ne_nil _ _)
      rw [decodePieces, hdecode, hafter rfl hsilent, List.flatten_cons, whole_append]
      simp only [Option.bind_eq_bind, Option.bind_some]
      rw [hmore, Option.bind_some]

end

/-- **The pieces of a text.**  Decoded one after another they give the text of the whole. -/
theorem decode_cut {σ : Type} (peer : DecodePeer σ) (codec : TextCodecWKC σ) {str : Bytes}
    {pieces : List Bytes} (hpieces : pieces.flatten = str) (hne : ∀ p ∈ pieces, p ≠ [])
    (hcut : Cut peer codec pieces) (hwhole : Pieced peer false codec str) :
    (∃ out, decodePieces peer codec pieces = some out ∧
      (decode peer codec str false).map Prod.fst = some out) ∧
    ∀ (c : TextCodecWKC σ) (piece : Bytes) (counted : Pass σ), decodePass peer none c piece = some counted →
      decodePass peer (if counted.out.length = 0 then none else some counted.out.length) c piece =
        some counted := by
  refine ⟨?_, fun c piece counted h => decodePass_room h⟩
  by_cases hnil : pieces = []
  · rw [hnil] at hpieces ⊢
    rw [← hpieces]
    exact ⟨[], rfl, rfl⟩
  · have hstr : str ≠ [] := by
      obtain ⟨piece, rest, rfl⟩ := List.exists_cons_of_ne_nil hnil
      intro hempty
      rw [hempty, List.flatten_cons] at hpieces
      exact hne piece List.mem_cons_self (List.append_eq_nil_iff.mp hpieces).1
    obtain ⟨b, codec', hdecode, -⟩ := decode_pieced hstr hwhole
    refine ⟨(whole peer codec str).out, ?_, ?_⟩
    · rw [← hpieces]
      exact decodePieces_cut hne hcut hnil
    · rw [hdecode]
      rfl

/-! ## a peer for units of two bytes -/

namespace Sample

/-- a byte from 0x80 on begins a unit of two bytes -/
def pairs : Bytes → WString × Nat
  | [] => ([], 0)
  | [b] => if b < 0x80 then ([b.toUInt16], 0) else ([], 1)
  | b :: c :: rest =>
    if b < 0x80 then (b.toUInt16 :: (pairs (c :: rest)).1, (pairs (c :: rest)).2)
    else ((b.toUInt16 * 0x100 + c.toUInt16) :: (pairs rest).1, (pairs rest).2)

theorem pairs_remains (bs : Bytes) :
    (pairs bs).2 ≤ 1 ∧ (pairs bs).2 ≤ bs.length ∧ ((pairs bs).2 = bs.length → (pairs bs).1 = []) := by
  induction bs using pairs.induct with
  | case1 => exact ⟨Nat.zero_le _, le_rfl, fun _ => rfl⟩
  | case2 b hb =>
    rw [pairs, if_pos hb]
    exact ⟨Nat.zero_le _, Nat.zero_le _, fun h => absurd h (by simp)⟩
  | case3 b hb =>
    rw [pairs, if_neg hb]
    exact ⟨le_rfl, le_rfl, fun _ => rfl⟩
  | case4 b c rest hb ih =>
    rw [pairs, if_pos hb, List.length_cons]
    refine ⟨ih.1, by have hle := ih.2.1; omega, ?_⟩
    intro h
    dsimp only at h
    omega
  | case5 b c rest hb ih =>
    rw [pairs, if_neg hb, List.length_cons, List.length_cons]
    refine ⟨ih.1, by have hle := ih.2.1; dsimp only; omega, ?_⟩
    intro h
    have hle := ih.2.1
    dsimp only at h
    omega

theorem pairs_resume (xs ys : Bytes) :
    pairs (xs ++ ys) = ((pairs xs).1 ++ (pairs (xs.rtake (pairs xs).2 ++ ys)).1,
      (pairs (xs.rtake (pairs xs).2 ++ ys)).2) := by
  have hcons : ∀ (pre bs : Bytes), (pairs bs).2 ≤ bs.length →
      (pre ++ bs).rtake (pairs bs).2 = bs.rtake (pairs bs).2 := fun pre bs h => rtake_append h
  induction xs using pairs.induct with
  | case1 => rfl
  | case2 b hb =>
    have hone : pairs [b] = ([b.toUInt16], 0) := by rw [pairs, if_pos hb]
    rw [hone]
    cases ys with
    | nil =>
      rw [List.append_nil, hone]
      rfl
    | cons y ys =>
      show pairs (b :: y :: ys) = _
      rw [pairs, if_pos hb]
      rfl
  | case3 b hb =>
    have hone : pairs [b] = ([], 1) := by rw [pairs, if_neg hb]
    rw [hone]
    rfl
  | case4 b c rest hb ih =>
    have hle := (pairs_remains (c :: rest)).2.1
    have hone : pairs (b :: c :: rest) =
        (b.toUInt16 :: (pairs (c :: rest)).1, (pairs (c :: rest)).2) := by rw [pairs, if_pos hb]
    have hall : pairs (b :: c :: rest ++ ys) =
        (b.toUInt16 :: (pairs (c :: rest ++ ys)).1, (pairs (c :: rest ++ ys)).2) := by
      show pairs (b :: c :: (rest ++ ys)) = _
      rw [pairs, if_pos hb]
      rfl
    rw [hone, hall, ih]
    dsimp only
    rw [show b :: c :: rest = [b] ++ c :: rest from rfl, hcons [b] _ hle]
    rfl
  | case5 b c rest hb ih =>
    have hle := (pairs_remains rest).2.1
    have hone : pairs (b :: c :: rest) =
        ((b.toUInt16 * 0x100 + c.toUInt16) :: (pairs rest).1, (pairs rest).2) := by rw [pairs, if_neg hb]
    have hall : pairs (b :: c :: rest ++ ys) =
        ((b.toUInt16 * 0x100 + c.toUInt16) :: (pairs (rest ++ ys)).1, (pairs (rest ++ ys)).2) := by
      show pairs (b :: c :: (rest ++ ys)) = _
      rw [pairs, if_neg hb]
    rw [hone, hall, ih]
    dsimp only
    rw [show b :: c :: rest = [b, c] ++ rest from rfl, hcons [b, c] _ hle]
    rfl

def pairsPeer : DecodePeer Unit where
  decode _ bs _ := ⟨(), (pairs bs).1, (pairs bs).2, false⟩
  flush s := s
  remains_le _ bs := (pairs_remains bs).2.1
  remains_lt _ bs := Nat.lt_of_le_of_lt (pairs_remains bs).1 (by decide)
  idle _ bs h := ⟨(pairs_remains bs).2.2 h, rfl⟩
  resume := by
    intro s xs ys a b ha hb
    subst ha
    subst hb
    have hres := pairs_resume xs ys
    have hout := congrArg Prod.fst hres
    have hremains := congrArg Prod.snd hres
    exact ⟨rfl, hout, hremains⟩
  room _ _ _ _ := rfl

def codec : TextCodecWKC Unit := ⟨(), []⟩

end Sample

open TextCodecWKC.Sample

/-- a unit of two bytes, cut in the middle -/
theorem decode_cut_one : ∃ out, decodePieces pairsPeer codec [[0x41, 0x81], [0x41]] = some out ∧
    (decode pairsPeer codec [0x41, 0x81, 0x41] false).map Prod.fst = some out := by
  have hhalf : Windows pairsPeer true () [0x81] [] := .last () [0x81] (by decide) rfl fun _ => Or.inr rfl
  have hfirst : Windows pairsPeer true () [0x41, 0x81] [] := .more () [0x41, 0x81] [] (by decide) (by decide) hhalf
  have hlast : Windows pairsPeer false () [0x81, 0x41] [] :=
    .more () [0x81, 0x41] [] (by decide) (by decide) (.done ())
  have hwhole : Windows pairsPeer false () [0x41, 0x81, 0x41] [] :=
    .more () [0x41, 0x81, 0x41] [] (by decide) (by decide) (.done ())
  exact (decode_cut pairsPeer codec (show [[0x41, 0x81], [0x41]].flatten = [0x41, 0x81, 0x41] from rfl) (by decide)
    ⟨hfirst, fun h => absurd h (by decide), hlast⟩ hwhole).1

/-- the first byte of a unit that comes alone is lost -/
theorem decode_cut_lost : decodePieces pairsPeer codec [[0x81], [0x41]] = some [0x41] ∧
    (decode pairsPeer codec [0x81, 0x41] false).map Prod.fst = some [0x8141] :=
  ⟨by decide +kernel, by decide +kernel⟩

end TextCodecWKC
end Wkc
