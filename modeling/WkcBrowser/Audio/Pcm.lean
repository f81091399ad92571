import Mathlib.Data.Rat.Defs
import Mathlib.Algebra.Order.Ring.Rat
import Mathlib.Tactic.NormNum
import Mathlib.Tactic.Linarith
import Mathlib.Data.List.GetD

/-!
# Decoded audio in memory (AudioBusWKC.cpp)

* `createBusFromInMemoryAudioFile`   asks the peer for PCM data and puts its samples on two channels;
* `frame`, `frames`                  one turn of its loops and all of them: `none` is a read outside the buffer;
* `Aligned`                          every output is mixed from the samples of its own frame;
* `aligned_iff_format`               the loops read three samples of a frame of four, so that is so for
                                     one and two channels only, or where there is but one frame.
-/

namespace Wkc.Pcm

inductive Endian
  | little
  | big
  | middle
  deriving DecidableEq, Repr

/-- what `wkcMediaPlayerDecodeAudioDataPeer` returns and writes through its pointers -/
structure Answer where
  len : Int
  srate : Int
  bps : Int
  channels : Int
  endian : Endian
  deriving DecidableEq

/-- the peer: asked with no buffer, then with one, and what that holds afterwards -/
structure Peer where
  ask : Answer
  fill : Answer
  buf : List UInt8

def accepted (a : Answer) : Bool :=
  a.len > 0 && (a.bps == 8 || a.bps == 16) && (a.channels == 1 || a.channels == 2 || a.channels == 4) &&
    a.srate > 0 && (a.endian == .little || a.endian == .big)

def dlen (a : Answer) : Nat :=
  let dlen := a.len.toNat
  let dlen := if a.bps = 16 then dlen >>> 1 else dlen
  if a.channels = 2 then dlen >>> 1 else if a.channels = 4 then dlen >>> 2 else dlen

/-- `(int)s[sp]-128` over 128 -/
def sample8 (s : List UInt8) (sp : Nat) : Option ℚ :=
  s[sp]?.map fun b => (((b.toNat : Int) - 128 : Int) : ℚ) / 128

def sample16 (bl bh : Nat) (s : List UInt8) (sp : Nat) : Option ℚ :=
  s[sp + bl]?.bind fun lo => s[sp + bh]?.map fun hi =>
    let v : Int := (lo.toNat : Int) + ((hi.toNat <<< 8 : Nat) : Int)
    let v := if v > 32767 then v - 65536 else v
    (v : ℚ) / 32768

def clamp (x : ℚ) : ℚ := if x < -1 then -1 else if x > 1 then 1 else x

/-- the width of a sample and how it is read -/
structure Reader where
  width : Nat
  sample : List UInt8 → Nat → Option ℚ

def reader (a : Answer) : Reader :=
  if a.bps = 8 then ⟨1, sample8⟩
  else if a.endian = .big then ⟨2, sample16 1 0⟩
  else ⟨2, sample16 0 1⟩

/-- one turn: the outputs `l` and `r`, and `sp` afterwards -/
def frame (rd : Reader) (channels : Int) (s : List UInt8) (sp : Nat) : Option ((ℚ × ℚ) × Nat) :=
  (rd.sample s sp).bind fun l =>
    let sp := sp + rd.width
    if channels = 2 then
      (rd.sample s sp).map fun r => ((l, r), sp + rd.width)
    else if channels = 4 then
      (rd.sample s sp).bind fun l' =>
        let sp := sp + rd.width
        (rd.sample s sp).map fun r' => ((clamp (l + l'), clamp (l + r')), sp + rd.width)
    else some ((l, l), sp)

/-- the loop, with the turns that are left -/
def frames (rd : Reader) (channels : Int) (s : List UInt8) : Nat → Nat → Option (List (ℚ × ℚ))
  | 0, _ => some []
  | n + 1, sp => (frame rd channels s sp).bind fun (out, sp) =>
    (frames rd channels s n sp).map fun rest => out :: rest

/-- The bus before the conversion to `sampleRate`; `some none` is the dummy one. -/
def createBusFromInMemoryAudioFile (p : Peer) : Option (Option (List (ℚ × ℚ))) :=
  if accepted p.ask then
    if p.fill.len > 0 then
      (frames (reader p.fill) p.fill.channels p.buf (dlen p.fill) 0).map some
    else some none
  else some none

/-! ## what is meant -/

/-- The peer delivers `a.len` bytes of the format `a`, to a buffer as long as it had asked for. -/
structure Delivers (a : Answer) (p : Peer) : Prop where
  fill : p.fill = a
  ask : p.ask = { a with len := p.buf.length }
  room : a.len ≤ p.buf.length

def frameSize (a : Answer) : Nat := (a.channels * a.bps / 8).toNat

def frameBytes (a : Answer) (buf : List UInt8) (i : Nat) : List UInt8 :=
  (buf.drop (i * frameSize a)).take (frameSize a)

/-- the sample of a channel in the bytes of a frame -/
def channelOf (a : Answer) (bytes : List UInt8) (k : Nat) : ℚ :=
  ((reader a).sample bytes (k * (reader a).width)).getD 0

/-- how the channels of a frame come to the left and the right -/
inductive IsMix : Int → ((Nat → ℚ) → ℚ × ℚ) → Prop
  | mono : IsMix 1 fun c => (c 0, c 0)
  | stereo : IsMix 2 fun c => (c 0, c 1)
  | four (left right : List Nat) (hleft : ∀ k ∈ left, k < 4) (hright : ∀ k ∈ right, k < 4) :
      IsMix 4 fun c => (clamp (left.map c).sum, clamp (right.map c).sum)

/-- Whatever the peer delivers, nothing is read outside, and frame `i` is mixed from its own bytes. -/
def Aligned (a : Answer) : Prop :=
  ∃ mix, IsMix a.channels mix ∧ ∀ p, Delivers a p → ∃ out, createBusFromInMemoryAudioFile p = some (some out) ∧
    out.length = dlen a ∧ ∀ i < dlen a, out[i]? = some (mix (channelOf a (frameBytes a p.buf i)))

/-! ## the readers -/

/-- A reader reads `width` bytes and nothing else. -/
structure Reader.Reads (rd : Reader) : Prop where
  inside : ∀ {s : List UInt8} {sp : Nat}, sp + rd.width ≤ s.length → ∃ x, rd.sample s sp = some x
  window : ∀ (s : List UInt8) (i : Nat) {j n : Nat}, j + rd.width ≤ n →
    rd.sample ((s.drop i).take n) j = rd.sample s (i + j)

theorem getElem?_window (s : List UInt8) (i : Nat) {j n : Nat} (h : j < n) :
    ((s.drop i).take n)[j]? = s[i + j]? := by
  rw [List.getElem?_take_of_lt h, List.getElem?_drop]

theorem reads_sample8 : Reader.Reads ⟨1, sample8⟩ where
  inside {s sp} h := by
    have hlt : sp < s.length := h
    show ∃ x, sample8 s sp = some x
    rw [sample8, List.getElem?_eq_getElem hlt]
    exact ⟨_, rfl⟩
  window s i {j n} h := by
    show sample8 _ _ = sample8 _ _
    rw [sample8, sample8, getElem?_window s i h]

theorem reads_sample16 {bl bh : Nat} (hl : bl < 2) (hh : bh < 2) : Reader.Reads ⟨2, sample16 bl bh⟩ where
  inside {s sp} h := by
    have hlen : sp + 2 ≤ s.length := h
    have hlo : sp + bl < s.length := by omega
    have hhi : sp + bh < s.length := by omega
    show ∃ x, sample16 bl bh s sp = some x
    rw [sample16, List.getElem?_eq_getElem hlo, List.getElem?_eq_getElem hhi]
    exact ⟨_, rfl⟩
  window s i {j n} h := by
    have hn : j + 2 ≤ n := h
    show sample16 _ _ _ _ = sample16 _ _ _ _
    rw [sample16, sample16, getElem?_window s i (by omega : j + bl < n), getElem?_window s i (by omega : j + bh < n),
      Nat.add_assoc, Nat.add_assoc]

theorem reads_reader (a : Answer) : (reader a).Reads := by
  unfold reader
  split
  · exact reads_sample8
  · split <;> exact reads_sample16 (by omega) (by omega)

/-! ## the loop -/

/-- how many samples a turn reads -/
def samplesRead (channels : Int) : Nat := if channels = 2 then 2 else if channels = 4 then 3 else 1

/-- the outputs of a turn that reads the samples `c` -/
def turn (channels : Int) (c : Nat → ℚ) : ℚ × ℚ :=
  if channels = 2 then (c 0, c 1)
  else if channels = 4 then (clamp (c 0 + c 1), clamp (c 0 + c 2))
  else (c 0, c 0)

/-- the samples from `sp` on -/
def samplesFrom (rd : Reader) (s : List UInt8) (sp k : Nat) : ℚ := (rd.sample s (sp + k * rd.width)).getD 0

section
variable {rd : Reader} {channels : Int} {s : List UInt8}

theorem sample_eq (hrd : rd.Reads) {sp k : Nat} (h : sp + (k + 1) * rd.width ≤ s.length) :
    rd.sample s (sp + k * rd.width) = some (samplesFrom rd s sp k) := by
  rw [Nat.add_mul, Nat.one_mul, ← Nat.add_assoc] at h
  obtain ⟨x, hx⟩ := hrd.inside h
  rw [samplesFrom, hx, Option.getD_some]

theorem frame_eq (hrd : rd.Reads) {sp : Nat} (h : sp + samplesRead channels * rd.width ≤ s.length) :
    frame rd channels s sp =
      some (turn channels (samplesFrom rd s sp), sp + samplesRead channels * rd.width) := by
  have hread : ∀ k < samplesRead channels, rd.sample s (sp + k * rd.width) = some (samplesFrom rd s sp k) := by
    intro k hk
    have hle : (k + 1) * rd.width ≤ samplesRead channels * rd.width := Nat.mul_le_mul_right rd.width hk
    exact sample_eq hrd (by omega)
  have h0 := hread 0 (by unfold samplesRead; split <;> [omega; split <;> omega])
  rw [Nat.zero_mul, Nat.add_zero] at h0
  unfold frame
  rw [h0, Option.bind_some]
  by_cases h2 : channels = 2
  · subst h2
    have h1 := hread 1 (by decide)
    rw [Nat.one_mul] at h1
    simp [h1, turn, samplesRead, Nat.two_mul, Nat.add_assoc]
  · by_cases h4 : channels = 4
    · subst h4
      have h1 := hread 1 (by decide)
      have h2 := hread 2 (by decide)
      rw [Nat.one_mul] at h1
      rw [Nat.two_mul, ← Nat.add_assoc] at h2
      have hend : sp + rd.width + rd.width + rd.width = sp + 3 * rd.width := by omega
      simp [h1, h2, hend, turn, samplesRead]
    · simp [h2, h4, turn, samplesRead]

theorem frames_eq (hrd : rd.Reads) (n : Nat) {sp : Nat}
    (h : sp + n * (samplesRead channels * rd.width) ≤ s.length) :
    frames rd channels s n sp = some ((List.range n).map fun i =>
      turn channels (samplesFrom rd s (sp + i * (samplesRead channels * rd.width)))) := by
  induction n generalizing sp with
  | zero => rfl
  | succ n ih =>
    rw [Nat.add_mul, Nat.one_mul] at h
    have hrest := @ih (sp + samplesRead channels * rd.width) (by omega)
    rw [frames, frame_eq hrd (by omega), Option.bind_some]
    show (frames rd channels s n _).map _ = _
    rw [hrest, Option.map_some, List.range_succ_eq_map, List.map_cons, Nat.zero_mul, Nat.add_zero, List.map_map]
    congr 2
    apply List.map_congr_left
    intro i _
    rw [Function.comp_apply, Nat.succ_mul, Nat.add_assoc, Nat.add_comm (samplesRead channels * rd.width)]

end

/-! ## a format that is accepted -/

/-- the answers the function goes on with -/
structure Format (a : Answer) : Prop where
  len : 0 < a.len
  bps : a.bps = 8 ∨ a.bps = 16
  channels : a.channels = 1 ∨ a.channels = 2 ∨ a.channels = 4
  srate : 0 < a.srate
  endian : a.endian = .little ∨ a.endian = .big

theorem format_iff {a : Answer} : Format a ↔ accepted a = true := by
  constructor
  · rintro ⟨hlen, hbps, hchannels, hsrate, hendian⟩
    simp [accepted, hlen, hbps, hchannels, hsrate, hendian, or_assoc]
  · intro h
    simp only [accepted, Bool.and_eq_true, Bool.or_eq_true, decide_eq_true_eq, beq_iff_eq] at h
    obtain ⟨⟨⟨⟨hlen, hbps⟩, hchannels⟩, hsrate⟩, hendian⟩ := h
    exact ⟨hlen, hbps, or_assoc.mp hchannels, hsrate, hendian⟩

section
variable {a : Answer}

theorem width_eq (ha : Format a) : (reader a).width = (a.bps / 8).toNat := by
  obtain h | h := ha.bps
  · rw [reader, if_pos h, h]
    rfl
  · rw [reader, if_neg (by omega), h]
    split <;> rfl

theorem frameSize_eq (ha : Format a) : frameSize a = a.channels.toNat * (reader a).width := by
  rw [width_eq ha, frameSize]
  obtain hb | hb := ha.bps <;> obtain hc | hc | hc := ha.channels <;> rw [hb, hc] <;> rfl

theorem dlen_eq (ha : Format a) : dlen a = a.len.toNat / frameSize a := by
  rw [dlen, frameSize]
  obtain hb | hb := ha.bps <;> obtain hc | hc | hc := ha.channels <;>
    simp [hb, hc, Nat.shiftRight_eq_div_pow, Nat.div_div_eq_div_mul]

theorem samplesRead_le (ha : Format a) : samplesRead a.channels ≤ a.channels.toNat := by
  obtain hc | hc | hc := ha.channels <;> rw [hc] <;> decide

theorem samplesRead_eq (ha : Format a) (h : a.channels ≠ 4) : samplesRead a.channels = a.channels.toNat := by
  obtain hc | hc | hc := ha.channels
  · rw [hc]; rfl
  · rw [hc]; rfl
  · exact absurd hc h

theorem createBus_eq (ha : Format a) {p : Peer} (hp : Delivers a p) :
    createBusFromInMemoryAudioFile p = some (some ((List.range (dlen a)).map fun i =>
      turn a.channels (samplesFrom (reader a) p.buf (i * (samplesRead a.channels * (reader a).width))))) := by
  have hlen := ha.len
  have hroom := hp.room
  have hask : accepted p.ask = true := by
    rw [hp.ask, ← format_iff]
    exact ⟨by show 0 < (p.buf.length : Int); omega, ha.bps, ha.channels, ha.srate, ha.endian⟩
  have hinside : 0 + dlen a * (samplesRead a.channels * (reader a).width) ≤ p.buf.length := by
    calc 0 + dlen a * (samplesRead a.channels * (reader a).width)
        ≤ dlen a * frameSize a := by
          rw [Nat.zero_add, frameSize_eq ha]
          exact Nat.mul_le_mul_left _ (Nat.mul_le_mul_right _ (samplesRead_le ha))
      _ ≤ a.len.toNat := by
          rw [dlen_eq ha]
          exact Nat.div_mul_le_self _ _
      _ ≤ p.buf.length := by omega
  rw [createBusFromInMemoryAudioFile, if_pos hask, hp.fill, if_pos hlen, frames_eq (reads_reader a) _ hinside,
    Option.map_some]
  simp only [Nat.zero_add]

theorem channelOf_eq (ha : Format a) (buf : List UInt8) (i : Nat) {k : Nat} (hk : (k : Int) < a.channels) :
    channelOf a (frameBytes a buf i) k = samplesFrom (reader a) buf (i * frameSize a) k := by
  have hfit : k * (reader a).width + (reader a).width ≤ frameSize a := by
    rw [frameSize_eq ha, ← Nat.succ_mul]
    exact Nat.mul_le_mul_right _ (by omega)
  rw [channelOf, frameBytes, (reads_reader a).window buf _ hfit]
  rfl

/-! ## four channels -/

/-- the byte that is no sound -/
def quiet (a : Answer) : UInt8 := if a.bps = 8 then 128 else 0

/-- silence but for the last sample of the first frame of four -/
def click (a : Answer) (x : UInt8) : Peer where
  ask := a
  fill := a
  buf := List.replicate (3 * (reader a).width) (quiet a) ++ (List.replicate (reader a).width x ++
    List.replicate (a.len.toNat - 4 * (reader a).width) (quiet a))

/-- a sample all of whose bytes are `x` -/
def level (a : Answer) (x : UInt8) : ℚ := ((reader a).sample (List.replicate (reader a).width x) 0).getD 0

theorem samplesFrom_eq (buf : List UInt8) (sp k : Nat) : samplesFrom (reader a) buf sp k =
    ((reader a).sample ((buf.drop (sp + k * (reader a).width)).take (reader a).width) 0).getD 0 := by
  rw [(reads_reader a).window buf _ (by omega)]
  rfl

theorem level_quiet (ha : Format a) : level a (quiet a) = 0 := by
  unfold level quiet reader
  obtain hb | hb := ha.bps <;> obtain he | he := ha.endian <;> simp [hb, he, sample8, sample16]

theorem level_click (ha : Format a) : 0 < level a (quiet a + 1) ∧ level a (quiet a + 1) ≤ 1 := by
  unfold level quiet reader
  obtain hb | hb := ha.bps <;> obtain he | he := ha.endian <;>
    simp [hb, he, sample8, sample16, List.replicate_succ, Nat.shiftLeft_eq] <;> norm_num

theorem clamp_eq {x : ℚ} (h : 0 ≤ x) (hle : x ≤ 1) : clamp x = x := by
  unfold clamp
  rw [if_neg (not_lt.mpr (by linarith)), if_neg (not_lt.mpr hle)]

section
variable (hlen : 8 * (reader a).width ≤ a.len.toNat) (x : UInt8)
include hlen

theorem delivers_click (ha : Format a) : Delivers a (click a x) := by
  have hpos := ha.len
  have hlength : (click a x).buf.length = a.len.toNat := by
    simp only [click, List.length_append, List.length_replicate]
    omega
  have hall : ((click a x).buf.length : Int) = a.len := by omega
  exact ⟨rfl, by rw [hall]; rfl, le_of_eq hall.symm⟩

theorem click_samples : samplesFrom (reader a) (click a x).buf (3 * (reader a).width) 0 = level a x ∧
    samplesFrom (reader a) (click a x).buf (3 * (reader a).width) 1 = level a (quiet a) := by
  have hquiet : (reader a).width ≤ a.len.toNat - 4 * (reader a).width := by omega
  constructor
  · rw [samplesFrom_eq, Nat.zero_mul, Nat.add_zero, click, List.drop_left' (List.length_replicate ..),
      List.take_left' (List.length_replicate ..), level]
  · rw [samplesFrom_eq, Nat.one_mul, click, ← List.drop_drop, List.drop_left' (List.length_replicate ..),
      List.drop_left' (List.length_replicate ..), List.take_replicate, Nat.min_eq_left hquiet, level]

theorem frameBytes_click (hsize : frameSize a = 4 * (reader a).width) :
    frameBytes a (click a x).buf 1 = List.replicate (frameSize a) (quiet a) := by
  have hdrop : 4 * (reader a).width = 3 * (reader a).width + (reader a).width := by omega
  have hquiet : 4 * (reader a).width ≤ a.len.toNat - 4 * (reader a).width := by omega
  rw [frameBytes, Nat.one_mul, hsize, click]
  nth_rewrite 2 [hdrop]
  rw [← List.drop_drop, List.drop_left' (List.length_replicate ..), List.drop_left' (List.length_replicate ..),
    List.take_replicate, Nat.min_eq_left hquiet]

end

theorem not_aligned (ha : Format a) (hfour : a.channels = 4) (hlong : 2 ≤ dlen a) : ¬ Aligned a := by
  rintro ⟨mix, -, hout⟩
  have hsize : frameSize a = 4 * (reader a).width := by rw [frameSize_eq ha, hfour]; rfl
  have hlen : 8 * (reader a).width ≤ a.len.toNat := by
    have hle := Nat.div_mul_le_self a.len.toNat (frameSize a)
    have hmul := Nat.mul_le_mul_right (frameSize a) hlong
    rw [← dlen_eq ha, hsize] at hle
    rw [hsize] at hmul
    omega
  have hsecond : ∀ x, turn 4 (samplesFrom (reader a) (click a x).buf (3 * (reader a).width)) =
      mix (channelOf a (List.replicate (frameSize a) (quiet a))) := by
    intro x
    obtain ⟨out, hbus, -, hmix⟩ := hout _ (delivers_click hlen x ha)
    obtain rfl := Option.some.inj (Option.some.inj ((createBus_eq ha (delivers_click hlen x ha)).symm.trans hbus))
    have h1 := hmix 1 hlong
    rw [List.getElem?_map, List.getElem?_range hlong, Option.map_some, frameBytes_click hlen x hsize, hfour,
      Nat.one_mul] at h1
    exact Option.some.inj h1
  have hleft : ∀ x, (turn 4 (samplesFrom (reader a) (click a x).buf (3 * (reader a).width))).1 = clamp (level a x) := by
    intro x
    obtain ⟨h0, h1⟩ := click_samples hlen x
    show clamp (_ + _) = _
    rw [h0, h1, level_quiet ha, add_zero]
  have hsame : clamp (level a (quiet a + 1)) = clamp (level a (quiet a)) := by
    rw [← hleft, ← hleft, hsecond, hsecond]
  obtain ⟨hpos, hle⟩ := level_click ha
  rw [level_quiet ha, clamp_eq (le_of_lt hpos) hle, clamp_eq (le_refl 0) (by norm_num)] at hsame
  exact absurd hsame (ne_of_gt hpos)

/-! ## when the outputs are those of their frames -/

theorem aligned_of_mix (ha : Format a) {mix : (Nat → ℚ) → ℚ × ℚ} (hmix : IsMix a.channels mix)
    (hturn : ∀ i < dlen a, ∀ buf : List UInt8,
      turn a.channels (samplesFrom (reader a) buf (i * (samplesRead a.channels * (reader a).width))) =
        mix (channelOf a (frameBytes a buf i))) : Aligned a := by
  refine ⟨mix, hmix, fun p hp => ⟨_, createBus_eq ha hp, by rw [List.length_map, List.length_range], ?_⟩⟩
  intro i hi
  rw [List.getElem?_map, List.getElem?_range hi, Option.map_some, hturn i hi]

theorem aligned_of_two (ha : Format a) (h : a.channels = 1 ∨ a.channels = 2) : Aligned a := by
  have hplace : ∀ i, i * (samplesRead a.channels * (reader a).width) = i * frameSize a := by
    intro i
    rw [frameSize_eq ha, samplesRead_eq ha (by omega)]
  obtain hc | hc := h
  · apply @aligned_of_mix a ha (fun c => (c 0, c 0)) (by rw [hc]; exact .mono)
    intro i _ buf
    show _ = (channelOf a (frameBytes a buf i) 0, channelOf a (frameBytes a buf i) 0)
    rw [hplace, channelOf_eq ha buf i (by omega), hc]
    rfl
  · apply @aligned_of_mix a ha (fun c => (c 0, c 1)) (by rw [hc]; exact .stereo)
    intro i _ buf
    show _ = (channelOf a (frameBytes a buf i) 0, channelOf a (frameBytes a buf i) 1)
    rw [hplace, channelOf_eq ha buf i (by omega), channelOf_eq ha buf i (by omega), hc]
    rfl

theorem aligned_of_one (ha : Format a) (hfour : a.channels = 4) (h : dlen a ≤ 1) : Aligned a := by
  apply @aligned_of_mix a ha (fun c => (clamp ([0, 1].map c).sum, clamp ([0, 2].map c).sum))
    (by rw [hfour]; exact .four [0, 1] [0, 2] (by decide) (by decide))
  intro i hi buf
  obtain rfl : i = 0 := by omega
  show _ = (clamp (List.sum [_, _]), clamp (List.sum [_, _]))
  rw [channelOf_eq ha buf 0 (by omega), channelOf_eq ha buf 0 (by omega), channelOf_eq ha buf 0 (by omega), Nat.zero_mul,
    Nat.zero_mul, hfour]
  simp [turn]

/-- Frames of four stay aligned as long as there is but one. -/
theorem aligned_iff_format (ha : accepted a = true) : Aligned a ↔ a.channels ≠ 4 ∨ dlen a ≤ 1 := by
  have hformat := format_iff.mpr ha
  constructor
  · intro h
    by_contra hnot
    rw [not_or, not_not, not_le] at hnot
    exact not_aligned hformat hnot.1 hnot.2 h
  · intro h
    by_cases hfour : a.channels = 4
    · exact aligned_of_one hformat hfour (by tauto)
    · obtain hone | htwo | hc := hformat.channels
      · exact aligned_of_two hformat (Or.inl hone)
      · exact aligned_of_two hformat (Or.inr htwo)
      · exact absurd hc hfour

/-- a second of surround sound would start so -/
def twoFrames : Answer where
  len := 8
  srate := 8000
  bps := 8
  channels := 4
  endian := .little

theorem aligned_iff_format_twoFrames : accepted twoFrames = true ∧
    (Aligned twoFrames ↔ twoFrames.channels ≠ 4 ∨ dlen twoFrames ≤ 1) :=
  ⟨by decide, aligned_iff_format (by decide)⟩

/-- Eight bytes are two frames of four, and the second starts with a sample of the first. -/
theorem second_frame_drifts : accepted twoFrames = true ∧ ¬ Aligned twoFrames :=
  ⟨by decide, not_aligned (format_iff.mpr (by decide)) rfl (by decide)⟩

end

end Wkc.Pcm
