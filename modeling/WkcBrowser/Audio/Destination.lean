import WkcBrowser.Lib.Runs
import WkcBrowser.Lib.Filling
import WkcBrowser.Lib.Bytes

/-!
# The output buffer of the audio device (AudioDestinationWKC.cpp)

* `Drain`                       the members that `drain` works with, and what it has rendered and handed over;
* `render`, `write`, `setFormat`   a turn of its loop, a turn of the loop that writes, and a change of the format;
* `InOrder`                     what the peer has accepted and what is in the buffer are what was rendered;
* `in_order_iff`                a run stays inside the buffer and loses nothing exactly as long as no block of two
                                channels starts with room for one only.
-/

namespace Wkc.AudioDestination
open Runs Filling Buf

/-- what the code does with `float` -/
structure Floats (F : Type*) where
  add : F → F → F
  /-- `(int)(x * 32768)` -/
  scaled : F → Int

def c_busFrameSize : Nat := 128
def c_deviceBufSize : Nat := 4096

/-- the frames of the bus that `provideInput` fills -/
structure Bus (F : Type*) where
  frames : List (F × F)
  length_eq : frames.length = c_busFrameSize

structure Drain where
  m_channels : Nat
  m_buf : List UInt8
  m_bufPtr : Nat := 0
  /-- `ptr` and `remains`, in the loop that writes -/
  writing : Option (Nat × Nat) := none
  /-- not in the source: the bytes the peer has accepted -/
  accepted : List UInt8 := []
  /-- not in the source: the samples of the blocks so far -/
  rendered : List UInt8 := []
  deriving DecidableEq

inductive Action (F : Type*)
  | setFormat (numberOfChannels : Nat)
  | provideInput (bus : Bus F)
  /-- `wkcAudioWritePeer` returns -/
  | wrote (ret : Int)

section
variable {F : Type*} (fl : Floats F)

def clip (v : Int) : Int := if v < -32768 then -32768 else if v > 32767 then 32767 else v

/-- `v&0xff` and `(v>>8)&0xff` -/
def bytesOf (v : Int) : List UInt8 := [UInt8.ofNat (v % 256).toNat, UInt8.ofNat ((v >>> (8 : Nat)) % 256).toNat]

/-- what a turn of the loops over the frames puts into the buffer -/
def frameBytes (channels : Nat) (f : F × F) : List UInt8 :=
  if channels = 1 then bytesOf (clip (fl.scaled (fl.add f.1 f.2)))
  else bytesOf (clip (fl.scaled f.1)) ++ bytesOf (clip (fl.scaled f.2))

/-- the samples of a frame: one of both channels together, or one of each -/
def samples (channels : Nat) (f : F × F) : List Int :=
  if channels = 1 then [fl.scaled (fl.add f.1 f.2)] else [fl.scaled f.1, fl.scaled f.2]

/-- 16 bits, little endian -/
def sample16 (v : Int) : List UInt8 := toLE 2 (max (-32768) (min 32767 v) % 2 ^ 16).toNat

def samplesOf (channels : Nat) (bus : Bus F) : List UInt8 :=
  (bus.frames.flatMap (samples fl channels)).flatMap sample16

/-- `none` is a write outside `m_buf`. -/
def render (d : Drain) (bus : Bus F) : Option Drain :=
  (bus.frames.foldlM (fun s f => (frameBytes fl d.m_channels f).foldlM putNext s) (d.m_buf, d.m_bufPtr)).map
    fun (buf, ptr) =>
      { d with
        m_buf := buf
        m_bufPtr := ptr
        writing := if ptr ≥ c_deviceBufSize then some (0, ptr) else none
        rendered := d.rendered ++ samplesOf fl d.m_channels bus }

/-- what follows a write of `ret` bytes -/
def write (d : Drain) (ptr remains : Nat) (ret : Int) : Drain :=
  let flushed := { d with writing := none, m_bufPtr := 0 }
  if ret < 0 then flushed
  else
    let accepted := d.accepted ++ (d.m_buf.drop ptr).take ret.toNat
    if ret = remains then { flushed with accepted := accepted }
    else if remains - ret > 0 then
      { d with accepted := accepted, writing := some (ptr + ret.toNat, remains - ret.toNat) }
    else { flushed with accepted := accepted }

def stepDrain (d : Drain) : Action F → Option Drain
  | .setFormat numberOfChannels => some { d with m_channels := numberOfChannels }
  | .provideInput bus =>
    match d.writing with
    | none => render fl d bus
    | some _ => some d
  | .wrote ret =>
    match d.writing with
    | none => some d
    | some (ptr, remains) => some (write d ptr remains ret)

/-- Nothing is known any more after a write outside. -/
def step (s : Option Drain) (a : Action F) : Option Drain := s.bind fun d => stepDrain fl d a

/-- `drain` begins; what is in the buffer does not matter. -/
def start (channels : Nat) (buf : List UInt8) : Option Drain := some { m_channels := channels, m_buf := buf }

end

/-- what is rendered and not yet accepted -/
def pending (d : Drain) : List UInt8 :=
  match d.writing with
  | none => d.m_buf.take d.m_bufPtr
  | some (ptr, remains) => (d.m_buf.drop ptr).take remains

/-- No write was outside, and the peer has all that was rendered, in order and once, but for what is in the buffer. -/
def InOrder (s : Option Drain) : Prop := ∃ d, s = some d ∧ d.accepted ++ pending d = d.rendered

/-- The peer takes from 0 to `remains` bytes from the front. -/
def Takes {F : Type*} (s : Option Drain) (a : Action F) : Prop :=
  ∀ d, s = some d → ∀ ptr remains, d.writing = some (ptr, remains) → ∀ ret, a = .wrote ret → 0 ≤ ret ∧ ret ≤ remains

/-- no block of two channels where there is room for one of one channel only -/
def Fits {F : Type*} (s : Option Drain) (a : Action F) : Prop :=
  ∀ d, s = some d → d.writing = none → ∀ bus, a = .provideInput bus → d.m_channels ≠ 1 → d.m_bufPtr ≠ 3840

/-! ## what a block is -/

section
variable {F : Type*} (fl : Floats F)

theorem clip_eq (v : Int) : clip v = max (-32768) (min 32767 v) := by
  unfold clip
  split
  · omega
  · split <;> omega

theorem bytesOf_clip (v : Int) : bytesOf (clip v) = sample16 v := by
  have hlow : (clip v % 2 ^ 16).toNat % 256 = (clip v % 256).toNat := by omega
  have hhigh : (clip v % 2 ^ 16).toNat / 256 = (clip v / 256 % 256).toNat := by omega
  rw [sample16, ← clip_eq, bytesOf, Int.shiftRight_eq_div_pow]
  show _ = [UInt8.ofNat _, UInt8.ofNat _]
  rw [hhigh, ← hlow]
  congr 1
  apply UInt8.toNat_inj.mp
  rw [UInt8.toNat_ofNat', UInt8.toNat_ofNat', Nat.mod_mod]

theorem frameBytes_eq (channels : Nat) (f : F × F) :
    frameBytes fl channels f = (samples fl channels f).flatMap sample16 := by
  unfold frameBytes samples
  split
  · rw [bytesOf_clip, List.flatMap_singleton]
  · rw [bytesOf_clip, bytesOf_clip, List.flatMap_cons, List.flatMap_singleton]

def blockSize (channels : Nat) : Nat := if channels = 1 then 256 else 512

theorem samplesOf_length (channels : Nat) (bus : Bus F) : (samplesOf fl channels bus).length = blockSize channels := by
  have hsample : ∀ v, (sample16 v).length = 2 := fun v => toLE_length 2 _
  have hframe : ∀ f : F × F, ((samples fl channels f).flatMap sample16).length = blockSize channels / 128 := by
    intro f
    unfold samples blockSize
    split <;> simp [hsample]
  have hlength := bus.length_eq
  rw [samplesOf, List.flatMap_assoc, List.length_flatMap, List.map_congr_left (fun f _ => hframe f), List.map_const',
    List.sum_replicate_nat, hlength, c_busFrameSize]
  unfold blockSize
  split <;> rfl

/-- what a block leaves, when `buf` is what it makes of the buffer -/
def afterBlock (d : Drain) (bus : Bus F) (buf : List UInt8) : Drain :=
  { d with
    m_buf := buf
    m_bufPtr := d.m_bufPtr + blockSize d.m_channels
    writing := if d.m_bufPtr + blockSize d.m_channels ≥ c_deviceBufSize then
      some (0, d.m_bufPtr + blockSize d.m_channels) else none
    rendered := d.rendered ++ samplesOf fl d.m_channels bus }

theorem render_eq (d : Drain) (bus : Bus F) : render fl d bus =
    (putAll d.m_buf d.m_bufPtr (samplesOf fl d.m_channels bus)).map (afterBlock fl d bus) := by
  have hbytes : bus.frames.flatMap (frameBytes fl d.m_channels) = samplesOf fl d.m_channels bus := by
    rw [samplesOf, List.flatMap_assoc]
    congr 1
    funext f
    exact frameBytes_eq fl d.m_channels f
  rw [render, putNext_loop, hbytes, Option.map_map, samplesOf_length]
  rfl

/-! ## what the buffer keeps -/

structure Inv (d : Drain) : Prop where
  length : d.m_buf.length = c_deviceBufSize
  idle : d.writing = none → d.m_bufPtr % 256 = 0 ∧ d.m_bufPtr < c_deviceBufSize
  flush : ∀ ptr remains, d.writing = some (ptr, remains) → 0 < remains ∧ ptr + remains = c_deviceBufSize

theorem blockSize_cases (channels : Nat) :
    channels = 1 ∧ blockSize channels = 256 ∨ channels ≠ 1 ∧ blockSize channels = 512 := by
  unfold blockSize
  split
  · exact Or.inl ⟨‹_›, rfl⟩
  · exact Or.inr ⟨‹_›, rfl⟩

section
variable {d : Drain} (hinv : Inv d) (bus : Bus F)
include hinv

theorem filled_idle (hidle : d.writing = none) : Filled c_deviceBufSize (d.m_buf.take d.m_bufPtr) d.m_buf := by
  refine ⟨hinv.length, ?_⟩
  rw [List.length_take, hinv.length, Nat.min_eq_left (le_of_lt (hinv.idle hidle).2)]

theorem length_idle (hidle : d.writing = none) : (d.m_buf.take d.m_bufPtr).length = d.m_bufPtr := by
  have hlt := (hinv.idle hidle).2
  rw [List.length_take, hinv.length]
  omega

theorem render_room (hidle : d.writing = none) (hroom : d.m_bufPtr + blockSize d.m_channels ≤ c_deviceBufSize) :
    ∃ buf, render fl d bus = some (afterBlock fl d bus buf) ∧ Inv (afterBlock fl d bus buf) ∧
      pending (afterBlock fl d bus buf) = pending d ++ samplesOf fl d.m_channels bus := by
  obtain ⟨hmod, hlt⟩ := hinv.idle hidle
  obtain ⟨out, hput, hfilled⟩ := (filled_idle hinv hidle).putAll (samplesOf fl d.m_channels bus)
    (by rw [length_idle hinv hidle, samplesOf_length]; exact hroom)
  rw [length_idle hinv hidle] at hput
  have hfront := hfilled.front
  rw [List.length_append, length_idle hinv hidle, samplesOf_length] at hfront
  have hpending : pending d = d.m_buf.take d.m_bufPtr := by rw [pending, hidle]
  refine ⟨out, by rw [render_eq, hput, Option.map_some], ?_⟩
  by_cases hfull : d.m_bufPtr + blockSize d.m_channels ≥ c_deviceBufSize
  · have hwriting : (afterBlock fl d bus out).writing = some (0, d.m_bufPtr + blockSize d.m_channels) := if_pos hfull
    refine ⟨⟨hfilled.length, fun hnone => ?_, fun ptr remains hsome => ?_⟩, ?_⟩
    · rw [hwriting] at hnone
      simp at hnone
    · rw [hwriting] at hsome
      cases hsome
      rw [c_deviceBufSize] at hfull hroom ⊢
      omega
    · rw [pending, hwriting, hpending, ← hfront]
      rfl
  · have hwriting : (afterBlock fl d bus out).writing = none := if_neg hfull
    refine ⟨⟨hfilled.length, fun _ => ?_, fun ptr remains hsome => ?_⟩, ?_⟩
    · show (d.m_bufPtr + blockSize d.m_channels) % 256 = 0 ∧ d.m_bufPtr + blockSize d.m_channels < c_deviceBufSize
      obtain ⟨-, hsize⟩ | ⟨-, hsize⟩ := blockSize_cases d.m_channels <;> omega
    · rw [hwriting] at hsome
      simp at hsome
    · rw [pending, hwriting, hpending, ← hfront]
      rfl

theorem render_full (hidle : d.writing = none) (hfull : c_deviceBufSize < d.m_bufPtr + blockSize d.m_channels) :
    render fl d bus = none := by
  have hnone := (filled_idle hinv hidle).putAll_full (samplesOf fl d.m_channels bus)
    (by rw [length_idle hinv hidle, samplesOf_length]; exact hfull)
  rw [length_idle hinv hidle] at hnone
  rw [render_eq, hnone, Option.map_none]

/-- A block is too long only if it is one of two channels behind fifteen of one. -/
theorem full_iff (hidle : d.writing = none) :
    c_deviceBufSize < d.m_bufPtr + blockSize d.m_channels ↔ d.m_channels ≠ 1 ∧ d.m_bufPtr = 3840 := by
  obtain ⟨hmod, hlt⟩ := hinv.idle hidle
  rw [c_deviceBufSize] at hlt ⊢
  obtain ⟨hone, hsize⟩ | ⟨htwo, hsize⟩ := blockSize_cases d.m_channels
  · rw [hsize]
    constructor
    · intro h
      omega
    · rintro ⟨hne, -⟩
      exact absurd hone hne
  · rw [hsize]
    constructor
    · intro h
      exact ⟨htwo, by omega⟩
    · rintro ⟨-, hptr⟩
      omega

theorem write_takes {ptr remains : Nat} (hwriting : d.writing = some (ptr, remains)) {ret : Int} (hpos : 0 ≤ ret)
    (hle : ret ≤ remains) : Inv (write d ptr remains ret) ∧ (write d ptr remains ret).rendered = d.rendered ∧
      (write d ptr remains ret).accepted ++ pending (write d ptr remains ret) = d.accepted ++ pending d := by
  obtain ⟨hremains, hend⟩ := hinv.flush ptr remains hwriting
  have hpending : pending d = (d.m_buf.drop ptr).take remains := by rw [pending, hwriting]
  have hlength : (d.m_buf.drop ptr).length = remains := by
    rw [List.length_drop, hinv.length]
    omega
  rw [hpending, write, if_neg (by omega)]
  by_cases hall : ret = remains
  · rw [if_pos hall]
    refine ⟨⟨hinv.length, fun _ => ⟨rfl, Nat.succ_pos _⟩, fun _ _ h => by simp at h⟩, rfl, ?_⟩
    simp [pending, hall]
  · rw [if_neg hall, if_pos (by omega)]
    refine ⟨⟨hinv.length, fun h => by simp at h, ?_⟩, rfl, ?_⟩
    · intro ptr' remains' h
      cases h
      omega
    · show (d.accepted ++ (d.m_buf.drop ptr).take ret.toNat) ++ (d.m_buf.drop (ptr + ret.toNat)).take (remains - ret.toNat) = _
      have hsplit : remains = ret.toNat + (remains - ret.toNat) := by omega
      nth_rewrite 2 [hsplit]
      rw [List.append_assoc, List.take_add, List.drop_drop]

end

/-! ## runs -/

/-- a state that is reached without a write outside keeps `Inv` -/
def Kept (s : Option Drain) : Prop := ∀ d, s = some d → Inv d

theorem kept_some {d : Drain} (h : Inv d) : Kept (some d) := by
  intro d' hd'
  obtain rfl := Option.some.inj hd'
  exact h

theorem inOrder_some {d : Drain} : InOrder (some d) ↔ d.accepted ++ pending d = d.rendered := by
  constructor
  · rintro ⟨d', hd', h⟩
    obtain rfl := Option.some.inj hd'
    exact h
  · intro h
    exact ⟨d, rfl, h⟩

theorem not_inOrder_none : ¬ InOrder none := by
  rintro ⟨d, hd, -⟩
  exact absurd hd (by simp)

section
variable {d : Drain} (hinv : Inv d)
include hinv

theorem step_cases (a : Action F) (htakes : Takes (some d) a) :
    (Fits (some d) a ∧ ∃ d', stepDrain fl d a = some d' ∧ Inv d' ∧
      (d.accepted ++ pending d = d.rendered → d'.accepted ++ pending d' = d'.rendered)) ∨
    (¬ Fits (some d) a ∧ stepDrain fl d a = none) := by
  cases a with
  | setFormat n =>
    refine Or.inl ⟨?_, _, rfl, ⟨hinv.length, hinv.idle, hinv.flush⟩, id⟩
    intro _ _ _ bus hbus
    exact absurd hbus (by simp)
  | provideInput bus =>
    cases hwriting : d.writing with
    | none =>
      have hstep : stepDrain fl d (.provideInput bus) = render fl d bus := by rw [stepDrain, hwriting]
      have hfits : Fits (some d) (.provideInput bus) ↔ ¬ (d.m_channels ≠ 1 ∧ d.m_bufPtr = 3840) := by
        constructor
        · rintro h ⟨htwo, hptr⟩
          exact h d rfl hwriting bus rfl htwo hptr
        · intro h d' hd' _ _ _ htwo hptr
          obtain rfl := Option.some.inj hd'
          exact h ⟨htwo, hptr⟩
      rw [hstep, hfits, ← full_iff hinv hwriting, not_lt]
      by_cases hroom : d.m_bufPtr + blockSize d.m_channels ≤ c_deviceBufSize
      · obtain ⟨buf, hrender, hkept, hpending⟩ := render_room fl hinv bus hwriting hroom
        refine Or.inl ⟨hroom, _, hrender, hkept, fun horder => ?_⟩
        rw [hpending, ← List.append_assoc]
        show (d.accepted ++ pending d) ++ _ = d.rendered ++ _
        rw [horder]
      · exact Or.inr ⟨hroom, render_full fl hinv bus hwriting (by omega)⟩
    | some w =>
      refine Or.inl ⟨?_, d, by rw [stepDrain, hwriting], hinv, id⟩
      intro d' hd' hidle
      obtain rfl := Option.some.inj hd'
      rw [hwriting] at hidle
      exact absurd hidle (by simp)
  | wrote ret =>
    left
    refine ⟨fun _ _ _ bus hbus => absurd hbus (by simp), ?_⟩
    cases hwriting : d.writing with
    | none => exact ⟨d, by rw [stepDrain, hwriting], hinv, id⟩
    | some w =>
      obtain ⟨ptr, remains⟩ := w
      obtain ⟨hpos, hle⟩ := htakes d rfl ptr remains hwriting ret rfl
      obtain ⟨hkept, hrendered, hall⟩ := write_takes hinv hwriting hpos hle
      refine ⟨write d ptr remains ret, by rw [stepDrain, hwriting], hkept, fun horder => ?_⟩
      rw [hall, hrendered, horder]

theorem kept_step (a : Action F) (htakes : Takes (some d) a) : Kept (step fl (some d) a) := by
  show Kept (stepDrain fl d a)
  rcases step_cases fl hinv a htakes with ⟨-, d', hstep, hkept, -⟩ | ⟨-, hstep⟩
  · rw [hstep]
    exact kept_some hkept
  · rw [hstep]
    intro d' hd'
    exact absurd hd' (by simp)

theorem inOrder_step (a : Action F) (htakes : Takes (some d) a) (horder : InOrder (some d)) :
    InOrder (step fl (some d) a) ↔ Fits (some d) a := by
  rw [inOrder_some] at horder
  show InOrder (stepDrain fl d a) ↔ _
  rcases step_cases fl hinv a htakes with ⟨hfits, d', hstep, -, hnext⟩ | ⟨hnot, hstep⟩
  · apply iff_of_true _ hfits
    rw [hstep]
    exact inOrder_some.mpr (hnext horder)
  · apply iff_of_false _ hnot
    rw [hstep]
    exact not_inOrder_none

end

theorem inv_start (channels : Nat) {buf : List UInt8} (hbuf : buf.length = c_deviceBufSize) :
    Inv { m_channels := channels, m_buf := buf } :=
  ⟨hbuf, fun _ => ⟨rfl, Nat.succ_pos _⟩, fun _ _ h => by simp at h⟩

theorem inOrder_start (channels : Nat) (buf : List UInt8) : InOrder (start channels buf) :=
  inOrder_some.mpr rfl

/-- What the buffer holds and the peer has is what was rendered, exactly as long as every block fits. -/
theorem in_order_iff (channels : Nat) (buf : List UInt8) (hbuf : buf.length = c_deviceBufSize) (as : List (Action F))
    (htakes : Along (step fl) Takes (start channels buf) as) :
    (∀ pre, pre <+: as → InOrder (run (step fl) (start channels buf) pre)) ↔
      Along (step fl) Fits (start channels buf) as := by
  apply @prefix_iff_along_of _ _ (step fl) Kept InOrder Fits Takes
  · intro s a ha hs
    cases s with
    | none =>
      intro d hd
      exact absurd hd (by simp [step])
    | some d => exact kept_step fl (hs d rfl) a ha
  · intro s a ha hs horder
    cases s with
    | none => exact absurd horder not_inOrder_none
    | some d => exact inOrder_step fl (hs d rfl) a ha horder
  · exact kept_some (inv_start channels hbuf)
  · exact inOrder_start channels buf
  · exact htakes

end

/-! ## silence -/

/-- a scale of whole numbers -/
def whole : Floats Int where
  add := (· + ·)
  scaled x := x * 32768

def silence : Bus Int := ⟨List.replicate 128 (0, 0), List.length_replicate ..⟩

def uninitialized : List UInt8 := List.replicate c_deviceBufSize 0

theorem run_snoc {F : Type*} (fl : Floats F) (s : Option Drain) (as : List (Action F)) (a : Action F) :
    run (step fl) s (as ++ [a]) = step fl (run (step fl) s as) a := by
  rw [run, List.foldl_append]
  rfl

theorem step_block {F : Type*} (fl : Floats F) {d : Drain} (hidle : d.writing = none) (bus : Bus F) :
    step fl (some d) (.provideInput bus) = render fl d bus := by
  show stepDrain fl d (.provideInput bus) = _
  rw [stepDrain, hidle]

theorem blocks (channels n : Nat) (hn : n * blockSize channels < c_deviceBufSize) :
    ∃ d, run (step whole) (start channels uninitialized) (List.replicate n (.provideInput silence)) = some d ∧ Inv d ∧
      d.writing = none ∧ d.m_channels = channels ∧ d.m_bufPtr = n * blockSize channels := by
  induction n with
  | zero =>
    have hinv := inv_start channels (List.length_replicate : uninitialized.length = c_deviceBufSize)
    exact ⟨_, rfl, hinv, rfl, rfl, (Nat.zero_mul _).symm⟩
  | succ n ih =>
    rw [Nat.succ_mul] at hn ⊢
    obtain ⟨d, hrun, hinv, hidle, hsame, hptr⟩ := ih (by omega)
    have hroom : ¬ d.m_bufPtr + blockSize d.m_channels ≥ c_deviceBufSize := by
      rw [hsame, hptr]
      omega
    obtain ⟨buf, hrender, hkept, -⟩ := render_room whole hinv silence hidle (by omega)
    refine ⟨_, ?_, hkept, if_neg hroom, hsame, ?_⟩
    · rw [List.replicate_succ', run_snoc, hrun, step_block whole hidle, hrender]
    · show d.m_bufPtr + blockSize d.m_channels = _
      rw [hsame, hptr]

theorem takes_quiet {F : Type*} (fl : Floats F) {as : List (Action F)} (h : ∀ a ∈ as, ∀ ret, a ≠ .wrote ret)
    (s : Option Drain) : Along (step fl) Takes s as := by
  induction as generalizing s with
  | nil => trivial
  | cons a as ih =>
    refine ⟨?_, ih (fun b hb => h b (List.mem_cons_of_mem a hb)) _⟩
    intro _ _ _ _ _ ret hret
    exact absurd hret (h a List.mem_cons_self ret)

/-- eight blocks of two channels, which the peer takes in three parts, and another block -/
def flushed : List (Action Int) :=
  List.replicate 8 (.provideInput silence) ++ [.wrote 1000, .wrote 3000, .wrote 96, .provideInput silence]

theorem takes_wrote {d : Drain} {ptr remains : Nat} (hwriting : d.writing = some (ptr, remains)) {n : Nat}
    (hle : n ≤ remains) {as : List (Action Int)} (h : Along (step whole) Takes (some (write d ptr remains n)) as) :
    Along (step whole) Takes (some d) (.wrote n :: as) := by
  constructor
  · intro d' hd' ptr' remains' hwriting' ret hret
    cases hd'
    cases hwriting.symm.trans hwriting'
    cases hret
    omega
  · show Along (step whole) Takes (stepDrain whole d (.wrote n)) as
    rw [stepDrain, hwriting]
    exact h

theorem writing_write (d : Drain) (ptr : Nat) {n remains : Nat} (hlt : n < remains) :
    (write d ptr remains n).writing = some (ptr + n, remains - n) := by
  rw [write, if_neg (by omega), if_neg (by omega), if_pos (by omega)]
  rfl

theorem takes_flushed : Along (step whole) Takes (start 2 uninitialized) flushed := by
  obtain ⟨d, hrun, hinv, hidle, htwo, hptr⟩ := blocks 2 7 (by decide)
  have hsize : d.m_bufPtr + blockSize d.m_channels = c_deviceBufSize := by rw [hptr, htwo]; rfl
  obtain ⟨buf, hrender, -⟩ := render_room whole hinv silence hidle (le_of_eq hsize)
  have hfull : run (step whole) (start 2 uninitialized) (List.replicate 8 (.provideInput silence)) =
      some (afterBlock whole d silence buf) := by
    rw [List.replicate_succ', run_snoc, hrun, step_block whole hidle, hrender]
  have hwriting : (afterBlock whole d silence buf).writing = some (0, 4096) := by
    rw [afterBlock, hsize]
    rfl
  apply Along.append (takes_quiet whole (by simp) _)
  rw [hfull]
  apply takes_wrote (n := 1000) hwriting (by omega)
  apply takes_wrote (n := 3000) (writing_write _ 0 (by omega)) (by omega)
  apply takes_wrote (n := 96) (writing_write _ _ (by omega)) (by omega)
  exact takes_quiet whole (by simp) _

theorem in_order_iff_flushed : (∀ pre, pre <+: flushed → InOrder (run (step whole) (start 2 uninitialized) pre)) ↔
    Along (step whole) Fits (start 2 uninitialized) flushed :=
  in_order_iff whole 2 uninitialized (List.length_replicate ..) flushed takes_flushed

/-- one channel, and then two -/
def monoThenStereo : List (Action Int) :=
  .setFormat 1 :: (List.replicate 15 (.provideInput silence) ++ [.setFormat 2] ++ [.provideInput silence])

/-- The sixteenth block has two channels, and room for one. -/
theorem stereo_overruns : Along (step whole) Takes (start 2 uninitialized) monoThenStereo ∧
    ¬ InOrder (run (step whole) (start 2 uninitialized) monoThenStereo) := by
  refine ⟨takes_quiet whole (by simp [monoThenStereo]) _, ?_⟩
  obtain ⟨d, hrun, hinv, hidle, -, hptr⟩ := blocks 1 15 (by decide)
  have hinv' : Inv { d with m_channels := 2 } := ⟨hinv.length, hinv.idle, hinv.flush⟩
  have hnone := render_full whole hinv' silence hidle ((full_iff hinv' hidle).mpr ⟨by simp, hptr⟩)
  have hend : run (step whole) (start 2 uninitialized) monoThenStereo = none := by
    have hformat : step whole (some d) (.setFormat 2) = some { d with m_channels := 2 } := rfl
    have hmono : step whole (start 2 uninitialized) (.setFormat 1) = start 1 uninitialized := rfl
    rw [monoThenStereo, run_cons, hmono, run_snoc, run_snoc, hrun, hformat]
    exact (step_block whole (d := { d with m_channels := 2 }) hidle silence).trans hnone
  rw [hend]
  exact not_inOrder_none

end Wkc.AudioDestination
