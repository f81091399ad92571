import WkcBrowser.Graphics.Mpo

/-!
# `MPOImageDecoder`: a file that comes bit by bit

* `MpoFile`        two images, with the index where the decoder looks for it;
* `Loading`        the calls of `setData` for a file;
* `scan_part`      what the decoder finds in a part of the file;
* `Eyes`           the invariant once it has the offset, `Eyes.feed` one more part;
* `bothEyes_iff`   when both decoders get their images.
-/

namespace Wkc
namespace Mpo
open Buf

/-- Two images, and the MP index as the decoder expects it: the three fields of the index in their order, and the
entries of the images right behind. -/
structure MpoFile where
  bytes : Bytes
  bound : bytes.length < 2 ^ 31
  soi : SOI <+: bytes
  pos : Nat
  leads : Leads bytes bytes.length 2 pos
  mpf : IsMPF bytes bytes.length pos
  app2len : Nat
  segment : segmentLength bytes pos = some app2len
  mark : Bytes
  marked : load bytes (pos + 8) 4 = some mark
  order : mark = [0x49, 0x49, 0x2A, 0] ∨ mark = [0x4D, 0x4D, 0, 0x2A]
  ifd : Nat
  ifd_word : word (littleendian mark) bytes (pos + 12) = some (BitVec.ofNat 32 ifd)
  within : pos + ifd + 78 ≤ pos + 2 + app2len
  two_images : word (littleendian mark) bytes (pos + (ifd + 38)) = some 32
  right : Nat
  behind : pos + 2 + app2len ≤ right
  right_inside : right < bytes.length
  right_word : word (littleendian mark) bytes (pos + (ifd + 66 + 8)) = some (BitVec.ofNat 32 (right - (pos + 8)))

namespace MpoFile
def leftImage (file : MpoFile) : Bytes := file.bytes.take file.right
def rightImage (file : MpoFile) : Bytes := file.bytes.drop file.right
end MpoFile

/-- The calls for a file: parts of it that grow, and the whole in the end.  The first is the one `create` has looked
at, in one piece then. -/
structure Loading (file : MpoFile) where
  early : List Supply
  last : Supply
  parts : ∀ s ∈ early, s.data.data <+: file.bytes
  growing : early.Pairwise (fun s t => s.data.size ≤ t.data.size)
  untold : ∀ s ∈ early, s.allDataReceived = false
  whole : last.data.data = file.bytes
  told : last.allDataReceived = true
  first : Supply
  begins : (early ++ [last]).head? = some first
  merged : first.data.segments = []
  chosen : create first.data first.allDataReceived = some (some .MPO)

/-- what both decoders got in the end, and that none was told too early that this is all -/
structure BothEyes (file : MpoFile) (d : MPOImageDecoder) : Prop where
  left_whole : ∃ c, d.decoderL.getLast? = some c ∧ file.leftImage <+: c.data
  right_whole : ∃ calls c, d.decoderR = some calls ∧ calls.getLast? = some c ∧ c.data = file.rightImage
  left_told : ∀ c ∈ d.decoderL, c.allDataReceived = true → file.leftImage <+: c.data
  right_told : ∀ calls, d.decoderR = some calls → ∀ c ∈ calls, c.allDataReceived = true → c.data = file.rightImage

/-! ## parts of a file -/

theorem getElem?_part {p b : Bytes} (h : p <+: b) {pos : Nat} (hin : pos < p.length) : p[pos]? = b[pos]? := by
  obtain ⟨rest, rfl⟩ := h
  exact (List.getElem?_append_left hin).symm

theorem isMPF_part {p b : Bytes} (h : p <+: b) {pos : Nat} (hin : pos + 8 < p.length) :
    IsMPF p p.length pos ↔ IsMPF b b.length pos := by
  have hle := h.length_le
  have hp : (pos : Int) + 8 < (p.length : Int) := by omega
  have hb : (pos : Int) + 8 < (b.length : Int) := by omega
  unfold IsMPF
  rw [getElem?_part h (by omega), getElem?_part h (by omega), load_front h (by omega : pos + 4 + 4 ≤ p.length),
    iff_true_intro hp, iff_true_intro hb]

theorem next_lt {p : Bytes} {len : Int} {pos pos' : Nat} (h : Next p len pos pos') : pos < pos' := by
  obtain ⟨_, _, _, next, _, rfl⟩ := h
  omega

theorem leads_part {p b : Bytes} (h : p <+: b) {pos last : Nat} (hleads : Leads p p.length pos last) :
    last + 8 < p.length → Leads b b.length pos last := by
  have hle := h.length_le
  induction hleads with
  | refl => exact fun _ => .refl
  | tail _ hnext ih =>
    intro hlast
    have hlt := next_lt hnext
    refine .tail (ih (by omega)) ?_
    obtain ⟨hmarker, _, hother, next, hlength, hpos⟩ := hnext
    refine ⟨?_, by omega, ?_, next, ?_, hpos⟩
    · rw [← getElem?_part h (by omega)]
      exact hmarker
    · rw [← isMPF_part h (by omega)]
      exact hother
    · rw [segmentLength, ← load_front h (by omega)]
      exact hlength

theorem word_whole {p b : Bytes} (h : p <+: b) {little : Bool} {pos : Nat} (hin : pos + 4 ≤ p.length) :
    word little b pos = word little p pos := by
  rw [word, word, if_pos (Int.natCast_nonneg pos), if_pos (Int.natCast_nonneg pos), Int.toNat_natCast,
    load_front h hin]

theorem word_part {p b : Bytes} (h : p <+: b) {little : Bool} {pos : Int} {w : BitVec 32}
    (hword : word little b pos = some w) (k : Nat) (hpos : pos = k) :
    word little p pos = if p.length < k + 4 then none else some w := by
  subst hpos
  by_cases hout : p.length < k + 4
  · rw [if_pos hout, word, if_pos (Int.natCast_nonneg k), Int.toNat_natCast, load, if_neg (by omega)]
    rfl
  · rw [if_neg hout, ← word_whole h (by omega)]
    exact hword

theorem create_mpo {data : SharedBuffer} {allDataReceived : Bool}
    (h : create data allDataReceived = some (some .MPO)) :
    matchesMPOSignature data.data = some true := by
  have hnot : ∀ {signature : Prop} [Decidable signature] {kind : Option Kind} {rest : Option (Option Kind)},
      (if signature then some kind else rest) = some (some .MPO) → kind ≠ some .MPO → rest = some (some .MPO) := by
    intro signature _ kind rest h hkind
    split at h
    · exact absurd (Option.some.inj h) hkind
    · exact h
  unfold create at h
  have h := hnot (hnot (hnot (hnot (hnot (hnot h (by decide)) (by decide)) (by decide)) (by decide)) (by decide))
    (by decide)
  obtain ⟨mpo, hmatches, h⟩ := Option.bind_eq_some_iff.mp h
  cases mpo with
  | true => exact hmatches
  | false =>
    rw [if_neg Bool.false_ne_true] at h
    split at h <;> cases h

namespace MpoFile
variable (file : MpoFile)

theorem index_found {p : Bytes} (hp : p <+: file.bytes) (hmatches : matchesMPOSignature p = some true) :
    asInt32 p.length = p.length ∧ file.pos + 8 < p.length ∧ SOI <+: p ∧
      findMPF p p.length 2 = some (some file.pos) := by
  have hle := hp.length_le
  have hbound := file.bound
  have hlen : asInt32 p.length = p.length := asInt32_eq (by omega)
  have hfront : load p 0 3 = some SOI ∧ ∃ pos, findMPF p p.length 2 = some (some pos) := by
    unfold matchesMPOSignature at hmatches
    rw [hlen] at hmatches
    cases hload : load p 0 3 with
    | none =>
      rw [hload] at hmatches
      cases hmatches
    | some front =>
      rw [hload] at hmatches
      simp only [Option.bind_eq_bind, Option.bind_some] at hmatches
      split at hmatches
      · cases hmatches
      · next hsoi =>
        rw [Ne, Classical.not_not] at hsoi
        refine ⟨by rw [hsoi], ?_⟩
        cases hfound : findMPF p p.length 2 with
        | none =>
          rw [hfound] at hmatches
          cases hmatches
        | some found =>
          cases found with
          | none =>
            rw [hfound] at hmatches
            cases hmatches
          | some pos => exact ⟨pos, rfl⟩
  obtain ⟨hload, pos, hfound⟩ := hfront
  obtain ⟨hleads, hmpf⟩ := (findMPF_found (Int.le_refl _)).mp hfound
  have hpos : pos + 8 < p.length := by have hshort := hmpf.2.2.1; omega
  have hin := (findMPF_found (Int.le_refl _)).mpr ⟨leads_part hp hleads hpos, (isMPF_part hp hpos).mp hmpf⟩
  have hfile := (findMPF_found (Int.le_refl _)).mpr ⟨file.leads, file.mpf⟩
  have hsame : pos = file.pos := Option.some.inj (Option.some.inj (hin.symm.trans hfile))
  refine ⟨hlen, hsame ▸ hpos, ?_, hsame ▸ hfound⟩
  have hsoi := load_within hload
  exact List.prefix_of_prefix_length_le file.soi hp (by show 3 ≤ _; omega)

/-- the bytes of the index are all there, and as many as the length of its segment says -/
def IndexArrived (n : Nat) : Prop := file.app2len ≤ n ∧ file.pos + file.ifd + 78 ≤ n

theorem app2len_small : file.app2len < 65536 := by
  obtain ⟨bs, hload, hlength⟩ := Option.map_eq_some_iff.mp file.segment
  have hbs := load_within hload
  have hlt := ofLE_lt bs.reverse
  have htwo : bs.length = 2 := by
    rw [load, if_pos hbs] at hload
    rw [← Option.some.inj hload, List.length_take, List.length_drop]
    omega
  rw [List.length_reverse, htwo, hlength] at hlt
  exact hlt

theorem scan_part {p : Bytes} (hp : p <+: file.bytes) (hmatches : matchesMPOSignature p = some true)
    (d : MPOImageDecoder) :
    scan d p =
      if p.length < file.app2len then some d
      else if p.length < file.pos + file.ifd + 78 then none
      else some { d with rightImageOffset := BitVec.ofNat 32 file.right } := by
  obtain ⟨hlen, hpos, hsoi, hfound⟩ := file.index_found hp hmatches
  have hfront : load p 0 3 = some SOI := by
    rw [load_front hp (by omega)]
    obtain ⟨rest, hrest⟩ := file.soi
    rw [load, ← hrest, if_pos (by rw [List.length_append]; exact Nat.le_add_right 3 _)]
    rfl
  have hsegment : segmentLength p file.pos = some file.app2len := by
    rw [segmentLength, load_front hp (by omega)]
    exact file.segment
  have hifd : (BitVec.ofNat 32 file.ifd).toInt = file.ifd := by
    have hwithin := file.within
    have hsmall := file.app2len_small
    exact asInt32_eq (by omega)
  have hscan : scan d p = readIndex d p file.pos := by
    rw [scan, hlen, if_neg (by omega), hfront, hfound]
    simp only [Option.bind_eq_bind, Option.bind_some, ne_eq, not_true_eq_false, if_false]
  have hfirst := word_part hp file.ifd_word (file.pos + 12) rfl
  have hsecond := word_part hp file.two_images (file.pos + (file.ifd + 38)) rfl
  have hthird := word_part hp file.right_word (file.pos + (file.ifd + 66 + 8)) rfl
  rw [hscan, readIndex, hsegment, hlen]
  simp only [Option.bind_eq_bind, Option.bind_some]
  by_cases hshort : p.length < file.app2len
  · rw [if_pos hshort, if_neg (by omega)]
    rfl
  rw [if_neg hshort, if_pos (by omega)]
  -- the reads in their order; without the whole index one of them lies outside
  by_cases hmark : p.length < file.pos + 8 + 4
  · rw [if_pos (by omega), load, if_neg (by omega)]
    rfl
  rw [load_front hp (by omega), file.marked, Option.bind_some, hfirst]
  by_cases hifd_in : p.length < file.pos + 12 + 4
  · rw [if_pos hifd_in, if_pos (by omega)]
    rfl
  rw [if_neg hifd_in, Option.bind_some, hifd, hsecond]
  by_cases hcount_in : p.length < file.pos + (file.ifd + 38) + 4
  · rw [if_pos hcount_in, if_pos (by omega)]
    rfl
  rw [if_neg hcount_in, Option.bind_some, if_neg (by decide), hthird]
  by_cases hindex : p.length < file.pos + (file.ifd + 66 + 8) + 4
  · rw [if_pos hindex, if_pos (by omega)]
    rfl
  have hbehind := file.behind
  have hwithin := file.within
  have hoffset : BitVec.ofNat 32 (file.right - (file.pos + 8)) + BitVec.ofNat 32 (file.pos + 8) =
      BitVec.ofNat 32 file.right := by
    rw [← BitVec.ofNat_add, Nat.sub_add_cancel (by omega)]
  rw [if_neg hindex, if_neg (by omega), Option.bind_some, hoffset]
  rfl

theorem right_small : file.right < 2 ^ 31 := by
  have hin := file.right_inside
  have hbound := file.bound
  omega

theorem right_toNat : (BitVec.ofNat 32 file.right).toNat = file.right := by
  have hsmall := file.right_small
  rw [BitVec.toNat_ofNat, Nat.mod_eq_of_lt (by omega)]

theorem right_ne_zero : BitVec.ofNat 32 file.right ≠ 0 := by
  intro hzero
  have hpos : file.right = 0 := by rw [← file.right_toNat, hzero]; rfl
  have hbehind := file.behind
  omega

theorem left_of_part {p : Bytes} (hp : p <+: file.bytes) (h : file.right ≤ p.length) : file.leftImage <+: p :=
  List.prefix_of_prefix_length_le (List.take_prefix _ _) hp
    (by rw [leftImage, List.length_take]; omega)

end MpoFile

/-! ## the calls -/

/-- the decoders once the offset is known, after parts of at most `n` bytes -/
structure Eyes (file : MpoFile) (n : Nat) (d : MPOImageDecoder) : Prop where
  offset : d.rightImageOffset = BitVec.ofNat 32 file.right
  right_told : ∃ calls, d.decoderR = some calls ∧ ∀ c ∈ calls, c.allDataReceived = true → c.data = file.rightImage
  left_told : ∀ c ∈ d.decoderL, c.allDataReceived = true → file.leftImage <+: c.data
  finished : d.finishedLDecode = true →
    file.right ≤ n ∧ ∃ c, d.decoderL.getLast? = some c ∧ file.leftImage <+: c.data

section
variable {file : MpoFile} {n : Nat} {d : MPOImageDecoder} {s : Supply}

theorem mem_snoc {calls : List Call} {c new : Call} (h : c ∈ calls ++ [new]) : c ∈ calls ∨ c = new := by
  rw [List.mem_append, List.mem_singleton] at h
  exact h

theorem Eyes.finishL (h : Eyes file n d) (hp : s.data.data <+: file.bytes) (hright : file.right ≤ s.data.size) :
    (∃ c, (finishL d s).decoderL.getLast? = some c ∧ file.leftImage <+: c.data) ∧
      (∀ c ∈ (finishL d s).decoderL, c.allDataReceived = true → file.leftImage <+: c.data) ∧
      (finishL d s).decoderR = d.decoderR := by
  unfold Mpo.finishL
  split
  · next hfinished => exact ⟨(h.finished hfinished).2, h.left_told, rfl⟩
  · have hleft := file.left_of_part hp hright
    refine ⟨⟨_, by rw [feedL_decoderL, List.getLast?_concat], hleft⟩, ?_, rfl⟩
    intro c hc htold
    rcases mem_snoc hc with hc | rfl
    · exact h.left_told c hc htold
    · exact hleft

theorem Eyes.feed (h : Eyes file n d) (hn : n ≤ s.data.size) (hp : s.data.data <+: file.bytes)
    (htold : s.allDataReceived = true → s.data.data = file.bytes) :
    ∃ d', feed d s = some d' ∧ Eyes file s.data.size d' ∧
      (file.right ≤ s.data.size → d'.finishedLDecode = true ∧
        ∃ calls c, d'.decoderR = some calls ∧ calls.getLast? = some c ∧ c.data = s.data.data.drop file.right) := by
  obtain ⟨calls, hR, hcalls⟩ := h.right_told
  have hsize := hp.length_le
  have hbound := file.bound
  have hright_in := file.right_inside
  have htoNat : d.rightImageOffset.toNat = file.right := by rw [h.offset, file.right_toNat]
  unfold Mpo.feed
  rw [hR]
  simp only [htoNat]
  by_cases hshort : s.data.size < file.right
  · -- the right image has not begun, so this is not all
    rw [if_pos hshort]
    have hnot : s.allDataReceived = false := by
      rw [← Bool.not_eq_true]
      intro hall
      have hwhole : s.data.size = file.bytes.length := congrArg List.length (htold hall)
      omega
    have hearly : d.finishedLDecode = false := by
      rw [← Bool.not_eq_true]
      intro hfinished
      have hle := (h.finished hfinished).1
      omega
    refine ⟨_, rfl, ⟨h.offset, ⟨calls, hR, hcalls⟩, ?_, ?_⟩, fun hle => absurd hle (by omega)⟩
    · intro c hc hflag
      rw [setFailed_decoderL, feedL_decoderL] at hc
      rcases mem_snoc hc with hc | rfl
      · exact h.left_told c hc hflag
      · rw [hnot] at hflag
        cases hflag
    · intro hfinished
      rw [setFailed_finished, feedL_finished, hearly, hnot] at hfinished
      cases hfinished
  · rw [if_neg hshort]
    obtain ⟨hlast, hall, _⟩ := h.finishL hp (Nat.le_of_not_lt hshort)
    have hint : d.rightImageOffset.toInt = file.right := by rw [h.offset]; exact asInt32_eq file.right_small
    have hdata := @rightData_eq (Mpo.finishL d s) s.data
      (by rw [finishL_offset, htoNat]; exact Nat.le_of_not_lt hshort)
    rw [finishL_offset, hint, htoNat,
      if_pos ⟨Int.natCast_nonneg _, by show s.data.data.length - _ < _; omega⟩] at hdata
    rw [hdata]
    refine ⟨_, rfl, ⟨?_, ⟨_, rfl, ?_⟩, hall, fun _ => ⟨Nat.le_of_not_lt hshort, hlast⟩⟩,
      fun _ => ⟨?_, _, _, rfl, List.getLast?_concat, rfl⟩⟩
    · rw [setFailed_offset, feedR_offset, finishL_offset, h.offset]
    · intro c hc hflag
      rcases mem_snoc hc with hc | rfl
      · exact hcalls c hc hflag
      · show s.data.data.drop file.right = file.rightImage
        rw [htold hflag]
        rfl
    · rw [setFailed_finished, feedR_finished, finishL_finished]

theorem setData_known (h : Eyes file n d) (s : Supply) : setData d s = Mpo.feed d s := by
  have hne : d.rightImageOffset ≠ 0 := by
    rw [h.offset]
    exact file.right_ne_zero
  rw [setData, locate, if_neg hne]
  rfl

theorem Eyes.run (early : List Supply) : ∀ {n : Nat} {d : MPOImageDecoder}, Eyes file n d → n ≤ file.bytes.length →
    (∀ s ∈ early, n ≤ s.data.size) → (∀ s ∈ early, s.data.data <+: file.bytes) →
    early.Pairwise (fun s t => s.data.size ≤ t.data.size) → (∀ s ∈ early, s.allDataReceived = false) →
    ∃ d' n', early.foldlM setData d = some d' ∧ Eyes file n' d' ∧ n' ≤ file.bytes.length := by
  induction early with
  | nil => exact fun h hn _ _ _ _ => ⟨_, _, rfl, h, hn⟩
  | cons s early ih =>
    intro n d h _ hmore hparts hgrowing huntold
    have hp := hparts s List.mem_cons_self
    have hlater := List.pairwise_cons.mp hgrowing
    obtain ⟨d', hfeed, hd', _⟩ := h.feed (hmore s List.mem_cons_self) hp
      (fun htold => by rw [huntold s List.mem_cons_self] at htold; cases htold)
    obtain ⟨d'', n'', hrun, hd'', hn''⟩ := ih hd' hp.length_le hlater.1
      (fun t ht => hparts t (List.mem_cons_of_mem _ ht)) hlater.2 (fun t ht => huntold t (List.mem_cons_of_mem _ ht))
    refine ⟨d'', n'', ?_, hd'', hn''⟩
    rw [List.foldlM_cons, setData_known h, hfeed]
    exact hrun

theorem Eyes.last (h : Eyes file n d) (hn : n ≤ file.bytes.length) (hwhole : s.data.data = file.bytes) :
    ∃ d', setData d s = some d' ∧ BothEyes file d' := by
  have hsize : s.data.size = file.bytes.length := congrArg List.length hwhole
  obtain ⟨d', hfeed, hd', hall⟩ := h.feed (by omega) (hwhole ▸ List.prefix_rfl) (fun _ => hwhole)
  have hright := file.right_inside
  obtain ⟨hfinished, calls, c, hR, hlast, hdata⟩ := hall (by omega)
  refine ⟨d', by rw [setData_known h, hfeed], (hd'.finished hfinished).2, ⟨calls, c, hR, hlast, ?_⟩,
    hd'.left_told, ?_⟩
  · rw [hdata, hwhole]
    rfl
  · intro calls' hR' c' hc' hflag
    obtain ⟨calls'', hR'', htold⟩ := hd'.right_told
    obtain rfl := Option.some.inj (hR'.symm.trans hR'')
    exact htold c' hc' hflag

end

/-! ## what the left decoder was given stays -/

theorem scan_decoderL {d d' : MPOImageDecoder} {p : Bytes} (h : scan d p = some d') : d'.decoderL = d.decoderL := by
  unfold scan at h
  split at h
  · rw [← Option.some.inj h]
  obtain ⟨front, _, h⟩ := Option.bind_eq_some_iff.mp h
  split at h
  · rw [← Option.some.inj h]
  obtain ⟨found, _, h⟩ := Option.bind_eq_some_iff.mp h
  cases found with
  | none => rw [← Option.some.inj h]
  | some pos =>
    obtain ⟨app2len, _, h⟩ := Option.bind_eq_some_iff.mp (show readIndex d p pos = some d' from h)
    split at h
    · obtain ⟨mark, _, h⟩ := Option.bind_eq_some_iff.mp h
      obtain ⟨ifd, _, h⟩ := Option.bind_eq_some_iff.mp h
      obtain ⟨mpentries, _, h⟩ := Option.bind_eq_some_iff.mp h
      split at h
      · rw [← Option.some.inj h]
      · obtain ⟨offset, _, h⟩ := Option.bind_eq_some_iff.mp h
        rw [← Option.some.inj h]
    · rw [← Option.some.inj h]

theorem finishL_decoderL (d : MPOImageDecoder) (s : Supply) : d.decoderL <+: (finishL d s).decoderL := by
  unfold finishL
  split
  · exact List.prefix_rfl
  · exact List.prefix_append _ _

theorem feed_decoderL {d d' : MPOImageDecoder} {s : Supply} (h : feed d s = some d') :
    d.decoderL <+: d'.decoderL := by
  unfold feed at h
  split at h
  · rw [← Option.some.inj h]
    exact List.prefix_append _ _
  · split at h
    · rw [← Option.some.inj h]
      exact List.prefix_append _ _
    · obtain ⟨rbuf, _, rfl⟩ := Option.map_eq_some_iff.mp h
      exact finishL_decoderL d s

theorem setData_decoderL {d d' : MPOImageDecoder} {s : Supply} (h : setData d s = some d') :
    d.decoderL <+: d'.decoderL := by
  obtain ⟨d₁, hd₁, hfeed⟩ := Option.bind_eq_some_iff.mp h
  have hsame : d₁.decoderL = d.decoderL := by
    unfold locate at hd₁
    split at hd₁
    · exact scan_decoderL hd₁
    · rw [← Option.some.inj hd₁]
  exact hsame ▸ feed_decoderL hfeed

theorem run_decoderL (supplies : List Supply) : ∀ {d d' : MPOImageDecoder}, supplies.foldlM setData d = some d' →
    d.decoderL <+: d'.decoderL := by
  induction supplies with
  | nil =>
    intro d d' h
    obtain rfl := Option.some.inj h
    exact List.prefix_rfl
  | cons s supplies ih =>
    intro d d' h
    rw [List.foldlM_cons] at h
    obtain ⟨d₁, hd₁, hrun⟩ := Option.bind_eq_some_iff.mp h
    exact (setData_decoderL hd₁).trans (ih hrun)

namespace Loading
variable {file : MpoFile} (l : Loading file)

def supplies : List Supply := l.early ++ [l.last]

theorem first_part : l.first.data.data <+: file.bytes := by
  have hmem : l.first ∈ l.early ++ [l.last] := List.mem_of_head? l.begins
  rcases List.mem_append.mp hmem with hmem | hmem
  · exact l.parts l.first hmem
  · have hwhole : l.first.data.data = file.bytes := by rw [List.mem_singleton.mp hmem, l.whole]
    exact hwhole ▸ List.prefix_rfl

theorem scan_first (d : MPOImageDecoder) : scan d l.first.data.buffer =
    if l.first.data.size < file.app2len then some d
    else if l.first.data.size < file.pos + file.ifd + 78 then none
    else some { d with rightImageOffset := BitVec.ofNat 32 file.right } := by
  have hbuffer : l.first.data.buffer = l.first.data.data := by
    rw [SharedBuffer.data, l.merged, List.append_nil]
  rw [hbuffer]
  exact file.scan_part l.first_part (create_mpo l.chosen) d

theorem setData_first (h : file.IndexArrived l.first.data.size) :
    setData {} l.first = setData { rightImageOffset := BitVec.ofNat 32 file.right } l.first := by
  rw [setData, setData, locate, locate, if_pos rfl, if_neg file.right_ne_zero, l.scan_first,
    if_neg (Nat.not_lt.mpr h.1), if_neg (Nat.not_lt.mpr h.2)]

theorem run_first {first : Supply} {supplies : List Supply} {d d' : MPOImageDecoder}
    (hhead : supplies.head? = some first)
    (h : setData d first = setData d' first) : supplies.foldlM setData d = supplies.foldlM setData d' := by
  obtain ⟨rest, rfl⟩ := List.head?_eq_some_iff.mp hhead
  rw [List.foldlM_cons, List.foldlM_cons, h]

theorem start : Eyes file 0 { rightImageOffset := BitVec.ofNat 32 file.right } where
  offset := rfl
  right_told := ⟨[], rfl, fun _ h => nomatch h⟩
  left_told := fun _ h => nomatch h
  finished := fun h => nomatch h

theorem both_of_arrived (h : file.IndexArrived l.first.data.size) :
    ∃ d, l.supplies.foldlM setData {} = some d ∧ BothEyes file d := by
  obtain ⟨d, n, hrun, hd, hn⟩ := start.run l.early (Nat.zero_le _) (fun _ _ => Nat.zero_le _)
    l.parts l.growing l.untold
  obtain ⟨d', hlast, hboth⟩ := hd.last hn l.whole
  refine ⟨d', ?_, hboth⟩
  unfold supplies
  rw [run_first l.begins (l.setData_first h), List.foldlM_append, hrun]
  show [l.last].foldlM setData d = some d'
  rw [List.foldlM_cons, hlast]
  rfl

theorem arrived_of_both {d : MPOImageDecoder} (hrun : l.supplies.foldlM setData {} = some d)
    (hboth : BothEyes file d) :
    file.IndexArrived l.first.data.size := by
  have hbehind := file.behind
  obtain ⟨rest, hsupplies⟩ := List.head?_eq_some_iff.mp l.begins
  rw [supplies, hsupplies, List.foldlM_cons] at hrun
  obtain ⟨d₁, hd₁, hrest⟩ := Option.bind_eq_some_iff.mp hrun
  rw [setData, locate, if_pos rfl, l.scan_first] at hd₁
  by_cases hshort : l.first.data.size < file.app2len
  · -- the left decoder is told that this is all
    rw [if_pos hshort] at hd₁
    have hcall : ({ data := l.first.data.data, allDataReceived := true } : Call) ∈ d₁.decoderL := by
      obtain ⟨rbuf, _, rfl⟩ := Option.map_eq_some_iff.mp
        (show (rightData (finishL {} l.first) l.first.data).map _ = some d₁ from hd₁)
      exact List.mem_singleton_self _
    have hleft := hboth.left_told _ ((run_decoderL rest hrest).subset hcall) rfl
    have hin := file.right_inside
    have hlength : file.right ≤ l.first.data.size := by
      have hle := hleft.length_le
      rw [MpoFile.leftImage, List.length_take, Nat.min_eq_left (Nat.le_of_lt hin)] at hle
      exact hle
    omega
  · rw [if_neg hshort] at hd₁
    by_cases hindex : l.first.data.size < file.pos + file.ifd + 78
    · rw [if_pos hindex] at hd₁
      cases hd₁
    · exact ⟨Nat.le_of_not_lt hshort, Nat.le_of_not_lt hindex⟩

end Loading

/-- any file, in any parts -/
theorem bothEyes_iff (file : MpoFile) (l : Loading file) :
    (∃ d, l.supplies.foldlM setData {} = some d ∧ BothEyes file d) ↔ file.IndexArrived l.first.data.size :=
  ⟨fun ⟨_, hrun, hboth⟩ => l.arrived_of_both hrun hboth, l.both_of_arrived⟩

/-! ## a long segment -/

/-- The segment with the index is 65535 bytes long; the right image is at 65539. -/
def longHeader : Bytes := header 0xFF 0xFF [0xF9, 0xFF, 0, 0]

/-- the first 16384 bytes -/
def longPart : Bytes := longHeader ++ zeros 16296

def longBytes : Bytes := longPart ++ (zeros 49155 ++ [0xFF, 0xD8, 0xFF, 0xD9])

theorem length_longPart : longPart.length = 16384 := by
  rw [longPart, List.length_append, zeros_length]
  rfl

theorem length_longBytes : longBytes.length = 65543 := by
  rw [longBytes, List.length_append, length_longPart, List.length_append, zeros_length]
  rfl

theorem longPart_prefix : longPart <+: longBytes := List.prefix_append _ _
theorem longHeader_prefix : longHeader <+: longBytes := (List.prefix_append _ _).trans longPart_prefix

theorem longHeader_mpf : IsMPF longHeader longHeader.length 2 := ⟨by decide, by decide, by decide, by decide⟩

def longFile : MpoFile where
  bytes := longBytes
  bound := by rw [length_longBytes]; decide
  soi := List.IsPrefix.trans (by decide) longHeader_prefix
  pos := 2
  leads := .refl
  mpf := (isMPF_part longHeader_prefix (by decide)).mp longHeader_mpf
  app2len := 65535
  segment := by
    rw [segmentLength, ← load_front longHeader_prefix (by decide)]
    decide
  mark := [0x49, 0x49, 0x2A, 0]
  marked := by
    rw [← load_front longHeader_prefix (by decide)]
    decide
  order := Or.inl rfl
  ifd := 8
  ifd_word := (@word_whole _ _ longHeader_prefix true 14 (by decide)).trans (by decide)
  within := by decide
  two_images := (@word_whole _ _ longHeader_prefix true 48 (by decide)).trans (by decide)
  right := 65539
  behind := by decide
  right_inside := by rw [length_longBytes]; decide
  right_word := (@word_whole _ _ longHeader_prefix true 84 (by decide)).trans (by decide)

/-- enough for `create`, but not the whole segment -/
def longFirst : Supply where
  data := { buffer := longPart, segments := [], bound := by rw [List.append_nil, length_longPart]; decide }
  allDataReceived := false

def longLast : Supply where
  data := { buffer := longBytes, segments := [], bound := by rw [List.append_nil, length_longBytes]; decide }
  allDataReceived := true

theorem longFirst_data : longFirst.data.data = longPart := List.append_nil _

theorem longFirst_chosen : create longFirst.data longFirst.allDataReceived = some (some .MPO) := by
  have hfront : longHeader <+: longPart := List.prefix_append _ _
  have hcontents : longPart.take lengthOfLongestSignature = longHeader.take lengthOfLongestSignature :=
    List.take_append_of_le_length (by decide)
  have hsize : longFirst.data.size = 16384 := by
    rw [SharedBuffer.size, longFirst_data, length_longPart]
  have hmatches : matchesMPOSignature longPart = some true := by
    have hlen : asInt32 longPart.length = longPart.length := asInt32_eq (by rw [length_longPart]; decide)
    have hmpf : IsMPF longPart longPart.length 2 := (isMPF_part hfront (by decide)).mp longHeader_mpf
    have hload : load longPart 0 3 = some SOI := by
      rw [← load_front hfront (by decide)]
      decide
    rw [matchesMPOSignature, hload, hlen, findMPF_mpf hmpf]
    rfl
  unfold create
  rw [hsize, longFirst_data, hcontents, hmatches]
  rfl

def longLoading : Loading longFile where
  early := [longFirst]
  last := longLast
  parts := fun s hs => by
    rw [List.mem_singleton.mp hs, longFirst_data]
    exact longPart_prefix
  growing := List.pairwise_singleton _ _
  untold := fun s hs => by rw [List.mem_singleton.mp hs]; rfl
  whole := List.append_nil _
  told := rfl
  first := longFirst
  begins := rfl
  merged := rfl
  chosen := longFirst_chosen

/-- the left decoder is told too early, and the right one gets the file from its start -/
theorem longFile_misses : ¬ ∃ d, longLoading.supplies.foldlM setData {} = some d ∧ BothEyes longFile d := by
  rintro ⟨d, hrun, hboth⟩
  have harrived : 65535 ≤ longFirst.data.data.length := (longLoading.arrived_of_both hrun hboth).1
  rw [longFirst_data, length_longPart] at harrived
  exact absurd harrived (by decide)

end Mpo
end Wkc
