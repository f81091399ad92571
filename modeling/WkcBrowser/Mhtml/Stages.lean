import WkcBrowser.Mhtml.Serialize

/-!
# One call of `serializeResource`

The states of `serializeResource` fall through to one another until the buffer is full or the body is
written.  Seen from outside there is one piece of text to write, `lead`: what is left up to the end of the
body.

* `lead`            that text, for each state;
* `Written`         what a call has done with it;
* `Written.stage`   a state that writes `m_data` and goes on;
* `serializeResource_written`   the whole call.
-/

namespace Wkc
namespace Serializer

/-- the boundary before a part, or after the last one -/
def boundary (multipart last : Bool) : Bytes := if multipart then Mhtml.makeBoundary last else []

def part (multipart : Bool) (r : ArchiveResource) : Bytes :=
  boundary multipart false ++ (Mhtml.makePartHeader r ++ r.data)

/-- what is left of `m_data` -/
def rest (s : Serializer) : Bytes := (s.data.getD []).drop s.dataOff

/-- what is left to write up to the end of the body of `r` -/
def lead (s : Serializer) (r : ArchiveResource) : Bytes :=
  match s.status with
  | .MAKE_MESSAGE_HEADER => Mhtml.makeMessageHeader r.mimeType s.multipart ++ part s.multipart r
  | .WRITE_MESSAGE_HEADER => s.rest ++ part s.multipart r
  | .MAKE_BOUNDARY => part s.multipart r
  | .WRITE_BOUNDARY => s.rest ++ (Mhtml.makePartHeader r ++ r.data)
  | .MAKE_PART_HEADER => Mhtml.makePartHeader r ++ r.data
  | .WRITE_PART_HEADER => s.rest ++ r.data
  | .MAKE_CONTENT => r.data
  | .WRITE_CONTENT => s.rest
  | .END => []
  | .ERROR => []

/-- the part header has been made -/
def begun (s : Serializer) : Bool :=
  s.status == .WRITE_PART_HEADER || s.status == .MAKE_CONTENT || s.status == .WRITE_CONTENT

/-- a resource is being written, or is about to be -/
structure Ready (s : Serializer) : Prop where
  goes : s.status ≠ .END
  ok : s.status ≠ .ERROR
  item : s.curItem ≤ s.items
  off : s.dataOff ≤ s.dataLen
  blank : s.status = .MAKE_BOUNDARY → s.data = none

/-- the last boundary is being written, and `R` is left of it -/
structure Finishing (s : Serializer) (R : Bytes) : Prop where
  status : s.status = .WRITE_BOUNDARY
  data : s.data.isSome = true
  off : s.dataOff ≤ s.dataLen
  rest : s.rest = R
  more : R ≠ []
  item : s.items < s.curItem

/-- what no call of `serializeResource` changes -/
structure Same (s t : Serializer) : Prop where
  items : t.items = s.items
  unique : t.uniqueSubresources = s.uniqueSubresources

/-- The outcomes, with `T` to write up to the end of the body: the buffer is full before that, exactly
there, or not yet, and then the resource is the last one or not; or there is no URL to make a header of. -/
inductive Written (r : ArchiveResource) (s : Serializer) (T : Bytes) : Bool × Serializer → Prop
  | full (t : Serializer) (short : s.bufferLen < T.length) (ready : t.Ready)
      (lead : t.lead r = T.drop s.bufferLen) (buffer : t.buffer = s.buffer ++ T.take s.bufferLen)
      (none : t.bufferLen = 0) (same : Same s t) (item : t.curItem = s.curItem)
      (written : t.written = s.written) (begun : t.begun = true → r.url ≠ []) : Written r s T (false, t)
  | exact (t : Serializer) (fits : s.bufferLen = T.length) (status : t.status = .MAKE_BOUNDARY)
      (data : t.data = none) (off : t.dataOff = 0) (buffer : t.buffer = s.buffer ++ T)
      (none : t.bufferLen = 0) (same : Same s t) (item : t.curItem = s.curItem)
      (written : t.written = s.written ++ [r]) (url : r.url ≠ []) : Written r s T (false, t)
  | next (t : Serializer) (long : T.length < s.bufferLen) (more : s.curItem < s.items)
      (status : t.status = .MAKE_BOUNDARY) (data : t.data = none) (off : t.dataOff = 0)
      (buffer : t.buffer = s.buffer ++ T) (left : t.bufferLen = s.bufferLen - T.length)
      (same : Same s t) (item : t.curItem = s.curItem + 1)
      (written : t.written = s.written ++ [r]) (url : r.url ≠ []) : Written r s T (true, t)
  | last (t : Serializer) (long : T.length < s.bufferLen) (end_ : s.items ≤ s.curItem)
      (buffer : t.buffer = s.buffer ++ T ++ (boundary s.multipart true).take (s.bufferLen - T.length))
      (left : (boundary s.multipart true).length ≤ s.bufferLen - T.length ∧ t.status = .END ∨
        s.bufferLen - T.length < (boundary s.multipart true).length ∧ t.bufferLen = 0 ∧
          t.Finishing ((boundary s.multipart true).drop (s.bufferLen - T.length)))
      (same : Same s t) (item : t.curItem = s.curItem + 1)
      (written : t.written = s.written ++ [r]) (url : r.url ≠ []) : Written r s T (false, t)
  | failed (t : Serializer) (url : r.url = []) (status : t.status = .ERROR) : Written r s T (false, t)

section
variable {s : Serializer} {r : ArchiveResource}

/-! ## `put` -/

theorem rest_length (h : s.dataOff ≤ s.dataLen) : s.dataOff + s.rest.length = s.dataLen := by
  unfold rest dataLen at *
  rw [List.length_drop]
  omega

theorem put_short (h : s.bufferLen < s.rest.length) :
    s.put = { s with
      buffer := s.buffer ++ s.rest.take s.bufferLen
      bufferLen := 0
      dataOff := s.dataOff + s.bufferLen } := by
  have hmin : min s.bufferLen s.rest.length = s.bufferLen := Nat.min_eq_left h.le
  show ({ s with
    buffer := s.buffer ++ s.rest.take (min s.bufferLen s.rest.length)
    bufferLen := s.bufferLen - min s.bufferLen s.rest.length
    dataOff := s.dataOff + min s.bufferLen s.rest.length } : Serializer) = _
  rw [hmin, Nat.sub_self]

theorem put_done (hoff : s.dataOff ≤ s.dataLen) (h : s.rest.length ≤ s.bufferLen) :
    s.put = { s with
      buffer := s.buffer ++ s.rest
      bufferLen := s.bufferLen - s.rest.length
      dataOff := s.dataLen } := by
  have hmin : min s.bufferLen s.rest.length = s.rest.length := Nat.min_eq_right h
  show ({ s with
    buffer := s.buffer ++ s.rest.take (min s.bufferLen s.rest.length)
    bufferLen := s.bufferLen - min s.bufferLen s.rest.length
    dataOff := s.dataOff + min s.bufferLen s.rest.length } : Serializer) = _
  rw [hmin, List.take_length, rest_length hoff]

theorem put_short_ne (hoff : s.dataOff ≤ s.dataLen) (h : s.bufferLen < s.rest.length) :
    s.put.dataOff ≠ s.put.dataLen := by
  rw [put_short h]
  show s.dataOff + s.bufferLen ≠ s.dataLen
  have hlen := rest_length hoff
  omega

theorem put_short_rest (h : s.bufferLen < s.rest.length) : s.put.rest = s.rest.drop s.bufferLen := by
  rw [put_short h]
  show (s.data.getD []).drop (s.dataOff + s.bufferLen) = ((s.data.getD []).drop s.dataOff).drop s.bufferLen
  rw [List.drop_drop]

/-! ## text before the rest -/

theorem Written.prepend {s₁ : Serializer} {D T : Bytes} {res : Bool × Serializer}
    (hD : D.length ≤ s.bufferLen) (hbuffer : s₁.buffer = s.buffer ++ D)
    (hlen : s₁.bufferLen = s.bufferLen - D.length) (hsame : Same s s₁)
    (hitem : s₁.curItem = s.curItem) (hwritten : s₁.written = s.written)
    (h : Written r s₁ T res) : Written r s (D ++ T) res := by
  have hT : (D ++ T).length = D.length + T.length := List.length_append
  have hmulti : s₁.multipart = s.multipart := by
    unfold multipart
    rw [hsame.items]
  have hjoin : ∀ t, Same s₁ t → Same s t := fun t ht =>
    ⟨ht.items.trans hsame.items, ht.unique.trans hsame.unique⟩
  cases h with
  | full t short ready lead buffer none same item written begun =>
    refine .full t (by omega) ready ?_ ?_ none (hjoin t same) (item.trans hitem) (written.trans hwritten)
      begun
    · rw [lead, hlen, List.drop_append, List.drop_eq_nil_of_le hD, List.nil_append]
    · rw [buffer, hbuffer, hlen, List.take_append, List.take_of_length_le hD, List.append_assoc]
  | exact t fits status data off buffer none same item written url =>
    refine .exact t (by omega) status data off ?_ none (hjoin t same) (item.trans hitem) ?_ url
    · rw [buffer, hbuffer, List.append_assoc]
    · rw [written, hwritten]
  | next t long more status data off buffer left same item written url =>
    refine .next t (by omega) ?_ status data off ?_ (by omega) (hjoin t same) ?_ ?_ url
    · rw [← hitem, ← hsame.items]
      exact more
    · rw [buffer, hbuffer, List.append_assoc]
    · rw [item, hitem]
    · rw [written, hwritten]
  | last t long end_ buffer left same item written url =>
    have hleft : s₁.bufferLen - T.length = s.bufferLen - (D ++ T).length := by omega
    refine .last t (by omega) ?_ ?_ ?_ (hjoin t same) ?_ ?_ url
    · rw [← hitem, ← hsame.items]
      exact end_
    · rw [buffer, hbuffer, hmulti, hleft, List.append_assoc s.buffer]
    · rw [hmulti, hleft] at left
      exact left
    · rw [item, hitem]
    · rw [written, hwritten]
  | failed t url status => exact .failed t url status

theorem Written.prepared {d : Option Bytes} {status : SerializeState} {T : Bytes}
    {res : Bool × Serializer} (h : Written r (s.make d status) T res) : Written r s T res := by
  have hnil : Written r s ([] ++ T) res := by
    refine Written.prepend (Nat.zero_le _) ?_ ?_ ?_ ?_ ?_ h
    · exact (List.append_nil _).symm
    · rfl
    · exact ⟨rfl, rfl⟩
    · rfl
    · rfl
  exact hnil

theorem Written.stage {T : Bytes} {status : SerializeState} {k : Serializer → Bool × Serializer}
    (h : s.Ready) (hT : T ≠ []) (hlead : ∀ t : Serializer, t.status = s.status → t.items = s.items →
      t.lead r = t.rest ++ T)
    (hstatus : s.status ≠ .MAKE_BOUNDARY) (hready : status ≠ .END ∧ status ≠ .ERROR)
    (hbegun : ∀ t : Serializer, t.status = s.status ∨ t.status = status → t.begun = true → r.url ≠ [])
    (hmake : ∀ t : Serializer, t.items = s.items → (t.make none status).lead r = T)
    (hk : ∀ t : Serializer, t.Ready → t.status = status → t.items = s.items → t.data = none →
      t.bufferLen ≠ 0 → Written r t T (k t)) :
    Written r s (s.rest ++ T)
      (if s.put.dataOff ≠ s.put.dataLen then (false, s.put)
        else if (s.put.make none status).bufferLen = 0 then (false, s.put.make none status)
        else k (s.put.make none status)) := by
  have hlen : 0 < T.length := List.length_pos_iff.mpr hT
  by_cases hshort : s.bufferLen < s.rest.length
  · rw [if_pos (put_short_ne h.off hshort)]
    have hput := put_short hshort
    refine .full s.put ?_ ?_ ?_ ?_ ?_ ?_ ?_ ?_ (hbegun s.put (.inl (by rw [hput])))
    · rw [List.length_append]
      omega
    · rw [hput]
      refine ⟨h.goes, h.ok, h.item, ?_, fun hb => absurd hb hstatus⟩
      show s.dataOff + s.bufferLen ≤ s.dataLen
      have hrest := rest_length h.off
      omega
    · rw [hlead s.put (by rw [hput]) (by rw [hput]), put_short_rest hshort, List.drop_append_of_le_length hshort.le]
    · rw [hput, List.take_append_of_le_length hshort.le]
    · rw [hput]
    · rw [hput]
      exact ⟨rfl, rfl⟩
    · rw [hput]
    · rw [hput]
  · have hdone : s.rest.length ≤ s.bufferLen := Nat.le_of_not_lt hshort
    have hput := put_done h.off hdone
    have hnot : ¬ s.put.dataOff ≠ s.put.dataLen := by
      rw [hput]
      exact not_not_intro rfl
    rw [if_neg hnot, hput]
    have hready₁ : (({ s with
        buffer := s.buffer ++ s.rest
        bufferLen := s.bufferLen - s.rest.length
        dataOff := s.dataLen } : Serializer).make none status).Ready :=
      ⟨hready.1, hready.2, h.item, Nat.le_refl 0, fun _ => rfl⟩
    split
    · next hzero =>
      have hfit : s.bufferLen = s.rest.length := by
        have hzero : s.bufferLen - s.rest.length = 0 := hzero
        omega
      refine .full _ ?_ hready₁ ?_ ?_ hzero ⟨rfl, rfl⟩ rfl rfl (hbegun _ (.inr rfl))
      · rw [List.length_append]
        omega
      · rw [hfit, List.drop_left]
        exact hmake _ rfl
      · rw [hfit, List.take_left]
        rfl
    · next hmore =>
      refine Written.prepend hdone ?_ ?_ ?_ ?_ ?_ (hk _ hready₁ rfl rfl rfl hmore)
      · rfl
      · rfl
      · exact ⟨rfl, rfl⟩
      · rfl
      · rfl

/-! ## the last boundary -/

theorem writeBoundary_finishing {R : Bytes} (h : s.Finishing R) :
    ∃ t, s.writeBoundary = (false, t) ∧ t.buffer = s.buffer ++ R.take s.bufferLen ∧ Same s t ∧
      t.curItem = s.curItem ∧ t.written = s.written ∧
      (R.length ≤ s.bufferLen ∧ t.status = .END ∨
        s.bufferLen < R.length ∧ t.bufferLen = 0 ∧ t.Finishing (R.drop s.bufferLen)) := by
  have hrest := h.rest
  unfold writeBoundary
  rw [if_pos h.data]
  by_cases hshort : s.bufferLen < R.length
  · have hshort' : s.bufferLen < s.rest.length := by rw [hrest]; exact hshort
    have hput := put_short hshort'
    refine ⟨s.put, if_pos (put_short_ne h.off hshort'), ?_, ?_, ?_, ?_, .inr ⟨hshort, ?_, ?_⟩⟩
    · rw [hput, hrest]
    · rw [hput]
      exact ⟨rfl, rfl⟩
    · rw [hput]
    · rw [hput]
    · rw [hput]
    · refine ⟨?_, ?_, ?_, ?_, ?_, ?_⟩
      · rw [hput]
        exact h.status
      · rw [hput]
        exact h.data
      · have hlen := rest_length h.off
        rw [hput]
        show s.dataOff + s.bufferLen ≤ s.dataLen
        omega
      · rw [put_short_rest hshort', hrest]
      · intro hnil
        have hlen := congrArg List.length hnil
        rw [List.length_drop, List.length_nil] at hlen
        omega
      · rw [hput]
        exact h.item
  · have hdone : R.length ≤ s.bufferLen := Nat.le_of_not_lt hshort
    have hput := put_done h.off (by rw [hrest]; exact hdone)
    have hnot : ¬ s.put.dataOff ≠ s.put.dataLen := by
      rw [hput]
      exact not_not_intro rfl
    dsimp only
    rw [if_neg hnot, boundaryWritten, hput]
    refine ⟨_, if_pos h.item, ?_, ⟨rfl, rfl⟩, rfl, rfl, .inl ⟨hdone, rfl⟩⟩
    rw [List.take_of_length_le hdone, ← hrest]

theorem makeBoundary_length_pos (last : Bool) : 0 < (Mhtml.makeBoundary last).length := by
  rw [Mhtml.makeBoundary_length]
  cases last with
  | false | true => decide

theorem writeBoundary_last (hdata : s.data = none) (hitem : s.items < s.curItem) :
    ∃ t, s.makeBoundary.writeBoundary = (false, t) ∧
      t.buffer = s.buffer ++ (boundary s.multipart true).take s.bufferLen ∧ Same s t ∧
      t.curItem = s.curItem ∧ t.written = s.written ∧
      ((boundary s.multipart true).length ≤ s.bufferLen ∧ t.status = .END ∨
        s.bufferLen < (boundary s.multipart true).length ∧ t.bufferLen = 0 ∧
          t.Finishing ((boundary s.multipart true).drop s.bufferLen)) := by
  unfold makeBoundary boundary
  rw [hdata, decide_eq_true hitem]
  cases s.multipart with
  | false =>
    refine ⟨_, if_pos hitem, ?_, ⟨rfl, rfl⟩, rfl, rfl, .inl ⟨Nat.zero_le _, rfl⟩⟩
    show s.buffer = s.buffer ++ List.take s.bufferLen []
    rw [List.take_nil, List.append_nil]
  | true =>
    rw [if_pos rfl, if_pos rfl]
    have hfin : (s.make (some (Mhtml.makeBoundary true)) .WRITE_BOUNDARY).Finishing
        (Mhtml.makeBoundary true) := by
      refine ⟨rfl, rfl, Nat.zero_le _, rfl, ?_, hitem⟩
      exact List.length_pos_iff.mp (makeBoundary_length_pos true)
    obtain ⟨t, heq, hbuffer, hsame, hcur, hwritten, hleft⟩ := writeBoundary_finishing hfin
    exact ⟨t, heq, hbuffer, ⟨hsame.items, hsame.unique⟩, hcur, hwritten, hleft⟩

/-! ## the states, from the last to the first -/

theorem writeContent_written (h : s.Ready) (hs : s.status = .WRITE_CONTENT) (hu : r.url ≠ []) :
    Written r s s.rest (s.writeContent r) := by
  unfold writeContent
  by_cases hshort : s.bufferLen < s.rest.length
  · have hput := put_short hshort
    dsimp only
    rw [if_pos (put_short_ne h.off hshort)]
    refine .full s.put hshort ?_ ?_ ?_ ?_ ?_ ?_ ?_ (fun _ => hu)
    · rw [hput]
      refine ⟨h.goes, h.ok, h.item, ?_, fun hb => absurd (hs.symm.trans hb) SerializeState.noConfusion⟩
      have hlen := rest_length h.off
      show s.dataOff + s.bufferLen ≤ s.dataLen
      omega
    · rw [← put_short_rest hshort]
      have hstatus : s.put.status = .WRITE_CONTENT := by rw [hput]; exact hs
      unfold lead
      rw [hstatus]
    · rw [hput]
    · rw [hput]
    · rw [hput]
      exact ⟨rfl, rfl⟩
    · rw [hput]
    · rw [hput]
  · have hdone : s.rest.length ≤ s.bufferLen := Nat.le_of_not_lt hshort
    have hput := put_done h.off hdone
    have hnot : ¬ s.put.dataOff ≠ s.put.dataLen := by
      rw [hput]
      exact not_not_intro rfl
    dsimp only
    rw [if_neg hnot, hput]
    split
    · next hzero =>
      have hzero : s.bufferLen - s.rest.length = 0 := hzero
      exact .exact _ (by omega) rfl rfl rfl rfl hzero ⟨rfl, rfl⟩ rfl rfl hu
    · next hmore =>
      have hmore : ¬ s.bufferLen - s.rest.length = 0 := hmore
      have hlong : s.rest.length < s.bufferLen := by omega
      split
      · next hitem =>
        have hitem : s.items < s.curItem + 1 := hitem
        obtain ⟨t, heq, hbuffer, hsame, hcur, hwritten, hleft⟩ := writeBoundary_last
          (s := { ({ s with
            buffer := s.buffer ++ s.rest
            bufferLen := s.bufferLen - s.rest.length
            dataOff := s.dataLen } : Serializer).make none .MAKE_BOUNDARY with
            written := s.written ++ [r], curItem := s.curItem + 1 }) rfl hitem
        have hres : ∀ x : Bool × Serializer, x = (false, t) → Written r s s.rest (false, x.2) := by
          rintro x rfl
          exact .last t hlong (Nat.lt_succ_iff.mp hitem) hbuffer hleft ⟨hsame.items, hsame.unique⟩ hcur
            hwritten hu
        exact hres _ heq
      · next hitem =>
        have hitem : ¬ s.items < s.curItem + 1 := hitem
        exact .next _ hlong (by omega) rfl rfl rfl rfl rfl ⟨rfl, rfl⟩ rfl rfl hu

theorem makeContent_written (h : s.Ready) (hr : r.data ≠ []) (hu : r.url ≠ []) :
    Written r s r.data (s.makeContent r) := by
  have hempty : ¬ r.data.isEmpty = true := by simpa using hr
  unfold makeContent
  rw [if_neg hempty]
  have hready : (s.make (some r.data) .WRITE_CONTENT).Ready :=
    ⟨SerializeState.noConfusion, SerializeState.noConfusion, h.item, Nat.zero_le _,
      fun hb => SerializeState.noConfusion hb⟩
  exact (writeContent_written hready rfl hu).prepared

theorem writePartHeader_written (h : s.Ready) (hs : s.status = .WRITE_PART_HEADER) (hr : r.data ≠ [])
    (hu : r.url ≠ []) :
    Written r s (s.rest ++ r.data) (s.writePartHeader r) := by
  apply Written.stage h hr
  · intro t ht _
    unfold lead
    rw [ht, hs]
  · rw [hs]
    exact SerializeState.noConfusion
  · exact ⟨SerializeState.noConfusion, SerializeState.noConfusion⟩
  · exact fun _ _ _ => hu
  · intro t _
    rfl
  · intro t ht _ _ _ _
    exact makeContent_written ht hr hu

theorem makePartHeader_written (h : s.Ready) (hr : r.data ≠ []) :
    Written r s (Mhtml.makePartHeader r ++ r.data) (s.makePartHeader r) := by
  unfold makePartHeader
  dsimp only
  by_cases hu : r.url = []
  · have hempty : (Mhtml.makePartHeader r).isEmpty = true := by
      unfold Mhtml.makePartHeader
      rw [hu]
      rfl
    rw [if_pos hempty]
    exact .failed _ hu rfl
  · have hempty : ¬ (Mhtml.makePartHeader r).isEmpty = true := by
      simpa using Mhtml.makePartHeader_ne_nil hu
    rw [if_neg hempty]
    have hready : (s.make (some (Mhtml.makePartHeader r)) .WRITE_PART_HEADER).Ready :=
      ⟨SerializeState.noConfusion, SerializeState.noConfusion, h.item, Nat.zero_le _,
        fun hb => SerializeState.noConfusion hb⟩
    exact (writePartHeader_written hready rfl hr hu).prepared

theorem not_begun {t : Serializer} (h : t.status = .WRITE_MESSAGE_HEADER ∨ t.status = .MAKE_BOUNDARY ∨
    t.status = .WRITE_BOUNDARY ∨ t.status = .MAKE_PART_HEADER) (hb : t.begun = true) : r.url ≠ [] := by
  unfold begun at hb
  rcases h with h | h | h | h
  all_goals
    rw [h] at hb
    cases hb

theorem boundaryWritten_eq (hitem : s.curItem ≤ s.items) :
    s.boundaryWritten = (decide (s.bufferLen ≠ 0), s.make none .MAKE_PART_HEADER) := by
  unfold boundaryWritten
  exact if_neg (Nat.not_lt.mpr hitem)

theorem fromBoundary_some (h : s.Ready) (hdata : s.data.isSome = true) :
    s.fromBoundary r =
      if s.put.dataOff ≠ s.put.dataLen then (false, s.put)
      else if (s.put.make none .MAKE_PART_HEADER).bufferLen = 0 then
        (false, s.put.make none .MAKE_PART_HEADER)
      else (s.put.make none .MAKE_PART_HEADER).makePartHeader r := by
  unfold fromBoundary writeBoundary
  rw [if_pos hdata]
  dsimp only
  by_cases hoff : s.put.dataOff ≠ s.put.dataLen
  · rw [if_pos hoff, if_pos hoff]
  · have hput : s.put.curItem ≤ s.put.items := h.item
    rw [if_neg hoff, if_neg hoff, boundaryWritten_eq hput]
    by_cases hzero : (s.put.make none .MAKE_PART_HEADER).bufferLen = 0
    · rw [if_pos hzero]
      have hno : decide (s.put.bufferLen ≠ 0) = false := decide_eq_false (not_not_intro hzero)
      rw [hno]
    · rw [if_neg hzero]
      have hyes : decide (s.put.bufferLen ≠ 0) = true := decide_eq_true hzero
      rw [hyes]

theorem fromBoundary_written (h : s.Ready) (hs : s.status = .WRITE_BOUNDARY) (hn : s.bufferLen ≠ 0)
    (hr : r.data ≠ []) :
    Written r s (s.rest ++ (Mhtml.makePartHeader r ++ r.data)) (s.fromBoundary r) := by
  cases hdata : s.data with
  | none =>
    have hrest : s.rest = [] := by
      unfold rest
      rw [hdata]
      exact List.drop_nil
    have hpart : s.fromBoundary r = (s.make none .MAKE_PART_HEADER).makePartHeader r := by
      unfold fromBoundary writeBoundary
      rw [hdata, boundaryWritten_eq h.item, decide_eq_true hn]
      rfl
    have hready : (s.make none .MAKE_PART_HEADER).Ready :=
      ⟨SerializeState.noConfusion, SerializeState.noConfusion, h.item, Nat.zero_le _, fun _ => rfl⟩
    rw [hrest, hpart]
    exact (makePartHeader_written hready hr).prepared
  | some d =>
    rw [fromBoundary_some h (by rw [hdata]; rfl)]
    apply Written.stage h
    · intro hnil
      exact hr (List.append_eq_nil_iff.mp hnil).2
    · intro t ht _
      unfold lead
      rw [ht, hs]
    · rw [hs]
      exact SerializeState.noConfusion
    · exact ⟨SerializeState.noConfusion, SerializeState.noConfusion⟩
    · rintro t (ht | ht)
      · exact not_begun (.inr (.inr (.inl (ht.trans hs))))
      · exact not_begun (.inr (.inr (.inr ht)))
    · intro t _
      rfl
    · intro t ht _ _ _ _
      exact makePartHeader_written ht hr

theorem makeBoundary_written (h : s.Ready) (hdata : s.data = none) (hn : s.bufferLen ≠ 0)
    (hr : r.data ≠ []) :
    Written r s (part s.multipart r) (s.makeBoundary.fromBoundary r) := by
  have hready : s.makeBoundary.Ready :=
    ⟨SerializeState.noConfusion, SerializeState.noConfusion, h.item, Nat.zero_le _,
      fun hb => SerializeState.noConfusion hb⟩
  have hrest : s.makeBoundary.rest = boundary s.multipart false := by
    unfold makeBoundary rest boundary
    rw [hdata, decide_eq_false (Nat.not_lt.mpr h.item)]
    cases s.multipart with
    | false | true => rfl
  have hw := fromBoundary_written hready rfl hn hr
  rw [hrest] at hw
  exact hw.prepared

theorem part_ne_nil (multipart : Bool) (hr : r.data ≠ []) : part multipart r ≠ [] := by
  intro hnil
  exact hr (List.append_eq_nil_iff.mp (List.append_eq_nil_iff.mp hnil).2).2

theorem writeMessageHeader_written (h : s.Ready) (hs : s.status = .WRITE_MESSAGE_HEADER)
    (hr : r.data ≠ []) :
    Written r s (s.rest ++ part s.multipart r) (s.writeMessageHeader r) := by
  have hmulti : ∀ t : Serializer, t.items = s.items → t.multipart = s.multipart := by
    intro t ht
    unfold multipart
    rw [ht]
  apply Written.stage (k := fun t => t.makeBoundary.fromBoundary r) h (part_ne_nil _ hr)
  · intro t ht hitems
    unfold lead
    rw [ht, hs, hmulti t hitems]
  · rw [hs]
    exact SerializeState.noConfusion
  · exact ⟨SerializeState.noConfusion, SerializeState.noConfusion⟩
  · rintro t (ht | ht)
    · exact not_begun (.inl (ht.trans hs))
    · exact not_begun (.inr (.inl ht))
  · intro t hitems
    show part t.multipart r = _
    rw [hmulti t hitems]
  · intro t ht _ hitems hdata hn
    rw [← hmulti t hitems]
    exact makeBoundary_written ht hdata hn hr

theorem makeMessageHeader_written (h : s.Ready) (hr : r.data ≠ []) :
    Written r s (Mhtml.makeMessageHeader r.mimeType s.multipart ++ part s.multipart r)
      (s.makeMessageHeader r) := by
  have hready : (s.make (some (Mhtml.makeMessageHeader r.mimeType s.multipart))
      .WRITE_MESSAGE_HEADER).Ready :=
    ⟨SerializeState.noConfusion, SerializeState.noConfusion, h.item, Nat.zero_le _,
      fun hb => SerializeState.noConfusion hb⟩
  exact (writeMessageHeader_written hready rfl hr).prepared

theorem serializeResource_written (h : s.Ready) (hn : s.bufferLen ≠ 0) (hr : r.data ≠ [])
    (hb : s.begun = true → r.url ≠ []) : Written r s (s.lead r) (s.serializeResource r) := by
  unfold begun at hb
  unfold serializeResource lead
  cases hs : s.status with
  | MAKE_MESSAGE_HEADER => exact makeMessageHeader_written h hr
  | WRITE_MESSAGE_HEADER => exact writeMessageHeader_written h hs hr
  | MAKE_BOUNDARY => exact makeBoundary_written h (h.blank hs) hn hr
  | WRITE_BOUNDARY => exact fromBoundary_written h hs hn hr
  | MAKE_PART_HEADER => exact makePartHeader_written h hr
  | WRITE_PART_HEADER => exact writePartHeader_written h hs hr (hb (by rw [hs]; rfl))
  | MAKE_CONTENT => exact makeContent_written h hr (hb (by rw [hs]; rfl))
  | WRITE_CONTENT => exact writeContent_written h hs (hb (by rw [hs]; rfl))
  | END => exact absurd hs h.goes
  | ERROR => exact absurd hs h.ok

end

end Serializer

end Wkc
