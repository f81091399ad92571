import Mathlib.Data.List.Basic
import WkcBrowser.Lib.Runs
import WkcBrowser.Wtf.Text

/-!
# The body of a response on its way to the client

As long as nothing tells the type of a response, its first bytes are held back in `m_recvData`, until they
are recognised, are 512, or are as many as the response has declared.  If the transfer ends before that,
the response is reported, and the bytes are not.

* `handleLocalReceiveResponse`, `writeCallback`, `complete`   the source's functions, for a response whose
                 status is none of 1xx, 3xx, 401 and 407;
* `Released`     the bytes so far are not held back;
* `Delivered`    the client has got the response, all the bytes, and the end;
* `delivered_iff`   it has, exactly if there was no body or the bytes were released in time.

No callback refuses or cancels.  Such a response does not count as a redirect, so that the limit of
redirects is not exceeded by it.
-/

namespace Wkc
namespace ResponseBody

def DATA_KEEP_LENGTH : Nat := 512

inductive ClientEvent where
  | didReceiveResponse (mimeType : WString)
  | didReceiveData (data : Bytes)
  | didFinishLoading
  deriving DecidableEq

/-- what the response tells of its type: the header field, and the guess by its URL -/
structure MediaType where
  contentType : WString
  byURL : WString

/-- `recvData`: the first `m_recvDataLength` bytes -/
structure Transfer where
  responseFired : Bool
  mimeType : WString
  expectedContentLength : Int
  recvData : Bytes
  events : List ClientEvent
  deriving DecidableEq

/-- `application/octet-stream` -/
def octetStream : WString :=
  ['a', 'p', 'p', 'l', 'i', 'c', 'a', 't', 'i', 'o', 'n', '/', 'o', 'c', 't', 'e', 't', '-', 's', 't', 'r',
    'e', 'a', 'm'].map (fun c => UInt16.ofNat c.toNat)

def handleLocalReceiveResponse (media : MediaType) (d : Transfer) : Transfer :=
  let mimeType :=
    if d.mimeType.isEmpty then if media.contentType.isEmpty then media.byURL else media.contentType
    else d.mimeType
  { d with
    mimeType := mimeType
    events := d.events ++ [.didReceiveResponse mimeType]
    responseFired := true }

/-- `didReceiveData`, if there is any -/
def send (data : Bytes) (d : Transfer) : Transfer :=
  if data.isEmpty then d else { d with events := d.events ++ [.didReceiveData data] }

def writeCallback (guessMIMETypeByContent : Bytes → WString) (media : MediaType) (d : Transfer)
    (ptrData : Bytes) : Transfer :=
  if d.responseFired then send ptrData d
  else if d.mimeType.isEmpty then
    let len := min ptrData.length (DATA_KEEP_LENGTH - d.recvData.length)
    let d : Transfer := { d with recvData := d.recvData ++ ptrData.take len }
    let guessed := guessMIMETypeByContent d.recvData
    if guessed.isEmpty && decide (d.recvData.length < DATA_KEEP_LENGTH) &&
        decide ((d.recvData.length : Int) < d.expectedContentLength) then d
    else
      let d : Transfer := { d with mimeType := if guessed.isEmpty then octetStream else guessed }
      let d := send d.recvData (handleLocalReceiveResponse media d)
      send (ptrData.drop len) { d with recvData := [] }
  else
    let d := send d.recvData (handleLocalReceiveResponse media d)
    send ptrData { d with recvData := [] }

/-- `_downloadTimerCallback`, when the result is `CURLE_OK` or `CURLE_PARTIAL_FILE` -/
def complete (media : MediaType) (d : Transfer) : Transfer :=
  let d := if d.responseFired then d else handleLocalReceiveResponse media d
  { d with events := d.events ++ [.didFinishLoading] }

/-- the response after its header; with `fired` it was reported from there -/
def start (fired : Bool) (mimeType : WString) (expectedContentLength : Int) : Transfer :=
  { responseFired := fired
    mimeType := mimeType
    expectedContentLength := expectedContentLength
    recvData := []
    events := if fired then [.didReceiveResponse mimeType] else [] }

def transfer (guessMIMETypeByContent : Bytes → WString) (media : MediaType) (d : Transfer)
    (chunks : List Bytes) : Transfer :=
  complete media (Runs.run (writeCallback guessMIMETypeByContent media) d chunks)

/-- these are the first bytes, and they are not held back: they are recognised, many, or all -/
def Released (guessMIMETypeByContent : Bytes → WString) (expectedContentLength : Int) (body : Bytes) : Prop :=
  guessMIMETypeByContent (body.take DATA_KEEP_LENGTH) ≠ [] ∨ DATA_KEEP_LENGTH ≤ body.length ∨
    expectedContentLength ≤ body.length

/-- the response comes first, then the bytes, and then the end -/
def Delivered (events : List ClientEvent) (body : Bytes) : Prop :=
  ∃ (mimeType : WString) (payloads : List Bytes), payloads.flatten = body ∧
    events = .didReceiveResponse mimeType :: payloads.map .didReceiveData ++ [.didFinishLoading]

/-! ## one chunk -/

/-- the response is reported, and the client has all the bytes so far -/
structure Live (body : Bytes) (d : Transfer) : Prop where
  fired : d.responseFired = true
  events : ∃ (mimeType : WString) (payloads : List Bytes), payloads.flatten = body ∧
    d.events = .didReceiveResponse mimeType :: payloads.map .didReceiveData

/-- nothing is reported, and the bytes so far are held back -/
structure Waiting (expectedContentLength : Int) (body : Bytes) (d : Transfer) : Prop where
  fired : d.responseFired = false
  mimeType : d.mimeType = []
  expected : d.expectedContentLength = expectedContentLength
  recvData : d.recvData = body
  short : body.length < DATA_KEEP_LENGTH
  events : d.events = []

section
variable {guess : Bytes → WString} {media : MediaType} {d : Transfer} {body : Bytes} {expected : Int}

theorem Live.send (h : Live body d) (data : Bytes) : Live (body ++ data) (send data d) := by
  obtain ⟨hfired, mimeType, payloads, hbody, hevents⟩ := h
  unfold ResponseBody.send
  split
  · next hempty =>
    rw [List.isEmpty_iff.mp hempty, List.append_nil]
    exact ⟨hfired, mimeType, payloads, hbody, hevents⟩
  · refine ⟨hfired, mimeType, payloads ++ [data], ?_, ?_⟩
    · rw [List.flatten_append, hbody, List.flatten_singleton]
    · show d.events ++ _ = _
      rw [hevents, List.map_append, List.cons_append]
      rfl

theorem Live.clear (h : Live body d) (data : Bytes) : Live body { d with recvData := data } :=
  ⟨h.fired, h.events⟩

theorem live_report (media : MediaType) (hevents : d.events = []) : Live [] (handleLocalReceiveResponse media d) := by
  refine ⟨rfl, (handleLocalReceiveResponse media d).mimeType, [], rfl, ?_⟩
  show d.events ++ _ = _
  rw [hevents]
  rfl

theorem Live.writeCallback (guess : Bytes → WString) (media : MediaType) (h : Live body d) (ptrData : Bytes) :
    Live (body ++ ptrData) (ResponseBody.writeCallback guess media d ptrData) := by
  unfold ResponseBody.writeCallback
  rw [if_pos h.fired]
  exact h.send ptrData

theorem Waiting.writeCallback (guess : Bytes → WString) (media : MediaType)
    (h : Waiting expected body d) (ptrData : Bytes) :
    (Released guess expected (body ++ ptrData) →
      Live (body ++ ptrData) (ResponseBody.writeCallback guess media d ptrData)) ∧
    (¬ Released guess expected (body ++ ptrData) →
      Waiting expected (body ++ ptrData) (ResponseBody.writeCallback guess media d ptrData)) := by
  obtain rfl := h.expected
  have hnot : ¬ d.responseFired = true := by
    rw [h.fired]
    exact Bool.false_ne_true
  have hempty : d.mimeType.isEmpty = true := by
    rw [h.mimeType]
    rfl
  have hshort := h.short
  -- the bytes kept are the first 512
  have hkeep : body ++ ptrData.take (min ptrData.length (DATA_KEEP_LENGTH - body.length)) =
      (body ++ ptrData).take DATA_KEEP_LENGTH := by
    rw [List.take_append, List.take_of_length_le hshort.le]
    congr 1
    rw [Nat.min_comm, ← List.take_take, List.take_length]
  have hfirst : body ++ ptrData.take (min ptrData.length (DATA_KEEP_LENGTH - body.length)) ++
      ptrData.drop (min ptrData.length (DATA_KEEP_LENGTH - body.length)) = body ++ ptrData := by
    rw [List.append_assoc, List.take_append_drop]
  have hlen : ((body ++ ptrData).take DATA_KEEP_LENGTH).length =
      min DATA_KEEP_LENGTH (body ++ ptrData).length := List.length_take
  rw [hkeep] at hfirst
  unfold ResponseBody.writeCallback
  rw [if_neg hnot, if_pos hempty]
  dsimp only
  rw [h.recvData, hkeep]
  have htest : (((guess ((body ++ ptrData).take DATA_KEEP_LENGTH)).isEmpty &&
      decide (((body ++ ptrData).take DATA_KEEP_LENGTH).length < DATA_KEEP_LENGTH) &&
      decide ((((body ++ ptrData).take DATA_KEEP_LENGTH).length : Int) < d.expectedContentLength)) = true) ↔
      ¬ Released guess d.expectedContentLength (body ++ ptrData) := by
    unfold Released
    rw [Bool.and_eq_true, Bool.and_eq_true, decide_eq_true_iff, decide_eq_true_iff, List.isEmpty_iff, hlen,
      not_or, not_or, not_not]
    constructor
    · intro htest
      obtain ⟨⟨hguess, hkept⟩, hexpected⟩ := htest
      exact ⟨hguess, by omega, by omega⟩
    · intro hheld
      obtain ⟨hguess, hkept, hexpected⟩ := hheld
      exact ⟨⟨hguess, by omega⟩, by omega⟩
  constructor
  · intro hreleased
    rw [if_neg (fun htrue => htest.mp htrue hreleased)]
    have hlive := (live_report media (d := { d with
      recvData := (body ++ ptrData).take DATA_KEEP_LENGTH
      mimeType := if (guess ((body ++ ptrData).take DATA_KEEP_LENGTH)).isEmpty then octetStream
        else guess ((body ++ ptrData).take DATA_KEEP_LENGTH) }) h.events).send
          ((body ++ ptrData).take DATA_KEEP_LENGTH)
    have hall := (hlive.clear []).send
      (ptrData.drop (min ptrData.length (DATA_KEEP_LENGTH - body.length)))
    rw [List.nil_append, hfirst] at hall
    exact hall
  · intro hheld
    rw [if_pos (htest.mpr hheld)]
    unfold Released at hheld
    have htake : (body ++ ptrData).take DATA_KEEP_LENGTH = body ++ ptrData := by
      apply List.take_of_length_le
      omega
    exact ⟨h.fired, h.mimeType, rfl, htake, by omega, h.events⟩

end

/-! ## a transfer -/

/-- some chunk has the bytes released -/
def ReleasedBy (guess : Bytes → WString) (expected : Int) (chunks : List Bytes) : Prop :=
  ∃ pre, pre <+: chunks ∧ pre ≠ [] ∧ Released guess expected pre.flatten

section
variable {guess : Bytes → WString} {media : MediaType} {d : Transfer} {body : Bytes} {expected : Int}

theorem Live.run (guess : Bytes → WString) (media : MediaType) (h : Live body d) (chunks : List Bytes) :
    Live (body ++ chunks.flatten) (Runs.run (ResponseBody.writeCallback guess media) d chunks) := by
  induction chunks generalizing body d with
  | nil =>
    rw [List.flatten_nil, List.append_nil]
    exact h
  | cons chunk chunks ih =>
    rw [Runs.run_cons, List.flatten_cons, ← List.append_assoc]
    exact ih (h.writeCallback guess media chunk)

theorem Waiting.run (guess : Bytes → WString) (media : MediaType) (h : Waiting expected body d) (chunks : List Bytes) :
    (∃ pre, pre <+: chunks ∧ pre ≠ [] ∧ Released guess expected (body ++ pre.flatten)) ∧
        Live (body ++ chunks.flatten) (Runs.run (ResponseBody.writeCallback guess media) d chunks) ∨
      (∀ pre, pre <+: chunks → pre ≠ [] → ¬ Released guess expected (body ++ pre.flatten)) ∧
        Waiting expected (body ++ chunks.flatten) (Runs.run (ResponseBody.writeCallback guess media) d chunks) := by
  induction chunks generalizing body d with
  | nil =>
    right
    refine ⟨fun pre hpre hne => absurd (List.prefix_nil.mp hpre) hne, ?_⟩
    rw [List.flatten_nil, List.append_nil]
    exact h
  | cons chunk chunks ih =>
    rw [Runs.run_cons, List.flatten_cons, ← List.append_assoc]
    obtain ⟨hlive, hwait⟩ := h.writeCallback guess media chunk
    have hcons : ∀ pre, (body ++ (chunk :: pre).flatten) = body ++ chunk ++ pre.flatten := by
      intro pre
      rw [List.flatten_cons, List.append_assoc]
    by_cases hreleased : Released guess expected (body ++ chunk)
    · left
      refine ⟨⟨[chunk], ?_, List.cons_ne_nil _ _, ?_⟩, (hlive hreleased).run guess media chunks⟩
      · exact List.cons_prefix_cons.mpr ⟨rfl, List.nil_prefix⟩
      · rw [hcons, List.flatten_nil, List.append_nil]
        exact hreleased
    · rcases ih (hwait hreleased) with ⟨⟨pre, hpre, hne, hrel⟩, hl⟩ | ⟨hnone, hw⟩
      · left
        refine ⟨⟨chunk :: pre, List.cons_prefix_cons.mpr ⟨rfl, hpre⟩, List.cons_ne_nil _ _, ?_⟩, hl⟩
        rw [hcons]
        exact hrel
      · right
        refine ⟨?_, hw⟩
        intro pre hpre hne
        obtain ⟨c, more, rfl⟩ := List.exists_cons_of_ne_nil hne
        obtain ⟨hc, hmore⟩ := List.cons_prefix_cons.mp hpre
        rw [hc, hcons]
        by_cases hnil : more = []
        · rw [hnil, List.flatten_nil, List.append_nil]
          exact hreleased
        · exact hnone more hmore hnil

theorem Live.complete (h : Live body d) : Delivered (ResponseBody.complete media d).events body := by
  obtain ⟨hfired, mimeType, payloads, hbody, hevents⟩ := h
  unfold ResponseBody.complete
  rw [if_pos hfired]
  refine ⟨mimeType, payloads, hbody, ?_⟩
  show d.events ++ _ = _
  rw [hevents]

theorem Waiting.complete (h : Waiting expected body d) :
    Delivered (ResponseBody.complete media d).events body ↔ body = [] := by
  have hnot : ¬ d.responseFired = true := by
    rw [h.fired]
    exact Bool.false_ne_true
  unfold ResponseBody.complete
  rw [if_neg hnot]
  have hlive := live_report media h.events
  obtain ⟨mimeType, payloads, hnone, hevents⟩ := hlive.events
  dsimp only
  rw [hevents]
  constructor
  · intro hdelivered
    obtain ⟨m, more, hbody, heq⟩ := hdelivered
    have htail := (List.cons.inj heq).2
    have hmap := List.append_cancel_right htail
    have hinj : Function.Injective ClientEvent.didReceiveData := fun a b hab => ClientEvent.didReceiveData.inj hab
    rw [← hbody, ← List.map_injective_iff.mpr hinj hmap]
    exact hnone
  · intro hbody
    exact ⟨mimeType, payloads, by rw [hbody]; exact hnone, rfl⟩

end

/-- **The body of a response.**  The client gets all of it exactly if the response was reported or its type
was known after the header, or there is no body, or after some chunk the bytes so far are released. -/
theorem delivered_iff (guess : Bytes → WString) (media : MediaType) (fired : Bool) (mimeType : WString)
    (expected : Int) (chunks : List Bytes) :
    Delivered (transfer guess media (start fired mimeType expected) chunks).events chunks.flatten ↔
      fired = true ∨ mimeType ≠ [] ∨ chunks.flatten = [] ∨ ReleasedBy guess expected chunks := by
  unfold transfer
  cases fired with
  | true =>
    have hlive : Live [] (start true mimeType expected) := ⟨rfl, mimeType, [], rfl, rfl⟩
    have hrun := hlive.run guess media chunks
    exact ⟨fun _ => .inl rfl, fun _ => hrun.complete⟩
  | false =>
    by_cases hmime : mimeType = []
    · have hwait : Waiting expected [] (start false mimeType expected) :=
        ⟨rfl, hmime, rfl, rfl, by decide, rfl⟩
      rcases hwait.run guess media chunks with ⟨hreleased, hlive⟩ | ⟨hheld, hw⟩
      · exact ⟨fun _ => .inr (.inr (.inr hreleased)), fun _ => hlive.complete⟩
      · rw [List.nil_append] at hw
        rw [hw.complete]
        constructor
        · exact fun hbody => .inr (.inr (.inl hbody))
        · intro hcond
          rcases hcond with hfalse | hknown | hbody | ⟨pre, hpre, hne, hrel⟩
          · cases hfalse
          · exact absurd hmime hknown
          · exact hbody
          · exact absurd hrel (hheld pre hpre hne)
    · -- the type is known, and the first chunk has the response reported
      refine ⟨fun _ => .inr (.inl hmime), fun _ => ?_⟩
      have hfirst : ∀ chunk, Live chunk (writeCallback guess media (start false mimeType expected) chunk) := by
        intro chunk
        have hempty : ¬ (start false mimeType expected).mimeType.isEmpty = true := by
          show ¬ mimeType.isEmpty = true
          simpa using hmime
        have hlive := (live_report media (d := start false mimeType expected) rfl).clear []
        have hfalse : ¬ (start false mimeType expected).responseFired = true := Bool.false_ne_true
        unfold writeCallback
        rw [if_neg hfalse, if_neg hempty]
        exact hlive.send chunk
      cases chunks with
      | nil =>
        refine ⟨(handleLocalReceiveResponse media (start false mimeType expected)).mimeType, [], rfl, rfl⟩
      | cons chunk chunks =>
        rw [Runs.run_cons, List.flatten_cons]
        exact ((hfirst chunk).run guess media chunks).complete

namespace Sample

def unknown (_ : Bytes) : WString := []

end Sample

/-- three bytes of ten arrive, and none of them is delivered -/
theorem delivered_lost : (transfer Sample.unknown ⟨[], []⟩ (start false [] 10) [[1, 2, 3]]).events =
      [.didReceiveResponse [], .didFinishLoading] ∧
    ¬ Delivered (transfer Sample.unknown ⟨[], []⟩ (start false [] 10) [[1, 2, 3]]).events [1, 2, 3] := by
  have hevents : (transfer Sample.unknown ⟨[], []⟩ (start false [] 10) [[1, 2, 3]]).events =
      [.didReceiveResponse [], .didFinishLoading] := by decide +kernel
  refine ⟨hevents, ?_⟩
  intro hdelivered
  obtain ⟨mimeType, payloads, hbody, heq⟩ := hdelivered
  rw [hevents] at heq
  have htail : [ClientEvent.didFinishLoading] = payloads.map .didReceiveData ++ [.didFinishLoading] :=
    (List.cons.inj heq).2
  cases payloads with
  | nil => cases hbody
  | cons data payloads => cases htail

end ResponseBody
end Wkc
