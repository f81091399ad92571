import WkcBrowser.Net.ResponseBody

/-!
# `dispatchSynchronousJob`

A synchronous load goes around in a loop: a redirect or an answered challenge has the same handle sent
again.  What a round leaves behind is not all cleared for the next one: the handle keeps its URL after a
redirect, unless the filter for harmful sites has it set anew, and `m_receivedData` keeps the bodies of the
challenges.

* `setAuthChallenge`, `Challenge`        a challenge that is answered with credentials;
* `redirect`, `challenge`, `final`       a round, for each kind of response;
* `dispatchSynchronousJob`               the whole load;
* `Exact`                                every request went to the right URL, and the client has got the body
                                         of the last response and nothing else;
* `exact_iff`                            when that is so.

Redirects are handled in WKC and are within the limit, the filter permits every request, no callback
refuses or cancels, and the transfers end with `CURLE_OK`.
-/

namespace Wkc
namespace SyncLoad
open ResponseBody

/-! ## the responses -/

/-- what `setAuthChallenge` looks at; `jar` tells whether the jar has a password for the request -/
structure AuthState where
  hasChallenge : Bool
  didAuthChallenge : Bool
  httpcode : Nat
  hasProxy : Bool
  jar : Bool

def setAuthChallenge (a : AuthState) : Bool :=
  if a.hasChallenge && a.didAuthChallenge then
    if a.httpcode = 407 && !a.hasProxy then false
    else if a.httpcode = 401 || a.httpcode = 407 then a.jar
    else false
  else false

structure Challenge where
  auth : AuthState
  chunks : List Bytes
  answered : setAuthChallenge auth = true

inductive Response where
  | redirect (newURL : WString) (chunks : List Bytes)
  | challenge (c : Challenge)

/-- the last response, with the type its header tells -/
structure FinalResponse where
  mimeType : WString
  expectedContentLength : Int
  chunks : List Bytes

/-- `requests` and `retried` are not variables of the source: the URL of each request and that of
`firstRequest` at the time, and the bytes of challenges that went to the client -/
structure State where
  firstRequestURL : WString
  handleURL : WString
  receivedData : Bytes
  transfer : Transfer
  requests : List (WString × WString)
  retried : Bytes

/-! ## the loop -/

/-- `curl_multi_add_handle`: the request is sent -/
def send (s : State) : State := { s with requests := s.requests ++ [(s.handleURL, s.firstRequestURL)] }

def report (d : Transfer) : Transfer :=
  { d with events := d.events ++ [.didReceiveResponse d.mimeType], responseFired := true }

/-- `didReceiveResponse`, then `didReceiveData` with `m_receivedData` -/
def deliverReceived (s : State) : State :=
  let d := report s.transfer
  { s with
    transfer := { d with events := d.events ++ [.didReceiveData s.receivedData] }
    retried := s.retried ++ s.receivedData }

/-- `headerCallback` has `firstRequest` changed; the body is left out by `writeCallback` -/
def redirect (harmfulSiteFilter : Bool) (newURL : WString) (s : State) : State :=
  let s : State := { s with firstRequestURL := newURL }
  send (if harmfulSiteFilter then { s with handleURL := s.firstRequestURL } else s)

/-- `writeCallback` has the body appended to `m_receivedData` -/
def challenge (c : Challenge) (s : State) : State :=
  let s : State := { s with receivedData := s.receivedData ++ c.chunks.flatten }
  let s := if setAuthChallenge c.auth then send s else s
  if c.auth.httpcode = 401 then deliverReceived s else s

def step (harmfulSiteFilter : Bool) (s : State) : Response → State
  | .redirect newURL _ => redirect harmfulSiteFilter newURL s
  | .challenge c => challenge c s

/-- the response is reported from the header if its type is known there -/
def headerCallback (r : FinalResponse) (d : Transfer) : Transfer :=
  let d : Transfer := { d with mimeType := r.mimeType, expectedContentLength := r.expectedContentLength }
  if d.mimeType.isEmpty then d else report d

def final (guessMIMETypeByContent : Bytes → WString) (media : MediaType) (r : FinalResponse) (s : State) :
    State :=
  let d := Runs.run (writeCallback guessMIMETypeByContent media) (headerCallback r s.transfer) r.chunks
  let s := deliverReceived { s with transfer := d }
  { s with transfer := report s.transfer }

def start (url : WString) : State :=
  send
    { firstRequestURL := url, handleURL := url, receivedData := [], requests := [], retried := []
      transfer := { responseFired := false, mimeType := [], expectedContentLength := 0, recvData := [],
                    events := [] } }

def dispatchSynchronousJob (guessMIMETypeByContent : Bytes → WString) (media : MediaType)
    (harmfulSiteFilter : Bool) (url : WString) (responses : List Response) (last : FinalResponse) : State :=
  final guessMIMETypeByContent media last (Runs.run (step harmfulSiteFilter) (start url) responses)

/-! ## the property -/

/-- the bytes of all `didReceiveData` -/
def payload (events : List ClientEvent) : Bytes :=
  events.flatMap (fun
    | .didReceiveData data => data
    | .didReceiveResponse _ => []
    | .didFinishLoading => [])

structure Exact (s : State) (body : Bytes) : Prop where
  requests : ∀ q ∈ s.requests, q.1 = q.2
  payload : payload s.transfer.events = body
  retried : s.retried = []

/-- a response that is no challenge with a body -/
def Quiet : Response → Prop
  | .redirect _ _ => True
  | .challenge c => c.chunks.flatten = []

/-- a response that leaves the URL of the handle right -/
def Stays (url : WString) : Response → Prop
  | .redirect newURL _ => newURL = url
  | .challenge _ => True

def IsUnauthorized : Response → Prop
  | .redirect _ _ => False
  | .challenge c => c.auth.httpcode = 401

section
variable {guess : Bytes → WString} {media : MediaType} {harmfulSiteFilter : Bool} {url : WString}

theorem payload_append (xs ys : List ClientEvent) : payload (xs ++ ys) = payload xs ++ payload ys :=
  List.flatMap_append

/-! ## the requests -/

/-- the URL of the handle, as long as no redirect has changed it -/
structure Aimed (url : WString) (harmfulSiteFilter : Bool) (s : State) : Prop where
  requests : ∀ q ∈ s.requests, q.1 = q.2
  handle : s.handleURL = s.firstRequestURL
  fixed : harmfulSiteFilter = false → s.handleURL = url

theorem send_requests {s : State} (h : ∀ q ∈ s.requests, q.1 = q.2)
    (haim : s.handleURL = s.firstRequestURL) : ∀ q ∈ (send s).requests, q.1 = q.2 := by
  intro q hq
  rcases List.mem_append.mp hq with hq | hq
  · exact h q hq
  · rw [List.mem_singleton.mp hq]
    exact haim

theorem challenge_eq (c : Challenge) (s : State) :
    challenge c s =
      if c.auth.httpcode = 401 then
        deliverReceived (send { s with receivedData := s.receivedData ++ c.chunks.flatten })
      else send { s with receivedData := s.receivedData ++ c.chunks.flatten } := by
  unfold challenge
  dsimp only
  rw [if_pos c.answered]

theorem Aimed.challenge {s : State} (h : Aimed url harmfulSiteFilter s) (c : Challenge) :
    Aimed url harmfulSiteFilter (challenge c s) := by
  rw [challenge_eq]
  split <;> exact ⟨send_requests h.requests h.handle, h.handle, h.fixed⟩

theorem Aimed.step {s : State} (h : Aimed url harmfulSiteFilter s) {r : Response}
    (hr : harmfulSiteFilter = true ∨ Stays url r) : Aimed url harmfulSiteFilter (step harmfulSiteFilter s r) := by
  cases r with
  | challenge c => exact h.challenge c
  | redirect newURL chunks =>
    show Aimed url harmfulSiteFilter (redirect harmfulSiteFilter newURL s)
    unfold redirect
    cases harmfulSiteFilter with
    | true => exact ⟨send_requests h.requests rfl, rfl, fun hf => Bool.noConfusion hf⟩
    | false =>
      have hurl : newURL = url := hr.resolve_left Bool.false_ne_true
      have hhandle := h.fixed rfl
      exact ⟨send_requests h.requests (hhandle.trans hurl.symm), hhandle.trans hurl.symm, fun _ => hhandle⟩

theorem start_aimed (url : WString) : Aimed url harmfulSiteFilter (start url) :=
  ⟨send_requests (fun _ hq => absurd hq List.not_mem_nil) rfl, rfl, fun _ => rfl⟩

theorem requests_grow (responses : List Response) (s : State) :
    s.requests <+: (Runs.run (step harmfulSiteFilter) s responses).requests := by
  induction responses generalizing s with
  | nil => exact List.prefix_refl _
  | cons r responses ih =>
    refine List.IsPrefix.trans ?_ (ih (step harmfulSiteFilter s r))
    cases r with
    | redirect newURL chunks =>
      show s.requests <+: (redirect harmfulSiteFilter newURL s).requests
      unfold redirect
      cases harmfulSiteFilter with
      | true | false => exact List.prefix_append _ _
    | challenge c =>
      show s.requests <+: (challenge c s).requests
      rw [challenge_eq]
      split <;> exact List.prefix_append _ _

theorem run_requests (harmfulSiteFilter : Bool) (responses : List Response) {s : State} (h : Aimed url harmfulSiteFilter s) :
    (∀ q ∈ (Runs.run (step harmfulSiteFilter) s responses).requests, q.1 = q.2) ↔
      harmfulSiteFilter = true ∨ ∀ r ∈ responses, Stays url r := by
  induction responses generalizing s with
  | nil => exact ⟨fun _ => .inr (fun r hr => absurd hr List.not_mem_nil), fun _ => h.requests⟩
  | cons r responses ih =>
    rw [Runs.run_cons]
    by_cases hr : harmfulSiteFilter = true ∨ Stays url r
    · rw [ih (h.step hr), List.forall_mem_cons]
      constructor
      · intro hall
        rcases hall with hf | hall
        · exact .inl hf
        · exact hr.imp id (fun hstay => ⟨hstay, hall⟩)
      · exact fun hall => hall.imp id And.right
    · -- the redirect is sent to the URL of the handle
      constructor
      · intro hall
        exfalso
        cases r with
        | challenge c => exact hr (.inr trivial)
        | redirect newURL chunks =>
          have hf : harmfulSiteFilter = false := by
            by_contra hne
            exact hr (.inl (by simpa using hne))
          have hmem : (s.handleURL, newURL) ∈ (step harmfulSiteFilter s (.redirect newURL chunks)).requests := by
            show (s.handleURL, newURL) ∈ (redirect harmfulSiteFilter newURL s).requests
            unfold redirect
            rw [hf]
            exact List.mem_append_right _ (List.mem_singleton.mpr rfl)
          have heq : s.handleURL = newURL := hall _ ((requests_grow responses _).subset hmem)
          exact hr (.inr (heq.symm.trans (h.fixed hf)))
      · intro hall
        exact absurd (hall.imp id (fun hstay => hstay r List.mem_cons_self)) hr

/-! ## the bytes -/

/-- nothing was held back, and no body of a challenge has come -/
structure Clean (s : State) : Prop where
  received : s.receivedData = []
  retried : s.retried = []
  payload : payload s.transfer.events = []
  held : s.transfer.recvData = []

theorem Clean.deliver {s : State} (h : Clean s) : Clean (deliverReceived s) := by
  refine ⟨h.received, ?_, ?_, h.held⟩
  · show s.retried ++ s.receivedData = []
    rw [h.retried, h.received]
    rfl
  · show SyncLoad.payload (s.transfer.events ++ _ ++ [.didReceiveData s.receivedData]) = []
    rw [payload_append, payload_append, h.payload, h.received]
    rfl

theorem Clean.step {s : State} (h : Clean s) {r : Response} (hr : Quiet r) :
    Clean (step harmfulSiteFilter s r) := by
  cases r with
  | redirect newURL chunks =>
    show Clean (redirect harmfulSiteFilter newURL s)
    unfold redirect
    cases harmfulSiteFilter with
    | true | false => exact ⟨h.received, h.retried, h.payload, h.held⟩
  | challenge c =>
    show Clean (challenge c s)
    have hbody : s.receivedData ++ c.chunks.flatten = [] := by
      rw [h.received]
      exact hr
    have hsent : Clean (send { s with receivedData := s.receivedData ++ c.chunks.flatten }) :=
      ⟨hbody, h.retried, h.payload, h.held⟩
    rw [challenge_eq]
    split
    · exact hsent.deliver
    · exact hsent

theorem Clean.run {s : State} (h : Clean s) {responses : List Response} (hq : ∀ r ∈ responses, Quiet r) :
    Clean (Runs.run (SyncLoad.step harmfulSiteFilter) s responses) := by
  induction responses generalizing s with
  | nil => exact h
  | cons r responses ih =>
    exact ih (h.step (hq r List.mem_cons_self)) (fun x hx => hq x (List.mem_cons_of_mem _ hx))

theorem received_quiet (harmfulSiteFilter : Bool) (responses : List Response) (s : State)
    (h : (Runs.run (step harmfulSiteFilter) s responses).receivedData = []) :
    s.receivedData = [] ∧ ∀ r ∈ responses, Quiet r := by
  induction responses generalizing s with
  | nil => exact ⟨h, fun r hr => absurd hr List.not_mem_nil⟩
  | cons r responses ih =>
    obtain ⟨hnext, hall⟩ := ih (step harmfulSiteFilter s r) h
    have hstep : s.receivedData = [] ∧ Quiet r := by
      cases r with
      | redirect newURL chunks =>
        refine ⟨?_, trivial⟩
        cases harmfulSiteFilter with
        | true | false => exact hnext
      | challenge c =>
        have hboth : s.receivedData ++ c.chunks.flatten = [] := by
          have hnext : (challenge c s).receivedData = [] := hnext
          rw [challenge_eq] at hnext
          split at hnext <;> exact hnext
        exact List.append_eq_nil_iff.mp hboth
    exact ⟨hstep.1, List.forall_mem_cons.mpr ⟨hstep.2, hall⟩⟩

theorem run_fired (harmfulSiteFilter : Bool) (responses : List Response) (s : State) :
    (Runs.run (step harmfulSiteFilter) s responses).transfer.responseFired = true ↔
      s.transfer.responseFired = true ∨ ∃ r ∈ responses, IsUnauthorized r := by
  induction responses generalizing s with
  | nil => simp [Runs.run_nil]
  | cons r responses ih =>
    rw [Runs.run_cons, ih, List.exists_mem_cons_iff, ← or_assoc]
    have hone : (step harmfulSiteFilter s r).transfer.responseFired = true ↔
        s.transfer.responseFired = true ∨ IsUnauthorized r := by
      cases r with
      | redirect newURL chunks =>
        have hsame : (redirect harmfulSiteFilter newURL s).transfer = s.transfer := by
          unfold redirect
          cases harmfulSiteFilter with
          | true | false => rfl
        show (redirect harmfulSiteFilter newURL s).transfer.responseFired = true ↔ _ ∨ False
        rw [hsame, or_false]
      | challenge c =>
        show (challenge c s).transfer.responseFired = true ↔ _ ∨ c.auth.httpcode = 401
        rw [challenge_eq]
        by_cases hcode : c.auth.httpcode = 401
        · rw [if_pos hcode]
          exact ⟨fun _ => .inr hcode, fun _ => rfl⟩
        · rw [if_neg hcode]
          exact ⟨fun hfired => .inl hfired, fun hfired => hfired.resolve_right hcode⟩
    rw [hone]

/-! ## the last response -/

theorem send_payload (data : Bytes) (d : Transfer) :
    payload (ResponseBody.send data d).events = payload d.events ++ data ∧
      (ResponseBody.send data d).responseFired = d.responseFired := by
  unfold ResponseBody.send
  split
  · next hempty =>
    rw [List.isEmpty_iff.mp hempty, List.append_nil]
    exact ⟨rfl, rfl⟩
  · refine ⟨?_, rfl⟩
    show payload (d.events ++ [.didReceiveData data]) = _
    rw [payload_append]
    simp [payload]

theorem run_payload {d : Transfer} (h : d.responseFired = true) (chunks : List Bytes) :
    payload (Runs.run (writeCallback guess media) d chunks).events = payload d.events ++ chunks.flatten := by
  induction chunks generalizing d with
  | nil => rw [Runs.run_nil, List.flatten_nil, List.append_nil]
  | cons chunk chunks ih =>
    have hstep : writeCallback guess media d chunk = ResponseBody.send chunk d := if_pos h
    obtain ⟨hpayload, hfired⟩ := send_payload chunk d
    rw [Runs.run_cons, hstep, ih (hfired.trans h), hpayload, List.flatten_cons, List.append_assoc]

/-- what the client was told before -/
def heard (e : List ClientEvent) (d : Transfer) : Transfer := { d with events := e ++ d.events }

theorem send_heard (data : Bytes) (e : List ClientEvent) (d : Transfer) :
    ResponseBody.send data (heard e d) = heard e (ResponseBody.send data d) := by
  unfold ResponseBody.send heard
  split
  · rfl
  · simp

theorem handleLocalReceiveResponse_heard (e : List ClientEvent) (d : Transfer) :
    handleLocalReceiveResponse media (heard e d) = heard e (handleLocalReceiveResponse media d) := by
  unfold handleLocalReceiveResponse heard
  simp

theorem writeCallback_heard (e : List ClientEvent) (d : Transfer) (chunk : Bytes) :
    writeCallback guess media (heard e d) chunk = heard e (writeCallback guess media d chunk) := by
  have hboth : ∀ (t : Transfer) (kept rest : Bytes),
      ResponseBody.send rest { ResponseBody.send kept (handleLocalReceiveResponse media (heard e t)) with
        recvData := [] } =
      heard e (ResponseBody.send rest { ResponseBody.send kept (handleLocalReceiveResponse media t) with
        recvData := [] }) := by
    intro t kept rest
    have hrest := send_heard rest e { ResponseBody.send kept (handleLocalReceiveResponse media t) with
      recvData := [] }
    rw [handleLocalReceiveResponse_heard, send_heard]
    exact hrest
  unfold writeCallback
  by_cases hfired : d.responseFired = true
  · have hsame : (heard e d).responseFired = true := hfired
    rw [if_pos hfired, if_pos hsame]
    exact send_heard chunk e d
  · have hsame : ¬ (heard e d).responseFired = true := hfired
    rw [if_neg hfired, if_neg hsame]
    by_cases hempty : d.mimeType.isEmpty = true
    · have hsame : (heard e d).mimeType.isEmpty = true := hempty
      have hheld : (heard e d).recvData = d.recvData := rfl
      have hexpected : (heard e d).expectedContentLength = d.expectedContentLength := rfl
      rw [if_pos hempty, if_pos hsame]
      dsimp only
      rw [hheld, hexpected]
      generalize d.recvData ++ chunk.take _ = kept
      split
      · rfl
      · exact hboth { d with
          mimeType := if (guess kept).isEmpty then octetStream else guess kept, recvData := kept } kept _
    · have hsame : ¬ (heard e d).mimeType.isEmpty = true := hempty
      rw [if_neg hempty, if_neg hsame]
      exact hboth d d.recvData chunk

theorem run_heard (e : List ClientEvent) (d : Transfer) (chunks : List Bytes) :
    Runs.run (writeCallback guess media) (heard e d) chunks =
      heard e (Runs.run (writeCallback guess media) d chunks) := by
  induction chunks generalizing d with
  | nil => rfl
  | cons chunk chunks ih => rw [Runs.run_cons, Runs.run_cons, writeCallback_heard, ih]

theorem live_payload {body : Bytes} {d : Transfer} (h : Live body d) : payload d.events = body := by
  obtain ⟨mimeType, payloads, hbody, hevents⟩ := h.events
  rw [hevents, ← hbody]
  have hmap : ∀ l : List Bytes, payload (l.map .didReceiveData) = l.flatten := by
    intro l
    induction l with
    | nil => rfl
    | cons x l ih =>
      rw [List.flatten_cons, ← ih]
      rfl
  exact hmap payloads

theorem final_payload (r : FinalResponse) {d : Transfer} (hpayload : payload d.events = [])
    (hheld : d.recvData = []) :
    payload (Runs.run (writeCallback guess media) (headerCallback r d) r.chunks).events = r.chunks.flatten ↔
      d.responseFired = true ∨ r.mimeType ≠ [] ∨ r.chunks.flatten = [] ∨
        ReleasedBy guess r.expectedContentLength r.chunks := by
  unfold headerCallback
  dsimp only
  by_cases hmime : r.mimeType = []
  · have hempty : r.mimeType.isEmpty = true := by rw [hmime]; rfl
    rw [if_pos hempty]
    by_cases hfired : d.responseFired = true
    · rw [run_payload (d := { d with
        mimeType := r.mimeType, expectedContentLength := r.expectedContentLength }) hfired]
      refine ⟨fun _ => .inl hfired, fun _ => ?_⟩
      show payload d.events ++ _ = _
      rw [hpayload, List.nil_append]
    · -- the transfer without what the client was told before
      have hwait : Waiting r.expectedContentLength [] { d with
          mimeType := r.mimeType, expectedContentLength := r.expectedContentLength, events := [] } :=
        ⟨by simpa using hfired, hmime, rfl, hheld, by decide, rfl⟩
      have hheard : ({ d with
          mimeType := r.mimeType, expectedContentLength := r.expectedContentLength } : Transfer) =
          heard d.events { d with
            mimeType := r.mimeType, expectedContentLength := r.expectedContentLength, events := [] } := by
        unfold heard
        rw [List.append_nil]
      rw [hheard, run_heard]
      show payload (d.events ++ _) = _ ↔ _
      rw [payload_append, hpayload, List.nil_append]
      rcases hwait.run guess media r.chunks with ⟨hreleased, hlive⟩ | ⟨hnot, hw⟩
      · rw [List.nil_append] at hlive
        exact ⟨fun _ => .inr (.inr (.inr hreleased)), fun _ => live_payload hlive⟩
      · rw [hw.events]
        constructor
        · exact fun hbody => .inr (.inr (.inl hbody.symm))
        · intro hcond
          rcases hcond with hf | hm | hbody | ⟨pre, hpre, hne, hrel⟩
          · exact absurd hf hfired
          · exact absurd hmime hm
          · exact hbody.symm
          · exact absurd hrel (hnot pre hpre hne)
  · have hempty : ¬ r.mimeType.isEmpty = true := by simpa using hmime
    rw [if_neg hempty, run_payload (d := report _) rfl]
    refine ⟨fun _ => .inr (.inl hmime), fun _ => ?_⟩
    show payload (d.events ++ _) ++ _ = _
    rw [payload_append, hpayload]
    rfl

end

/-- **A synchronous load.**  It is exact if and only if no redirect leaves the first URL or the filter is on,
no challenge has a body, and the body of the last response is not held back. -/
theorem exact_iff (guess : Bytes → WString) (media : MediaType) (harmfulSiteFilter : Bool) (url : WString)
    (responses : List Response) (last : FinalResponse) :
    Exact (dispatchSynchronousJob guess media harmfulSiteFilter url responses last) last.chunks.flatten ↔
      (harmfulSiteFilter = true ∨ ∀ r ∈ responses, Stays url r) ∧ (∀ r ∈ responses, Quiet r) ∧
        ((∃ r ∈ responses, IsUnauthorized r) ∨ last.mimeType ≠ [] ∨ last.chunks.flatten = [] ∨
          ReleasedBy guess last.expectedContentLength last.chunks) := by
  have hclean : Clean (start url) := ⟨rfl, rfl, rfl, rfl⟩
  have hrequests := run_requests harmfulSiteFilter responses (start_aimed url)
  have hfired := run_fired harmfulSiteFilter responses (start url)
  unfold dispatchSynchronousJob
  have hquiet : (∀ r ∈ responses, Quiet r) → Clean (Runs.run (step harmfulSiteFilter) (start url) responses) :=
    fun hq => hclean.run hq
  have hreceived := received_quiet harmfulSiteFilter responses (start url)
  generalize Runs.run (step harmfulSiteFilter) (start url) responses = s at hrequests hfired hquiet hreceived ⊢
  -- what `final` tells the client after the body is `m_receivedData`
  have hpayload : payload (final guess media last s).transfer.events =
      payload (Runs.run (writeCallback guess media) (headerCallback last s.transfer) last.chunks).events ++
        s.receivedData := by
    show payload (_ ++ [.didReceiveResponse _] ++ [.didReceiveData s.receivedData] ++ [.didReceiveResponse _]) = _
    rw [payload_append, payload_append, payload_append]
    simp [payload]
  have hretried : (final guess media last s).retried = s.retried ++ s.receivedData := rfl
  have hunauthorized : s.transfer.responseFired = true ↔ ∃ r ∈ responses, IsUnauthorized r := by
    rw [hfired]
    exact ⟨fun h => h.resolve_left Bool.false_ne_true, .inr⟩
  constructor
  · intro h
    obtain ⟨hreq, hbytes, hnone⟩ := h
    rw [hretried] at hnone
    have hrec := (List.append_eq_nil_iff.mp hnone).2
    have hq := (hreceived hrec).2
    have hcl := hquiet hq
    rw [hpayload, hrec, List.append_nil] at hbytes
    refine ⟨hrequests.mp hreq, hq, ?_⟩
    rw [← hunauthorized]
    exact (final_payload last hcl.payload hcl.held).mp hbytes
  · intro h
    obtain ⟨hreq, hq, hreleased⟩ := h
    have hcl := hquiet hq
    rw [← hunauthorized] at hreleased
    refine ⟨hrequests.mpr hreq, ?_, ?_⟩
    · rw [hpayload, hcl.received, List.append_nil]
      exact (final_payload last hcl.payload hcl.held).mpr hreleased
    · rw [hretried, hcl.retried, hcl.received]
      rfl

/-! ## a challenge and a page -/

namespace Sample

/-- a 401 with one byte, answered from the jar -/
def unauthorized : Challenge := ⟨⟨true, true, 401, false, true⟩, [[0x6E]], rfl⟩

/-- a page of one byte, of a known type -/
def page : FinalResponse := ⟨[0x74], 1, [[0x79]]⟩

end Sample

open SyncLoad.Sample ResponseBody.Sample

/-- the body of the challenge is delivered twice, and a redirect is sent to the URL it came from -/
theorem exact_fails :
    ¬ Exact (dispatchSynchronousJob ResponseBody.Sample.unknown ⟨[], []⟩ true [0x75]
      [.challenge unauthorized] page) page.chunks.flatten ∧
    ¬ Exact (dispatchSynchronousJob ResponseBody.Sample.unknown ⟨[], []⟩ false [0x75]
      [.redirect [0x76] []] page) page.chunks.flatten := by
  refine ⟨fun h => ?_, fun h => ?_⟩
  · have hbytes : payload (dispatchSynchronousJob ResponseBody.Sample.unknown ⟨[], []⟩ true [0x75]
        [.challenge unauthorized] page).transfer.events = [0x6E, 0x79, 0x6E] := by decide +kernel
    rw [h.payload] at hbytes
    exact absurd hbytes (by decide)
  · have hsent : ([0x75], [0x76]) ∈ (dispatchSynchronousJob ResponseBody.Sample.unknown ⟨[], []⟩ false [0x75]
        [.redirect [0x76] []] page).requests := by decide +kernel
    exact absurd (h.requests _ hsent) (by decide)

end SyncLoad
end Wkc
