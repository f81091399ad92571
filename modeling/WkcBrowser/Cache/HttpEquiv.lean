import WkcBrowser.Cache.Keys
import WkcBrowser.Wtf.Words

/-!
# Cache directives that a document brings itself

A document may say by `http-equiv` that it is not to be served again unasked.  It says so while it is read, and the
resource that the cache will hold of it may not be there yet.

* `processHttpEquiv`     where the directive is noted: at the resource, or at a job that is scheduled;
* `Op`, `step`           one URL: its loads, its directives, and the write timer;
* `Clear`                the directive meets a resource, or it finds the one job it may be for;
* `Holds`, `sole`        the cache holds at most one resource for the URL;
* `Sound`                a job that has been overtaken by a directive carries it, or the resource does;
* `reached_of_clear`     so the directives of a clear run reach the cache.
-/

set_option linter.unusedSectionVars false

namespace Wkc

section
variable [FilePeers]
namespace HttpEquiv
open Manager Runs

/-- the operations on `double` that the cache needs: a difference, a tenth, and what an `int` is -/
structure Arithmetic where
  sub : Double → Double → Double
  tenth : Double → Double
  ofInt : Int → Double

/-- `no-cache` -/
def noCacheText : WString := [0x6E, 0x6F, 0x2D, 0x63, 0x61, 0x63, 0x68, 0x65]

/-- `must-revalidate` -/
def mustRevalidateText : WString :=
  [0x6D, 0x75, 0x73, 0x74, 0x2D, 0x72, 0x65, 0x76, 0x61, 0x6C, 0x69, 0x64, 0x61, 0x74, 0x65]

/-- `max-age` -/
def maxAgeText : WString := [0x6D, 0x61, 0x78, 0x2D, 0x61, 0x67, 0x65]

/-! ## when a resource is to be asked for again -/

section
variable (arith : Arithmetic)

def freshnessLifetime (r : HTTPCachedResource) : Double :=
  if r.maxAge.isfinite then r.maxAge
  else if r.expires.isfinite then arith.sub r.expires r.date
  else if r.lastModified.isfinite then arith.tenth (arith.sub r.date r.lastModified)
  else Double.zero

/-- `now` is `currentTime()` -/
def isExpired (r : HTTPCachedResource) (now : Double) : Bool :=
  (arith.sub now r.date).gt (freshnessLifetime arith r)

def needRevalidate (r : HTTPCachedResource) (now : Double) : Bool :=
  r.mustRevalidate || r.noCache || isExpired arith r now

end

/-! ## one URL -/

/-- A job for the URL. -/
structure Job where
  m_httpequivFlags : UInt32 := 0
  m_httpequivMaxAge : Double := Double.zero
  /-- not in the source: a directive for the URL has come since the load began -/
  told : Bool := false

structure State where
  manager : Manager
  m_scheduledJobList : List Job := []
  m_runningJobList : List Job := []
  /-- not in the source: a directive has come since the load began that brought the body the cache holds -/
  told : Bool := false
  /-- not in the source: a directive has come -/
  everTold : Bool := false
  /-- not in the source: the most recent response that the cache was to keep -/
  latest : Option ResourceResponse := none

def State.jobs (s : State) : List Job := s.m_scheduledJobList ++ s.m_runningJobList

inductive Op where
  | schedule
  | start (i : Nat)
  -- a running job ends; `none` if its answer is not one for the cache
  | finish (i : Nat) (a : Option Response)
  | processHttpEquiv (content : WString) (cachecontrol : Bool)
  -- `others`: jobs for other URLs are scheduled or running
  | writeCacheTimerCallback (others : Bool) (io : FileIo) (fat : FatIo)

section
variable (arith : Arithmetic) (unicode : Unicode) (u : KURL)

/-- the seconds of `max-age`, or -1 -/
def secondsOf (content : WString) (cachecontrol : Bool) : Int :=
  let ismaxage := equalIgnoringCase (content.take 7) maxAgeText
  if cachecontrol && ismaxage && decide (7 < content.length) then
    match content.idxOf? 0x3D with
    | some pos =>
      if pos + 1 < content.length then
        let num := stripWhiteSpace unicode (content.drop (pos + 1))
        if num.isEmpty then -1 else (toInt unicode num).getD (-1)
      else -1
    | none => -1
  else -1

/-- what a directive leaves at a job -/
def Job.note (job : Job) (content : WString) (cachecontrol : Bool) : Job :=
  let sec := secondsOf unicode content cachecontrol
  if equalIgnoringCase content noCacheText then
    { job with m_httpequivFlags := job.m_httpequivFlags ||| EHTTPEquivNoCache }
  else if cachecontrol && equalIgnoringCase content mustRevalidateText then
    { job with m_httpequivFlags := job.m_httpequivFlags ||| EHTTPEquivMustRevalidate }
  else if 0 ≤ sec then
    { job with
      m_httpequivMaxAge := arith.ofInt sec
      m_httpequivFlags := job.m_httpequivFlags ||| EHTTPEquivMaxAge }
  else job

/-- what a directive leaves at a resource -/
def note (r : HTTPCachedResource) (content : WString) (cachecontrol : Bool) : HTTPCachedResource :=
  let sec := secondsOf unicode content cachecontrol
  if equalIgnoringCase content noCacheText then
    r.update true r.mustRevalidate r.expires r.maxAge EHTTPEquivNoCache
  else if cachecontrol && equalIgnoringCase content mustRevalidateText then
    r.update r.noCache true r.expires r.maxAge EHTTPEquivMustRevalidate
  else if 0 ≤ sec then r.update r.noCache r.mustRevalidate r.expires (arith.ofInt sec) EHTTPEquivMaxAge
  else r.update r.noCache r.mustRevalidate r.expires r.maxAge 0

/-- The resource that a directive is for: a waiting one is compared with the URL, fragment and all. -/
def rsp (s : Manager) : Option Ptr :=
  match s.cache.resourceForURL u with
  | some p => some p
  | none => s.writeCacheList.find? (fun p => s.cache.url p == u.string)

/-- the last job is the first that the loop meets -/
def noteLast (content : WString) (cachecontrol : Bool) (jobs : List Job) : List Job :=
  match jobs.getLast? with
  | some job => jobs.dropLast ++ [job.note arith unicode content cachecontrol]
  | none => []

/-- The jobs of other URLs are passed over. -/
def processHttpEquiv (s : State) (content : WString) (cachecontrol : Bool) : State :=
  match rsp u s.manager with
  | some p =>
    let cache := s.manager.cache
    { s with manager := { s.manager with
        cache := cache.setRes p (note arith unicode (cache.res p) content cachecontrol) } }
  | none => { s with m_scheduledJobList := noteLast arith unicode content cachecontrol s.m_scheduledJobList }

/-- the directives that forbid to serve a document unasked -/
def forbids (content : WString) (cachecontrol : Bool) : Bool :=
  equalIgnoringCase content noCacheText || (cachecontrol && equalIgnoringCase content mustRevalidateText)

/-- what `addHTTPCache` takes from the job -/
def Job.completed (job : Job) (a : Response) : Response :=
  { a with url := u, httpequivFlags := job.m_httpequivFlags, httpequivMaxAge := job.m_httpequivMaxAge }

/-- the end of a job in `downloadTimerCallback` -/
def finish (s : State) (job : Job) (a : Response) : State :=
  if s.manager.cache.disabled then s
  else
    let s' := { s with manager := (s.manager.addHTTPCache a).2 }
    if a.cacheable then { s' with told := job.told, latest := some a.response } else s'

def Job.tell (job : Job) : Job := { job with told := true }

def State.tell (s : State) : State :=
  { s with
    m_scheduledJobList := s.m_scheduledJobList.map Job.tell
    m_runningJobList := s.m_runningJobList.map Job.tell
    told := true
    everTold := true }

def step (s : State) : Op → State
  | .schedule => { s with m_scheduledJobList := s.m_scheduledJobList ++ [{}] }
  | .start i =>
    match s.m_scheduledJobList[i]? with
    | some job =>
      { s with
        m_scheduledJobList := s.m_scheduledJobList.eraseIdx i
        m_runningJobList := s.m_runningJobList ++ [job] }
    | none => s
  | .finish i a =>
    match s.m_runningJobList[i]?, a with
    | some job, some a => finish { s with m_runningJobList := s.m_runningJobList.eraseIdx i } job (job.completed u a)
    | _, _ => { s with m_runningJobList := s.m_runningJobList.eraseIdx i }
  | .processHttpEquiv content cachecontrol =>
    let s' := processHttpEquiv arith unicode u s content cachecontrol
    if forbids content cachecontrol then s'.tell else s'
  | .writeCacheTimerCallback others io fat =>
    { s with manager := s.manager.writeCacheTimerCallback (others || !s.jobs.isEmpty) io fat }

/-! ## what is wanted -/

/-- `p` is a resource for the URL, in the index or waiting -/
def Holds (s : Manager) (p : Ptr) : Prop :=
  s.cache.resourceForURL u = some p ∨ (p ∈ s.writeCacheList ∧ s.cache.equalHTTPCachedResourceURL p u = true)

/-- A resource whose load was overtaken by a directive is not served unasked; and without directives, a resource is as
the most recent response says. -/
structure Reached (s : State) : Prop where
  told : s.told = true → ∀ p, Holds u s.manager p → ∀ now, needRevalidate arith (s.manager.cache.res p) now = true
  untold : s.everTold = false → ∀ p, Holds u s.manager p → ∃ response, s.latest = some response ∧
    (s.manager.cache.res p).noCache = response.cacheControlContainsNoCache ∧
    (s.manager.cache.res p).mustRevalidate = response.cacheControlContainsMustRevalidate

/-- a directive is noted at the job -/
def Job.carries (job : Job) : Prop :=
  job.m_httpequivFlags &&& EHTTPEquivNoCache ≠ 0 ∨ job.m_httpequivFlags &&& EHTTPEquivMustRevalidate ≠ 0

/-- A directive meets the resource of its URL; or there is none, no job is running, and at most one is scheduled.  And an
answer that is not to be kept takes no resource away while a job runs or waits that was overtaken by a directive and does
not carry it. -/
def Clear (s : State) : Op → Prop
  | .processHttpEquiv content cachecontrol => forbids content cachecontrol = true →
    (∃ p, rsp u s.manager = some p ∧ Holds u s.manager p) ∨
      (rsp u s.manager = none ∧ s.manager.target u = none ∧ s.m_runningJobList = [] ∧ s.m_scheduledJobList.length ≤ 1)
  | .finish i (some a) => ∀ job, s.m_runningJobList[i]? = some job → s.manager.cache.disabled = false →
    (job.completed u a).refused = false → a.noStore = true →
      ∀ other ∈ s.m_scheduledJobList ++ s.m_runningJobList.eraseIdx i, other.told = true → other.carries
  | _ => True

end

/-! ## what is noted -/

/-- a directive is noted at the resource -/
def noted (r : HTTPCachedResource) : Prop :=
  r.httpequivflags &&& EHTTPEquivNoCache ≠ 0 ∨ r.httpequivflags &&& EHTTPEquivMustRevalidate ≠ 0

/-- the resource is not served unasked, however old it is -/
def marked (r : HTTPCachedResource) : Prop := r.noCache = true ∨ r.mustRevalidate = true

/-- what is noted holds -/
structure Firm (r : HTTPCachedResource) : Prop where
  noCache : r.httpequivflags &&& EHTTPEquivNoCache ≠ 0 → r.noCache = true
  mustRevalidate : r.httpequivflags &&& EHTTPEquivMustRevalidate ≠ 0 → r.mustRevalidate = true

/-- two resources for one URL, with the same answer to whether they are served -/
structure Same (r r' : HTTPCachedResource) : Prop where
  url : r'.url = r.url
  noCache : r'.noCache = r.noCache
  mustRevalidate : r'.mustRevalidate = r.mustRevalidate
  httpequivflags : r'.httpequivflags = r.httpequivflags

section
variable {r r' : HTTPCachedResource} {a : Response} {data : SharedBuffer}

theorem or_and_eq_zero (f g m : UInt32) : (f ||| g) &&& m = 0 ↔ f &&& m = 0 ∧ g &&& m = 0 := by
  have hdistrib : (f ||| g) &&& m = (f &&& m) ||| (g &&& m) := by
    apply UInt32.toBitVec_inj.mp
    ext i
    simp [Bool.and_or_distrib_right]
  rw [hdistrib, UInt32.or_eq_zero_iff]

theorem needRevalidate_of_marked (arith : Arithmetic) (h : marked r) (now : Double) : needRevalidate arith r now = true := by
  unfold needRevalidate
  rcases h with h | h
  · rw [h, Bool.or_true, Bool.true_or]
  · rw [h, Bool.true_or, Bool.true_or]

theorem Firm.marked (h : Firm r) (hnoted : noted r) : marked r := hnoted.imp h.noCache h.mustRevalidate

theorem Same.noted (h : Same r r') : noted r' ↔ noted r := by
  unfold HttpEquiv.noted
  rw [h.httpequivflags]

theorem Same.marked (h : Same r r') : marked r' ↔ marked r := by
  unfold HttpEquiv.marked
  rw [h.noCache, h.mustRevalidate]

theorem Same.firm (h : Same r r') (hfirm : Firm r) : Firm r' := by
  refine ⟨?_, ?_⟩
  · rw [h.httpequivflags, h.noCache]
    exact hfirm.noCache
  · rw [h.httpequivflags, h.mustRevalidate]
    exact hfirm.mustRevalidate

theorem same_refl (r : HTTPCachedResource) : Same r r := ⟨rfl, rfl, rfl, rfl⟩

theorem same_setUsed (r : HTTPCachedResource) (b : Bool) : Same r (r.setUsed b) := ⟨rfl, rfl, rfl, rfl⟩

theorem same_written (r : HTTPCachedResource) (data : SharedBuffer) (filename : WString) :
    Same r (r.written data filename) := ⟨rfl, rfl, rfl, rfl⟩

/-! ### a response -/

theorem onto_flags (a : Response) (r : HTTPCachedResource) (data : SharedBuffer) :
    (a.onto r data).httpequivflags = r.httpequivflags := UInt32.or_zero

theorem update_plain {f m : UInt32} {new old : Bool} (hm : 0 &&& m = 0) :
    (if f &&& m = 0 ∨ (0 : UInt32) &&& m ≠ 0 then new else old) = if f &&& m = 0 then new else old :=
  if_congr (or_iff_left (not_not.mpr hm)) rfl rfl

theorem onto_noCache (a : Response) (r : HTTPCachedResource) (data : SharedBuffer) :
    (a.onto r data).noCache = if r.httpequivflags &&& EHTTPEquivNoCache = 0 then a.noCache else r.noCache := by
  refine (update_plain (by decide)).trans ?_
  show (if r.httpequivflags &&& EHTTPEquivNoCache = 0 then a.noCache else
    if r.httpequivflags &&& EHTTPEquivNoCache = 0 then _ else r.noCache) = _
  split <;> rfl

theorem onto_mustRevalidate (a : Response) (r : HTTPCachedResource) (data : SharedBuffer) :
    (a.onto r data).mustRevalidate =
      if r.httpequivflags &&& EHTTPEquivMustRevalidate = 0 then a.mustRevalidate else r.mustRevalidate := by
  refine (update_plain (by decide)).trans ?_
  show (if r.httpequivflags &&& EHTTPEquivMustRevalidate = 0 then a.mustRevalidate else
    if r.httpequivflags &&& EHTTPEquivMustRevalidate = 0 then _ else r.mustRevalidate) = _
  split <;> rfl

theorem make_noCache (a : Response) (data : SharedBuffer) : (a.make data).noCache = a.noCache :=
  if_pos (Or.inl UInt32.zero_and)

theorem make_mustRevalidate (a : Response) (data : SharedBuffer) : (a.make data).mustRevalidate = a.mustRevalidate :=
  if_pos (Or.inl UInt32.zero_and)

theorem onto_noted : noted (a.onto r data) ↔ noted r := by
  unfold noted
  rw [onto_flags]

theorem onto_firm (h : Firm r) : Firm (a.onto r data) := by
  refine ⟨?_, ?_⟩
  · intro hnoted
    rw [onto_flags] at hnoted
    rw [onto_noCache, if_neg hnoted]
    exact h.noCache hnoted
  · intro hnoted
    rw [onto_flags] at hnoted
    rw [onto_mustRevalidate, if_neg hnoted]
    exact h.mustRevalidate hnoted

/-- A response that forbids it, for a resource at which nothing is noted that does not hold. -/
theorem onto_marked (h : Firm r) (ha : a.noCache = true ∨ a.mustRevalidate = true) : marked (a.onto r data) := by
  rcases ha with ha | ha
  · refine Or.inl ?_
    rw [onto_noCache, ha]
    split
    · rfl
    · next hnoted => exact h.noCache hnoted
  · refine Or.inr ?_
    rw [onto_mustRevalidate, ha]
    split
    · rfl
    · next hnoted => exact h.mustRevalidate hnoted

theorem make_not_noted (a : Response) (data : SharedBuffer) : ¬ noted (a.make data) := by
  unfold noted
  rw [a.make_flags]
  decide

theorem make_firm (a : Response) (data : SharedBuffer) : Firm (a.make data) :=
  ⟨fun h => absurd (Or.inl h) (make_not_noted a data), fun h => absurd (Or.inr h) (make_not_noted a data)⟩

theorem make_marked (ha : a.noCache = true ∨ a.mustRevalidate = true) : marked (a.make data) := by
  unfold marked
  rw [make_noCache, make_mustRevalidate]
  exact ha

theorem completed_carries {job : Job} {u : KURL} (h : job.carries) :
    (job.completed u a).noCache = true ∨ (job.completed u a).mustRevalidate = true := by
  unfold Response.noCache Response.mustRevalidate
  rcases h with h | h
  · exact Or.inl (Bool.or_eq_true_iff.mpr (Or.inr (decide_eq_true h)))
  · exact Or.inr (Bool.or_eq_true_iff.mpr (Or.inr (decide_eq_true h)))

theorem completed_plain {job : Job} {u : KURL} (h : ¬ job.carries) :
    (job.completed u a).noCache = a.response.cacheControlContainsNoCache ∧
      (job.completed u a).mustRevalidate = a.response.cacheControlContainsMustRevalidate := by
  obtain ⟨hnoCache, hmust⟩ := not_or.mp h
  unfold Response.noCache Response.mustRevalidate
  refine ⟨?_, ?_⟩
  · show (_ || decide (job.m_httpequivFlags &&& EHTTPEquivNoCache ≠ 0)) = _
    rw [decide_eq_false hnoCache, Bool.or_false]
    rfl
  · show (_ || decide (job.m_httpequivFlags &&& EHTTPEquivMustRevalidate ≠ 0)) = _
    rw [decide_eq_false hmust, Bool.or_false]
    rfl

end

/-! ### a directive -/

section
variable {arith : Arithmetic} {unicode : Unicode} {r : HTTPCachedResource} {job : Job} {content : WString}
  {cachecontrol : Bool}

/-- the flag that a directive leaves, wherever it is noted -/
def noteFlags (unicode : Unicode) (content : WString) (cachecontrol : Bool) : UInt32 :=
  if equalIgnoringCase content noCacheText then EHTTPEquivNoCache
  else if cachecontrol && equalIgnoringCase content mustRevalidateText then EHTTPEquivMustRevalidate
  else if 0 ≤ secondsOf unicode content cachecontrol then EHTTPEquivMaxAge
  else 0

theorem forbids_iff (unicode : Unicode) : forbids content cachecontrol = true ↔
    noteFlags unicode content cachecontrol &&& EHTTPEquivNoCache ≠ 0 ∨
      noteFlags unicode content cachecontrol &&& EHTTPEquivMustRevalidate ≠ 0 := by
  unfold forbids noteFlags
  rw [Bool.or_eq_true_iff]
  split
  · next h => exact iff_of_true (Or.inl h) (by decide)
  next hnoCache =>
  split
  · next h => exact iff_of_true (Or.inr h) (by decide)
  next hmust =>
  refine iff_of_false (not_or.mpr ⟨hnoCache, hmust⟩) ?_
  split <;> decide

theorem note_url : (note arith unicode r content cachecontrol).url = r.url := by
  unfold note
  dsimp only
  split
  · rfl
  split
  · rfl
  split <;> rfl

theorem note_flags : (note arith unicode r content cachecontrol).httpequivflags =
    r.httpequivflags ||| noteFlags unicode content cachecontrol := by
  unfold note noteFlags
  dsimp only
  split
  · rfl
  split
  · rfl
  split <;> rfl

theorem note_noCache : (note arith unicode r content cachecontrol).noCache =
    (r.noCache || decide (noteFlags unicode content cachecontrol &&& EHTTPEquivNoCache ≠ 0)) := by
  unfold note noteFlags
  dsimp only
  split
  · exact (if_pos (Or.inr (by decide))).trans (Bool.or_true _).symm
  split
  · exact (ite_self _).trans (Bool.or_false _).symm
  split <;> exact (ite_self _).trans (Bool.or_false _).symm

theorem note_mustRevalidate : (note arith unicode r content cachecontrol).mustRevalidate =
    (r.mustRevalidate || decide (noteFlags unicode content cachecontrol &&& EHTTPEquivMustRevalidate ≠ 0)) := by
  unfold note noteFlags
  dsimp only
  split
  · exact (ite_self _).trans (Bool.or_false _).symm
  split
  · exact (if_pos (Or.inr (by decide))).trans (Bool.or_true _).symm
  split <;> exact (ite_self _).trans (Bool.or_false _).symm

theorem note_firm (h : Firm r) : Firm (note arith unicode r content cachecontrol) := by
  have heither : ∀ m : UInt32, (r.httpequivflags ||| noteFlags unicode content cachecontrol) &&& m ≠ 0 →
      r.httpequivflags &&& m ≠ 0 ∨ noteFlags unicode content cachecontrol &&& m ≠ 0 := by
    intro m hm
    rw [Ne, or_and_eq_zero] at hm
    exact not_and_or.mp hm
  refine ⟨?_, ?_⟩
  · rw [note_flags, note_noCache, Bool.or_eq_true_iff, decide_eq_true_iff]
    exact fun hm => (heither _ hm).imp_left h.noCache
  · rw [note_flags, note_mustRevalidate, Bool.or_eq_true_iff, decide_eq_true_iff]
    exact fun hm => (heither _ hm).imp_left h.mustRevalidate

theorem or_forbids (f g : UInt32) :
    ((f ||| g) &&& EHTTPEquivNoCache ≠ 0 ∨ (f ||| g) &&& EHTTPEquivMustRevalidate ≠ 0) ↔
      (g &&& EHTTPEquivNoCache ≠ 0 ∨ g &&& EHTTPEquivMustRevalidate ≠ 0) ∨
        (f &&& EHTTPEquivNoCache ≠ 0 ∨ f &&& EHTTPEquivMustRevalidate ≠ 0) := by
  rw [Ne, or_and_eq_zero, Ne, or_and_eq_zero, not_and_or, not_and_or]
  tauto

theorem note_noted : noted (note arith unicode r content cachecontrol) ↔
    forbids content cachecontrol = true ∨ noted r := by
  unfold noted
  rw [note_flags, or_forbids, forbids_iff unicode]

theorem note_carries : (job.note arith unicode content cachecontrol).carries ↔
    forbids content cachecontrol = true ∨ job.carries := by
  have hflags : (job.note arith unicode content cachecontrol).m_httpequivFlags =
      job.m_httpequivFlags ||| noteFlags unicode content cachecontrol := by
    unfold Job.note noteFlags
    dsimp only
    split
    · rfl
    split
    · rfl
    split
    · rfl
    · exact UInt32.or_zero.symm
  unfold Job.carries
  rw [hflags, or_forbids, forbids_iff unicode]

theorem note_plain (h : forbids content cachecontrol = false) :
    (note arith unicode r content cachecontrol).noCache = r.noCache ∧
      (note arith unicode r content cachecontrol).mustRevalidate = r.mustRevalidate := by
  have hnot : ¬ forbids content cachecontrol = true := by
    rw [h]
    exact Bool.false_ne_true
  obtain ⟨hnoCache, hmust⟩ := not_or.mp ((not_congr (forbids_iff unicode)).mp hnot)
  rw [note_noCache, note_mustRevalidate, decide_eq_false hnoCache, decide_eq_false hmust]
  exact ⟨Bool.or_false _, Bool.or_false _⟩

theorem note_told : (job.note arith unicode content cachecontrol).told = job.told := by
  unfold Job.note
  dsimp only
  split
  · rfl
  split
  · rfl
  split <;> rfl

end

/-! ## the resource of the URL -/

/-- The manager is sound, and the waiting resources that are taken for one of the URL are of the URL. -/
structure Sole (u : KURL) (s : Manager) : Prop where
  indexed : s.core.Indexed
  exact : ∀ q ∈ s.writeCacheList, s.cache.equalHTTPCachedResourceURL q u = true → s.cache.url q = cacheKey u

section
variable {u : KURL} {s s' : Manager} {p q : Ptr} {l v : List Ptr} {lost : List WString}

theorem Sole.holds_iff (h : Sole u s) : Holds u s p ↔ s.core.Known p ∧ s.cache.url p = cacheKey u := by
  constructor
  · rintro (hp | ⟨hmem, heq⟩)
    · obtain ⟨hmem, hurl⟩ := h.indexed.wf.index _ _ hp
      exact ⟨Or.inl hmem, hurl⟩
    · exact ⟨Or.inr hmem, h.exact p hmem heq⟩
  · rintro ⟨hmem | hmem, hurl⟩
    · refine Or.inl ?_
      have hindex := h.indexed.complete p hmem
      rwa [show (s.core.res p).url = cacheKey u from hurl] at hindex
    · refine Or.inr ⟨hmem, ?_⟩
      unfold HTTPCache.equalHTTPCachedResourceURL
      rw [hurl, equalIgnoringCase_refl]

theorem Sole.unique (h : Sole u s) (hp : Holds u s p) (hq : Holds u s q) : p = q := by
  obtain ⟨hp, hpurl⟩ := h.holds_iff.mp hp
  obtain ⟨hq, hqurl⟩ := h.holds_iff.mp hq
  exact h.indexed.unique p q hp hq (hpurl.trans hqurl.symm)

theorem holds_target (ht : s.target u = some p) : Holds u s p := by
  unfold target at ht
  split at ht
  · next q hindex =>
    obtain rfl := Option.some.inj ht
    exact Or.inl hindex
  · obtain ⟨n, hfind, hget⟩ := Option.bind_eq_some_iff.mp ht
    obtain ⟨hlt, hequal, -⟩ := List.findIdx?_eq_some_iff_getElem.mp hfind
    rw [List.getElem?_eq_getElem hlt] at hget
    rw [Option.some.inj hget] at hequal
    exact Or.inr ⟨List.mem_of_getElem (Option.some.inj hget), hequal⟩

theorem Sole.target_none (h : Sole u s) (ht : s.target u = none) (p : Ptr) : ¬ Holds u s p := by
  intro hp
  obtain ⟨hknown, hurl⟩ := h.holds_iff.mp hp
  exact unknown_target h.indexed ht p hknown hurl

theorem Sole.holds_kept (h : Sole u s) (hk : Kept s.cache s.writeCacheList s'.cache l v lost) (hp : p ∈ l ∨ p ∈ v)
    (hurl : s'.cache.url p = cacheKey u) : Holds u s p ∧ Same (s.cache.res p) (s'.cache.res p) := by
  have hsame : Same (s.cache.res p) (s'.cache.res p) := by
    rcases hp with hp | hp
    · obtain ⟨b, hb⟩ := hk.listed p hp
      rw [hb]
      exact same_setUsed _ b
    · rw [hk.waiting p hp]
      exact same_refl _
  have hknown : s.core.Known p := hp.imp (fun hp => hk.list.subset hp) (fun hp => hk.wait.subset hp)
  exact ⟨h.holds_iff.mpr ⟨hknown, hsame.url.symm.trans hurl⟩, hsame⟩

theorem Sole.exact_kept (h : Sole u s) (hk : Kept s.cache s.writeCacheList s'.cache l v lost) :
    ∀ q ∈ v, s'.cache.equalHTTPCachedResourceURL q u = true → s'.cache.url q = cacheKey u := by
  intro q hq
  have hurl : s'.cache.url q = s.cache.url q := congrArg HTTPCachedResource.url (hk.waiting q hq)
  unfold HTTPCache.equalHTTPCachedResourceURL
  rw [hurl]
  exact h.exact q (hk.wait.subset hq)

/-- what a response for the URL does to its resource -/
inductive Adds (u : KURL) (s s' : Manager) (a : Response) : Prop
  | kept : a.cacheable = false →
      (∀ p, Holds u s' p → Holds u s p ∧ Same (s.cache.res p) (s'.cache.res p)) → Adds u s s' a
  | updated {p : Ptr} {data : SharedBuffer} : a.cacheable = true → Holds u s p → Holds u s' p →
      s'.cache.res p = a.onto (s.cache.res p) data → Adds u s s' a
  | created {p : Ptr} {data : SharedBuffer} : a.cacheable = true → (∀ q, ¬ Holds u s q) → Holds u s' p →
      s'.cache.res p = a.make data → Adds u s s' a
  | full : a.cacheable = true → (∀ q, ¬ Holds u s q) → (∀ q, ¬ Holds u s' q) → Adds u s s' a

theorem cacheable_of {a : Response} (hrefused : a.refused = false) (hnoStore : a.noStore = false) :
    a.cacheable = true := by
  unfold Response.cacheable
  rw [hrefused, hnoStore]
  rfl

theorem Sole.addHTTPCache (h : Sole u s) {a : Response} (hurl : a.url = u) :
    Sole u (s.addHTTPCache a).2 ∧ Adds u s (s.addHTTPCache a).2 a := by
  subst hurl
  have hindexed : (s.addHTTPCache a).2.core.Indexed :=
    Moves.indexed (addHTTPCache_moves (G := fun _ _ => True) h.indexed.wf (fun _ _ _ => trivial)) h.indexed
  have hkept : ∀ {l v : List Ptr}, Kept s.cache s.writeCacheList (s.addHTTPCache a).2.cache l v [] → ∀ p,
      p ∈ l ∨ p ∈ v → (s.addHTTPCache a).2.cache.url p = cacheKey a.url →
        Holds a.url s p ∧ Same (s.cache.res p) ((s.addHTTPCache a).2.cache.res p) := fun hk _ hp => h.holds_kept hk hp
  generalize houtcome : (s.addHTTPCache a).2 = s' at hindexed hkept ⊢
  -- a resource that is added is of the URL
  have happended : ∀ {v : List Ptr} {p : Ptr}, Kept s.cache s.writeCacheList s'.cache s'.cache.resourceList v [] →
      s'.writeCacheList = v ++ [p] → s'.cache.url p = cacheKey a.url → Sole a.url s' ∧ Holds a.url s' p := by
    intro v p hk hw hp
    have hsole : Sole a.url s' := by
      refine ⟨hindexed, fun q hq hequal => ?_⟩
      rw [hw] at hq
      rcases List.mem_append.mp hq with hq | hq
      · exact h.exact_kept hk q hq hequal
      · rw [List.mem_singleton.mp hq]
        exact hp
    have hmem : p ∈ s'.writeCacheList := by
      rw [hw]
      exact List.mem_append_right v (List.mem_singleton_self p)
    exact ⟨hsole, hsole.holds_iff.mpr ⟨Or.inr hmem, hp⟩⟩
  have hout := addHTTPCache_outcome a h.indexed.wf
  rw [houtcome] at hout
  cases hout with
  | kept hnone hk =>
    have hsole : Sole a.url s' := ⟨hindexed, h.exact_kept hk⟩
    have hback : ∀ p, Holds a.url s' p → Holds a.url s p ∧ Same (s.cache.res p) (s'.cache.res p) := by
      intro p hp
      obtain ⟨hknown, hurl⟩ := hsole.holds_iff.mp hp
      exact hkept hk p hknown hurl
    refine ⟨hsole, ?_⟩
    cases hcacheable : a.cacheable with
    | false => exact .kept hcacheable hback
    | true =>
      obtain ⟨hrefused, hnoStore⟩ : a.refused = false ∧ a.noStore = false := by
        simpa [Response.cacheable] using hcacheable
      have hempty := h.target_none (hnone a rfl hrefused hnoStore)
      exact .full hcacheable hempty fun q hq => hempty q (hback q hq).1
  | failed hop | written hop => cases hop
  | updated hop hrefused hnoStore hdata ht hw hres hk =>
    cases hop
    have hp := holds_target ht
    have hurl : s'.cache.url _ = cacheKey a.url :=
      (congrArg HTTPCachedResource.url hres).trans (h.holds_iff.mp hp).2
    obtain ⟨hsole, hp'⟩ := happended hk hw hurl
    exact ⟨hsole, .updated (cacheable_of hrefused hnoStore) hp hp' hres⟩
  | created hop hrefused hnoStore hdata ht hw hres hk =>
    cases hop
    have hurl : s'.cache.url _ = cacheKey a.url := congrArg HTTPCachedResource.url hres
    obtain ⟨hsole, hp'⟩ := happended hk hw hurl
    exact ⟨hsole, .created (cacheable_of hrefused hnoStore) (h.target_none ht) hp' hres⟩

theorem addHTTPCache_refused {a : Response} (h : a.refused = true) : (s.addHTTPCache a).2 = s := by
  unfold Manager.addHTTPCache
  rw [if_pos h]

theorem Sole.writeCacheTimerCallback (h : Sole u s) (io : FileIo) (fat : FatIo) :
    Sole u (s.writeCacheTimerCallback false io fat) ∧
      ∀ p, Holds u (s.writeCacheTimerCallback false io fat) p → Holds u s p ∧
        Same (s.cache.res p) ((s.writeCacheTimerCallback false io fat).cache.res p) := by
  have hindexed : (s.writeCacheTimerCallback false io fat).core.Indexed :=
    Moves.indexed (writeCacheTimerCallback_moves (G := fun _ _ => True) false io fat h.indexed.wf) h.indexed
  have hout := writeCacheTimerCallback_outcome false io fat h.indexed.wf
  generalize s.writeCacheTimerCallback false io fat = s' at hindexed hout ⊢
  -- the resources that are known afterwards were kept
  have hall : ∀ {l : List Ptr} {lost : List WString}, Kept s.cache s.writeCacheList s'.cache l s'.writeCacheList lost →
      (∀ p ∈ s'.cache.resourceList, s'.cache.url p = cacheKey u → p ∈ l ∨
        (Holds u s p ∧ Same (s.cache.res p) (s'.cache.res p))) →
      Sole u s' ∧ ∀ p, Holds u s' p → Holds u s p ∧ Same (s.cache.res p) (s'.cache.res p) := by
    intro l lost hk hlist
    have hsole : Sole u s' := ⟨hindexed, h.exact_kept hk⟩
    refine ⟨hsole, fun p hp => ?_⟩
    obtain ⟨hmem | hmem, hurl⟩ := hsole.holds_iff.mp hp
    · rcases hlist p hmem hurl with hl | hdone
      · exact h.holds_kept hk (Or.inl hl) hurl
      · exact hdone
    · exact h.holds_kept hk (Or.inr hmem) hurl
  cases hout with
  | kept _ hk | failed _ _ hk => exact hall hk fun p hp _ => Or.inl hp
  | updated hop | created hop => cases hop
  | @written _ _ p data l hop hw hdata hopen hbody hlist hres hfile hk =>
    refine hall hk fun q hq hurl => ?_
    rw [hlist] at hq
    rcases List.mem_append.mp hq with hq | hq
    · exact Or.inl hq
    · obtain rfl := List.mem_singleton.mp hq
      have hsame : Same (s.cache.res q) (s'.cache.res q) := by
        rw [hres]
        exact same_written _ data _
      have hknown : s.core.Known q := by
        refine Or.inr ?_
        show q ∈ s.writeCacheList
        rw [hw]
        exact List.mem_cons_self
      exact Or.inr ⟨h.holds_iff.mpr ⟨hknown, hsame.url.symm.trans hurl⟩, hsame⟩

/-- `s` with another resource at `p` -/
def put (s : Manager) (p : Ptr) (r : HTTPCachedResource) : Manager := { s with cache := s.cache.setRes p r }

theorem put_url {r : HTTPCachedResource} (hurl : r.url = s.cache.url p) (q : Ptr) :
    (put s p r).cache.url q = s.cache.url q := Core.url_setRes (k := s.core) hurl q

theorem holds_put {r : HTTPCachedResource} (hurl : r.url = s.cache.url p) : Holds u (put s p r) q ↔ Holds u s q := by
  unfold Holds HTTPCache.equalHTTPCachedResourceURL
  rw [put_url hurl]
  rfl

theorem Sole.put (h : Sole u s) {r : HTTPCachedResource} (hp : s.core.Known p) (hurl : r.url = s.cache.url p) :
    Sole u (put s p r) := by
  refine ⟨h.indexed.setRes hp hurl, fun q hq => ?_⟩
  unfold HTTPCache.equalHTTPCachedResourceURL
  rw [put_url hurl]
  exact h.exact q hq

theorem Sole.rsp_known (h : Sole u s) (hrsp : rsp u s = some p) : s.core.Known p := by
  unfold rsp at hrsp
  split at hrsp
  · next q hindex =>
    obtain rfl := Option.some.inj hrsp
    exact Or.inl (h.indexed.wf.index _ _ hindex).1
  · exact Or.inr (List.mem_of_find?_eq_some hrsp)

end

/-! ## one step -/

/-- A job that a directive has overtaken carries it, or it is noted at the resource; and what is noted there holds. -/
structure Carried (u : KURL) (s : State) : Prop where
  firm : ∀ p, Holds u s.manager p → Firm (s.manager.cache.res p)
  told : s.told = true → ∀ p, Holds u s.manager p → marked (s.manager.cache.res p)
  jobs : ∀ job ∈ s.jobs, job.told = true → job.carries ∨ ∃ p, Holds u s.manager p ∧ noted (s.manager.cache.res p)

/-- No directive is noted anywhere, and the resource is as the response says. -/
structure Plain (u : KURL) (s : State) : Prop where
  jobs : ∀ job ∈ s.jobs, ¬ job.carries
  resource : ∀ p, Holds u s.manager p → ¬ noted (s.manager.cache.res p) ∧ ∃ response, s.latest = some response ∧
    (s.manager.cache.res p).noCache = response.cacheControlContainsNoCache ∧
    (s.manager.cache.res p).mustRevalidate = response.cacheControlContainsMustRevalidate

section
variable {arith : Arithmetic} {unicode : Unicode} {u : KURL} {s s' : State}

/-! ### jobs -/

/-- jobs come and go -/
structure Passes (s s' : State) : Prop where
  manager : s'.manager = s.manager
  told : s'.told = s.told
  everTold : s'.everTold = s.everTold
  latest : s'.latest = s.latest
  jobs : ∀ job ∈ s'.jobs, job ∈ s.jobs ∨ job = {}

theorem Carried.passes (h : Carried u s) (hp : Passes s s') : Carried u s' := by
  refine ⟨?_, ?_, ?_⟩
  · rw [hp.manager]
    exact h.firm
  · rw [hp.manager, hp.told]
    exact h.told
  · rw [hp.manager]
    intro job hjob htold
    rcases hp.jobs job hjob with hjob | rfl
    · exact h.jobs job hjob htold
    · exact absurd htold Bool.false_ne_true

theorem Plain.passes (h : Plain u s) (hp : Passes s s') : Plain u s' := by
  refine ⟨fun job hjob => ?_, ?_⟩
  · rcases hp.jobs job hjob with hjob | rfl
    · exact h.jobs job hjob
    · unfold Job.carries
      decide
  · rw [hp.manager, hp.latest]
    exact h.resource

theorem passes_schedule : Passes s (step arith unicode u s .schedule) := by
  refine ⟨rfl, rfl, rfl, rfl, fun job hjob => ?_⟩
  rcases List.mem_append.mp hjob with hjob | hjob
  · rcases List.mem_append.mp hjob with hjob | hjob
    · exact Or.inl (List.mem_append_left _ hjob)
    · exact Or.inr (List.mem_singleton.mp hjob)
  · exact Or.inl (List.mem_append_right _ hjob)

theorem passes_start (i : Nat) : Passes s (step arith unicode u s (.start i)) := by
  unfold step
  dsimp only
  split
  · next job hget =>
    refine ⟨rfl, rfl, rfl, rfl, fun other hother => Or.inl ?_⟩
    rcases List.mem_append.mp hother with hother | hother
    · exact List.mem_append_left _ (List.mem_of_mem_eraseIdx hother)
    · rcases List.mem_append.mp hother with hother | hother
      · exact List.mem_append_right _ hother
      · rw [List.mem_singleton.mp hother]
        exact List.mem_append_left _ (List.mem_of_getElem? hget)
  · exact ⟨rfl, rfl, rfl, rfl, fun _ h => Or.inl h⟩

/-- a running job is over -/
def State.drop (s : State) (i : Nat) : State := { s with m_runningJobList := s.m_runningJobList.eraseIdx i }

theorem passes_drop (i : Nat) : Passes s (s.drop i) := by
  refine ⟨rfl, rfl, rfl, rfl, fun job hjob => Or.inl ?_⟩
  rcases List.mem_append.mp hjob with hjob | hjob
  · exact List.mem_append_left _ hjob
  · exact List.mem_append_right _ (List.mem_of_mem_eraseIdx hjob)

/-! ### a response -/

theorem finish_sole (h : Sole u s.manager) (job : Job) (a : Response) : Sole u (finish s job (job.completed u a)).manager := by
  unfold finish
  split
  · exact h
  · dsimp only
    split <;> exact (h.addHTTPCache rfl).1

/-- what a job leaves that ends with a response -/
inductive Finishes (u : KURL) (s : State) (job : Job) (a : Response) : State → Prop
  | unchanged : Finishes u s job a s
  | dropped {manager : Manager} : s.manager.cache.disabled = false → (job.completed u a).refused = false →
      a.noStore = true →
      (∀ p, Holds u manager p → Holds u s.manager p ∧ Same (s.manager.cache.res p) (manager.cache.res p)) →
      Finishes u s job a { s with manager := manager }
  | updated {manager : Manager} {p : Ptr} {data : SharedBuffer} : Sole u manager → Holds u s.manager p →
      Holds u manager p → manager.cache.res p = (job.completed u a).onto (s.manager.cache.res p) data →
      Finishes u s job a { s with manager := manager, told := job.told, latest := some a.response }
  | created {manager : Manager} {p : Ptr} {data : SharedBuffer} : Sole u manager → (∀ q, ¬ Holds u s.manager q) →
      Holds u manager p → manager.cache.res p = (job.completed u a).make data →
      Finishes u s job a { s with manager := manager, told := job.told, latest := some a.response }
  | full {manager : Manager} : (∀ q, ¬ Holds u s.manager q) → (∀ q, ¬ Holds u manager q) →
      Finishes u s job a { s with manager := manager, told := job.told, latest := some a.response }

theorem finish_spec (h : Sole u s.manager) (job : Job) (a : Response) :
    Finishes u s job a (finish s job (job.completed u a)) := by
  obtain ⟨hsole, hadds⟩ := h.addHTTPCache (a := job.completed u a) rfl
  unfold finish
  split
  · exact .unchanged
  next hdisabled =>
  dsimp only
  by_cases hrefused : (job.completed u a).refused = true
  · have hcacheable : ¬ (job.completed u a).cacheable = true := by
      unfold Response.cacheable
      rw [hrefused]
      exact Bool.false_ne_true
    rw [if_neg hcacheable, addHTTPCache_refused hrefused]
    exact .unchanged
  have hrefused : (job.completed u a).refused = false := Bool.eq_false_of_not_eq_true hrefused
  cases hadds with
  | kept hcacheable hback =>
    have hnoStore : a.noStore = true := by
      by_contra hnot
      rw [cacheable_of hrefused (Bool.eq_false_of_not_eq_true hnot)] at hcacheable
      exact Bool.false_ne_true hcacheable.symm
    rw [if_neg (by rw [hcacheable]; exact Bool.false_ne_true)]
    exact .dropped (Bool.eq_false_of_not_eq_true hdisabled) hrefused hnoStore hback
  | updated hcacheable hp hp' hres =>
    rw [if_pos hcacheable]
    exact .updated hsole hp hp' hres
  | created hcacheable hnone hp' hres =>
    rw [if_pos hcacheable]
    exact .created hsole hnone hp' hres
  | full hcacheable hnone hnone' =>
    rw [if_pos hcacheable]
    exact .full hnone hnone'

theorem Carried.kept {manager : Manager} (h : Carried u s)
    (hkept : ∀ p, Holds u manager p → Holds u s.manager p ∧ Same (s.manager.cache.res p) (manager.cache.res p))
    (hjobs : ∀ job ∈ s.jobs, job.told = true → job.carries) : Carried u { s with manager := manager } := by
  refine ⟨fun p hp => ?_, fun htold p hp => ?_, fun job hjob htold => Or.inl (hjobs job hjob htold)⟩
  · obtain ⟨hp, hsame⟩ := hkept p hp
    exact hsame.firm (h.firm p hp)
  · obtain ⟨hp, hsame⟩ := hkept p hp
    exact hsame.marked.mpr (h.told htold p hp)

theorem Plain.kept {manager : Manager} (h : Plain u s)
    (hkept : ∀ p, Holds u manager p → Holds u s.manager p ∧ Same (s.manager.cache.res p) (manager.cache.res p)) :
    Plain u { s with manager := manager } := by
  refine ⟨h.jobs, fun p hp => ?_⟩
  obtain ⟨hp, hsame⟩ := hkept p hp
  show ¬ noted (manager.cache.res p) ∧ ∃ response, s.latest = some response ∧
    (manager.cache.res p).noCache = response.cacheControlContainsNoCache ∧
    (manager.cache.res p).mustRevalidate = response.cacheControlContainsMustRevalidate
  rw [hsame.noted, hsame.noCache, hsame.mustRevalidate]
  exact h.resource p hp

theorem Carried.finish (hsole : Sole u s.manager) (h : Carried u s) {job : Job} {a : Response}
    (hjob : job.told = true → job.carries ∨ ∃ p, Holds u s.manager p ∧ noted (s.manager.cache.res p))
    (hclear : s.manager.cache.disabled = false → (job.completed u a).refused = false → a.noStore = true →
      ∀ other ∈ s.jobs, other.told = true → other.carries) : Carried u (finish s job (job.completed u a)) := by
  have hspec := finish_spec hsole job a
  generalize HttpEquiv.finish s job (job.completed u a) = s' at hspec ⊢
  cases hspec with
  | unchanged => exact h
  | dropped hdisabled hrefused hnoStore hkept => exact h.kept hkept (hclear hdisabled hrefused hnoStore)
  | @updated manager p data hsole' hp hp' hres =>
    have hfirm : Firm (manager.cache.res p) := by
      rw [hres]
      exact onto_firm (h.firm p hp)
    -- what was noted at the resource still is
    have hnoted : (∃ q, Holds u s.manager q ∧ noted (s.manager.cache.res q)) → noted (manager.cache.res p) := by
      rintro ⟨q, hq, hnoted⟩
      rw [hres, onto_noted, hsole.unique hp hq]
      exact hnoted
    refine ⟨fun q hq => hsole'.unique hp' hq ▸ hfirm, fun htold q hq => ?_, fun other hother htold => ?_⟩
    · obtain rfl := hsole'.unique hp' hq
      rcases hjob htold with hcarries | hheld
      · show marked (manager.cache.res p)
        rw [hres]
        exact onto_marked (h.firm p hp) (completed_carries hcarries)
      · exact hfirm.marked (hnoted hheld)
    · exact (h.jobs other hother htold).imp_right fun hheld => ⟨p, hp', hnoted hheld⟩
  | @created manager p data hsole' hnone hp' hres =>
    have honly : ∀ job' : Job, (job'.carries ∨ ∃ q, Holds u s.manager q ∧ noted (s.manager.cache.res q)) → job'.carries :=
      fun job' hjob' => hjob'.resolve_right fun ⟨q, hq, _⟩ => hnone q hq
    refine ⟨fun q hq => ?_, fun htold q hq => ?_, fun other hother htold => Or.inl (honly other (h.jobs other hother htold))⟩
    · rw [← hsole'.unique hp' hq]
      show Firm (manager.cache.res p)
      rw [hres]
      exact make_firm _ data
    · rw [← hsole'.unique hp' hq]
      show marked (manager.cache.res p)
      rw [hres]
      exact make_marked (completed_carries (honly job (hjob htold)))
  | full hnone hnone' =>
    refine ⟨fun q hq => absurd hq (hnone' q), fun _ q hq => absurd hq (hnone' q), fun other hother htold => Or.inl ?_⟩
    exact (h.jobs other hother htold).resolve_right fun ⟨q, hq, _⟩ => hnone q hq

theorem Plain.finish (hsole : Sole u s.manager) (h : Plain u s) {job : Job} {a : Response} (hjob : ¬ job.carries) :
    Plain u (finish s job (job.completed u a)) := by
  have hspec := finish_spec hsole job a
  generalize HttpEquiv.finish s job (job.completed u a) = s' at hspec ⊢
  obtain ⟨hnoCache, hmust⟩ := completed_plain (a := a) (u := u) hjob
  cases hspec with
  | unchanged => exact h
  | dropped _ _ _ hkept => exact h.kept hkept
  | @updated manager p data hsole' hp hp' hres =>
    refine ⟨h.jobs, fun q hq => ?_⟩
    rw [← hsole'.unique hp' hq]
    have hnot := (h.resource p hp).1
    obtain ⟨hfirst, hsecond⟩ := not_or.mp hnot
    show ¬ noted (manager.cache.res p) ∧ ∃ response, some a.response = some response ∧
      (manager.cache.res p).noCache = _ ∧ (manager.cache.res p).mustRevalidate = _
    rw [hres, onto_noted, onto_noCache, onto_mustRevalidate, if_pos (not_not.mp hfirst), if_pos (not_not.mp hsecond)]
    exact ⟨hnot, a.response, rfl, hnoCache, hmust⟩
  | @created manager p data hsole' hnone hp' hres =>
    refine ⟨h.jobs, fun q hq => ?_⟩
    rw [← hsole'.unique hp' hq]
    show ¬ noted (manager.cache.res p) ∧ ∃ response, some a.response = some response ∧
      (manager.cache.res p).noCache = _ ∧ (manager.cache.res p).mustRevalidate = _
    rw [hres, make_noCache, make_mustRevalidate]
    exact ⟨make_not_noted _ data, a.response, rfl, hnoCache, hmust⟩
  | full hnone hnone' => exact ⟨h.jobs, fun q hq => absurd hq (hnone' q)⟩

/-! ### the write timer -/

theorem timer_spec (h : Sole u s.manager) (others : Bool) (io : FileIo) (fat : FatIo) :
    let m := s.manager.writeCacheTimerCallback (others || !s.jobs.isEmpty) io fat
    Sole u m ∧ ((m.cache = s.manager.cache ∧ m.writeCacheList = s.manager.writeCacheList) ∨
      (s.jobs = [] ∧ ∀ p, Holds u m p → Holds u s.manager p ∧ Same (s.manager.cache.res p) (m.cache.res p))) := by
  dsimp only
  cases hbusy : others || !s.jobs.isEmpty with
  | true =>
    obtain ⟨hcache, hlist⟩ := writeCacheTimerCallback_idle (s := s.manager) io fat (Or.inr (rfl : true = true))
    refine ⟨⟨?_, ?_⟩, Or.inl ⟨hcache, hlist⟩⟩
    · unfold Manager.core
      rw [hcache, hlist]
      exact h.indexed
    · rw [hcache, hlist]
      exact h.exact
  | false =>
    obtain ⟨hsole, hkept⟩ := h.writeCacheTimerCallback io fat
    have hjobs : s.jobs.isEmpty = true := by simpa using (Bool.or_eq_false_iff.mp hbusy).2
    exact ⟨hsole, Or.inr ⟨List.isEmpty_iff.mp hjobs, hkept⟩⟩

theorem holds_congr {m m' : Manager} (hcache : m'.cache = m.cache) (hlist : m'.writeCacheList = m.writeCacheList)
    (p : Ptr) : Holds u m' p ↔ Holds u m p := by
  unfold Holds
  rw [hcache, hlist]

theorem Carried.timer (hsole : Sole u s.manager) (h : Carried u s) (others : Bool) (io : FileIo) (fat : FatIo) :
    Carried u (step arith unicode u s (.writeCacheTimerCallback others io fat)) := by
  rcases (timer_spec hsole others io fat).2 with ⟨hcache, hlist⟩ | ⟨hjobs, hkept⟩
  · have hres := fun p => congrArg (fun c : HTTPCache => c.res p) hcache
    refine ⟨fun p hp => ?_, fun htold p hp => ?_, fun job hjob htold => ?_⟩
    · exact hres p ▸ h.firm p ((holds_congr hcache hlist p).mp hp)
    · exact hres p ▸ h.told htold p ((holds_congr hcache hlist p).mp hp)
    · refine (h.jobs job hjob htold).imp_right fun ⟨p, hp, hnoted⟩ => ⟨p, (holds_congr hcache hlist p).mpr hp, ?_⟩
      exact hres p ▸ hnoted
  · refine h.kept hkept fun job hjob => ?_
    rw [hjobs] at hjob
    exact absurd hjob List.not_mem_nil

theorem Plain.timer (hsole : Sole u s.manager) (h : Plain u s) (others : Bool) (io : FileIo) (fat : FatIo) :
    Plain u (step arith unicode u s (.writeCacheTimerCallback others io fat)) := by
  rcases (timer_spec hsole others io fat).2 with ⟨hcache, hlist⟩ | ⟨-, hkept⟩
  · refine h.kept fun p hp => ⟨(holds_congr hcache hlist p).mp hp, ?_⟩
    have hres := congrArg (fun c : HTTPCache => c.res p) hcache
    exact hres.symm ▸ same_refl _
  · exact h.kept hkept

/-! ### a directive -/

theorem mem_noteLast {content : WString} {cachecontrol : Bool} {jobs : List Job} {job : Job}
    (h : job ∈ noteLast arith unicode content cachecontrol jobs) :
    ∃ j ∈ jobs, job = j ∨ job = j.note arith unicode content cachecontrol := by
  unfold noteLast at h
  split at h
  · next last hlast =>
    rcases List.mem_append.mp h with h | h
    · exact ⟨job, List.mem_of_mem_dropLast h, Or.inl rfl⟩
    · exact ⟨last, List.mem_of_getLast? hlast, Or.inr (List.mem_singleton.mp h)⟩
  · exact absurd h List.not_mem_nil

theorem mem_noteLast_single {content : WString} {cachecontrol : Bool} {jobs : List Job} {job : Job}
    (hone : jobs.length ≤ 1) (h : job ∈ noteLast arith unicode content cachecontrol jobs) :
    ∃ j ∈ jobs, job = j.note arith unicode content cachecontrol := by
  match jobs, hone with
  | [], _ => exact absurd h List.not_mem_nil
  | [j], _ => exact ⟨j, List.mem_singleton_self j, List.mem_singleton.mp h⟩

/-- where a directive goes -/
inductive Notes (arith : Arithmetic) (unicode : Unicode) (u : KURL) (s : State) (content : WString)
    (cachecontrol : Bool) : State → Prop
  | resource {p : Ptr} : rsp u s.manager = some p →
      Notes arith unicode u s content cachecontrol { s with
        manager := put s.manager p (note arith unicode (s.manager.cache.res p) content cachecontrol) }
  | job : rsp u s.manager = none →
      Notes arith unicode u s content cachecontrol { s with
        m_scheduledJobList := noteLast arith unicode content cachecontrol s.m_scheduledJobList }

theorem processHttpEquiv_spec (arith : Arithmetic) (unicode : Unicode) (u : KURL) (s : State) (content : WString) (cachecontrol : Bool) :
    Notes arith unicode u s content cachecontrol (processHttpEquiv arith unicode u s content cachecontrol) := by
  unfold processHttpEquiv
  split
  · next p hrsp => exact .resource hrsp
  · next hrsp => exact .job hrsp

theorem put_res {m : Manager} {p : Ptr} {r : HTTPCachedResource} (q : Ptr) :
    (put m p r).cache.res q = if q = p then r else m.cache.res q := m.core.setRes_res p q r

theorem put_note {P : HTTPCachedResource → Prop} {m : Manager} {p q : Ptr} {content : WString} {cachecontrol : Bool}
    (hnote : P (m.cache.res p) → P (note arith unicode (m.cache.res p) content cachecontrol)) (h : P (m.cache.res q)) :
    P ((put m p (note arith unicode (m.cache.res p) content cachecontrol)).cache.res q) := by
  rw [put_res]
  split
  · next heq => exact hnote (heq ▸ h)
  · exact h

theorem note_marked {r : HTTPCachedResource} {content : WString} {cachecontrol : Bool} (h : marked r) :
    marked (note arith unicode r content cachecontrol) := by
  unfold marked
  rw [note_noCache, note_mustRevalidate, Bool.or_eq_true_iff, Bool.or_eq_true_iff]
  exact h.imp Or.inl Or.inl

theorem processHttpEquiv_sole (h : Sole u s.manager) (arith : Arithmetic) (unicode : Unicode) (content : WString) (cachecontrol : Bool) :
    Sole u (processHttpEquiv arith unicode u s content cachecontrol).manager := by
  have hspec := processHttpEquiv_spec arith unicode u s content cachecontrol
  generalize processHttpEquiv arith unicode u s content cachecontrol = s' at hspec ⊢
  cases hspec with
  | resource hrsp => exact h.put (h.rsp_known hrsp) note_url
  | job _ => exact h

theorem Carried.processHttpEquiv (h : Carried u s) (arith : Arithmetic) (unicode : Unicode) (content : WString) (cachecontrol : Bool) :
    Carried u (processHttpEquiv arith unicode u s content cachecontrol) := by
  have hspec := processHttpEquiv_spec arith unicode u s content cachecontrol
  generalize HttpEquiv.processHttpEquiv arith unicode u s content cachecontrol = s' at hspec ⊢
  cases hspec with
  | resource hrsp =>
    refine ⟨fun q hq => ?_, fun htold q hq => ?_, fun job hjob htold => ?_⟩
    · exact put_note note_firm (h.firm q ((holds_put note_url).mp hq))
    · exact put_note note_marked (h.told htold q ((holds_put note_url).mp hq))
    · refine (h.jobs job hjob htold).imp_right fun ⟨q, hq, hnoted⟩ => ⟨q, (holds_put note_url).mpr hq, ?_⟩
      exact put_note (fun h => note_noted.mpr (Or.inr h)) hnoted
  | job _ =>
    refine ⟨h.firm, h.told, fun job hjob htold => ?_⟩
    rcases List.mem_append.mp hjob with hjob | hjob
    · obtain ⟨j, hj, rfl | rfl⟩ := mem_noteLast hjob
      · exact h.jobs _ (List.mem_append_left _ hj) htold
      · rw [note_told] at htold
        exact (h.jobs j (List.mem_append_left _ hj) htold).imp_left fun hcarries => note_carries.mpr (Or.inr hcarries)
    · exact h.jobs job (List.mem_append_right _ hjob) htold

theorem Plain.processHttpEquiv (h : Plain u s) {content : WString} {cachecontrol : Bool}
    (hplain : forbids content cachecontrol = false) :
    Plain u (processHttpEquiv arith unicode u s content cachecontrol) := by
  have hspec := processHttpEquiv_spec arith unicode u s content cachecontrol
  generalize HttpEquiv.processHttpEquiv arith unicode u s content cachecontrol = s' at hspec ⊢
  have hnot : ¬ forbids content cachecontrol = true := by
    rw [hplain]
    exact Bool.false_ne_true
  cases hspec with
  | resource hrsp =>
    refine ⟨h.jobs, fun q hq => ?_⟩
    refine put_note (P := fun r => ¬ noted r ∧ ∃ response, s.latest = some response ∧
      r.noCache = response.cacheControlContainsNoCache ∧
      r.mustRevalidate = response.cacheControlContainsMustRevalidate) ?_ (h.resource q ((holds_put note_url).mp hq))
    intro hp
    rw [note_noted, or_iff_right hnot, (note_plain hplain).1, (note_plain hplain).2]
    exact hp
  | job _ =>
    refine ⟨fun job hjob => ?_, h.resource⟩
    rcases List.mem_append.mp hjob with hjob | hjob
    · obtain ⟨j, hj, rfl | rfl⟩ := mem_noteLast hjob
      · exact h.jobs _ (List.mem_append_left _ hj)
      · rw [note_carries, or_iff_right hnot]
        exact h.jobs j (List.mem_append_left _ hj)
    · exact h.jobs job (List.mem_append_right _ hjob)

theorem Carried.tell (h : Carried u s) (hmarked : ∀ p, Holds u s.manager p → marked (s.manager.cache.res p))
    (hjobs : ∀ job ∈ s.jobs, job.carries ∨ ∃ p, Holds u s.manager p ∧ noted (s.manager.cache.res p)) :
    Carried u s.tell := by
  refine ⟨h.firm, fun _ => hmarked, fun job hjob _ => ?_⟩
  have hmap : s.tell.jobs = s.jobs.map Job.tell := (List.map_append).symm
  rw [hmap] at hjob
  obtain ⟨j, hj, rfl⟩ := List.mem_map.mp hjob
  exact hjobs j hj

/-- A clear directive is noted at the resource, or there is none and it is noted at every job. -/
theorem Carried.directive (hsole : Sole u s.manager) (h : Carried u s) {content : WString} {cachecontrol : Bool}
    (hforbids : forbids content cachecontrol = true) (hclear : Clear u s (.processHttpEquiv content cachecontrol)) :
    Carried u (HttpEquiv.processHttpEquiv arith unicode u s content cachecontrol).tell := by
  have hafter := h.processHttpEquiv arith unicode content cachecontrol
  have hsole' := processHttpEquiv_sole hsole arith unicode content cachecontrol
  have hspec := processHttpEquiv_spec arith unicode u s content cachecontrol
  generalize HttpEquiv.processHttpEquiv arith unicode u s content cachecontrol = s' at hspec hafter hsole' ⊢
  cases hspec with
  | @resource p hrsp =>
    have hp : Holds u s.manager p := by
      rcases hclear hforbids with ⟨q, hq, hholds⟩ | ⟨hnone, -⟩
      · rw [hrsp] at hq
        exact Option.some.inj hq ▸ hholds
      · rw [hrsp] at hnone
        cases hnone
    have hp' : Holds u (put s.manager p (note arith unicode (s.manager.cache.res p) content cachecontrol)) p :=
      (holds_put note_url).mpr hp
    have hnoted : noted ((put s.manager p (note arith unicode (s.manager.cache.res p) content cachecontrol)).cache.res p) := by
      rw [put_res, if_pos rfl]
      exact note_noted.mpr (Or.inl hforbids)
    refine hafter.tell (fun q hq => ?_) fun job _ => Or.inr ⟨p, hp', hnoted⟩
    rw [← hsole'.unique hp' hq]
    exact (hafter.firm p hp').marked hnoted
  | job hrsp =>
    obtain ⟨-, hnone, hrunning, hone⟩ : rsp u s.manager = none ∧ s.manager.target u = none ∧ s.m_runningJobList = [] ∧
        s.m_scheduledJobList.length ≤ 1 := by
      rcases hclear hforbids with ⟨q, hq, -⟩ | hnone
      · rw [hrsp] at hq
        cases hq
      · exact hnone
    refine hafter.tell (fun q hq => absurd hq (hsole.target_none hnone q)) fun job hjob => Or.inl ?_
    rcases List.mem_append.mp hjob with hjob | hjob
    · obtain ⟨j, -, rfl⟩ := mem_noteLast_single hone hjob
      exact note_carries.mpr (Or.inl hforbids)
    · rw [show s.m_runningJobList = [] from hrunning] at hjob
      exact absurd hjob List.not_mem_nil

/-! ## runs -/

/-- what is so in every state of a clear run -/
structure Sound (u : KURL) (s : State) : Prop where
  sole : Sole u s.manager
  carried : Carried u s
  plain : s.everTold = false → Plain u s

theorem Sound.passes (h : Sound u s) (hp : Passes s s') : Sound u s' := by
  refine ⟨?_, h.carried.passes hp, fun hever => ?_⟩
  · rw [hp.manager]
    exact h.sole
  · rw [hp.everTold] at hever
    exact (h.plain hever).passes hp

theorem finish_everTold (s : State) (job : Job) (a : Response) : (finish s job a).everTold = s.everTold := by
  unfold finish
  split
  · rfl
  · dsimp only
    split <;> rfl

theorem processHttpEquiv_everTold (s : State) (content : WString) (cachecontrol : Bool) :
    (processHttpEquiv arith unicode u s content cachecontrol).everTold = s.everTold := by
  unfold processHttpEquiv
  split <;> rfl

theorem Sound.finish (h : Sound u s) {i : Nat} {job : Job} (hget : s.m_runningJobList[i]? = some job) {a : Response}
    (hclear : Clear u s (.finish i (some a))) : Sound u (finish (s.drop i) job (job.completed u a)) := by
  have hdrop := h.passes (passes_drop i)
  have hjob : job ∈ s.jobs := List.mem_append_right _ (List.mem_of_getElem? hget)
  refine ⟨finish_sole hdrop.sole job a, ?_, fun hever => ?_⟩
  · exact hdrop.carried.finish hdrop.sole (h.carried.jobs job hjob) (hclear job hget)
  · rw [finish_everTold] at hever
    exact (hdrop.plain hever).finish hdrop.sole ((h.plain hever).jobs job hjob)

theorem Sound.step (h : Sound u s) (op : Op) (hclear : Clear u s op) : Sound u (step arith unicode u s op) := by
  cases op with
  | schedule => exact h.passes passes_schedule
  | start i => exact h.passes (passes_start i)
  | finish i a =>
    unfold HttpEquiv.step
    dsimp only
    split
    · next job a hget => exact h.finish hget hclear
    · exact h.passes (passes_drop i)
  | processHttpEquiv content cachecontrol =>
    have hsole := processHttpEquiv_sole h.sole arith unicode content cachecontrol
    unfold HttpEquiv.step
    dsimp only
    split
    · next hforbids =>
      refine ⟨hsole, h.carried.directive h.sole hforbids hclear, fun hever => ?_⟩
      exact absurd hever.symm Bool.false_ne_true
    · next hplain =>
      refine ⟨hsole, h.carried.processHttpEquiv arith unicode content cachecontrol, fun hever => ?_⟩
      rw [processHttpEquiv_everTold] at hever
      exact (h.plain hever).processHttpEquiv (Bool.eq_false_of_not_eq_true hplain)
  | writeCacheTimerCallback others io fat =>
    refine ⟨(timer_spec h.sole others io fat).1, h.carried.timer h.sole others io fat, fun hever => ?_⟩
    exact (h.plain hever).timer h.sole others io fat

theorem Sound.reached (h : Sound u s) : Reached arith u s where
  told htold p hp now := needRevalidate_of_marked arith (h.carried.told htold p hp) now
  untold hever p hp := ((h.plain hever).resource p hp).2

theorem sound_start {m : Manager} (hm : Reachable m) (hu : m.target u = none) : Sound u { manager := m } := by
  have hsole : Sole u m := by
    refine ⟨hm.inv.2, fun q hq hequal => ?_⟩
    unfold target at hu
    split at hu
    · cases hu
    · cases hfind : m.findPending u with
      | none => exact absurd hequal (List.findIdx?_eq_none_iff.mp hfind q hq ▸ Bool.false_ne_true)
      | some n =>
        obtain ⟨hlt, -⟩ := List.findIdx?_eq_some_iff_getElem.mp hfind
        rw [hfind, Option.bind_some, List.getElem?_eq_getElem hlt] at hu
        cases hu
  have hnone := hsole.target_none hu
  refine ⟨hsole, ⟨fun p hp => absurd hp (hnone p), fun _ p hp => absurd hp (hnone p), ?_⟩, fun _ => ⟨?_, ?_⟩⟩
  · exact fun job hjob => absurd hjob List.not_mem_nil
  · exact fun job hjob => absurd hjob List.not_mem_nil
  · exact fun p hp => absurd hp (hnone p)

/-- In a clear run the directives reach the cache: whatever is in the index or waits for the URL is asked for again if a
directive has come since its load began, and is as the most recent response says if none ever came. -/
theorem reached_of_clear (arith : Arithmetic) (unicode : Unicode) (u : KURL) {m : Manager} (hm : Reachable m)
    (hu : m.target u = none) (ops : List Op) (hclear : Along (step arith unicode u) (Clear u) { manager := m } ops) :
    ∀ pre, pre <+: ops → Reached arith u (run (step arith unicode u) { manager := m } pre) := by
  intro pre hpre
  exact (hclear.inv_prefix (fun s op hop h => Sound.step h op hop) (sound_start hm hu) pre hpre).reached

end

end HttpEquiv

end

namespace HttpEquiv

/-! ## two runs -/

open Manager Runs Sample

/-- 1.0 -/
def instant : Double := ⟨0x3FF0000000000000⟩

/-- 3600.0 -/
def anHour : Double := ⟨0x40AC200000000000⟩

/-- a body that is fresh for an hour -/
def fresh : Response where
  url := page 1
  resourceData := some byte
  response := { date := instant, cacheControlMaxAge := anHour }
  now := instant

/-- The directive comes while the document is arriving: it is lost, and the document is served for an hour. -/
theorem directive_lost : Reachable {} ∧ ({} : Manager).target (page 1) = none ∧
    ∀ (arith : Arithmetic) (unicode : Unicode), arith.sub instant instant = Double.zero →
      let s := run (step arith unicode (page 1)) { manager := {} }
        [.schedule, .start 0, .processHttpEquiv noCacheText false, .finish 0 (some fresh)]
      s.told = true ∧ Holds (page 1) s.manager 0 ∧ needRevalidate arith (s.manager.cache.res 0) instant = false ∧
        ¬ Reached arith (page 1) s := by
  refine ⟨.fresh (c := {}) ⟨rfl, rfl, rfl, rfl, rfl⟩, rfl, fun arith unicode hsub => ?_⟩
  let job : Job := { told := true }
  let before : State := { manager := {}, told := true, everTold := true }
  have hrun : run (step arith unicode (page 1)) { manager := {} }
      [.schedule, .start 0, .processHttpEquiv noCacheText false, .finish 0 (some fresh)] =
      finish before job (job.completed (page 1) fresh) := rfl
  have hholds : Holds (page 1) (finish before job (job.completed (page 1) fresh)).manager 0 :=
    Or.inr ⟨by decide +kernel, by decide +kernel⟩
  have hserved : needRevalidate arith ((finish before job (job.completed (page 1) fresh)).manager.cache.res 0) instant =
      false := by
    have hmarked : ((finish before job (job.completed (page 1) fresh)).manager.cache.res 0).mustRevalidate = false ∧
        ((finish before job (job.completed (page 1) fresh)).manager.cache.res 0).noCache = false := by decide +kernel
    have hage : ((finish before job (job.completed (page 1) fresh)).manager.cache.res 0).date = instant ∧
        ((finish before job (job.completed (page 1) fresh)).manager.cache.res 0).maxAge = anHour := by decide +kernel
    unfold needRevalidate isExpired freshnessLifetime
    rw [hmarked.1, hmarked.2, hage.1, hage.2, hsub, if_pos (by decide)]
    decide
  rw [hrun]
  refine ⟨by decide +kernel, hholds, hserved, fun hreached => ?_⟩
  have hasked := hreached.told (by decide +kernel) 0 hholds instant
  rw [hserved] at hasked
  exact Bool.false_ne_true hasked

/-- some arithmetic -/
def noArithmetic : Arithmetic where
  sub a b := if a = b then Double.zero else Double.quietNaN
  tenth _ := Double.quietNaN
  ofInt _ := Double.zero

/-- The directive comes before its document does, and another one when that is in the cache. -/
def pageRun : List Op :=
  [.schedule, .processHttpEquiv noCacheText false, .start 0, .finish 0 (some fresh),
    .writeCacheTimerCallback true ⟨true, [1]⟩ ⟨false, false, false, []⟩, .processHttpEquiv mustRevalidateText true]

theorem reached_of_clear_page :
    Along (step noArithmetic Unicode.latin (page 1)) (Clear (page 1)) { manager := {} } pageRun ∧
      ∀ pre, pre <+: pageRun →
        Reached noArithmetic (page 1) (run (step noArithmetic Unicode.latin (page 1)) { manager := {} } pre) := by
  have hclear : Along (step noArithmetic Unicode.latin (page 1)) (Clear (page 1)) { manager := {} } pageRun := by
    refine ⟨trivial, fun _ => Or.inr ⟨?_, ?_, ?_, ?_⟩, trivial, fun _ _ _ _ hnoStore => absurd hnoStore (by decide),
      trivial, fun _ => Or.inl ⟨0, ?_, Or.inr ⟨?_, ?_⟩⟩, trivial⟩
    · rfl
    · rfl
    · rfl
    · exact Nat.le_refl 1
    · decide +kernel
    · decide +kernel
    · decide +kernel
  exact ⟨hclear, reached_of_clear noArithmetic Unicode.latin (page 1) (.fresh (c := {}) ⟨rfl, rfl, rfl, rfl, rfl⟩) rfl
    pageRun hclear⟩

end HttpEquiv

end Wkc
