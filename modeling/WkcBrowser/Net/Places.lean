import Mathlib.Logic.Relation
import WkcBrowser.Net.Transfers

/-!
# Where a job is

For one job the steps of `Net/Transfers` are moves between few places: the scheduled list, the running
list, libcurl.

* `Spot`, `Change`          the place of a job, and the moves; some of them are exceptions;
* `Spot.Ok`                 what every move keeps;
* `Good`, `Moved`           the same for the whole state, `spots` job by job;
* `step_moved`              every step is made of moves, with the exceptions of `exceptions`.
-/

namespace Wkc

/-- `run`: on the running list; `chal`: `m_doRedirectChallenge` -/
structure Spot where
  sched : Bool
  run : Bool
  att : Bool
  chal : Bool
  refs : Nat
  derefs : Nat
  known : Bool

/-- What may go wrong with a job: no handle for it; it leaves the running list with its handle attached;
libcurl refuses the handle again, for a job on the list or off it; the multi handle is renewed under it.  And
with the list: a job is taken from behind its end. -/
inductive Mishap where
  | lost
  | redirected
  | unplugged
  | dropped
  | stranded
  | astray

namespace Spot

def placed (p : Spot) : Bool := p.sched || p.run || p.att

structure Ok (p : Spot) : Prop where
  sched : p.sched = true → p.run = false ∧ p.att = false
  chal : p.chal = true → p.sched = false ∧ p.run = false
  att : p.att = true → p.run = true ∨ p.chal = true
  refs : p.refs ≤ 1
  derefs : p.derefs ≤ p.refs
  held : p.sched = true ∨ p.run = true ∨ p.att = true → p.refs = 1 ∧ p.derefs = 0
  known : p.sched = true ∨ p.run = true ∨ p.att = true ∨ p.chal = true → p.known = true

end Spot

inductive Change (X : Mishap → Prop) : Spot → Spot → Prop
  | enter (p : Spot) (new : p.known = false) : Change X p ⟨true, false, false, false, 1, 0, true⟩
  | enterCached (p : Spot) (new : p.known = false) : Change X p ⟨false, false, false, false, 0, 0, true⟩
  | unschedule (p : Spot) (h : p.sched = true) :
      Change X p { p with sched := false, derefs := p.derefs + 1 }
  | start (p : Spot) (h : p.sched = true) : Change X p { p with sched := false, run := true, att := true }
  | lose (p : Spot) (h : p.sched = true) (hx : X .lost) : Change X p { p with sched := false }
  | redirect (p : Spot) (h : p.run = true) (ha : p.att = true) (hx : X .redirected) :
      Change X p { p with run := false, chal := true }
  | reattach (p : Spot) (h : p.att = true) (b : Bool)
      (hx : b = false → if p.run then X .unplugged else X .dropped) : Change X p { p with att := b }
  | reschedule (p : Spot) (h : p.att = true) (hc : p.chal = true) :
      Change X p { p with att := false, chal := false, sched := true }
  | finish (p : Spot) (h : p.run = true ∨ p.att = true) :
      Change X p { p with run := false, att := false, derefs := p.derefs + 1 }
  | reset (p : Spot) (hr : p.run = false) (hx : p.att = true → X .stranded) : Change X p { p with att := false }

section
variable {X : Mishap → Prop} {p p' : Spot}

theorem Change.ok (hc : Change X p p') (h : p.Ok) : p'.Ok := by
  obtain ⟨h1, h2, h3, h4, h5, h6, h7⟩ := h
  cases hc with
  | enter | enterCached => constructor <;> simp
  | unschedule | start | lose | redirect | reattach | reschedule => constructor <;> simp_all
  | finish hr =>
    have hsched : p.sched = false := by
      by_contra hne
      obtain ⟨hrun, hatt⟩ := h1 (by simpa using hne)
      rw [hrun, hatt] at hr
      exact hr.elim Bool.false_ne_true Bool.false_ne_true
    constructor <;> simp_all
  | reset hr hx =>
    have hknown : p.sched = true ∨ p.chal = true → p.known = true :=
      fun hplace => h7 (hplace.imp_right fun hc => .inr (.inr hc))
    constructor <;> simp_all

/-- attached exactly while on the running list -/
def Spot.Listed (p : Spot) : Prop := p.att = p.run

/-- a reference is held only for a job that is somewhere -/
def Spot.Held (p : Spot) : Prop := p.refs = 1 → p.derefs = 0 → p.placed = true

theorem Change.listed (hc : Change X p p') (h : p.Ok) (hl : p.Listed) (hr : ¬ X .redirected)
    (hu : ¬ X .unplugged) : p'.Listed := by
  unfold Spot.Listed at hl ⊢
  cases hc with
  | enter | enterCached => rfl
  | unschedule _ => exact hl
  | start _ => rfl
  | lose _ _ => exact hl
  | redirect _ _ hx => exact absurd hx hr
  | reattach ha b hx =>
    have hrun : p.run = true := hl ▸ ha
    cases b with
    | true => exact hrun.symm
    | false =>
      have hx' := hx rfl
      rw [hrun, if_pos rfl] at hx'
      exact absurd hx' hu
  | reschedule ha hchal =>
    have hrun : p.run = true := hl ▸ ha
    rw [(h.chal hchal).2] at hrun
    cases hrun
  | finish _ => rfl
  | reset hr _ => exact hr.symm

theorem Change.held (hc : Change X p p') (hh : p.Held) (hl : ¬ X .lost) (hd : ¬ X .dropped)
    (hs : ¬ X .stranded) : p'.Held := by
  unfold Spot.Held Spot.placed at hh ⊢
  cases hc with
  | enter _ => exact fun _ _ => rfl
  | enterCached _ => exact fun hfalse => absurd hfalse Nat.zero_ne_one
  | unschedule _ => exact fun _ hfalse => absurd hfalse (Nat.succ_ne_zero _)
  | start _ => exact fun _ _ => by simp
  | lose _ hx => exact absurd hx hl
  | redirect _ ha _ => exact fun _ _ => by simp [ha]
  | reattach ha b hx =>
    intro _ _
    cases hrun : p.run with
    | true => simp
    | false =>
      cases b with
      | true => simp
      | false =>
        have hx' := hx rfl
        rw [hrun, if_neg Bool.false_ne_true] at hx'
        exact absurd hx' hd
  | reschedule _ _ => exact fun _ _ => rfl
  | finish _ => exact fun _ hfalse => absurd hfalse (Nat.succ_ne_zero _)
  | reset hr hx =>
    intro href hder
    cases hsched : p.sched with
    | true => rfl
    | false =>
      have hplaced := hh href hder
      rw [hsched, hr] at hplaced
      exact absurd (hx hplaced) hs

/-- several moves of one job -/
def Changes (X : Mishap → Prop) : Spot → Spot → Prop := Relation.ReflTransGen (Change X)

theorem Changes.ok (hc : Changes X p p') (h : p.Ok) : p'.Ok := by
  induction hc with
  | refl => exact h
  | tail _ hlast ih => exact hlast.ok ih

theorem Changes.listed (hc : Changes X p p') (h : p.Ok) (hl : p.Listed) (hr : ¬ X .redirected)
    (hu : ¬ X .unplugged) : p'.Listed := by
  induction hc with
  | refl => exact hl
  | tail hfirst hlast ih => exact hlast.listed (Changes.ok hfirst h) ih hr hu

theorem Changes.held (hc : Changes X p p') (hh : p.Held) (hl : ¬ X .lost) (hd : ¬ X .dropped)
    (hs : ¬ X .stranded) : p'.Held := by
  induction hc with
  | refl => exact hh
  | tail _ hlast ih => exact hlast.held ih hl hd hs

end

namespace Transfers

def spot (m : Transfers) (j : Nat) : Spot where
  sched := decide (j ∈ m.scheduledJobList)
  run := decide (j ∈ m.runningJobList)
  att := (m.transfer j).attached
  chal := (m.jobs j).doRedirectChallenge
  refs := (m.transfer j).refs
  derefs := (m.transfer j).derefs
  known := decide (j < m.next)

structure Good (m : Transfers) : Prop where
  scheduled_nodup : m.scheduledJobList.Nodup
  running_nodup : m.runningJobList.Nodup
  bound : m.httpConnections ≠ 0 → m.runningJobList.length ≤ m.httpConnections * 2
  handles : ∀ j ∈ m.runningJobList, (m.jobs j).handle = true
  ok : ∀ j, (m.spot j).Ok

/-- the step from `m` to `m'` is made of moves; `next` never falls -/
structure Moved (X : Mishap → Prop) (m m' : Transfers) : Prop where
  scheduled_nodup : m'.scheduledJobList.Nodup
  running_nodup : m'.runningJobList.Nodup
  bound : m'.httpConnections ≠ 0 → m'.runningJobList.length ≤ m'.httpConnections * 2
  handles : ∀ j ∈ m'.runningJobList, (m'.jobs j).handle = true
  spots : ∀ j, Changes X (m.spot j) (m'.spot j)
  inside : m'.astray = true → m.astray = true ∨ X .astray

section
variable {X : Mishap → Prop} {m m' m'' : Transfers}

theorem Moved.good (h : Moved X m m') (hg : m.Good) : m'.Good :=
  ⟨h.scheduled_nodup, h.running_nodup, h.bound, h.handles, fun j => (h.spots j).ok (hg.ok j)⟩

theorem Moved.trans (h : Moved X m m') (h' : Moved X m' m'') : Moved X m m'' :=
  ⟨h'.scheduled_nodup, h'.running_nodup, h'.bound, h'.handles, fun j => (h.spots j).trans (h'.spots j),
    fun hm => (h'.inside hm).elim h.inside Or.inr⟩

theorem Good.same_bound (hg : m.Good) (hc : m'.httpConnections = m.httpConnections)
    (hr : m'.runningJobList = m.runningJobList) :
    m'.httpConnections ≠ 0 → m'.runningJobList.length ≤ m'.httpConnections * 2 := by
  rw [hc, hr]
  exact hg.bound

theorem Good.same_handles (hg : m.Good) (hr : m'.runningJobList = m.runningJobList)
    (hh : ∀ j ∈ m.runningJobList, (m'.jobs j).handle = (m.jobs j).handle) :
    ∀ j ∈ m'.runningJobList, (m'.jobs j).handle = true := by
  intro j hj
  rw [hr] at hj
  rw [hh j hj]
  exact hg.handles j hj

theorem Good.moved (hg : m.Good) (hs : m'.scheduledJobList = m.scheduledJobList)
    (hr : m'.runningJobList = m.runningJobList) (hc : m'.httpConnections = m.httpConnections)
    (hh : ∀ j ∈ m.runningJobList, (m'.jobs j).handle = (m.jobs j).handle)
    (hspot : ∀ j, m'.spot j = m.spot j) (hin : m'.astray = m.astray) : Moved X m m' := by
  refine ⟨?_, ?_, ?_, hg.same_handles hr hh, ?_, fun hm => .inl (hin ▸ hm)⟩
  · rw [hs]
    exact hg.scheduled_nodup
  · rw [hr]
    exact hg.running_nodup
  · exact hg.same_bound hc hr
  · intro j
    rw [hspot j]
    exact .refl

theorem moves_one {i : Nat} (hin : m'.astray = m.astray) (hs : m'.scheduledJobList.Nodup)
    (hr : m'.runningJobList.Nodup)
    (hb : m'.httpConnections ≠ 0 → m'.runningJobList.length ≤ m'.httpConnections * 2)
    (hh : ∀ j ∈ m'.runningJobList, (m'.jobs j).handle = true)
    (hothers : ∀ j, j ≠ i → m'.spot j = m.spot j) (hone : Change X (m.spot i) (m'.spot i)) : Moved X m m' := by
  refine ⟨hs, hr, hb, hh, ?_, fun hm => .inl (hin ▸ hm)⟩
  intro j
  by_cases hj : j = i
  · rw [hj]
    exact .single hone
  · rw [hothers j hj]
    exact .refl

end

/-! ## the pieces of a step -/

section
variable {X : Mishap → Prop} {m m' m'' : Transfers} {i j : Nat}

@[simp] theorem lift_transfer (m : Transfers) (s : Scheduler) : (m.lift s).transfer = m.transfer := rfl
@[simp] theorem lift_toScheduler (m : Transfers) (s : Scheduler) : (m.lift s).toScheduler = s := rfl

@[simp] theorem setTransfer_self (m : Transfers) (j : Nat) (t : Transfer) :
    (m.setTransfer j t).transfer j = t := Function.update_self ..

theorem setTransfer_ne (m : Transfers) (h : i ≠ j) (t : Transfer) :
    (m.setTransfer j t).transfer i = m.transfer i := Function.update_of_ne h ..

/-- neither a list nor a handle that is attached nor a reference -/
structure Calm (m m' : Transfers) : Prop where
  scheduled : m'.scheduledJobList = m.scheduledJobList
  running : m'.runningJobList = m.runningJobList
  connections : m'.httpConnections = m.httpConnections
  next : m'.next = m.next
  attached : ∀ i, (m'.transfer i).attached = (m.transfer i).attached
  refs : ∀ i, (m'.transfer i).refs = (m.transfer i).refs
  derefs : ∀ i, (m'.transfer i).derefs = (m.transfer i).derefs
  challenge : ∀ i, (m'.jobs i).doRedirectChallenge = (m.jobs i).doRedirectChallenge
  handle : ∀ i ∈ m.runningJobList, (m'.jobs i).handle = (m.jobs i).handle
  inside : m'.astray = m.astray

theorem Calm.refl (m : Transfers) : Calm m m :=
  ⟨rfl, rfl, rfl, rfl, fun _ => rfl, fun _ => rfl, fun _ => rfl, fun _ => rfl, fun _ _ => rfl,
    rfl⟩

theorem Calm.of_eq (hs : m'.toScheduler = m.toScheduler) (ht : m'.transfer = m.transfer)
    (hin : m'.astray = m.astray) : Calm m m' := by
  refine ⟨?_, ?_, ?_, ?_, ?_, ?_, ?_, ?_, ?_, hin⟩ <;> simp [hs, ht]

theorem Calm.trans (h : Calm m m') (h' : Calm m' m'') : Calm m m'' where
  scheduled := h'.scheduled.trans h.scheduled
  running := h'.running.trans h.running
  connections := h'.connections.trans h.connections
  next := h'.next.trans h.next
  attached i := (h'.attached i).trans (h.attached i)
  refs i := (h'.refs i).trans (h.refs i)
  derefs i := (h'.derefs i).trans (h.derefs i)
  challenge i := (h'.challenge i).trans (h.challenge i)
  handle i hi := (h'.handle i (by rw [h.running]; exact hi)).trans (h.handle i hi)
  inside := h'.inside.trans h.inside

theorem Calm.spot (h : Calm m m') (i : Nat) : m'.spot i = m.spot i := by
  unfold Transfers.spot
  rw [h.scheduled, h.running, h.next, h.attached i, h.refs i, h.derefs i, h.challenge i]

theorem Good.calm (hg : m.Good) (h : Calm m m') : Moved X m m' :=
  hg.moved h.scheduled h.running h.connections h.handle h.spot h.inside

theorem calm_setTransfer {t : Transfer} (ha : t.attached = (m.transfer j).attached)
    (hr : t.refs = (m.transfer j).refs) (hd : t.derefs = (m.transfer j).derefs) :
    Calm m (m.setTransfer j t) := by
  refine ⟨rfl, rfl, rfl, rfl, ?_, ?_, ?_, fun _ => rfl, fun _ _ => rfl, rfl⟩
  · intro i
    by_cases hij : i = j
    · rw [hij, setTransfer_self, ha]
    · rw [setTransfer_ne m hij]
  · intro i
    by_cases hij : i = j
    · rw [hij, setTransfer_self, hr]
    · rw [setTransfer_ne m hij]
  · intro i
    by_cases hij : i = j
    · rw [hij, setTransfer_self, hd]
    · rw [setTransfer_ne m hij]

theorem calm_tell (m : Transfers) (j : Nat) : Calm m (m.tell j) := calm_setTransfer rfl rfl rfl

theorem calm_handleDataURL (m : Transfers) (j : Nat) : Calm m (m.handleDataURL j) := by
  unfold handleDataURL
  split
  · exact calm_tell m j
  · exact Calm.refl m

theorem setJob_challenge {d : Job} (hd : d.doRedirectChallenge = (m.jobs j).doRedirectChallenge) (i : Nat) :
    ((m.toScheduler.setJob j d).jobs i).doRedirectChallenge = (m.jobs i).doRedirectChallenge := by
  by_cases hij : i = j
  · rw [hij, Scheduler.setJob_self, hd]
  · rw [Scheduler.setJob_ne _ hij]

theorem calm_setJob {d : Job} (hd : d.doRedirectChallenge = (m.jobs j).doRedirectChallenge)
    (hh : j ∈ m.runningJobList → d.handle = (m.jobs j).handle) : Calm m (m.lift (m.setJob j d)) := by
  refine ⟨rfl, rfl, rfl, rfl, fun _ => rfl, fun _ => rfl, fun _ => rfl, setJob_challenge hd, ?_, rfl⟩
  intro i hi
  show ((m.toScheduler.setJob j d).jobs i).handle = _
  by_cases hij : i = j
  · rw [hij, Scheduler.setJob_self]
    exact hh (hij ▸ hi)
  · rw [Scheduler.setJob_ne _ hij]

theorem spot_setJob {d : Job} (hd : d.doRedirectChallenge = (m.jobs j).doRedirectChallenge) (i : Nat) :
    (m.lift (m.setJob j d)).spot i = m.spot i := by
  show Spot.mk _ _ _ ((m.toScheduler.setJob j d).jobs i).doRedirectChallenge _ _ _ = _
  rw [setJob_challenge hd]
  rfl

theorem Good.handles_others (hg : m.Good) {l : List Nat} (hl : ∀ i ∈ l, i ∈ m.runningJobList) (hj : j ∉ l)
    {jobs : Nat → Job} (hjobs : ∀ i, i ≠ j → jobs i = m.jobs i) : ∀ i ∈ l, (jobs i).handle = true := by
  intro i hi
  have hij : i ≠ j := fun heq => hj (heq ▸ hi)
  rw [hjobs i hij]
  exact hg.handles i (hl i hi)

theorem calm_cancel (hj : j ∉ m.scheduledJobList) : Calm m (m.cancel j) := by
  unfold cancel
  rw [if_neg hj]
  split
  · exact ⟨rfl, rfl, rfl, rfl, fun _ => rfl, fun _ => rfl, fun _ => rfl, fun _ => rfl, fun _ _ => rfl,
    rfl⟩
  · unfold Scheduler.cancel
    rw [if_neg hj]
    exact calm_setJob rfl fun _ => rfl

theorem spot_deref_self (m : Transfers) (j : Nat) :
    (m.deref j).spot j = { m.spot j with derefs := (m.spot j).derefs + 1 } := by
  unfold deref spot
  rw [setTransfer_self]
  rfl

theorem spot_deref_ne (m : Transfers) (h : i ≠ j) : (m.deref j).spot i = m.spot i := by
  unfold deref spot
  rw [setTransfer_ne m h]
  rfl

theorem spot_attach_self (m : Transfers) (j : Nat) (b : Bool) :
    (m.attach j b).spot j = { m.spot j with att := b } := by
  unfold attach spot
  rw [setTransfer_self]
  rfl

theorem spot_attach_ne (m : Transfers) (h : i ≠ j) (b : Bool) : (m.attach j b).spot i = m.spot i := by
  unfold attach spot
  rw [setTransfer_ne m h]
  rfl

theorem spot_unscheduled_self {l : List Nat} (hj : j ∉ l) :
    (m.lift { m.toScheduler with scheduledJobList := l }).spot j = { m.spot j with sched := false } := by
  show Spot.mk (decide (j ∈ l)) _ _ _ _ _ _ = _
  rw [decide_eq_false hj]
  rfl

theorem spot_unscheduled_ne {l : List Nat} (hi : i ∈ l ↔ i ∈ m.scheduledJobList) :
    (m.lift { m.toScheduler with scheduledJobList := l }).spot i = m.spot i := by
  show Spot.mk (decide (i ∈ l)) _ _ _ _ _ _ = _
  rw [decide_eq_decide.mpr hi]
  rfl

theorem spot_running_self {l : List Nat} :
    (m.lift { m.toScheduler with runningJobList := l }).spot j = { m.spot j with run := decide (j ∈ l) } := rfl

theorem spot_running_ne {l : List Nat} (hi : i ∈ l ↔ i ∈ m.runningJobList) :
    (m.lift { m.toScheduler with runningJobList := l }).spot i = m.spot i := by
  show Spot.mk _ (decide (i ∈ l)) _ _ _ _ _ = _
  rw [decide_eq_decide.mpr hi]
  rfl

/-! ## the operations -/

theorem spot_sched (h : j ∈ m.scheduledJobList) : (m.spot j).sched = true := decide_eq_true h

theorem spot_run (h : j ∈ m.runningJobList) : (m.spot j).run = true := decide_eq_true h

theorem Good.cancel (hg : m.Good) (j : Nat) : Moved X m (m.cancel j) := by
  by_cases hj : j ∈ m.scheduledJobList
  · have heq : m.cancel j =
        (m.lift { m.toScheduler with scheduledJobList := m.scheduledJobList.erase j }).deref j := by
      unfold Transfers.cancel Scheduler.cancel
      rw [if_pos hj, if_pos hj]
    rw [heq]
    refine moves_one (i := j) rfl (hg.scheduled_nodup.erase j) hg.running_nodup hg.bound hg.handles ?_ ?_
    · intro i hij
      rw [spot_deref_ne _ hij, spot_unscheduled_ne (List.mem_erase_of_ne hij)]
    · rw [spot_deref_self, spot_unscheduled_self hg.scheduled_nodup.not_mem_erase]
      exact .unschedule _ (spot_sched hj)
  · exact hg.calm (calm_cancel hj)

theorem Good.cancels (hg : m.Good) (l : List Nat) : Moved X m (l.foldl Transfers.cancel m) := by
  induction l generalizing m with
  | nil => exact hg.calm (Calm.refl m)
  | cons j l ih =>
    have hfirst := @Good.cancel X m hg j
    exact hfirst.trans (ih (hfirst.good hg))

theorem appended_challenge (harmfulSiteFilter : Bool) (q : Asked) (d : Job) :
    (d.appended harmfulSiteFilter q).doRedirectChallenge = d.doRedirectChallenge := by
  unfold Job.appended Job.canPermitRequest
  dsimp only
  split_ifs <;> rfl

theorem Good.permitRequest (hg : m.Good) (j : Nat) (permit : Bool) :
    Moved X m (m.lift (m.toScheduler.permitRequest j permit)) := by
  apply hg.calm
  unfold Scheduler.permitRequest
  split
  · apply calm_setJob
    · unfold Job.permit
      split_ifs <;> rfl
    · intro _
      unfold Job.permit
      split_ifs <;> rfl
  · exact Calm.refl m

theorem Good.fresh (hg : m.Good) : m.next ∉ m.scheduledJobList ∧ m.next ∉ m.runningJobList := by
  have hunknown : (m.spot m.next).known = false := decide_eq_false (Nat.lt_irrefl _)
  constructor
  · intro hmem
    have hknown := (hg.ok m.next).known (.inl (spot_sched hmem))
    rw [hunknown] at hknown
    cases hknown
  · intro hmem
    have hknown := (hg.ok m.next).known (.inr (.inl (spot_run hmem)))
    rw [hunknown] at hknown
    cases hknown

theorem known_other (h : i ≠ m.next) : decide (i < m.next + 1) = decide (i < m.next) :=
  decide_eq_decide.mpr (by omega)

theorem Good.add (hg : m.Good) (url : KURL) (matchProxyFilter cached : Bool) (q : Asked) :
    Moved X m (m.add url matchProxyFilter cached q) := by
  obtain ⟨hsched, hrun⟩ := hg.fresh
  have hnew : (m.spot m.next).known = false := decide_eq_false (Nat.lt_irrefl _)
  unfold Transfers.add Scheduler.add
  cases cached with
  | true =>
    refine moves_one (i := m.next) rfl hg.scheduled_nodup hg.running_nodup hg.bound ?_ ?_ ?_
    · refine hg.handles_others (j := m.next) (fun _ hi => hi) hrun ?_
      exact fun i hij => Scheduler.setJob_ne _ hij _
    · intro i hij
      simp only [spot, setTransfer, lift, Scheduler.setJob, if_true, known_other hij, Function.update_of_ne hij]
    · have hspot : (m.add url matchProxyFilter true q).spot m.next = ⟨false, false, false, false, 0, 0, true⟩ := by
        simp [spot, Transfers.add, Scheduler.add, setTransfer, lift, Scheduler.setJob, hsched, hrun]
      exact hspot ▸ .enterCached _ hnew
  | false =>
    refine moves_one (i := m.next) rfl (Scheduler.nodup_snoc hg.scheduled_nodup hsched) hg.running_nodup hg.bound
      ?_ ?_ ?_
    · refine hg.handles_others (j := m.next) (fun _ hi => hi) hrun ?_
      exact fun i hij => (Scheduler.setJob_ne _ hij _).trans (Scheduler.setJob_ne _ hij _)
    · intro i hij
      simp only [spot, setTransfer, lift, Scheduler.setJob, Scheduler.appendScheduledJob, Bool.false_eq_true,
        if_false, known_other hij, Function.update_of_ne hij, List.mem_append, List.mem_singleton, hij, or_false]
    · have hspot : (m.add url matchProxyFilter false q).spot m.next = ⟨true, false, false, false, 1, 0, true⟩ := by
        simp [spot, Transfers.add, Scheduler.add, setTransfer, lift, Scheduler.setJob,
          Scheduler.appendScheduledJob, hrun, appended_challenge]
      exact hspot ▸ .enter _ hnew

/-! the end of a transfer, and its next attempt -/

theorem Good.erased (hg : m.Good) (j : Nat) : (m.runningJobList.erase j).Nodup ∧
    (m.runningJobList.erase j).length ≤ m.runningJobList.length ∧ decide (j ∈ m.runningJobList.erase j) = false :=
  ⟨hg.running_nodup.erase j, (List.erase_sublist).length_le, decide_eq_false hg.running_nodup.not_mem_erase⟩

theorem Good.remove (hg : m.Good) (h : j ∈ m.runningJobList ∨ (m.transfer j).attached = true) :
    Moved X m (m.remove j) := by
  have hself : ∀ i, (m.lift (m.setJob j { m.jobs j with handle := false })).spot i = m.spot i :=
    spot_setJob rfl
  have heq : m.remove j = (((m.lift (m.setJob j { m.jobs j with handle := false })).lift
      { (m.lift (m.setJob j { m.jobs j with handle := false })).toScheduler with
        runningJobList := m.runningJobList.erase j }).attach j false).deref j := rfl
  obtain ⟨hnodup, hshort, hnot⟩ := hg.erased j
  refine moves_one (i := j) rfl hg.scheduled_nodup hnodup
    (fun hc => hshort.trans (hg.bound hc)) ?_ ?_ ?_
  · refine hg.handles_others (fun _ hi => List.mem_of_mem_erase hi) hg.running_nodup.not_mem_erase ?_
    exact fun i hij => Scheduler.setJob_ne _ hij _
  · intro i hij
    have hrun := @spot_running_ne (m.lift (m.setJob j { m.jobs j with handle := false })) i _
      (List.mem_erase_of_ne (l := m.runningJobList) hij)
    rw [heq, spot_deref_ne _ hij, spot_attach_ne _ hij, hrun, hself]
  · rw [heq, spot_deref_self, spot_attach_self, spot_running_self, hself, hnot]
    exact .finish _ (h.imp spot_run id)

theorem Good.reattach (hg : m.Good) (ha : (m.transfer j).attached = true) {c : Message}
    (hx : c.added = false → if j ∈ m.runningJobList then X .unplugged else X .dropped) :
    Moved X m (m.attach j c.added) := by
  refine moves_one (i := j) rfl hg.scheduled_nodup hg.running_nodup hg.bound hg.handles ?_ ?_
  · exact fun i hij => spot_attach_ne m hij _
  · rw [spot_attach_self]
    refine .reattach _ ha _ ?_
    intro hadded
    have hx' := hx hadded
    by_cases hj : j ∈ m.runningJobList
    · rw [if_pos hj] at hx'
      rw [spot_run hj, if_pos rfl]
      exact hx'
    · rw [if_neg hj] at hx'
      rw [show (m.spot j).run = false from decide_eq_false hj, if_neg Bool.false_ne_true]
      exact hx'

theorem Good.reschedule (hg : m.Good) (ha : (m.transfer j).attached = true)
    (hc : (m.jobs j).doRedirectChallenge = true) (q : Asked) :
    Moved X m ((m.attach j false).lift (m.toScheduler.doRedirect j q)) := by
  have hoff : j ∉ m.scheduledJobList ∧ j ∉ m.runningJobList := by
    obtain ⟨hs, hr⟩ := (hg.ok j).chal hc
    exact ⟨of_decide_eq_false hs, of_decide_eq_false hr⟩
  refine moves_one (i := j) rfl (Scheduler.nodup_snoc hg.scheduled_nodup hoff.1) hg.running_nodup hg.bound ?_ ?_ ?_
  · refine hg.handles_others (fun _ hi => hi) hoff.2 ?_
    exact fun i hij => (Scheduler.setJob_ne _ hij _).trans (Scheduler.setJob_ne _ hij _)
  · intro i hij
    simp [spot, attach, setTransfer, lift, Scheduler.doRedirect, Scheduler.setJob, Scheduler.appendScheduledJob,
      hij]
  · have hspot : ((m.attach j false).lift (m.toScheduler.doRedirect j q)).spot j =
        { m.spot j with att := false, chal := false, sched := true } := by
      simp [spot, attach, setTransfer, lift, Scheduler.doRedirect, Scheduler.setJob,
        Scheduler.appendScheduledJob, appended_challenge]
    rw [hspot]
    exact .reschedule _ ha hc

/-- there is another attempt, unless the password is missing -/
def retries (m : Transfers) (j : Nat) : Prop :=
  (m.jobs j).cancelled = false ∧ ((m.transfer j).didAuthChallenge = true ∨ (m.jobs j).sslReconnect = true)

/-- what a refused handle is, for a job on the running list or off it -/
def Refused (X : Mishap → Prop) (m : Transfers) (j : Nat) (c : Message) : Prop :=
  m.retries j → c.added = false → if j ∈ m.runningJobList then X .unplugged else X .dropped

theorem Good.removeFromCurl (hg : m.Good) (ha : (m.transfer j).attached = true) {c : Message}
    (hx : Refused X m j c) : Moved X m (m.removeFromCurl j c) := by
  unfold Transfers.removeFromCurl
  split
  · exact hg.calm (Calm.refl m)
  split
  · exact hg.remove (.inr ha)
  next hcancelled =>
  have hcancelled : (m.jobs j).cancelled = false := Bool.eq_false_of_not_eq_true hcancelled
  have hcalm : Calm m (m.setTransfer j { m.transfer j with didAuthChallenge := false }) :=
    calm_setTransfer rfl rfl rfl
  have hfirst : Moved X m _ := hg.calm hcalm
  have hg' := hfirst.good hg
  have ha' : ((m.setTransfer j { m.transfer j with didAuthChallenge := false }).transfer j).attached = true := by
    rw [setTransfer_self]
    exact ha
  have hjob : (m.setTransfer j { m.transfer j with didAuthChallenge := false }).jobs j = m.jobs j := rfl
  dsimp only
  generalize m.setTransfer j { m.transfer j with didAuthChallenge := false } = m' at hcalm hfirst hg' ha' hjob
  have hx' : m.retries j → c.added = false → if j ∈ m'.runningJobList then X .unplugged else X .dropped := by
    rw [hcalm.running]
    exact hx
  split
  · next hagain => exact hfirst.trans (hg'.reattach ha' (hx' ⟨hcancelled, .inl (Bool.and_eq_true_iff.mp hagain).1⟩))
  split
  · next hreconnect =>
    have hssl : Calm m' (m'.lift (m'.setJob j
        { m'.jobs j with permitSend := .PERMIT, sslReconnect := false })) := calm_setJob rfl fun _ => rfl
    have hsecond : Moved X m' _ := hg'.calm hssl
    refine hfirst.trans (hsecond.trans ((hsecond.good hg').reattach ?_ ?_))
    · rw [hssl.attached j]
      exact ha'
    · rw [hssl.running]
      exact hx' ⟨hcancelled, .inr (hjob ▸ hreconnect)⟩
  split
  · next hboth => exact hfirst.trans (hg'.reschedule ha' (Bool.and_eq_true_iff.mp hboth).2 c.asked)
  · exact hfirst.trans (hg'.remove (.inr ha'))

/-! a turn takes the first job off the list -/

theorem Good.head (hg : m.Good) {rest : List Nat} (hlist : m.scheduledJobList = j :: rest) :
    j ∉ rest ∧ rest.Nodup := by
  have hnodup := hg.scheduled_nodup
  rw [hlist] at hnodup
  exact List.nodup_cons.mp hnodup

theorem tail_mem {rest : List Nat} (hlist : m.scheduledJobList = j :: rest) (hij : i ≠ j) :
    i ∈ rest ↔ i ∈ m.scheduledJobList := by
  rw [hlist, List.mem_cons, or_iff_right hij]

theorem head_mem {rest : List Nat} (hlist : m.scheduledJobList = j :: rest) : j ∈ m.scheduledJobList := by
  rw [hlist]
  exact List.mem_cons_self

theorem Good.unschedule (hg : m.Good) {rest : List Nat} (hlist : m.scheduledJobList = j :: rest)
    (hc : Calm (m.lift { m.toScheduler with scheduledJobList := rest }) m') : Moved X m (m'.deref j) := by
  obtain ⟨hnot, hnodup⟩ := hg.head hlist
  refine moves_one (i := j) hc.inside ?_ ?_ ?_ ?_ ?_ ?_
  · exact hc.scheduled.symm ▸ hnodup
  · exact hc.running.symm ▸ hg.running_nodup
  · exact hg.same_bound hc.connections hc.running
  · exact hg.same_handles hc.running hc.handle
  · intro i hij
    rw [spot_deref_ne _ hij, hc.spot, spot_unscheduled_ne (tail_mem hlist hij)]
  · rw [spot_deref_self, hc.spot, spot_unscheduled_self hnot]
    exact .unschedule _ (spot_sched (head_mem hlist))

theorem Good.lose (hg : m.Good) {rest : List Nat} (hlist : m.scheduledJobList = j :: rest) (hx : X .lost)
    (hc : Calm (m.lift { m.toScheduler with scheduledJobList := rest }) m') : Moved X m m' := by
  obtain ⟨hnot, hnodup⟩ := hg.head hlist
  refine moves_one (i := j) hc.inside ?_ ?_ ?_ ?_ ?_ ?_
  · exact hc.scheduled.symm ▸ hnodup
  · exact hc.running.symm ▸ hg.running_nodup
  · exact hg.same_bound hc.connections hc.running
  · exact hg.same_handles hc.running hc.handle
  · intro i hij
    rw [hc.spot, spot_unscheduled_ne (tail_mem hlist hij)]
  · rw [hc.spot, spot_unscheduled_self hnot]
    exact .lose _ (spot_sched (head_mem hlist)) hx

theorem admits_length (hadm : m.admits = true) (hne : m.httpConnections ≠ 0) :
    m.runningJobList.length < m.httpConnections * 2 := by
  unfold Scheduler.admits at hadm
  have hfirst := (Bool.and_eq_true_iff.mp hadm).1
  rcases Bool.or_eq_true_iff.mp hfirst with hzero | hlt
  · exact absurd (by simpa using hzero) hne
  · exact of_decide_eq_true hlt

theorem Good.start (hg : m.Good) {rest : List Nat} (hlist : m.scheduledJobList = j :: rest)
    (hadm : m.admits = true) (hc : Calm (m.lift { m.toScheduler with scheduledJobList := rest }) m')
    (hh : (m'.jobs j).handle = true) :
    Moved X m ((m'.lift { m'.toScheduler with runningJobList := m'.runningJobList ++ [j] }).attach j true) := by
  obtain ⟨hnot, hnodup⟩ := hg.head hlist
  have hoff : j ∉ m'.runningJobList := by
    rw [hc.running]
    exact of_decide_eq_false ((hg.ok j).sched (spot_sched (head_mem hlist))).1
  refine moves_one (i := j) hc.inside ?_ ?_ ?_ ?_ ?_ ?_
  · exact hc.scheduled.symm ▸ hnodup
  · refine Scheduler.nodup_snoc ?_ hoff
    exact hc.running.symm ▸ hg.running_nodup
  · intro hne
    have hlen := admits_length hadm (fun hzero => hne (hc.connections.trans hzero))
    have hcon : m'.httpConnections = m.httpConnections := hc.connections
    have hrun : m'.runningJobList = m.runningJobList := hc.running
    show (m'.runningJobList ++ [j]).length ≤ m'.httpConnections * 2
    rw [hcon, hrun, List.length_append, List.length_singleton]
    exact hlen
  · intro i hi
    rcases List.mem_append.mp hi with hi | hi
    · exact @Good.same_handles m m' hg hc.running hc.handle i hi
    · rw [List.mem_singleton.mp hi]
      exact hh
  · intro i hij
    have hmem : i ∈ m'.runningJobList ++ [j] ↔ i ∈ m'.runningJobList := by
      rw [List.mem_append, List.mem_singleton, or_iff_left hij]
    rw [spot_attach_ne _ hij, spot_running_ne hmem, hc.spot, spot_unscheduled_ne (tail_mem hlist hij)]
  · have hmem : decide (j ∈ m'.runningJobList ++ [j]) = true :=
      decide_eq_true (List.mem_append_right _ List.mem_cons_self)
    rw [spot_attach_self, spot_running_self, hc.spot, spot_unscheduled_self hnot, hmem]
    exact .start _ (spot_sched (head_mem hlist))

theorem Good.startJob (hg : m.Good) {rest : List Nat} (hlist : m.scheduledJobList = j :: rest)
    (hadm : m.admits = true) (r : Started)
    (hx : (m.jobs j).url.protocolIsData = false → (Scheduler.initializeHandle (m.jobs j) r).handle = false →
      X .lost) :
    Moved X m ((m.lift { m.toScheduler with scheduledJobList := rest }).startJob j r) := by
  obtain ⟨hnot, _⟩ := hg.head hlist
  have hrun : j ∉ m.runningJobList := of_decide_eq_false ((hg.ok j).sched (spot_sched (head_mem hlist))).1
  unfold Transfers.startJob
  split
  · refine hg.unschedule hlist ((calm_handleDataURL _ j).trans (calm_cancel ?_))
    rw [(calm_handleDataURL _ j).scheduled]
    exact hnot
  · next hdata =>
    have hinit : Calm (m.lift { m.toScheduler with scheduledJobList := rest })
        ((m.lift { m.toScheduler with scheduledJobList := rest }).lift
          (({ m.toScheduler with scheduledJobList := rest } : Scheduler).setJob j
            (Scheduler.initializeHandle (m.jobs j) r))) :=
      calm_setJob (Scheduler.initializeHandle_challenge (m.jobs j) r) fun hj => absurd hj hrun
    have hjob : ((({ m.toScheduler with scheduledJobList := rest } : Scheduler).setJob j
        (Scheduler.initializeHandle (m.jobs j) r)).jobs j) = Scheduler.initializeHandle (m.jobs j) r :=
      Scheduler.setJob_self ..
    dsimp only
    split
    · next hhandle =>
      refine hg.lose hlist (hx (Bool.eq_false_of_not_eq_true hdata) ?_) (hinit.trans (calm_tell _ j))
      rw [← hjob]
      exact hhandle
    split
    · refine hg.unschedule hlist (hinit.trans ?_)
      refine (calm_cancel ?_).trans ((calm_tell _ j).trans (calm_setJob rfl ?_))
      · exact hnot
      · intro hj
        rw [(calm_tell _ j).running, (calm_cancel hnot).running] at hj
        exact absurd hj hrun
    · next hhandle _ => exact hg.start hlist hadm hinit (Bool.eq_true_of_not_eq_false hhandle)

theorem Good.turn (hg : m.Good) (r : Started)
    (hx : m.admits = true → ∀ j, m.scheduledJobList.head? = some j → (m.jobs j).cancelled = false →
      (m.jobs j).url.protocolIsData = false → (Scheduler.initializeHandle (m.jobs j) r).handle = false →
      X .lost) : Moved X m (m.turn r) := by
  unfold Transfers.turn
  split
  · exact hg.calm (Calm.refl m)
  next hadm =>
  have hadm : m.admits = true := Bool.eq_true_of_not_eq_false hadm
  cases hlist : m.scheduledJobList with
  | nil =>
    rw [Scheduler.shiftScheduledJob_nil hlist]
    exact hg.calm (Calm.refl m)
  | cons j rest =>
    rw [Scheduler.shiftScheduledJob_head hadm hlist]
    dsimp only
    split
    · have htold : Calm (m.lift { m.toScheduler with scheduledJobList := rest })
          (if (m.jobs j).permitSend = .CANCEL then
            (m.lift { m.toScheduler with scheduledJobList := rest }).tell j
          else m.lift { m.toScheduler with scheduledJobList := rest }) := by
        split
        · exact calm_tell _ j
        · exact Calm.refl _
      refine hg.unschedule hlist (htold.trans (calm_setJob rfl ?_))
      intro hj
      rw [htold.running] at hj
      have hrun := ((hg.ok j).sched (spot_sched (head_mem hlist))).1
      exact absurd hj (of_decide_eq_false hrun)
    · next hcancelled =>
      refine hg.startJob hlist hadm r (hx hadm j ?_ (Bool.eq_false_of_not_eq_true hcancelled))
      rw [hlist]
      rfl

theorem Good.didReceiveRedirect (hg : m.Good) (j : Nat) (newURL : KURL)
    (hx : m.redirectInWKC = true → (m.transfer j).attached = true → j ∈ m.runningJobList →
      (m.jobs j).redirectCount + 1 ≤ redirectMaxCount → X .redirected) :
    Moved X m (m.didReceiveRedirect j newURL) := by
  unfold Transfers.didReceiveRedirect
  split
  case isFalse => exact hg.calm (Calm.refl m)
  next ha =>
  unfold Scheduler.didReceiveRedirect
  split
  · exact hg.calm (Calm.refl m)
  next hrun =>
  have hrun : j ∈ m.runningJobList := not_not.mp hrun
  split
  · exact hg.calm (calm_setJob rfl fun _ => rfl)
  next hwkc =>
  split
  · exact hg.calm (calm_setJob rfl fun _ => rfl)
  next hcount =>
  have hx : X .redirected := hx (Bool.eq_true_of_not_eq_false hwkc) ha hrun (Nat.le_of_not_lt hcount)
  obtain ⟨hnodup, hshort, hnot⟩ := hg.erased j
  refine moves_one (i := j) rfl hg.scheduled_nodup hnodup
    (fun hne => hshort.trans (hg.bound hne)) ?_ ?_ ?_
  · refine hg.handles_others (fun _ hi => List.mem_of_mem_erase hi) hg.running_nodup.not_mem_erase ?_
    exact fun i hij => Scheduler.setJob_ne _ hij _
  · intro i hij
    show Spot.mk _ (decide (i ∈ m.runningJobList.erase j)) _
      ((m.toScheduler.setJob j _).jobs i).doRedirectChallenge _ _ _ = _
    rw [decide_eq_decide.mpr (List.mem_erase_of_ne hij), Scheduler.setJob_ne _ hij]
    rfl
  · show Change X _ (Spot.mk _ (decide (j ∈ m.runningJobList.erase j)) _
      ((m.toScheduler.setJob j _).jobs j).doRedirectChallenge _ _ _)
    rw [hnot, Scheduler.setJob_self]
    exact .redirect _ (spot_run hrun) ha hx

/-! a message: until `removeFromCurl` nothing moves, for the job is not scheduled -/

/-- the transfer of a message; it has not been redirected -/
structure Live (X : Mishap → Prop) (m : Transfers) (j : Nat) (c : Message) : Prop where
  good : m.Good
  attached : (m.transfer j).attached = true
  running : j ∈ m.runningJobList
  refused : c.added = false → X .unplugged

variable {c : Message}

theorem Live.calm (h : Live X m j c) (hc : Calm m m') : Live X m' j c where
  good := (h.good.calm (X := X) hc).good h.good
  attached := (hc.attached j).trans h.attached
  running := hc.running.symm ▸ h.running
  refused := h.refused

theorem Live.unscheduled (h : Live X m j c) : j ∉ m.scheduledJobList := by
  intro hj
  have hatt := ((h.good.ok j).sched (spot_sched hj)).2
  rw [show (m.spot j).att = (m.transfer j).attached from rfl, h.attached] at hatt
  cases hatt

theorem Live.moved (h : Live X m j c) (hc : Calm m m') : Moved X m m' := h.good.calm hc

theorem Live.removed (h : Live X m j c) (hc : Calm m m') : Moved X m (m'.removeFromCurl j c) := by
  have h' := h.calm hc
  refine (h.moved hc).trans (h'.good.removeFromCurl h'.attached ?_)
  intro _ hadded
  rw [if_pos h'.running]
  exact h'.refused hadded

theorem Live.heard (h : Live X m j c) (cancels : Bool) : Calm m (m.heard j cancels) := by
  unfold Transfers.heard
  split
  · exact calm_cancel h.unscheduled
  · exact Calm.refl m

theorem Live.ends (h : Live X m j c) : Calm m (m.ends j c) :=
  (calm_tell m j).trans ((h.calm (calm_tell m j)).heard c.cancelsEnd)

theorem Live.leave (h : Live X m j c) (hc : Calm m m') : Moved X m (m'.leave j c) := by
  unfold Transfers.leave
  split
  · exact h.moved hc
  split
  · exact h.moved hc
  · exact h.removed hc

theorem Live.fail (h : Live X m j c) : Moved X m (m.fail j c) := by
  unfold Transfers.fail
  split
  · exact h.leave (calm_setJob rfl fun _ => rfl)
  · exact h.leave h.ends

theorem Live.finish (h : Live X m j c) : Moved X m (m.finish j c) := by
  unfold Transfers.finish
  have hheard : Calm m (if c.responseFired then m else m.heard j c.cancelsResponse) := by
    split
    · exact Calm.refl m
    · exact h.heard c.cancelsResponse
  dsimp only
  generalize (if c.responseFired then m else m.heard j c.cancelsResponse) = m' at hheard
  have hends : Calm m (m'.ends j c) := hheard.trans (h.calm hheard).ends
  split
  · exact h.removed hheard
  split
  · refine h.removed (hheard.trans ?_)
    exact ⟨rfl, rfl, rfl, rfl, fun _ => rfl, fun _ => rfl, fun _ => rfl, fun _ => rfl, fun _ _ => rfl,
    rfl⟩
  split
  · exact h.removed hends
  · exact h.leave hends

theorem Live.result (h : Live X m j c) : Moved X m (m.result j c) := by
  unfold Transfers.result
  split
  · exact h.leave h.ends
  split
  · exact h.finish
  · exact h.finish
  · split
    · exact h.leave h.ends
    · exact h.fail
  · exact h.fail

theorem Live.challenge (h : Live X m j c) : Calm m (m.challenge j c) := by
  have hset : Calm m (m.setTransfer j { m.transfer j with didAuthChallenge := c.didAuthChallenge }) :=
    calm_setTransfer rfl rfl rfl
  exact hset.trans ((h.calm hset).heard c.cancelsChallenge)

theorem Good.report (hg : m.Good) (j : Nat) (c : Message)
    (hu : (m.transfer j).attached = true → j ∈ m.runningJobList → c.added = false → X .unplugged)
    (hd : (m.transfer j).attached = true → j ∉ m.runningJobList → m.retries j → c.added = false → X .dropped) :
    Moved X m (m.report j c) := by
  unfold Transfers.report
  split
  · exact hg.calm (Calm.refl m)
  next hatt =>
  have hatt : (m.transfer j).attached = true := Bool.eq_true_of_not_eq_false hatt
  split
  · refine hg.removeFromCurl hatt ?_
    intro hretries hadded
    split
    · next hrun => exact hu hatt hrun hadded
    · next hrun => exact hd hatt hrun hretries hadded
  next hgoes =>
  have hrun : j ∈ m.runningJobList := by
    rcases (hg.ok j).att hatt with hrun | hchal
    · exact of_decide_eq_true hrun
    · exact absurd (.inr hchal) hgoes
  have h : Live X m j c := ⟨hg, hatt, hrun, hu hatt hrun⟩
  split
  · exact h.moved (Calm.refl m)
  split
  · have hchal := h.challenge
    have hheard : Calm m ((m.challenge j c).heard j c.cancelsResponse) :=
      hchal.trans ((h.calm hchal).heard c.cancelsResponse)
    dsimp only
    split
    · exact h.removed hchal
    split
    · exact h.removed hheard
    · exact (h.moved hheard).trans (h.calm hheard).result
  · exact h.result

/-! jobs that are dropped together -/

theorem remove_running (m : Transfers) (j : Nat) :
    (m.remove j).runningJobList = m.runningJobList.erase j := rfl

theorem Good.removes (hg : m.Good) {l : List Nat} (hnodup : l.Nodup) (hl : ∀ j ∈ l, j ∈ m.runningJobList) :
    Moved X m (l.foldl Transfers.remove m) := by
  induction l generalizing m with
  | nil => exact hg.calm (Calm.refl m)
  | cons j l ih =>
    obtain ⟨hnot, hnodup⟩ := List.nodup_cons.mp hnodup
    have hfirst := @Good.remove X m j hg (.inl (hl j List.mem_cons_self))
    refine hfirst.trans (ih (hfirst.good hg) hnodup ?_)
    intro i hi
    have hij : i ≠ j := fun heq => hnot (heq ▸ hi)
    rw [remove_running, List.mem_erase_of_ne hij]
    exact hl i (List.mem_cons_of_mem j hi)

theorem Good.cancelScheduledJobs (hg : m.Good) : Moved X m m.cancelScheduledJobs :=
  hg.removes (hg.running_nodup.filter _) fun _ hj => List.mem_of_mem_filter hj

/-- the references of the jobs of `l` are released; the lists are as they are, the handles may be detached -/
structure Drops (l : List Nat) (m m' : Transfers) : Prop where
  scheduled : m'.scheduledJobList = m.scheduledJobList
  running : m'.runningJobList = m.runningJobList
  connections : m'.httpConnections = m.httpConnections
  next : m'.next = m.next
  refs : ∀ i, (m'.transfer i).refs = (m.transfer i).refs
  derefs : ∀ i, (m'.transfer i).derefs = (m.transfer i).derefs + l.count i
  challenge : ∀ i, (m'.jobs i).doRedirectChallenge = (m.jobs i).doRedirectChallenge
  inside : m'.astray = m.astray

theorem Calm.drops (h : Calm m m') : Drops [] m m' :=
  ⟨h.scheduled, h.running, h.connections, h.next, h.refs, h.derefs, h.challenge, h.inside⟩

theorem Drops.trans {l l' : List Nat} (h : Drops l m m') (h' : Drops l' m' m'') : Drops (l ++ l') m m'' where
  scheduled := h'.scheduled.trans h.scheduled
  running := h'.running.trans h.running
  connections := h'.connections.trans h.connections
  next := h'.next.trans h.next
  refs i := (h'.refs i).trans (h.refs i)
  derefs i := by rw [h'.derefs i, h.derefs i, List.count_append, Nat.add_assoc]
  challenge i := (h'.challenge i).trans (h.challenge i)
  inside := h'.inside.trans h.inside

theorem drops_deref (m : Transfers) (j : Nat) : Drops [j] m (m.deref j) := by
  refine ⟨rfl, rfl, rfl, rfl, ?_, ?_, fun _ => rfl, rfl⟩
  · intro i
    unfold deref
    by_cases hij : i = j
    · rw [hij, setTransfer_self]
    · rw [setTransfer_ne m hij]
  · intro i
    unfold deref
    by_cases hij : i = j
    · rw [hij, setTransfer_self, List.count_singleton_self]
    · rw [setTransfer_ne m hij, List.count_singleton, if_neg (by simpa using Ne.symm hij)]
      rfl

theorem drops_attach (m : Transfers) (j : Nat) (b : Bool) : Drops [] m (m.attach j b) := by
  refine ⟨rfl, rfl, rfl, rfl, ?_, ?_, fun _ => rfl, rfl⟩
  · intro i
    unfold attach
    by_cases hij : i = j
    · rw [hij, setTransfer_self]
    · rw [setTransfer_ne m hij]
  · intro i
    unfold attach
    by_cases hij : i = j
    · rw [hij, setTransfer_self]
      rfl
    · rw [setTransfer_ne m hij]
      rfl

theorem calm_abort (m : Transfers) (j : Nat) : Calm m (m.abort j) := by
  unfold abort
  split
  · exact Calm.refl m
  · refine Calm.trans ?_ (calm_tell _ j)
    exact calm_setJob rfl fun _ => rfl

theorem drops_dropRunning (m : Transfers) (j : Nat) : Drops [j] m (m.dropRunning j) := by
  unfold dropRunning
  split
  · exact drops_deref m j
  · refine Drops.trans (l := []) ?_ (drops_deref _ j)
    have habort := calm_abort m j
    dsimp only
    generalize m.abort j = m' at habort ⊢
    have hjob : Drops [] (m'.attach j false)
        ((m'.attach j false).lift (m'.setJob j { m'.jobs j with handle := false })) :=
      ⟨rfl, rfl, rfl, rfl, fun _ => rfl, fun _ => rfl, setJob_challenge (m := m') rfl, rfl⟩
    exact habort.drops.trans ((drops_attach m' j false).trans hjob)

theorem drops_foldl {f : Transfers → Nat → Transfers} (hf : ∀ m j, Drops [j] m (f m j)) (l : List Nat)
    (m : Transfers) : Drops l m (l.foldl f m) := by
  induction l generalizing m with
  | nil => exact (Calm.refl m).drops
  | cons j l ih => exact (hf m j).trans (ih (f m j))

theorem drops_running (m : Transfers) :
    Drops m.runningJobList (m.lift { m.toScheduler with runningJobList := [] }) m.removeAllRunningJobs :=
  drops_foldl drops_dropRunning m.runningJobList _

theorem eraseIdx_nodup {l : List Nat} (h : l.Nodup) {num : Nat} (hj : l[num]? = some j) :
    l.eraseIdx num = l.erase j := by
  obtain ⟨hlt, rfl⟩ := List.getElem?_eq_some_iff.mp hj
  rw [List.erase_eq_eraseIdx_of_idxOf (h.idxOf_getElem num hlt)]

theorem deref_attached (m : Transfers) (j i : Nat) :
    ((m.deref j).transfer i).attached = (m.transfer i).attached := by
  unfold deref
  by_cases hij : i = j
  · rw [hij, setTransfer_self]
  · rw [setTransfer_ne m hij]

theorem dropRunning_attached (hh : (m.jobs j).handle = true) (i : Nat) :
    ((m.dropRunning j).transfer i).attached = if i = j then false else (m.transfer i).attached := by
  unfold dropRunning
  rw [if_neg (by rw [hh]; exact Bool.noConfusion), deref_attached]
  have habort := (calm_abort m j).attached i
  dsimp only
  generalize m.abort j = m' at habort ⊢
  show ((m'.attach j false).transfer i).attached = _
  unfold attach
  by_cases hij : i = j
  · rw [hij, setTransfer_self, if_pos rfl]
  · rw [setTransfer_ne m' hij, if_neg hij, habort]

theorem dropRunning_jobs (hij : i ≠ j) : (m.dropRunning j).jobs i = m.jobs i := by
  unfold dropRunning
  split
  · rfl
  · have habort : (m.abort j).jobs i = m.jobs i := by
      unfold abort
      split
      · rfl
      · exact Scheduler.setJob_ne _ hij _
    exact (Scheduler.setJob_ne _ hij _).trans habort

theorem running_attached {l : List Nat} (hnodup : l.Nodup) (hh : ∀ j ∈ l, (m.jobs j).handle = true) (i : Nat) :
    ((l.foldl dropRunning m).transfer i).attached = if i ∈ l then false else (m.transfer i).attached := by
  induction l generalizing m with
  | nil => rfl
  | cons j l ih =>
    obtain ⟨hnot, hnodup⟩ := List.nodup_cons.mp hnodup
    have hrest : ∀ k ∈ l, ((m.dropRunning j).jobs k).handle = true := by
      intro k hk
      have hkj : k ≠ j := fun heq => hnot (heq ▸ hk)
      rw [dropRunning_jobs hkj]
      exact hh k (List.mem_cons_of_mem j hk)
    rw [List.foldl_cons, ih hnodup hrest, dropRunning_attached (hh j List.mem_cons_self)]
    by_cases hij : i = j
    · rw [if_pos hij, ite_self, if_pos (hij ▸ List.mem_cons_self)]
    · have hmem : i ∈ j :: l ↔ i ∈ l := by rw [List.mem_cons, or_iff_right hij]
      rw [if_neg hij]
      exact (if_congr hmem rfl rfl).symm

theorem Good.dropScheduled (hg : m.Good) {num : Nat} (hx : m.scheduledJobList.length ≤ num → X .astray) :
    Moved X m (m.dropScheduled num) := by
  unfold Transfers.dropScheduled
  split
  · next hj =>
    refine ⟨hg.scheduled_nodup, hg.running_nodup, hg.bound, hg.handles, fun j => .refl, fun _ => .inr ?_⟩
    exact hx (List.getElem?_eq_none_iff.mp hj)
  next j hj =>
  have hmem : j ∈ m.scheduledJobList := List.mem_of_getElem? hj
  have herase : m.scheduledJobList.eraseIdx num = m.scheduledJobList.erase j :=
    eraseIdx_nodup hg.scheduled_nodup hj
  rw [herase]
  have hc := calm_abort (m.lift { m.toScheduler with scheduledJobList := m.scheduledJobList.erase j }) j
  generalize (m.lift { m.toScheduler with scheduledJobList := m.scheduledJobList.erase j }).abort j = m' at hc
  refine moves_one (i := j) hc.inside ?_ ?_ (hg.same_bound hc.connections hc.running)
    (hg.same_handles hc.running hc.handle) ?_ ?_
  · exact hc.scheduled.symm ▸ hg.scheduled_nodup.erase j
  · exact hc.running.symm ▸ hg.running_nodup
  · intro i hij
    rw [spot_deref_ne _ hij, hc.spot, spot_unscheduled_ne (List.mem_erase_of_ne hij)]
  · rw [spot_deref_self, hc.spot, spot_unscheduled_self hg.scheduled_nodup.not_mem_erase]
    exact .unschedule _ (spot_sched hmem)

theorem removeAllRunningJobs_attached (hg : m.Good) (i : Nat) :
    (m.removeAllRunningJobs.transfer i).attached =
      if i ∈ m.runningJobList then false else (m.transfer i).attached :=
  @running_attached (m.lift { m.toScheduler with runningJobList := [] }) _ hg.running_nodup hg.handles i

theorem Good.removeAllRunningJobs (hg : m.Good) : Moved X m m.removeAllRunningJobs := by
  have h := drops_running m
  have hscheduled : m.removeAllRunningJobs.scheduledJobList = m.scheduledJobList := h.scheduled
  have hrunning : m.removeAllRunningJobs.runningJobList = [] := h.running
  refine ⟨hscheduled.symm ▸ hg.scheduled_nodup, hrunning.symm ▸ List.nodup_nil, ?_, ?_, ?_,
    fun hin => .inl (h.inside ▸ hin)⟩
  · intro _
    rw [hrunning]
    exact Nat.zero_le _
  · rw [hrunning]
    exact fun j hj => absurd hj List.not_mem_nil
  · intro j
    have hatt := removeAllRunningJobs_attached hg j
    have hderefs := h.derefs j
    rw [hg.running_nodup.count] at hderefs
    have hspot : m.removeAllRunningJobs.spot j = { m.spot j with
        run := false
        att := if j ∈ m.runningJobList then false else (m.transfer j).attached
        derefs := (m.spot j).derefs + if j ∈ m.runningJobList then 1 else 0 } := by
      unfold Transfers.spot
      rw [hscheduled, hrunning, hatt, h.challenge j, h.refs j, hderefs, h.next]
      rfl
    rw [hspot]
    by_cases hj : j ∈ m.runningJobList
    · rw [if_pos hj, if_pos hj]
      exact .single (.finish _ (.inl (spot_run hj)))
    · have hoff : (m.spot j).run = false := decide_eq_false hj
      rw [if_neg hj, if_neg hj, ← hoff]
      exact .refl

theorem Good.renew (hg : m.Good) (host : Bool)
    (hx : ∀ j, (m.transfer j).attached = true → j ∉ m.runningJobList → X .stranded) :
    Moved X m (m.renew host) := by
  have hfirst : Moved X m m.removeAllRunningJobs := hg.removeAllRunningJobs
  have hgood := hfirst.good hg
  refine hfirst.trans ⟨hgood.scheduled_nodup, hgood.running_nodup, hgood.bound, hgood.handles, ?_, Or.inl⟩
  intro j
  have hrun : m.removeAllRunningJobs.runningJobList = [] := (drops_running m).running
  refine .single (.reset _ ?_ ?_)
  · exact decide_eq_false (hrun ▸ List.not_mem_nil)
  · intro hatt
    have hwas : (if j ∈ m.runningJobList then false else (m.transfer j).attached) = true :=
      (removeAllRunningJobs_attached hg j).symm.trans hatt
    split at hwas
    · cases hwas
    · next hnot => exact hx j hwas hnot

/-- the loop goes on, and the list does not reach to its index -/
def strays (m : Transfers) : Prop :=
  ∃ num host rest, m.removals = ⟨num + 1, host⟩ :: rest ∧ m.scheduledJobList.length ≤ num

theorem Good.resume (hg : m.Good) (hn : m.strays → X .astray)
    (hx : ∀ host rest, m.removals = ⟨0, some host⟩ :: rest →
      ∀ j, (m.transfer j).attached = true → j ∉ m.runningJobList → X .stranded) :
    Moved X m m.resume := by
  unfold Transfers.resume
  split
  · exact hg.calm (Calm.refl m)
  · exact hg.calm (Calm.of_eq rfl rfl rfl)
  · next host rest hrem =>
    have hfirst : Moved X m { m with removals := rest } := hg.calm (Calm.of_eq rfl rfl rfl)
    exact hfirst.trans ((hfirst.good hg).renew host (hx host rest hrem))
  · next num host rest hrem =>
    have hfirst : Moved X m { m with removals := ⟨num, host⟩ :: rest } := hg.calm (Calm.of_eq rfl rfl rfl)
    exact hfirst.trans ((hfirst.good hg).dropScheduled fun hlen => hn ⟨num, host, rest, hrem, hlen⟩)

/-! ## every step -/

/-- what goes wrong in a step -/
def exceptions (m : Transfers) : Op → Mishap → Prop
  | .turn r, .lost => m.admits = true ∧ ∃ j, m.scheduledJobList.head? = some j ∧ (m.jobs j).cancelled = false ∧
      (m.jobs j).url.protocolIsData = false ∧ (Scheduler.initializeHandle (m.jobs j) r).handle = false
  | .didReceiveRedirect j _, .redirected => m.redirectInWKC = true ∧ (m.transfer j).attached = true ∧
      j ∈ m.runningJobList ∧ (m.jobs j).redirectCount + 1 ≤ redirectMaxCount
  | .report j c, .unplugged => (m.transfer j).attached = true ∧ j ∈ m.runningJobList ∧ c.added = false
  | .report j c, .dropped => (m.transfer j).attached = true ∧ j ∉ m.runningJobList ∧ m.retries j ∧ c.added = false
  | .resume, .stranded => (∃ host rest, m.removals = ⟨0, some host⟩ :: rest) ∧
      ∃ j, (m.transfer j).attached = true ∧ j ∉ m.runningJobList
  | .resume, .astray => m.strays
  | _, _ => False

theorem step_moved (hg : m.Good) (op : Op) : Moved (m.exceptions op) m (m.step op) := by
  cases op with
  | add url matchProxyFilter cached q => exact hg.add url matchProxyFilter cached q
  | permitRequest j permit => exact hg.permitRequest j permit
  | cancel j => exact hg.cancel j
  | cancelByFrame frame => exact hg.cancels _
  | turn r => exact hg.turn r fun hadm j hj hcancelled hdata hhandle => ⟨hadm, j, hj, hcancelled, hdata, hhandle⟩
  | didReceiveRedirect j newURL =>
    exact hg.didReceiveRedirect j newURL fun hwkc ha hr hcount => ⟨hwkc, ha, hr, hcount⟩
  | report j c =>
    exact hg.report j c (fun ha hr hadded => ⟨ha, hr, hadded⟩) fun ha hr hretries hadded => ⟨ha, hr, hretries, hadded⟩
  | cancelScheduledJobs => exact hg.cancelScheduledJobs
  | removeAllScheduledJobs => exact hg.calm (Calm.of_eq rfl rfl rfl)
  | removeAllRunningJobs => exact hg.removeAllRunningJobs
  | setProxyInfo host => exact hg.calm (Calm.of_eq rfl rfl rfl)
  | resume => exact hg.resume id fun host rest hrem j ha hr => ⟨⟨host, rest, hrem⟩, j, ha, hr⟩
  | proxyAuthenticated =>
    exact hg.calm ⟨rfl, rfl, rfl, rfl, fun _ => rfl, fun _ => rfl, fun _ => rfl, fun _ => rfl, fun _ _ => rfl,
    rfl⟩

end

end Transfers

end Wkc
