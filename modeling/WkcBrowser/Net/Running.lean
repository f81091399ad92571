import Mathlib.Data.List.Perm.Subperm
import WkcBrowser.Lib.Runs
import WkcBrowser.Net.Gate
import WkcBrowser.Net.Places

/-!
# The running list and the references

"from curl_multi_add_handle() to curl_multi_remove_handle()/curl_easy_cleanup(), max is m_httpConnections"
stands above `m_runningJobList`.  A redirect that `didReceiveRedirect` keeps to itself takes the job off the
list in the middle of its transfer; until the transfer is reported the job is in neither list, and a proxy
setting that comes in between drops it with its reference.  `removeAllScheduledJobs` counts its index down
while clients are told, and a client can take other jobs off the list.

* `Registered`, `running_list`        handles and the list agree, unless there is such a redirect;
* `Balanced`, `reference_balance`     the reference of `add` is released once, and no job is lost.
-/

namespace Wkc
namespace Transfers

/-- no job yet -/
structure Initial (m : Transfers) : Prop where
  scheduled : m.scheduledJobList = []
  running : m.runningJobList = []
  challenge : ∀ j, (m.jobs j).doRedirectChallenge = false
  transfer : ∀ j, m.transfer j = {}
  cache : m.readCacheJobList = []
  next : m.next = 0
  removals : m.removals = []
  astray : m.astray = false

theorem Initial.spot {m : Transfers} (h : m.Initial) (j : Nat) :
    m.spot j = ⟨false, false, false, false, 0, 0, decide (j < m.next)⟩ := by
  unfold Transfers.spot
  rw [h.scheduled, h.running, h.challenge, h.transfer]
  rfl

theorem Initial.good {m : Transfers} (h : m.Initial) : m.Good where
  scheduled_nodup := h.scheduled.symm ▸ List.nodup_nil
  running_nodup := h.running.symm ▸ List.nodup_nil
  bound _ := by
    rw [h.running]
    exact Nat.zero_le _
  handles := by
    rw [h.running]
    exact fun j hj => absurd hj List.not_mem_nil
  ok j := by
    rw [h.spot j]
    constructor <;> simp

/-! ## the running list -/

/-- what is said of the list: it has the jobs whose handles are attached, each once, and none that is still
scheduled; at most two for each connection -/
structure Registered (m : Transfers) : Prop where
  attached : ∀ j, (m.transfer j).attached = true ↔ j ∈ m.runningJobList
  once : m.runningJobList.Nodup
  apart : ∀ j ∈ m.runningJobList, j ∉ m.scheduledJobList
  bound : m.httpConnections ≠ 0 → ∀ l : List Nat, l.Nodup → (∀ j ∈ l, (m.transfer j).attached = true) →
    l.length ≤ 2 * m.httpConnections

/-- The header of a running transfer does not make it a redirect that waits for its end, and libcurl takes
the handle of a running job again. -/
def KeepsHandle (m : Transfers) : Op → Prop
  | .didReceiveRedirect j _ => ¬ (m.redirectInWKC = true ∧ (m.transfer j).attached = true ∧
      j ∈ m.runningJobList ∧ (m.jobs j).redirectCount + 1 ≤ redirectMaxCount)
  | .report j c => (m.transfer j).attached = true → j ∈ m.runningJobList → c.added = true
  | _ => True

section
variable {m : Transfers}

theorem Good.registered (hg : m.Good) (hl : ∀ j, (m.spot j).Listed) : m.Registered := by
  have hiff : ∀ j, (m.transfer j).attached = true ↔ j ∈ m.runningJobList := by
    intro j
    rw [show (m.transfer j).attached = decide (j ∈ m.runningJobList) from hl j, decide_eq_true_iff]
  refine ⟨hiff, hg.running_nodup, ?_, ?_⟩
  · intro j hr hs
    exact of_decide_eq_false ((hg.ok j).sched (spot_sched hs)).1 hr
  · intro hne l hnodup hatt
    have hsub : l ⊆ m.runningJobList := fun j hj => (hiff j).mp (hatt j hj)
    have hlen : l.length ≤ m.runningJobList.length := (hnodup.subperm hsub).length_le
    have hbound := hg.bound hne
    omega

theorem KeepsHandle.redirected {op : Op} (h : m.KeepsHandle op) : ¬ m.exceptions op .redirected := by
  cases op with
  | didReceiveRedirect j newURL => exact h
  | _ => exact id

theorem KeepsHandle.unplugged {op : Op} (h : m.KeepsHandle op) : ¬ m.exceptions op .unplugged := by
  cases op with
  | report j c =>
    rintro ⟨ha, hr, hadded⟩
    rw [h ha hr] at hadded
    cases hadded
  | _ => exact id

theorem KeepsHandle.step {op : Op} (h : m.KeepsHandle op) (hm : m.Good ∧ ∀ j, (m.spot j).Listed) :
    (m.step op).Good ∧ ∀ j, ((m.step op).spot j).Listed := by
  obtain ⟨hg, hl⟩ := hm
  have hmoved := step_moved hg op
  exact ⟨hmoved.good hg, fun j => (hmoved.spots j).listed (hg.ok j) (hl j) h.redirected h.unplugged⟩

end

/-- **The running list.**  In a run in which no running transfer is redirected by `didReceiveRedirect` with
`m_redirectInWKC` on and libcurl takes back what it is given, the list is what its comment says, at every
moment. -/
theorem running_list {m : Transfers} (h : m.Initial) (ops : List Op) (hk : Runs.Along step KeepsHandle m ops) :
    ∀ pre, pre <+: ops → (Runs.run step m pre).Registered := by
  intro pre hpre
  have hstart : m.Good ∧ ∀ j, (m.spot j).Listed := by
    refine ⟨h.good, fun j => ?_⟩
    rw [h.spot j]
    rfl
  have hrun := hk.inv_prefix (P := fun m => m.Good ∧ ∀ j, (m.spot j).Listed)
    (fun _ _ hC hP => KeepsHandle.step hC hP) hstart pre hpre
  exact hrun.1.registered hrun.2

/-- no job yet; one connection -/
def fresh : Transfers where
  harmfulSiteFilter := false
  redirectInWKC := true
  httpConnections := 1
  tryProxySingleConnect := false
  jobs := fun _ => { url := Scheduler.site }
  next := 0
  scheduledJobList := []
  runningJobList := []
  transfer := fun _ => {}
  readCacheJobList := []

theorem fresh_initial : fresh.Initial := ⟨rfl, rfl, fun _ => rfl, fun _ => rfl, rfl, rfl, rfl, rfl⟩

def started : List Op := [.add Scheduler.site false false ⟨.inclusion, true, 1⟩, .turn {}]

theorem running_list_started : fresh.Initial ∧ Runs.Along step KeepsHandle fresh started ∧
    (Runs.run step fresh started).Registered := by
  have hk : Runs.Along step KeepsHandle fresh started := ⟨trivial, trivial, trivial⟩
  exact ⟨fresh_initial, hk, running_list fresh_initial started hk started (List.prefix_refl _)⟩

/-- a redirect leaves the handle attached and takes the job off the list -/
theorem redirect_unlists : fresh.Initial ∧
    ¬ (Runs.run step fresh (started ++ [.didReceiveRedirect 0 Scheduler.site])).Registered := by
  refine ⟨fresh_initial, ?_⟩
  intro h
  have hatt : ((Runs.run step fresh (started ++ [.didReceiveRedirect 0 Scheduler.site])).transfer 0).attached
      = true := rfl
  have hlist : (Runs.run step fresh (started ++ [.didReceiveRedirect 0 Scheduler.site])).runningJobList = [] :=
    rfl
  have hmem := (h.attached 0).mp hatt
  rw [hlist] at hmem
  exact absurd hmem List.not_mem_nil

/-! ## the references -/

/-- the reference of `add` is taken once and released at most once; until then the job is somewhere.  Nothing
was taken from behind the end of the list, where only released jobs are left. -/
structure Balanced (m : Transfers) (j : Nat) : Prop where
  inside : m.astray = false
  refs : (m.transfer j).refs ≤ 1
  derefs : (m.transfer j).derefs ≤ (m.transfer j).refs
  held : (m.transfer j).derefs < (m.transfer j).refs ↔
    j ∈ m.scheduledJobList ∨ j ∈ m.runningJobList ∨ (m.transfer j).attached = true

/-- There is a handle for the job that is started; libcurl takes the handle of a redirected job again; clients
that `removeAllScheduledJobs` tells leave the list as long as it was; the multi handle is not renewed while a
redirected transfer waits for its report. -/
def KeepsJobs (m : Transfers) : Op → Prop
  | .turn r => m.admits = true → ∀ j, m.scheduledJobList.head? = some j → (m.jobs j).cancelled = false →
      (m.jobs j).url.protocolIsData = false → (Scheduler.initializeHandle (m.jobs j) r).handle = true
  | .report j c => (m.transfer j).attached = true → j ∉ m.runningJobList → m.retries j → c.added = true
  | .resume => ¬ m.strays ∧ ∀ host rest, m.removals = ⟨0, some host⟩ :: rest →
      ∀ j, (m.transfer j).attached = true → j ∈ m.runningJobList
  | _ => True

section
variable {m : Transfers}

theorem Good.balanced (hg : m.Good) (hin : m.astray = false) {j : Nat} (hh : (m.spot j).Held) :
    m.Balanced j := by
  have hok := hg.ok j
  refine ⟨hin, hok.refs, hok.derefs, ?_⟩
  constructor
  · intro hlt
    have hrefs : (m.transfer j).refs ≤ 1 := hok.refs
    have hone : (m.spot j).refs = 1 := by
      show (m.transfer j).refs = 1
      omega
    have hzero : (m.spot j).derefs = 0 := by
      show (m.transfer j).derefs = 0
      omega
    have hplaced := hh hone hzero
    simpa [Spot.placed, Transfers.spot, or_assoc] using hplaced
  · intro hplace
    have hboth := hok.held (by simpa [Transfers.spot] using hplace)
    have hrefs : (m.transfer j).refs = 1 := hboth.1
    have hderefs : (m.transfer j).derefs = 0 := hboth.2
    omega

theorem KeepsJobs.lost {op : Op} (h : m.KeepsJobs op) : ¬ m.exceptions op .lost := by
  cases op with
  | turn r =>
    rintro ⟨hadm, j, hj, hcancelled, hdata, hhandle⟩
    rw [h hadm j hj hcancelled hdata] at hhandle
    cases hhandle
  | _ => exact id

theorem KeepsJobs.dropped {op : Op} (h : m.KeepsJobs op) : ¬ m.exceptions op .dropped := by
  cases op with
  | report j c =>
    rintro ⟨ha, hr, hretries, hadded⟩
    rw [h ha hr hretries] at hadded
    cases hadded
  | _ => exact id

theorem KeepsJobs.stranded {op : Op} (h : m.KeepsJobs op) : ¬ m.exceptions op .stranded := by
  cases op with
  | resume =>
    rintro ⟨⟨host, rest, hrem⟩, j, ha, hr⟩
    exact hr (h.2 host rest hrem j ha)
  | _ => exact id

theorem KeepsJobs.astray {op : Op} (h : m.KeepsJobs op) : ¬ m.exceptions op .astray := by
  cases op with
  | resume => exact h.1
  | _ => exact id

/-- what a run keeps -/
structure Keeps (m : Transfers) : Prop where
  good : m.Good
  held : ∀ j, (m.spot j).Held
  inside : m.astray = false

theorem KeepsJobs.step {op : Op} (h : m.KeepsJobs op) (hm : m.Keeps) : (m.step op).Keeps where
  good := (step_moved hm.good op).good hm.good
  held j := ((step_moved hm.good op).spots j).held (hm.held j) h.lost h.dropped h.stranded
  inside := Bool.eq_false_of_not_eq_true fun hout =>
    ((step_moved hm.good op).inside hout).elim (ne_true_of_eq_false hm.inside) h.astray

end

/-- **The references of jobs.**  In a run in which every job that is started gets a handle, libcurl takes back
the handle of a redirected job, the clients told by `removeAllScheduledJobs` leave the list to its loop, and the
multi handle is not renewed while a redirected transfer waits for its report, the reference that `add` takes is
released at most once, and it is held exactly while the job is scheduled, running, or attached. -/
theorem reference_balance {m : Transfers} (h : m.Initial) (ops : List Op)
    (hk : Runs.Along step KeepsJobs m ops) :
    ∀ pre, pre <+: ops → ∀ j, (Runs.run step m pre).Balanced j := by
  intro pre hpre j
  have hstart : m.Keeps := by
    refine ⟨h.good, fun j => ?_, h.astray⟩
    rw [h.spot j]
    exact fun hone => absurd hone Nat.zero_ne_one
  have hrun := hk.inv_prefix (fun _ _ hC hP => KeepsJobs.step hC hP) hstart pre hpre
  exact hrun.good.balanced hrun.inside (hrun.held j)

/-- one job runs and two wait when the proxy is set; the client of the last cancels its own job when it is told,
and the client of the other one adds a job -/
def proxied : List Op :=
  started ++ [.add Scheduler.site false false ⟨.inclusion, true, 1⟩,
    .add Scheduler.site false false ⟨.inclusion, true, 1⟩, .setProxyInfo true, .resume, .cancel 2, .resume,
    .add Scheduler.site false false ⟨.inclusion, true, 1⟩, .resume]

theorem reference_balance_started : fresh.Initial ∧ Runs.Along step KeepsJobs fresh proxied ∧
    ∀ j, (Runs.run step fresh proxied).Balanced j := by
  have hk : Runs.Along step KeepsJobs fresh proxied := by
    refine ⟨trivial, ?_, trivial, trivial, trivial, ⟨?_, ?_⟩, trivial, ⟨?_, ?_⟩, trivial, ⟨?_, ?_⟩, trivial⟩
    · intro _ j hj _ _
      obtain rfl : 0 = j := Option.some.inj hj
      rfl
    · rintro ⟨num, host, rest, hrem, hlen⟩
      cases hrem
      exact absurd hlen (by decide)
    · rintro host rest hrem
      cases hrem
    · rintro ⟨num, host, rest, hrem, hlen⟩
      cases hrem
      exact absurd hlen (by decide)
    · rintro host rest hrem
      cases hrem
    · rintro ⟨num, host, rest, hrem, hlen⟩
      cases hrem
    · intro host rest _ j hatt
      match j, hatt with
      | 0, _ => exact List.mem_cons_self
      | 1, hatt => cases hatt
      | 2, hatt => cases hatt
      | 3, hatt => cases hatt
      | n + 4, hatt => cases hatt
  exact ⟨fresh_initial, hk, reference_balance fresh_initial proxied hk proxied (List.prefix_refl _)⟩

/-- the client of the last job cancels the other one when it is told -/
example : (Runs.run step fresh [.add Scheduler.site false false ⟨.inclusion, true, 1⟩,
    .add Scheduler.site false false ⟨.inclusion, true, 1⟩, .setProxyInfo true, .resume, .cancel 0,
    .resume]).astray = true := rfl

/-- `curl_easy_init` fails: the job is told, and nobody releases its reference -/
theorem reference_leaks : fresh.Initial ∧
    ¬ (Runs.run step fresh [.add Scheduler.site false false ⟨.inclusion, true, 1⟩,
      .turn { init := false }]).Balanced 0 := by
  refine ⟨fresh_initial, ?_⟩
  intro h
  rcases h.held.mp Nat.zero_lt_one with hs | hr | ha
  · exact absurd hs List.not_mem_nil
  · exact absurd hr List.not_mem_nil
  · exact Bool.false_ne_true ha

end Transfers
end Wkc
