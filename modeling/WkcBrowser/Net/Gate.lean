import WkcBrowser.Net.Scheduler

/-!
# The permission gate

With the harmful site filter on, a job should be handed to `startJob` only after the application has
permitted its URL.  In `shiftScheduledJob` the cases for a job that still waits for an answer end in a
`break`, which leaves the switch only, and the job is taken like any other.

* `Gate`                   what the gate promises of one step;
* `Decided`                a turn finds the first job of the list decided;
* `permission_gate_iff`    the gate holds throughout a run exactly if every turn does.
-/

namespace Wkc
namespace Scheduler

/-- no answer yet -/
def Waiting (d : Job) : Prop :=
  d.cancelled = false ∧ (d.permitSend = .SUSPEND ∨ d.permitSend = .ASKING)

instance (d : Job) : Decidable (Waiting d) := inferInstanceAs (Decidable (_ ∧ _))

/-- A job that is handed to `startJob` is exempt, or permitted for its current URL; a job that waits for
an answer stays on the list unless it is cancelled itself. -/
structure Gate (s : Scheduler) (op : Op) : Prop where
  started : ∀ r d, op = .turn r → s.handedOver = some d →
    d.exempt = true ∨ (d.permitSend = .PERMIT ∧ d.permitted = true)
  stays : ∀ j ∈ s.scheduledJobList, Waiting (s.jobs j) → op ≠ .cancel j →
    j ∈ (s.step op).scheduledJobList

/-- the first job of the list is cancelled, permitted or prohibited when a turn takes it -/
def Decided (s : Scheduler) : Op → Prop
  | .turn _ => s.admits = true → ∀ j rest, s.scheduledJobList = j :: rest →
      (s.jobs j).cancelled = true ∨ (s.jobs j).permitSend = .PERMIT ∨ (s.jobs j).permitSend = .CANCEL
  | _ => True

section
variable {s : Scheduler}

theorem handedOver_idle (h : s.admits = false ∨ s.scheduledJobList = []) : s.handedOver = none := by
  unfold handedOver
  split
  · rfl
  · next hadm =>
    rw [shiftScheduledJob_nil (h.resolve_left hadm)]

theorem handedOver_head (hadm : s.admits = true) {j : Nat} {rest : List Nat}
    (hlist : s.scheduledJobList = j :: rest) :
    s.handedOver = if (s.jobs j).cancelled then none else some (s.jobs j) := by
  rw [handedOver, if_neg (by rw [hadm]; exact Bool.noConfusion), shiftScheduledJob_head hadm hlist]

theorem add_scheduled (url : KURL) (matchProxyFilter cached : Bool) (q : Asked) {j : Nat}
    (hj : j ∈ s.scheduledJobList) : j ∈ (s.add url matchProxyFilter cached q).scheduledJobList := by
  unfold Scheduler.add
  dsimp only
  split
  · exact hj
  · exact List.mem_append_left _ hj

theorem didReceiveRedirect_scheduled (i : Nat) (newURL : KURL) :
    (s.didReceiveRedirect i newURL).scheduledJobList = s.scheduledJobList := by
  unfold Scheduler.didReceiveRedirect
  split
  · rfl
  · split
    · rfl
    · split <;> rfl

theorem removeFromCurl_scheduled (i : Nat) (auth : Bool) (q : Asked) {j : Nat}
    (hj : j ∈ s.scheduledJobList) : j ∈ (s.removeFromCurl i auth q).scheduledJobList := by
  unfold Scheduler.removeFromCurl
  split
  · exact hj
  · split
    · exact hj
    · split
      · exact hj
      · split
        · exact List.mem_append_left _ hj
        · exact hj

theorem scheduled_stays {op : Op} {j : Nat} (hj : j ∈ s.scheduledJobList) (hturn : ∀ r, op ≠ .turn r)
    (hcancel : op ≠ .cancel j) : j ∈ (s.step op).scheduledJobList := by
  cases op with
  | add url matchProxyFilter cached q => exact add_scheduled url matchProxyFilter cached q hj
  | permitRequest i permit =>
    show j ∈ (s.permitRequest i permit).scheduledJobList
    unfold Scheduler.permitRequest
    split <;> exact hj
  | cancel i =>
    show j ∈ (s.cancel i).scheduledJobList
    unfold Scheduler.cancel
    split
    · apply (List.mem_erase_of_ne _).mpr hj
      intro heq
      exact hcancel (congrArg Op.cancel heq.symm)
    · exact hj
  | turn r => exact absurd rfl (hturn r)
  | didReceiveRedirect i newURL =>
    show j ∈ (s.didReceiveRedirect i newURL).scheduledJobList
    rw [didReceiveRedirect_scheduled]
    exact hj
  | sslReconnect i =>
    dsimp only [Scheduler.step]
    split <;> exact hj
  | removeFromCurl i auth q => exact removeFromCurl_scheduled i auth q hj
  | cancelScheduledJobs | setTryProxySingleConnect => exact hj

theorem not_decided {d : Job} (h : Waiting d) :
    ¬ (d.cancelled = true ∨ d.permitSend = .PERMIT ∨ d.permitSend = .CANCEL) := by
  obtain ⟨hcancelled, hsend⟩ := h
  rcases hsend with hsend | hsend <;> simp [hcancelled, hsend]

theorem waiting_of_undecided {d : Job}
    (h : ¬ (d.cancelled = true ∨ d.permitSend = .PERMIT ∨ d.permitSend = .CANCEL)) : Waiting d := by
  obtain ⟨hcancelled, hrest⟩ := not_or.mp h
  obtain ⟨hpermit, hprohibit⟩ := not_or.mp hrest
  refine ⟨by simpa using hcancelled, ?_⟩
  cases hsend : d.permitSend with
  | CANCEL => exact absurd hsend hprohibit
  | SUSPEND => exact .inl rfl
  | ASKING => exact .inr rfl
  | PERMIT => exact absurd hsend hpermit

theorem gate_turn (h : s.Sound) (r : Started) : s.Gate (.turn r) ↔ s.Decided (.turn r) := by
  constructor
  · intro hgate hadm j rest hlist
    have hmem : j ∈ s.scheduledJobList := by rw [hlist]; exact List.mem_cons_self
    by_contra hundecided
    have hwait := waiting_of_undecided hundecided
    have hstays := hgate.stays j hmem hwait Op.noConfusion
    have hnd := h.scheduled_nodup
    have hrest : (s.step (.turn r)).scheduledJobList = rest := turn_scheduled hnd hadm hlist r
    rw [hlist, List.nodup_cons] at hnd
    rw [hrest] at hstays
    exact hnd.1 hstays
  · intro hdecided
    by_cases hidle : s.admits = false ∨ s.scheduledJobList = []
    · refine ⟨?_, ?_⟩
      · intro r' d _ hd
        rw [handedOver_idle hidle] at hd
        cases hd
      · intro j hj _ _
        show j ∈ ((s.turn r).getD s).scheduledJobList
        rw [turn_none hidle]
        exact hj
    · obtain ⟨hadm, hne⟩ := not_or.mp hidle
      have hadm : s.admits = true := by simpa using hadm
      obtain ⟨j, rest, hlist⟩ := List.exists_cons_of_ne_nil hne
      have hmem : j ∈ s.scheduledJobList := by rw [hlist]; exact List.mem_cons_self
      have hentry := h.entry j hmem
      have hhead := hdecided hadm j rest hlist
      refine ⟨?_, ?_⟩
      · intro r' d _ hd
        rw [handedOver_head hadm hlist] at hd
        split at hd
        · cases hd
        · next hcancelled =>
          obtain rfl := Option.some.inj hd
          -- a prohibited job is cancelled, so the job is a permitted one
          have hpermit : (s.jobs j).permitSend = .PERMIT := by
            rcases hhead with hc | hp | hp
            · exact absurd hc hcancelled
            · exact hp
            · exact absurd (hentry.cancel hp) hcancelled
          exact (hentry.permit hpermit).imp_right (fun hok => ⟨hpermit, hok⟩)
      · intro i hi hwait _
        show i ∈ ((s.turn r).getD s).scheduledJobList
        rw [turn_scheduled h.scheduled_nodup hadm hlist r]
        rw [hlist] at hi
        rcases List.mem_cons.mp hi with rfl | hi
        · exact absurd hhead (not_decided hwait)
        · exact hi

theorem gate_step (h : s.Sound) (op : Op) : s.Gate op ↔ s.Decided op := by
  by_cases hturn : ∃ r, op = .turn r
  · obtain ⟨r, rfl⟩ := hturn
    exact gate_turn h r
  · have hno : ∀ r, op ≠ .turn r := fun r hr => hturn ⟨r, hr⟩
    constructor
    · intro _
      cases op with
      | turn r => exact absurd rfl (hno r)
      | _ => trivial
    · intro _
      exact ⟨fun r d hr => absurd hr (hno r), fun j hj _ hcancel => scheduled_stays hj hno hcancel⟩

end

/-- no job yet, the filter on -/
structure Initial (s : Scheduler) : Prop where
  filter : s.harmfulSiteFilter = true
  scheduled : s.scheduledJobList = []
  running : s.runningJobList = []
  challenge : ∀ j, (s.jobs j).doRedirectChallenge = false

theorem Initial.sound {s : Scheduler} (h : s.Initial) : s.Sound where
  filter := h.filter
  scheduled_nodup := by rw [h.scheduled]; exact List.nodup_nil
  running_nodup := by rw [h.running]; exact List.nodup_nil
  fresh j hj := by
    rw [h.scheduled, h.running] at hj
    exact absurd (hj.elim id id) List.not_mem_nil
  apart j hj := by
    rw [h.scheduled] at hj
    exact absurd hj List.not_mem_nil
  challenge j _ := h.challenge j
  known j hj := by
    rw [h.challenge] at hj
    cases hj
  entry j hj := by
    rw [h.scheduled] at hj
    exact absurd hj List.not_mem_nil

/-- **The permission gate.**  In every run with the filter on, each job that is handed to `startJob` is
exempt or permitted for its current URL, and each job that waits for an answer stays on the list,
exactly if every turn of `startScheduledJobs` finds the first job of the list decided. -/
theorem permission_gate_iff {s : Scheduler} (h : s.Initial) (ops : List Op) :
    Runs.Along step Gate s ops ↔ Runs.Along step Decided s ops :=
  Runs.along_iff (P := Sound) (fun _ op hs => hs.step op) (fun _ op hs => gate_step hs op) h.sound ops

/-- `http://a` -/
def site : KURL where
  string := [0x68, 0x74, 0x74, 0x70, 0x3A, 0x2F, 0x2F, 0x61]
  queryEnd := 8
  protocolIsInHTTPFamily := true
  protocolIsData := false
  isLocalFile := false
  ascii := by
    intro c hc
    have hall : [0x68, 0x74, 0x74, 0x70, 0x3A, 0x2F, 0x2F, 0x61].all
        (fun c : UInt16 => decide (c.toNat < 0x80)) = true := by decide
    exact of_decide_eq_true (List.all_eq_true.mp hall c hc)

/-- the filter on, nothing scheduled -/
def filtered : Scheduler where
  harmfulSiteFilter := true
  redirectInWKC := true
  httpConnections := 4
  tryProxySingleConnect := false
  jobs := fun _ => { url := site }
  next := 0
  scheduledJobList := []
  runningJobList := []

theorem filtered_initial : filtered.Initial := ⟨rfl, rfl, rfl, fun _ => rfl⟩

theorem permission_gate_iff_permitted : filtered.Initial ∧
    Runs.Along step Gate filtered [.add site false false ⟨.inclusion, true, 1⟩, .turn {}] := by
  refine ⟨filtered_initial, (permission_gate_iff filtered_initial _).mpr ⟨trivial, ?_, trivial⟩⟩
  intro _ j rest hlist
  obtain ⟨rfl, _⟩ := List.cons.inj hlist
  exact .inr (.inl rfl)

/-- the application decides later, the timer fires first -/
theorem permission_gate_open : filtered.Initial ∧
    ¬ Runs.Along step Gate filtered [.add site false false ⟨.inclusion, true, 0⟩, .turn {}] := by
  refine ⟨filtered_initial, ?_⟩
  intro h
  have hsend : (filtered.step (.add site false false ⟨.inclusion, true, 0⟩)).handedOver
      = some { url := site, permitSend := .ASKING } := rfl
  rcases h.2.1.started {} _ rfl hsend with hexempt | hpermit
  · cases hexempt
  · cases hpermit.1

end Scheduler

end Wkc
