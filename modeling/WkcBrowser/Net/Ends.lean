import WkcBrowser.Net.Running

/-!
# Last words

A job that its client never cancels is told its end once: `didFinishLoading` or `didFail`.  Four exits
forget to: `removeAllScheduledJobs` for a job that was prohibited and waits to be told, a new proxy under a
redirect that waits for its report, a transfer with a challenge, when the password or the frame is missing, and
a data URL without a comma.

* `Other`                     a step that does not concern the job;
* `Due`                       where the job is and what it was told;
* `Busy`                      a running job while its message is handled;
* `terminates_once`           the result.
-/

namespace Wkc
namespace Transfers

/-- nothing that concerns `i` -/
structure Other (i : Nat) (m m' : Transfers) : Prop where
  job : m'.jobs i = m.jobs i
  transfer : m'.transfer i = m.transfer i
  scheduled : i ∈ m'.scheduledJobList ↔ i ∈ m.scheduledJobList
  running : i ∈ m'.runningJobList ↔ i ∈ m.runningJobList
  cache : i ∈ m'.readCacheJobList ↔ i ∈ m.readCacheJobList
  known : i < m'.next ↔ i < m.next
  wkc : m'.redirectInWKC = m.redirectInWKC

section
variable {m m' m'' : Transfers} {i j : Nat} {c : Message}

theorem Other.refl (i : Nat) (m : Transfers) : Other i m m :=
  ⟨rfl, rfl, Iff.rfl, Iff.rfl, Iff.rfl, Iff.rfl, rfl⟩

theorem Other.trans (h : Other i m m') (h' : Other i m' m'') : Other i m m'' where
  job := h'.job.trans h.job
  transfer := h'.transfer.trans h.transfer
  scheduled := h'.scheduled.trans h.scheduled
  running := h'.running.trans h.running
  cache := h'.cache.trans h.cache
  known := h'.known.trans h.known
  wkc := h'.wkc.trans h.wkc

structure Due (m : Transfers) (i : Nat) : Prop where
  untold : i ∈ m.scheduledJobList ∨ i ∈ m.runningJobList ∨ (m.transfer i).attached = true ∨
    i ∈ m.readCacheJobList → (m.transfer i).terminals = 0
  told : i < m.next → i ∉ m.scheduledJobList → i ∉ m.runningJobList → (m.transfer i).attached = false →
    i ∉ m.readCacheJobList → (m.transfer i).terminals = 1
  goes : i ∈ m.runningJobList ∨ (m.transfer i).attached = true → (m.jobs i).cancelled = false
  prohibited : i ∈ m.scheduledJobList → (m.jobs i).cancelled = true → (m.jobs i).permitSend = .CANCEL
  attempt : i ∈ m.scheduledJobList ∨ i ∈ m.runningJobList ∨ (m.transfer i).attached = true →
    (m.transfer i).didAuthChallenge = false ∧ (m.jobs i).sslReconnect = false
  cache : i ∈ m.readCacheJobList →
    i < m.next ∧ i ∉ m.scheduledJobList ∧ i ∉ m.runningJobList ∧ (m.transfer i).attached = false
  wkc : (m.jobs i).doRedirectChallenge = true → m.redirectInWKC = true

theorem Other.due (h : Other i m m') (hd : m.Due i) : m'.Due i where
  untold := by
    rw [h.scheduled, h.running, h.cache, h.transfer]
    exact hd.untold
  told := by
    rw [h.scheduled, h.running, h.cache, h.transfer, h.known]
    exact hd.told
  goes := by
    rw [h.running, h.transfer, h.job]
    exact hd.goes
  prohibited := by
    rw [h.scheduled, h.job]
    exact hd.prohibited
  attempt := by
    rw [h.scheduled, h.running, h.transfer, h.job]
    exact hd.attempt
  cache := by
    rw [h.cache, h.known, h.scheduled, h.running, h.transfer]
    exact hd.cache
  wkc := by
    rw [h.job, h.wkc]
    exact hd.wkc

theorem Due.of_eq (hd : m.Due i) (hs : m'.toScheduler = m.toScheduler) (ht : m'.transfer = m.transfer)
    (hc : m'.readCacheJobList = m.readCacheJobList) : m'.Due i := by
  refine Other.due ⟨?_, ?_, ?_, ?_, ?_, ?_, ?_⟩ hd <;> simp [hs, ht, hc]

theorem due_gone (hs : i ∉ m.scheduledJobList) (hr : i ∉ m.runningJobList)
    (ha : (m.transfer i).attached = false) (hc : i ∉ m.readCacheJobList) (ht : (m.transfer i).terminals = 1)
    (hw : (m.jobs i).doRedirectChallenge = true → m.redirectInWKC = true) : m.Due i where
  untold hplace := by
    rw [ha] at hplace
    simp [hs, hr, hc] at hplace
  told _ _ _ _ _ := ht
  goes hplace := by
    rw [ha] at hplace
    simp [hr] at hplace
  prohibited hplace := absurd hplace hs
  attempt hplace := by
    rw [ha] at hplace
    simp [hs, hr] at hplace
  cache hplace := absurd hplace hc
  wkc := hw

theorem due_running (hs : i ∉ m.scheduledJobList)
    (hr : i ∈ m.runningJobList ∨ (m.transfer i).attached = true) (hc : i ∉ m.readCacheJobList)
    (ht : (m.transfer i).terminals = 0) (hgoes : (m.jobs i).cancelled = false)
    (hattempt : (m.transfer i).didAuthChallenge = false ∧ (m.jobs i).sslReconnect = false)
    (hw : (m.jobs i).doRedirectChallenge = true → m.redirectInWKC = true) : m.Due i where
  untold _ := ht
  told _ _ hoff hatt := by
    rw [hatt] at hr
    exact absurd (hr.resolve_right Bool.false_ne_true) hoff
  goes _ := hgoes
  prohibited hplace := absurd hplace hs
  attempt _ := hattempt
  cache hplace := absurd hplace hc
  wkc := hw

theorem due_cached (hknown : i < m.next) (hs : i ∉ m.scheduledJobList) (hr : i ∉ m.runningJobList)
    (ha : (m.transfer i).attached = false) (hc : i ∈ m.readCacheJobList) (ht : (m.transfer i).terminals = 0)
    (hw : (m.jobs i).doRedirectChallenge = true → m.redirectInWKC = true) : m.Due i where
  untold _ := ht
  told _ _ _ _ hoff := absurd hc hoff
  goes hplace := by
    rw [ha] at hplace
    simp [hr] at hplace
  prohibited hplace := absurd hplace hs
  attempt hplace := by
    rw [ha] at hplace
    simp [hs, hr] at hplace
  cache _ := ⟨hknown, hs, hr, ha⟩
  wkc := hw

/-! ## a message -/

/-- a running job; nothing is said of what it was told, nor of its next attempt -/
structure Busy (m : Transfers) (i : Nat) : Prop where
  running : i ∈ m.runningJobList
  nodup : m.runningJobList.Nodup
  scheduled : i ∉ m.scheduledJobList
  known : i < m.next
  cancelled : (m.jobs i).cancelled = false
  challenge : (m.jobs i).doRedirectChallenge = false
  handle : (m.jobs i).handle = true

theorem Busy.setTransfer (h : m.Busy i) (t : Transfer) : (m.setTransfer i t).Busy i :=
  ⟨h.running, h.nodup, h.scheduled, h.known, h.cancelled, h.challenge, h.handle⟩

theorem Busy.no_challenge (h : m.Busy i) {P : Prop} (hc : (m.jobs i).doRedirectChallenge = true) : P := by
  rw [h.challenge] at hc
  cases hc

theorem Busy.no_redirect (h : m.Busy i) :
    ¬ (m.redirectInWKC && (m.jobs i).doRedirectChallenge) = true := by
  rw [h.challenge, Bool.and_false]
  exact Bool.false_ne_true

theorem remove_transfer (m : Transfers) (j : Nat) : (m.remove j).transfer j =
    { m.transfer j with attached := false, derefs := (m.transfer j).derefs + 1 } := by
  unfold remove deref attach
  rw [setTransfer_self, setTransfer_self]
  rfl

theorem remove_jobs (m : Transfers) (j : Nat) : (m.remove j).jobs j = { m.jobs j with handle := false } :=
  Scheduler.setJob_self ..

theorem attach_transfer (m : Transfers) (j : Nat) (b : Bool) :
    (m.attach j b).transfer j = { m.transfer j with attached := b } := setTransfer_self ..

theorem attach_jobs (m : Transfers) (s : Scheduler) (j : Nat) (b : Bool) (i : Nat) :
    ((m.lift s).attach j b).jobs i = s.jobs i := rfl

theorem heard_no {b : Bool} (m : Transfers) (j : Nat) (hb : b = false) : m.heard j b = m := by
  rw [hb]
  exact if_neg Bool.false_ne_true

theorem Busy.leave (h : m.Busy i) (c : Message) : m.leave i c = m.removeFromCurl i c := by
  unfold Transfers.leave
  rw [if_neg (by rw [h.cancelled, h.handle]; simp), if_neg (not_not.mpr h.running)]

theorem Busy.password (h : m.Busy i) (hauth : (m.transfer i).didAuthChallenge = true)
    (hpassword : c.password = true) : m.removeFromCurl i c =
      (m.setTransfer i { m.transfer i with didAuthChallenge := false }).attach i c.added := by
  unfold Transfers.removeFromCurl
  rw [if_neg (ne_false_of_eq_true h.handle), if_neg (ne_true_of_eq_false h.cancelled)]
  dsimp only
  rw [if_pos (by rw [hauth, hpassword]; rfl)]

theorem Busy.reconnect (h : m.Busy i) (hauth : (m.transfer i).didAuthChallenge = false)
    (hssl : (m.jobs i).sslReconnect = true) : m.removeFromCurl i c =
      ((m.setTransfer i { m.transfer i with didAuthChallenge := false }).lift
        (m.setJob i { m.jobs i with permitSend := .PERMIT, sslReconnect := false })).attach i c.added := by
  unfold Transfers.removeFromCurl
  rw [if_neg (ne_false_of_eq_true h.handle), if_neg (ne_true_of_eq_false h.cancelled)]
  dsimp only
  rw [if_neg (by rw [hauth]; exact Bool.noConfusion), if_pos (by exact hssl)]
  rfl

theorem Busy.over (h : m.Busy i) (hauth : (m.transfer i).didAuthChallenge = false)
    (hssl : (m.jobs i).sslReconnect = false) : m.removeFromCurl i c =
      (m.setTransfer i { m.transfer i with didAuthChallenge := false }).remove i := by
  unfold Transfers.removeFromCurl
  rw [if_neg (ne_false_of_eq_true h.handle), if_neg (ne_true_of_eq_false h.cancelled)]
  dsimp only
  rw [if_neg (by rw [hauth]; exact Bool.noConfusion), if_neg (by exact ne_true_of_eq_false hssl),
    if_neg (by exact h.no_redirect)]

/-- a running job before it is told -/
structure Quiet (m : Transfers) (i : Nat) : Prop extends Busy m i where
  cache : i ∉ m.readCacheJobList
  terminals : (m.transfer i).terminals = 0
  auth : (m.transfer i).didAuthChallenge = false
  ssl : (m.jobs i).sslReconnect = false

theorem Quiet.ends (h : m.Quiet i) (hq : c.cancelsEnd = false) : ((m.ends i c).removeFromCurl i c).Due i := by
  have htell : m.ends i c = m.tell i := heard_no _ i hq
  have hbusy : (m.tell i).Busy i := h.toBusy.setTransfer _
  have hauth : ((m.tell i).transfer i).didAuthChallenge = false := by
    unfold tell
    rw [setTransfer_self]
    exact h.auth
  rw [htell, hbusy.over hauth h.ssl]
  refine due_gone h.scheduled h.nodup.not_mem_erase ?_ h.cache ?_ ?_
  · rw [remove_transfer]
  · rw [remove_transfer, setTransfer_self]
    show ((m.tell i).transfer i).terminals = 1
    unfold tell
    rw [setTransfer_self, h.terminals]
  · rw [remove_jobs]
    exact fun hc => h.no_challenge hc

theorem Quiet.leave (h : m.Quiet i) (hq : c.cancelsEnd = false) : ((m.ends i c).leave i c).Due i := by
  have hbusy : (m.ends i c).Busy i := by
    unfold Transfers.ends
    rw [heard_no _ i hq]
    exact h.toBusy.setTransfer _
  rw [hbusy.leave]
  exact h.ends hq

theorem Quiet.fail (h : m.Quiet i) (hq : c.cancelsEnd = false) : (m.fail i c).Due i := by
  unfold Transfers.fail
  split
  · have hjob : (m.lift (m.setJob i { m.jobs i with sslReconnect := true })).jobs i =
        { m.jobs i with sslReconnect := true } := Scheduler.setJob_self ..
    have hbusy : (m.lift (m.setJob i { m.jobs i with sslReconnect := true })).Busy i := by
      refine ⟨h.running, h.nodup, h.scheduled, h.known, ?_, ?_, ?_⟩
      · rw [hjob]
        exact h.cancelled
      · rw [hjob]
        exact h.challenge
      · rw [hjob]
        exact h.handle
    rw [hbusy.leave, hbusy.reconnect h.auth (by rw [hjob])]
    refine due_running h.scheduled (.inl h.running) h.cache ?_ ?_ ⟨?_, ?_⟩ ?_
    · rw [attach_transfer, lift_transfer, setTransfer_self]
      exact h.terminals
    · rw [attach_jobs, Scheduler.setJob_self, hjob]
      exact h.cancelled
    · rw [attach_transfer, lift_transfer, setTransfer_self]
    · rw [attach_jobs, Scheduler.setJob_self]
    · rw [attach_jobs, Scheduler.setJob_self, hjob]
      exact fun hc => h.no_challenge hc
  · exact h.leave hq

theorem Quiet.finish (h : m.Quiet i) (hr : c.cancelsResponse = false) (hq : c.cancelsEnd = false) :
    (m.finish i c).Due i := by
  have hheard : (if c.responseFired then m else m.heard i c.cancelsResponse) = m := by
    rw [heard_no _ i hr, ite_self]
  unfold Transfers.finish
  rw [hheard]
  dsimp only
  rw [if_neg (by rw [h.cancelled, h.auth, h.challenge]; simp)]
  split
  · have hbusy : ({ m with readCacheJobList := m.readCacheJobList ++ [i] } : Transfers).Busy i :=
      ⟨h.running, h.nodup, h.scheduled, h.known, h.cancelled, h.challenge, h.handle⟩
    rw [hbusy.over h.auth h.ssl]
    refine due_cached h.known h.scheduled h.nodup.not_mem_erase ?_ ?_ ?_ ?_
    · rw [remove_transfer]
    · exact List.mem_append_right _ List.mem_cons_self
    · rw [remove_transfer, setTransfer_self]
      exact h.terminals
    · rw [remove_jobs]
      exact fun hc => h.no_challenge hc
  split
  · exact h.ends hq
  · exact h.leave hq

theorem Quiet.result (h : m.Quiet i) (hr : c.cancelsResponse = false) (hq : c.cancelsEnd = false) :
    (m.result i c).Due i := by
  unfold Transfers.result
  split
  · exact h.leave hq
  split
  · exact h.finish hr hq
  · exact h.finish hr hq
  · split
    · exact h.leave hq
    · exact h.fail hq
  · exact h.fail hq

/-- a job that is taken off the scheduled list -/
structure Taken (m : Transfers) (i : Nat) : Prop where
  scheduled : i ∉ m.scheduledJobList
  running : i ∉ m.runningJobList
  attached : (m.transfer i).attached = false
  cache : i ∉ m.readCacheJobList
  terminals : (m.transfer i).terminals = 0
  auth : (m.transfer i).didAuthChallenge = false
  ssl : (m.jobs i).sslReconnect = false
  wkc : (m.jobs i).doRedirectChallenge = true → m.redirectInWKC = true

theorem Taken.setJob (h : m.Taken i) {d : Job} (hssl : d.sslReconnect = (m.jobs i).sslReconnect)
    (hchal : d.doRedirectChallenge = (m.jobs i).doRedirectChallenge) : (m.lift (m.setJob i d)).Taken i := by
  refine ⟨h.scheduled, h.running, h.attached, h.cache, h.terminals, h.auth, ?_, ?_⟩
  · rw [lift_toScheduler, Scheduler.setJob_self, hssl]
    exact h.ssl
  · rw [lift_toScheduler, Scheduler.setJob_self, hchal]
    exact h.wkc

theorem Taken.gone (h : m.Taken i) (hs : m'.scheduledJobList = m.scheduledJobList)
    (hr : m'.runningJobList = m.runningJobList) (hc : m'.readCacheJobList = m.readCacheJobList)
    (ha : (m'.transfer i).attached = (m.transfer i).attached)
    (ht : (m'.transfer i).terminals = (m.transfer i).terminals + 1)
    (hchal : (m'.jobs i).doRedirectChallenge = (m.jobs i).doRedirectChallenge)
    (hw : m'.redirectInWKC = m.redirectInWKC) : m'.Due i := by
  refine due_gone ?_ ?_ ?_ ?_ ?_ ?_
  · rw [hs]
    exact h.scheduled
  · rw [hr]
    exact h.running
  · rw [ha]
    exact h.attached
  · rw [hc]
    exact h.cache
  · rw [ht, h.terminals]
  · rw [hchal, hw]
    exact h.wkc

theorem cancel_off (hs : i ∉ m.scheduledJobList) (hc : i ∉ m.readCacheJobList) :
    m.cancel i = m.lift (m.setJob i { m.jobs i with cancelled := true }) := by
  unfold cancel Scheduler.cancel
  rw [if_neg hs, if_neg hc, if_neg hs]

theorem tell_transfer (m : Transfers) (j : Nat) :
    (m.tell j).transfer j = { m.transfer j with terminals := (m.transfer j).terminals + 1 } := setTransfer_self ..

theorem deref_transfer (m : Transfers) (j : Nat) :
    (m.deref j).transfer j = { m.transfer j with derefs := (m.transfer j).derefs + 1 } := setTransfer_self ..

theorem initializeHandle_kept (d : Job) (r : Started) :
    (Scheduler.initializeHandle d r).sslReconnect = d.sslReconnect := by
  unfold Scheduler.initializeHandle
  split <;> rfl

theorem initializeHandle_cancelled {d : Job} {r : Started}
    (h : (Scheduler.initializeHandle d r).handle = true) :
    (Scheduler.initializeHandle d r).cancelled = false := by
  unfold Scheduler.initializeHandle at h ⊢
  split at h
  · cases h
  · next hinit => rw [if_neg hinit]

theorem Taken.abort (h : m.Taken i) (hc : (m.jobs i).cancelled = false) : ((m.abort i).deref i).Due i := by
  unfold Transfers.abort
  rw [if_neg (ne_true_of_eq_false hc)]
  refine h.gone rfl rfl rfl ?_ ?_ ?_ rfl
  · rw [deref_transfer, tell_transfer]
    rfl
  · rw [deref_transfer, tell_transfer]
    rfl
  · show ((m.toScheduler.setJob i _).jobs i).doRedirectChallenge = _
    rw [Scheduler.setJob_self]

theorem Taken.startJob (h : m.Taken i) (r : Started)
    (hx : (m.jobs i).url.protocolIsData = true → 0x2C ∈ (m.jobs i).url.string) : (m.startJob i r).Due i := by
  unfold Transfers.startJob
  split
  · next hdata =>
    have htold : m.handleDataURL i = m.tell i := if_pos (hx hdata)
    have hcancel := @cancel_off (m.tell i) i h.scheduled h.cache
    rw [htold, hcancel]
    refine h.gone rfl rfl rfl ?_ ?_ ?_ rfl
    · rw [deref_transfer, lift_transfer, tell_transfer]
    · rw [deref_transfer, lift_transfer, tell_transfer]
    · show ((m.toScheduler.setJob i _).jobs i).doRedirectChallenge = _
      rw [Scheduler.setJob_self]
      rfl
  have h' := h.setJob (initializeHandle_kept (m.jobs i) r) (Scheduler.initializeHandle_challenge (m.jobs i) r)
  have hjob : (m.lift (m.setJob i (Scheduler.initializeHandle (m.jobs i) r))).jobs i =
      Scheduler.initializeHandle (m.jobs i) r := Scheduler.setJob_self ..
  dsimp only
  generalize m.lift (m.setJob i (Scheduler.initializeHandle (m.jobs i) r)) = m' at h' hjob ⊢
  split
  · refine h'.gone rfl rfl rfl ?_ ?_ rfl rfl <;> rw [tell_transfer]
  next hhandle =>
  split
  · rw [cancel_off h'.scheduled h'.cache]
    refine h'.gone rfl rfl rfl ?_ ?_ ?_ rfl
    · rw [deref_transfer, lift_transfer, tell_transfer]
      rfl
    · rw [deref_transfer, lift_transfer, tell_transfer]
      rfl
    · show ((Scheduler.setJob _ i _).jobs i).doRedirectChallenge = _
      rw [Scheduler.setJob_self]
      show ((m'.toScheduler.setJob i _).jobs i).doRedirectChallenge = _
      rw [Scheduler.setJob_self]
  · have hgoes : (m'.jobs i).cancelled = false := by
      rw [hjob]
      apply initializeHandle_cancelled
      rw [← hjob]
      exact Bool.eq_true_of_not_eq_false hhandle
    refine due_running h'.scheduled (.inl (List.mem_append_right _ List.mem_cons_self)) h'.cache ?_ hgoes
      ⟨?_, h'.ssl⟩ h'.wkc
    · rw [attach_transfer]
      exact h'.terminals
    · rw [attach_transfer]
      exact h'.auth

theorem Due.taken (hd : m.Due i) (hg : m.Good) (hmem : i ∈ m.scheduledJobList) {l : List Nat} (hl : i ∉ l) :
    (m.lift { m.toScheduler with scheduledJobList := l }).Taken i := by
  obtain ⟨hr, ha⟩ := (hg.ok i).sched (spot_sched hmem)
  obtain ⟨hauth, hssl⟩ := hd.attempt (.inl hmem)
  exact ⟨hl, of_decide_eq_false hr, ha, fun hc => (hd.cache hc).2.1 hmem, hd.untold (.inl hmem), hauth, hssl, hd.wkc⟩

theorem Initial.due (h : m.Initial) (i : Nat) : m.Due i where
  untold _ := by rw [h.transfer]
  told hknown := absurd (h.next ▸ hknown) (Nat.not_lt_zero i)
  goes hplace := by
    rw [h.running, h.transfer] at hplace
    simp at hplace
  prohibited hplace := by
    rw [h.scheduled] at hplace
    exact absurd hplace List.not_mem_nil
  attempt hplace := by
    rw [h.scheduled, h.running, h.transfer] at hplace
    simp at hplace
  cache hplace := by
    rw [h.cache] at hplace
    exact absurd hplace List.not_mem_nil
  wkc hc := by
    rw [h.challenge] at hc
    cases hc

end

/-- the application prohibits the URL, and the proxy is set before the job is taken -/
def prohibited : List Op :=
  [.add Scheduler.site false false ⟨.inclusion, true, -1⟩, .setProxyInfo true, .resume, .resume]

end Transfers
end Wkc
