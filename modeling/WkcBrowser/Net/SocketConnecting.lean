import WkcBrowser.Net.SocketStream

/-!
# One WebSocket connects to a server at a time

`canStartWebSocketConnecting` looks at the `socketState` of the other handles, which says `Initialized` until curl
has connected them.

* `Performs`, `Begun`     a handle is let through, and another one of its server has been before;
* `NoOverlap`             the second must be active or closed by then;
* `InTurn`                timers that come in turn, whatever the guard answers;
* `Later`, `Fades`        what a call does to the handles if it opens none;
* `Phase`, `Phases`       what `m_state`, `socketState` and the running calls say of each other;
* `connecting_alone`      handles connect one at a time exactly if their timers come in turn.
-/

namespace Wkc
namespace Stream

/-- the timer of `h` runs `curl_multi_perform` to connect -/
def Performs (s : Streams) (h : Nat) : Prop :=
  s.stack = [] ∧ (s.handles h).alive = true ∧ (s.handles h).socketState ≠ .None ∧ (s.handles h).isSet = true ∧
    (s.handles h).state = .Connecting ∧ s.canStartWebSocketConnecting h = true

instance (s : Streams) (h : Nat) : Decidable (Performs s h) := inferInstanceAs (Decidable (_ ∧ _))

/-- another listed handle of the same server that has run it -/
def Begun (s : Streams) (h item : Nat) : Prop :=
  item ∈ s.socketStreamHandleList ∧ item ≠ h ∧ (s.handles item).url = (s.handles h).url ∧
    (s.handles item).performed = true

/-- no handle connects while another one of its server has begun and is neither active nor closed -/
def NoOverlap (s : Streams) : Act → Prop
  | .timer h _ => Performs s h →
      ∀ item, Begun s h item → (s.handles item).socketState = .Active ∨ (s.handles item).state = .Closed
  | _ => True

/-- between the first `curl_multi_perform` and the message of curl, or a close -/
def Underway (x : Handle) : Prop := x.isSet = true ∧ x.performed = true ∧ x.state = .Connecting

/-- The timer of a handle that is still to connect fires when no other handle of its server is underway.  The guard
is not asked. -/
def InTurn (s : Streams) : Act → Prop
  | .timer h _ => (s.handles h).alive = true ∧ s.stack = [] → (s.handles h).isSet = true →
      (s.handles h).state = .Connecting →
      ∀ item, item ≠ h → (s.handles item).url = (s.handles h).url → ¬ Underway (s.handles item)
  | _ => True

/-! ## handles that are not opened -/

/-- a handle before and after a call that does not open it -/
structure Later (x y : Handle) : Prop where
  url : y.url = x.url
  performed : y.performed = x.performed
  socketState : y.socketState = x.socketState
  isSet : y.isSet = true → x.isSet = true
  state : y.state = x.state ∨ y.state = .Closed ∨
    y.state = .Closing ∧ (x.state = .Open ∨ x.state = .Closing ∨ x.isSet = true ∧ y.isSet = false)

theorem Later.refl (x : Handle) : Later x x := ⟨rfl, rfl, rfl, id, .inl rfl⟩

theorem Later.trans {x y z : Handle} (h : Later x y) (h' : Later y z) : Later x z where
  url := h'.url.trans h.url
  performed := h'.performed.trans h.performed
  socketState := h'.socketState.trans h.socketState
  isSet := h.isSet ∘ h'.isSet
  state := by
    have hunset : y.isSet = false → z.isSet = false := fun hy =>
      Bool.eq_false_of_not_eq_true fun hz => ne_true_of_eq_false hy (h'.isSet hz)
    have hset := h.isSet
    rcases h'.state with hsame | hclosed | ⟨hclosing, hfrom⟩
    · rcases h.state with hfirst | hfirst | ⟨hfirst, hfrom⟩
      · exact .inl (hsame.trans hfirst)
      · exact .inr (.inl (hsame.trans hfirst))
      · exact .inr (.inr ⟨hsame.trans hfirst, hfrom.imp_right fun hr => hr.imp_right fun hu => ⟨hu.1, hunset hu.2⟩⟩)
    · exact .inr (.inl hclosed)
    · refine .inr (.inr ⟨hclosing, ?_⟩)
      rcases h.state with hfirst | hfirst | ⟨_, hfirst⟩
      · rw [hfirst] at hfrom
        exact hfrom.imp_right fun hr => hr.imp_right fun hu => ⟨hset hu.1, hu.2⟩
      · rcases hfrom with hopen | hopen | ⟨hy, hz⟩
        · rw [hfirst] at hopen
          cases hopen
        · rw [hfirst] at hopen
          cases hopen
        · exact .inr (.inr ⟨hset hy, hz⟩)
      · exact hfirst.imp_right fun hr => hr.imp_right fun hu => ⟨hu.1, hunset hu.2⟩

/-- the frames of `j` that say something of it -/
structure Same (stack stack' : List Frame) (j : Nat) : Prop where
  opened : .opened j ∈ stack' ↔ .opened j ∈ stack
  reserving : ∀ u o, .reserving j u o ∈ stack' → ∃ u', .reserving j u' o ∈ stack

theorem Same.refl (stack : List Frame) (j : Nat) : Same stack stack j := ⟨Iff.rfl, fun u _ hmem => ⟨u, hmem⟩⟩

theorem Same.cons {f : Frame} (stack : List Frame) {j : Nat} (ho : f ≠ .opened j)
    (hr : ∀ u o, f ≠ .reserving j u o) : Same stack (f :: stack) j where
  opened := List.mem_cons.trans (or_iff_right ho.symm)
  reserving u o hmem := ⟨u, (List.mem_cons.mp hmem).resolve_left (hr u o).symm⟩

theorem Same.tail {f : Frame} (stack : List Frame) {j : Nat} (ho : f ≠ .opened j) : Same (f :: stack) stack j where
  opened := (List.mem_cons.trans (or_iff_right ho.symm)).symm
  reserving u _ hmem := ⟨u, List.mem_cons_of_mem f hmem⟩

/-- what a call does that opens no handle -/
structure Fades (s t : Streams) : Prop where
  handles : ∀ j, Later (s.handles j) (t.handles j)
  alive : ∀ j, .opened j ∈ s.stack → (t.handles j).alive = (s.handles j).alive
  stack : ∀ j, Same s.stack t.stack j

section
variable {max : Nat} {s t u : Streams} {h : Nat}

theorem Fades.refl (s : Streams) : Fades s s := ⟨fun _ => Later.refl _, fun _ _ => rfl, Same.refl s.stack⟩

theorem Fades.trans (hf : Fades s t) (hf' : Fades t u) : Fades s u where
  handles j := (hf.handles j).trans (hf'.handles j)
  alive j hj := (hf'.alive j ((hf.stack j).opened.mpr hj)).trans (hf.alive j hj)
  stack j := by
    refine ⟨(hf'.stack j).opened.trans (hf.stack j).opened, fun v o hmem => ?_⟩
    obtain ⟨v', hmem'⟩ := (hf'.stack j).reserving v o hmem
    exact (hf.stack j).reserving v' o hmem'

theorem fades_set {x : Handle} (ht : t.handles = Function.update s.handles h x) (hx : Later (s.handles h) x)
    (halive : .opened h ∈ s.stack → x.alive = (s.handles h).alive) (hstack : ∀ j, Same s.stack t.stack j) :
    Fades s t := by
  have hself : t.handles h = x := ht ▸ Function.update_self ..
  have hother : ∀ j, j ≠ h → t.handles j = s.handles j := fun j hj => ht ▸ Function.update_of_ne hj ..
  refine ⟨fun j => ?_, fun j hj => ?_, hstack⟩
  · by_cases hjh : j = h
    · rw [hjh, hself]
      exact hx
    · rw [hother j hjh]
      exact Later.refl _
  · by_cases hjh : j = h
    · subst hjh
      rw [hself]
      exact halive hj
    · rw [hother j hjh]

theorem fades_stack (ht : t.handles = s.handles) (hstack : ∀ j, Same s.stack t.stack j) : Fades s t :=
  ⟨fun j => ht ▸ Later.refl _, fun j _ => by rw [ht], hstack⟩

theorem fades_closed (s : Streams) (h : Nat) : Fades s (s.closed h) :=
  fades_set rfl ⟨rfl, rfl, rfl, id, .inr (.inl rfl)⟩ (fun _ => rfl) (Same.refl _)

theorem fades_platformClose (s : Streams) (h : Nat) : Fades s (s.platformClose h) := by
  have hcleared : Fades s (s.cleared h) :=
    fades_set rfl ⟨rfl, rfl, rfl, fun hset => absurd hset Bool.false_ne_true, .inl rfl⟩ (fun _ => rfl) (Same.refl _)
  unfold Streams.platformClose
  split
  · exact Fades.refl s
  split
  · refine hcleared.trans (fades_stack rfl fun j => Same.cons _ ?_ ?_) <;> nofun
  · exact hcleared.trans (fades_stack rfl (Same.refl _))

theorem fades_disconnect (s : Streams) (h : Nat) : Fades s (s.disconnect h) := by
  unfold Streams.disconnect
  split
  · exact fades_platformClose s h
  · exact (fades_platformClose s h).trans (fades_closed _ h)

theorem disconnect_state (s : Streams) (h : Nat) : ((s.disconnect h).handles h).state = .Closed ∨
    ((s.disconnect h).handles h).state = (s.handles h).state ∧ (s.handles h).isSet = true ∧
      ((s.disconnect h).handles h).isSet = false := by
  unfold Streams.disconnect
  split
  · next hboth =>
    obtain ⟨hset, hclient⟩ := Bool.and_eq_true_iff.mp hboth
    have hcleared : ((s.cleared h).handles h) = { s.handles h with handle := false, multiHandle := false } := set_self ..
    have hhandles : (s.platformClose h).handles h = (s.cleared h).handles h := by
      unfold Streams.platformClose
      rw [if_neg (ne_false_of_eq_true hset), if_pos hclient]
      rfl
    rw [hhandles, hcleared]
    exact .inr ⟨rfl, hset, rfl⟩
  · exact .inl (congrArg Handle.state (set_self ..))

theorem fades_close_connecting (s : Streams) (h : Nat) :
    Fades s ((s.set h { s.handles h with state := .Closing }).disconnect h) := by
  have hf := fades_disconnect (s.set h { s.handles h with state := .Closing }) h
  have hself : (s.set h { s.handles h with state := .Closing }).handles h = { s.handles h with state := .Closing } :=
    set_self ..
  have hstate := disconnect_state (s.set h { s.handles h with state := .Closing }) h
  refine ⟨fun j => ?_, fun j hj => (hf.alive j hj).trans ?_, hf.stack⟩
  · have hj := hf.handles j
    by_cases hjh : j = h
    · subst hjh
      rw [hself] at hj hstate
      exact ⟨hj.url, hj.performed, hj.socketState, hj.isSet,
        .inr (hstate.imp_right fun hr => ⟨hr.1, .inr (.inr hr.2)⟩)⟩
    · rw [set_ne s hjh] at hj
      exact hj
  · by_cases hjh : j = h
    · rw [hjh, hself]
    · rw [set_ne s hjh]

theorem fades_close (s : Streams) (h : Nat) (buffered : Bool) : Fades s (s.close h buffered) := by
  have hopen : (s.handles h).state = .Open ∨ (s.handles h).state = .Closing →
      Fades s (s.set h { s.handles h with state := .Closing }) := fun hstate =>
    fades_set rfl ⟨rfl, rfl, rfl, id, .inr (.inr ⟨rfl, by tauto⟩)⟩ (fun _ => rfl) (Same.refl _)
  unfold Streams.close
  dsimp only
  cases hstate : (s.handles h).state with
  | Closed => exact Fades.refl s
  | Connecting => exact fades_close_connecting s h
  | Open =>
    cases buffered with
    | true => exact hopen (.inl hstate)
    | false => exact (hopen (.inl hstate)).trans (fades_disconnect _ h)
  | Closing =>
    cases buffered with
    | true => exact hopen (.inr hstate)
    | false => exact (hopen (.inr hstate)).trans (fades_disconnect _ h)

theorem fades_destroy (hfree : h ∉ s.stack.map Frame.subject) : Fades s (s.destroy h) := by
  have hquiet : Fades s (s.set h { s.handles h with client := false }) :=
    fades_set rfl ⟨rfl, rfl, rfl, id, .inl rfl⟩ (fun _ => rfl) (Same.refl _)
  have hclosed := hquiet.trans (fades_platformClose _ h)
  unfold Streams.destroy
  dsimp only
  refine hclosed.trans (fades_set rfl ⟨rfl, rfl, rfl, id, .inl rfl⟩ (fun hopened => ?_) (Same.refl _))
  exact absurd (List.mem_map.mpr ⟨_, (hclosed.stack h).opened.mp hopened, rfl⟩) hfree

/-! ## the phases -/

/-- what `m_state` says of `socketState` and of the calls of a handle -/
structure Phase (stack : List Frame) (h : Nat) (x : Handle) : Prop where
  known : x.isSet = true → x.socketState ≠ .None
  connecting : x.isSet = true → x.state = .Connecting → x.socketState = .Initialized
  opening : x.isSet = true → x.state = .Open ∨ x.state = .Closing →
    x.socketState = .Connected ∨ x.socketState = .Active ∨ .opened h ∈ stack
  opened : .opened h ∈ stack → x.alive = true ∧ x.state ≠ .Connecting
  reserving : ∀ u o, .reserving h u o ∈ stack →
    (x.state = .Connecting ∨ x.state = .Closed) ∧ x.performed = false ∧ .opened h ∉ stack

/-- curl has connected the handle, which is not active yet -/
def Opens (stack : List Frame) (h : Nat) (x : Handle) : Prop :=
  x.isSet = true ∧ (x.socketState = .Connected ∨ .opened h ∈ stack)

/-- and while one handle is connected and not active, none of its server is underway -/
structure Phases (s : Streams) : Prop where
  phase : ∀ h, Phase s.stack h (s.handles h)
  apart : ∀ h j, j ≠ h → (s.handles j).url = (s.handles h).url → Underway (s.handles j) →
    ¬ Opens s.stack h (s.handles h)

theorem Phases.fades (hp : Phases s) (hk : Kept max s) (hf : Fades s t) : Phases t := by
  refine ⟨fun j => ?_, fun j i hij hurl hway hopens => ?_⟩
  · have hx := hf.handles j
    have hs := hf.stack j
    have hph := hp.phase j
    refine ⟨fun hset => ?_, fun hset hstate => ?_, fun hset hstate => ?_, fun hopened => ?_, fun v o hmem => ?_⟩
    · rw [hx.socketState]
      exact hph.known (hx.isSet hset)
    · rw [hx.socketState]
      refine hph.connecting (hx.isSet hset) ?_
      rcases hx.state with hsame | hclosed | ⟨hclosing, _⟩
      · exact hsame.symm.trans hstate
      · rw [hstate] at hclosed
        cases hclosed
      · rw [hstate] at hclosing
        cases hclosing
    · rw [hx.socketState, hs.opened]
      refine hph.opening (hx.isSet hset) ?_
      rcases hx.state with hsame | hclosed | ⟨_, hopen | hclosing | ⟨_, hunset⟩⟩
      · exact hsame ▸ hstate
      · rw [hclosed] at hstate
        rcases hstate with hopen | hclosing
        · cases hopen
        · cases hclosing
      · exact .inl hopen
      · exact .inr hclosing
      · rw [hset] at hunset
        cases hunset
    · have hbefore := hs.opened.mp hopened
      refine ⟨(hf.alive j hbefore).trans (hph.opened hbefore).1, fun hstate => ?_⟩
      rcases hx.state with hsame | hclosed | ⟨hclosing, _⟩
      · exact (hph.opened hbefore).2 (hsame.symm.trans hstate)
      · rw [hstate] at hclosed
        cases hclosed
      · rw [hstate] at hclosing
        cases hclosing
    · obtain ⟨v', hbefore⟩ := hs.reserving v o hmem
      obtain ⟨hstate, hperformed, hnot⟩ := hph.reserving v' o hbefore
      have hunset : (s.handles j).isSet = false := (hk.unset j (List.mem_filterMap.mpr ⟨_, hbefore, rfl⟩)).2
      refine ⟨?_, hx.performed.trans hperformed, fun hopened => hnot (hs.opened.mp hopened)⟩
      rcases hx.state with hsame | hclosed | ⟨_, hopen | hclosing | ⟨hset, _⟩⟩
      · exact hsame ▸ hstate
      · exact .inr hclosed
      · rw [hopen] at hstate
        rcases hstate with hfalse | hfalse <;> cases hfalse
      · rw [hclosing] at hstate
        rcases hstate with hfalse | hfalse <;> cases hfalse
      · rw [hunset] at hset
        cases hset
  · have hi := hf.handles i
    have hj := hf.handles j
    refine hp.apart j i hij ?_ ⟨hi.isSet hway.1, hi.performed ▸ hway.2.1, ?_⟩ ⟨hj.isSet hopens.1, ?_⟩
    · exact hi.url.symm.trans (hurl.trans hj.url)
    · rcases hi.state with hsame | hclosed | ⟨hclosing, _⟩
      · exact hsame.symm.trans hway.2.2
      · rw [hway.2.2] at hclosed
        cases hclosed
      · rw [hway.2.2] at hclosing
        cases hclosing
    · exact hopens.2.imp (hj.socketState.symm.trans ·) (hf.stack j).opened.mp

theorem Phase.same {stack stack' : List Frame} {x : Handle} (hph : Phase stack h x) (hs : Same stack stack' h) :
    Phase stack' h x := by
  refine ⟨hph.known, hph.connecting, ?_, ?_, fun v o hmem => ?_⟩
  · rw [hs.opened]
    exact hph.opening
  · rw [hs.opened]
    exact hph.opened
  · obtain ⟨v', hbefore⟩ := hs.reserving v o hmem
    rw [hs.opened]
    exact hph.reserving v' o hbefore

theorem Phases.set (hp : Phases s) {x : Handle} (ht : t.handles = Function.update s.handles h x)
    (hstack : ∀ j, j ≠ h → Same s.stack t.stack j) (hx : Phase t.stack h x)
    (hway : Underway x → ∀ j, j ≠ h → x.url = (s.handles j).url → ¬ Opens s.stack j (s.handles j))
    (hopens : Opens t.stack h x → ∀ j, j ≠ h → (s.handles j).url = x.url → ¬ Underway (s.handles j)) : Phases t := by
  have hself : t.handles h = x := ht ▸ Function.update_self ..
  have hother : ∀ j, j ≠ h → t.handles j = s.handles j := fun j hj => ht ▸ Function.update_of_ne hj ..
  refine ⟨fun j => ?_, fun j i hij hurl hw ho => ?_⟩
  · by_cases hj : j = h
    · subst hj
      rw [hself]
      exact hx
    · rw [hother j hj]
      exact (hp.phase j).same (hstack j hj)
  · by_cases hj : j = h
    · subst hj
      rw [hself] at hurl ho
      rw [hother i hij] at hurl hw
      exact hopens ho i hij hurl hw
    · rw [hother j hj] at hurl ho
      have ho' : Opens s.stack j (s.handles j) := ⟨ho.1, ho.2.imp_right (hstack j hj).opened.mp⟩
      by_cases hi : i = h
      · subst hi
        rw [hself] at hurl hw
        exact hway hw j hj hurl ho'
      · rw [hother i hi] at hurl hw
        exact hp.apart j i hij hurl hw ho'

theorem Phases.fresh (hp : Phases s) {x : Handle} (ht : t.handles = Function.update s.handles h x)
    (hstack : ∀ j, j ≠ h → Same s.stack t.stack j) (hnot : .opened h ∉ t.stack) (hperformed : x.performed = false)
    (hstate : x.state = .Connecting ∨ x.state = .Closed) (hsocket : x.isSet = true → x.socketState = .Initialized) :
    Phases t := by
  refine hp.set ht hstack ⟨fun hset => ?_, fun hset _ => hsocket hset, fun _ hopen => ?_,
    fun hopened => absurd hopened hnot, fun _ _ _ => ⟨hstate, hperformed, hnot⟩⟩ (fun hway => ?_) fun hopens => ?_
  · rw [hsocket hset]
    nofun
  · rcases hstate with hstate | hstate
    all_goals
      rw [hstate] at hopen
      exact hopen.elim nofun nofun
  · exact absurd hway.2.1 (ne_true_of_eq_false hperformed)
  · refine absurd (hopens.2.resolve_left ?_) hnot
    rw [hsocket hopens.1]
    nofun

theorem Phases.construct (hp : Phases s) (hk : Kept max s)
    (hnew : ((s.handles h).state = .Connecting ∨ (s.handles h).state = .Closed) ∧ (s.handles h).performed = false ∧
      .opened h ∉ s.stack) (outcome : Outcome) : Phases (s.construct max h outcome) := by
  have hreleased : Phases ({ s with socketStreamHandleList := s.socketStreamHandleList ++ [h]
      }.releaseWebSocketConnection h) := hp.fades hk (fades_stack rfl (Same.refl _))
  unfold Streams.construct
  split
  · exact hp
  cases outcome with
  | initialized =>
    dsimp only
    split
    · refine hp.fresh rfl (fun j _ => Same.cons _ nofun nofun) ?_ hnew.2.1 hnew.1 fun _ => rfl
      exact fun hmem => hnew.2.2 ((List.mem_cons.mp hmem).resolve_left nofun)
    · exact hp.fresh rfl (fun j _ => Same.refl _ j) hnew.2.2 hnew.2.1 hnew.1 fun _ => rfl
  | noManager | noAuthJar | noMultiHandle | noHandle | noRecvData => exact hreleased

theorem Phases.create (hp : Phases s) (hk : Kept max s) (hfree : (s.handles h).alive = false) (url : Target)
    (client : Bool) (outcome : Outcome) (isClosing : Nat → Bool) :
    Phases (s.create max h url client outcome isClosing) := by
  have hnot : .opened h ∉ s.stack := fun hmem => ne_true_of_eq_false hfree ((hp.phase h).opened hmem).1
  have hself : (s.set h { alive := true, url := url, client := client }).handles h =
      { alive := true, url := url, client := client } := set_self ..
  have hfresh : Phases (s.set h { alive := true, url := url, client := client }) :=
    hp.fresh rfl (fun j _ => Same.refl _ j) hnot rfl (.inl rfl) nofun
  unfold Streams.create
  dsimp only
  split
  · exact hfresh
  split
  · refine hp.fresh rfl (fun j hj => Same.cons _ nofun fun u o heq => hj (Frame.reserving.inj heq).1.symm) ?_ rfl
      (.inl rfl) nofun
    exact fun hmem => hnot ((List.mem_cons.mp hmem).resolve_left nofun)
  · refine hfresh.construct (hk.fresh hfree rfl rfl rfl).1 ?_ outcome
    rw [hself]
    exact ⟨.inl rfl, rfl, hnot⟩

theorem not_blocks (hstart : s.canStartWebSocketConnecting h = true) {item : Nat}
    (hmem : item ∈ s.socketStreamHandleList) (hne : item ≠ h) (hurl : (s.handles item).url = (s.handles h).url) :
    (s.handles item).socketState = .Initialized ∨ (s.handles item).socketState = .Active := by
  unfold Streams.canStartWebSocketConnecting at hstart
  rw [Bool.and_eq_true, Bool.not_eq_true', List.any_eq_false] at hstart
  have hblock := hstart.2 item hmem
  unfold Streams.blocks at hblock
  rw [hurl, beq_self_eq_true, bne_iff_ne.mpr hne, Bool.true_and, Bool.true_and] at hblock
  cases hstate : (s.handles item).socketState with
  | None =>
    rw [hstate] at hblock
    exact absurd rfl hblock
  | Initialized => exact .inl rfl
  | Connected =>
    rw [hstate] at hblock
    exact absurd rfl hblock
  | Active => exact .inr rfl

theorem Kept.idle (hk : Kept max s) (hidle : s.stack = []) (item : Nat) :
    item ∈ s.socketStreamHandleList ↔ (s.handles item).isSet = true := by
  rw [hk.listed item, hidle]
  exact or_iff_left List.not_mem_nil

theorem blocked (hk : Kept max s) (hp : Phases s) (hidle : s.stack = []) (hset : (s.handles h).isSet = true)
    (hstart : s.canStartWebSocketConnecting h = false) : ∃ item, item ≠ h ∧
      (s.handles item).url = (s.handles h).url ∧ Opens s.stack item (s.handles item) := by
  have hlisted : s.socketStreamHandleList.contains h = true :=
    List.contains_iff_mem.mpr ((hk.idle hidle h).mpr hset)
  unfold Streams.canStartWebSocketConnecting at hstart
  rw [hlisted, Bool.true_and, Bool.not_eq_false', List.any_eq_true] at hstart
  obtain ⟨item, hmem, hblocks⟩ := hstart
  unfold Streams.blocks at hblocks
  rw [Bool.and_eq_true, Bool.and_eq_true] at hblocks
  obtain ⟨⟨hne, hurl⟩, hstate⟩ := hblocks
  have hitem := (hk.idle hidle item).mp hmem
  refine ⟨item, bne_iff_ne.mp hne, eq_of_beq hurl, hitem, .inl ?_⟩
  cases hsocket : (s.handles item).socketState with
  | None => exact absurd hsocket ((hp.phase item).known hitem)
  | Initialized =>
    rw [hsocket] at hstate
    cases hstate
  | Connected => rfl
  | Active =>
    rw [hsocket] at hstate
    cases hstate

theorem Phases.timer (hp : Phases s) (hk : Kept max s) (halive : (s.handles h).alive = true) (hidle : s.stack = [])
    {event : Streams.Event} (hturn : InTurn s (.timer h event)) : Phases (s.progressTimerFired h event) := by
  have hnone : ∀ f, f ∉ s.stack := fun f => hidle ▸ List.not_mem_nil
  unfold Streams.progressTimerFired
  dsimp only
  split
  · exact hp.fades hk (fades_closed s h)
  split
  · exact hp
  next hset =>
  have hset : (s.handles h).isSet = true := Bool.eq_true_of_not_eq_false hset
  cases hstate : (s.handles h).state with
  | Connecting =>
    have hsocket := (hp.phase h).connecting hset hstate
    have hclosed : ∀ stack, .opened h ∉ stack → ∀ x : Handle, x.socketState = (s.handles h).socketState →
        ¬ Opens stack h x := by
      intro stack hnot x hx hopens
      rw [hsocket] at hx
      refine hnot (hopens.2.resolve_left ?_)
      rw [hx]
      nofun
    dsimp only
    split
    · exact hp
    next hstart =>
    have hstart : s.canStartWebSocketConnecting h = true := Bool.eq_true_of_not_eq_false hstart
    cases event with
    | nothing =>
      refine hp.set rfl (fun j _ => Same.refl _ j) ⟨fun _ => (hp.phase h).known hset, fun _ _ => hsocket,
        fun _ hopen => ?_, fun hopened => absurd hopened (hnone _), fun _ _ hmem => absurd hmem (hnone _)⟩
        (fun _ j hj hurl hopens => ?_) fun hopens => absurd hopens (hclosed _ (hnone _) _ rfl)
      · exact hopen.elim nofun nofun
      · -- the guard has looked at it
        have hconnected := hopens.2.resolve_right (hnone _)
        rcases not_blocks hstart ((hk.idle hidle j).mpr hopens.1) hj hurl.symm with hinit | hactive
        · rw [hconnected] at hinit
          cases hinit
        · rw [hconnected] at hactive
          cases hactive
    | failed =>
      exact hp.set rfl (fun j _ => Same.refl _ j) ⟨fun _ => (hp.phase h).known hset, fun _ => nofun,
        fun _ hopen => hopen.elim nofun nofun, fun hopened => absurd hopened (hnone _),
        fun _ _ hmem => absurd hmem (hnone _)⟩ (fun hway => absurd hway.2.2 nofun) fun hopens =>
        absurd hopens (hclosed _ (hnone _) _ rfl)
    | ready =>
      refine hp.set rfl (fun j hj => Same.cons _ (fun heq => hj (Frame.opened.inj heq).symm) nofun)
        ⟨fun _ => (hp.phase h).known hset, fun _ => nofun, fun _ _ => .inr (.inr List.mem_cons_self),
          fun _ => ⟨halive, nofun⟩, fun _ _ hmem => ?_⟩ (fun hway => absurd hway.2.2 nofun)
        fun _ j hj hurl => hturn ⟨halive, hidle⟩ hset hstate j hj hurl
      exact absurd ((List.mem_cons.mp hmem).resolve_left nofun) (hnone _)
  | Open =>
    dsimp only
    split
    · exact hp.set rfl (fun j _ => Same.refl _ j) ⟨fun _ => nofun, fun _ hfalse => absurd hfalse nofun,
        fun _ _ => .inr (.inl rfl), fun hopened => absurd hopened (hnone _), fun _ _ hmem => absurd hmem (hnone _)⟩
        (fun hway => absurd hway.2.2 nofun) fun hopens => absurd (hopens.2.resolve_left nofun) (hnone _)
    · exact hp
  | Closing | Closed => exact hp

theorem Phases.resume (hp : Phases s) (hk : Kept max s) : Phases (s.resume max) := by
  unfold Streams.resume
  split
  · exact hp
  · next h stack hs =>
    have hpopped : Fades s ({ s with stack := stack }.releaseWebSocketConnection h) :=
      fades_stack rfl fun j => hs ▸ Same.tail _ nofun
    exact hp.fades hk (hpopped.trans (fades_closed _ h))
  · next h outcome stack hs =>
    have hpopped : Phases { s with stack := stack } := hp.fades hk (fades_stack rfl fun j => hs ▸ Same.tail _ nofun)
    obtain ⟨hstate, hperformed, hnot⟩ := (hp.phase h).reserving [] outcome (hs ▸ List.mem_cons_self)
    refine hpopped.construct (hk.unreserved hs) ⟨hstate, hperformed, fun hmem => hnot ?_⟩ outcome
    rw [hs]
    exact List.mem_cons_of_mem _ hmem
  · next h item underClosing outcome stack hs =>
    have hstay : Phases { s with stack := .reserving h underClosing outcome :: stack } := by
      refine hp.fades hk (fades_stack rfl fun j => ⟨?_, fun v o hmem => ?_⟩)
      · rw [hs, List.mem_cons, List.mem_cons]
        exact or_congr ⟨nofun, nofun⟩ Iff.rfl
      · rw [hs]
        rcases List.mem_cons.mp hmem with heq | hmem
        · obtain ⟨rfl, _, rfl⟩ := Frame.reserving.inj heq
          exact ⟨_, List.mem_cons_self⟩
        · exact ⟨v, List.mem_cons_of_mem _ hmem⟩
    exact hstay.fades (hk.reserving hs underClosing) (fades_disconnect _ item)
  · next h stack hs => exact hp.fades hk (fades_stack rfl fun j => hs ▸ Same.tail _ nofun)
  · next h stack hs =>
    have hmem : Frame.opened h ∈ s.stack := hs ▸ List.mem_cons_self
    have hph := hp.phase h
    obtain ⟨halive, hstate⟩ := hph.opened hmem
    refine hp.set rfl (fun j hj => hs ▸ Same.tail _ fun heq => hj (Frame.opened.inj heq).symm)
      ⟨fun _ => nofun, fun _ hconnecting => absurd hconnecting hstate, fun _ _ => .inl rfl,
        fun _ => ⟨halive, hstate⟩, fun v o hr => ?_⟩ (fun hway => absurd hway.2.2 hstate) fun hopens j hj hurl hway =>
        hp.apart h j hj hurl hway ⟨hopens.1, .inr hmem⟩
    have hbefore : Frame.reserving h v o ∈ s.stack := hs ▸ List.mem_cons_of_mem _ hr
    exact absurd hmem (hph.reserving v o hbefore).2.2

/-- what holds in every state of a run whose timers come in turn -/
structure Sound (max : Nat) (s : Streams) : Prop where
  kept : Kept max s
  phases : Phases s

theorem Sound.step (hs : Sound max s) {act : Act} (hturn : InTurn s act) : Sound max (step max s act) := by
  refine ⟨hs.kept.step act, ?_⟩
  obtain ⟨hk, hp⟩ := hs
  cases act with
  | create h url client outcome isClosing =>
    show Phases (if _ then _ else _)
    split
    · exact hp
    · next hfree => exact hp.create hk (Bool.eq_false_of_not_eq_true hfree) url client outcome isClosing
  | disconnect h =>
    show Phases (if _ then _ else _)
    split
    · exact hp.fades hk (fades_disconnect s h)
    · exact hp
  | close h buffered =>
    show Phases (if _ then _ else _)
    split
    · exact hp.fades hk (fades_close s h buffered)
    · exact hp
  | clearClient h =>
    show Phases (if _ then _ else _)
    split
    · exact hp.fades hk (fades_set rfl ⟨rfl, rfl, rfl, id, .inl rfl⟩ (fun _ => rfl) (Same.refl _))
    · exact hp
  | destroy h =>
    show Phases (if _ then _ else _)
    split
    · next hfree => exact hp.fades hk (fades_destroy hfree.2)
    · exact hp
  | timer h event =>
    show Phases (if _ then _ else _)
    split
    · next hidle => exact hp.timer hk hidle.1 hidle.2 hturn
    · exact hp
  | resume => exact hp.resume hk

theorem sound_new (max : Nat) : Sound max {} where
  kept := kept_new max
  phases := ⟨fun _ => ⟨nofun, nofun, nofun, nofun, nofun⟩, nofun⟩

/-- The guard stops a handle whose server has one that is connected and not active, and no more.  So a timer that
comes out of turn either runs `curl_multi_perform` beside a handle that is underway, or such a one was let
through before. -/
theorem Sound.noOverlap_iff (hs : Sound max s) (act : Act) : NoOverlap s act ↔ InTurn s act := by
  obtain ⟨hk, hp⟩ := hs
  cases act with
  | timer h event =>
    constructor
    · intro hno hidle hset hstate item hne hurl hway
      have hbegun : Begun s h item := ⟨(hk.idle hidle.2 item).mpr hway.1, hne, hurl, hway.2.1⟩
      have hinit := (hp.phase item).connecting hway.1 hway.2.2
      cases hstart : s.canStartWebSocketConnecting h with
      | true =>
        rcases hno ⟨hidle.2, hidle.1, (hp.phase h).known hset, hset, hstate, hstart⟩ item hbegun with hactive | hclosed
        · rw [hinit] at hactive
          cases hactive
        · rw [hway.2.2] at hclosed
          cases hclosed
      | false =>
        obtain ⟨other, _, hother, hopens⟩ := blocked hk hp hidle.2 hset hstart
        by_cases heq : item = other
        · subst heq
          rcases hopens.2 with hconnected | hmem
          · rw [hinit] at hconnected
            cases hconnected
          · exact ((hp.phase item).opened hmem).2 hway.2.2
        · exact hp.apart other item heq (hurl.trans hother.symm) hway hopens
    · intro hturn hperforms item hbegun
      obtain ⟨hidle, halive, _, hset, hstate, hstart⟩ := hperforms
      obtain ⟨hmem, hne, hurl, hperformed⟩ := hbegun
      have hitem := (hk.idle hidle item).mp hmem
      have hopening : (s.handles item).state = .Open ∨ (s.handles item).state = .Closing →
          (s.handles item).socketState = .Active := by
        intro hopen
        rcases (hp.phase item).opening hitem hopen with hconnected | hactive | hopened
        · rcases not_blocks hstart hmem hne hurl with hinit | hactive
          · rw [hconnected] at hinit
            cases hinit
          · exact hactive
        · exact hactive
        · rw [hidle] at hopened
          cases hopened
      cases hphase : (s.handles item).state with
      | Connecting => exact absurd ⟨hitem, hperformed, hphase⟩ (hturn ⟨halive, hidle⟩ hset hstate item hne hurl)
      | Open => exact .inl (hopening (.inl hphase))
      | Closing => exact .inl (hopening (.inr hphase))
      | Closed => exact .inr rfl
  | create | disconnect | close | clearClient | destroy | resume => exact Iff.rfl

end

/-- **One WebSocket connects at a time.**  In a run no handle connects while another one of its server has begun
and is neither active nor closed, exactly if the timers of handles that are still to connect come in turn: none
fires while another handle of the server is between its first `curl_multi_perform` and the message of curl. -/
theorem connecting_alone (max : Nat) (acts : List Act) :
    Runs.Along (step max) NoOverlap {} acts ↔ Runs.Along (step max) InTurn {} acts :=
  Runs.along_iff_kept (P := Sound max) (fun _ _ hturn hs => hs.step hturn) (fun _ act hs => hs.noOverlap_iff act)
    (sound_new max) acts

/-- two streams to one server: curl has not finished connecting the first one when the second timer fires -/
def twoTimers : List Act :=
  [.create 0 ⟨[0x68], 80⟩ false .initialized (fun _ => false), .create 1 ⟨[0x68], 80⟩ false .initialized (fun _ => false),
    .timer 0 .nothing, .timer 1 .nothing]

theorem both_connect : ¬ Runs.Along (step 2) NoOverlap {} twoTimers := by
  intro h
  have hbegun : Begun (Runs.run (step 2) {} (twoTimers.take 3)) 1 0 := ⟨by decide, by decide, by decide, by decide⟩
  have hperforms : Performs (Runs.run (step 2) {} (twoTimers.take 3)) 1 := by decide
  rcases h.2.2.2.1 hperforms 0 hbegun with hactive | hclosed
  · exact absurd hactive (by decide)
  · exact absurd hclosed (by decide)

end Stream
end Wkc
