import WkcBrowser.Lib.Runs
import Mathlib.Algebra.Group.Nat.Defs
import Mathlib.Data.List.Basic
import Mathlib.Data.List.Nodup
import Mathlib.Logic.Function.Basic

/-!
# Thread identifiers (ThreadingWKC.cpp, Threading.cpp)

* `State`                  `gThreads` and `gThreadsIndex`, the threads of `createThread`, and the calls under way;
* `createThread` in its steps `createPeer`, `append`, `release`; `waitForThreadCompletion` and `detachThread` in theirs;
* `currentThread`, `isMainThread`   what a thread asks;
* `Identified`             every running thread sees an identifier of its own, and none that of the main thread;
* `identified_along`       that is so in every run that removes no identifier of a running thread, gets no instance
                           that is still in the table and does not use up the identifiers.
-/

namespace Wkc.Threads
open Runs

structure WKCThreadIdentifier where
  m_instance : Nat
  m_identifier : Nat
  deriving DecidableEq

inductive Phase
  | absent
  /-- the peer has created it; it waits for `creationMutex` -/
  | created
  /-- and it is in the table -/
  | established
  | running
  | ended
  deriving DecidableEq

/-- a call of `waitForThreadCompletion` or `detachThread`, and where it is -/
inductive Call
  | none
  | joining (threadID inst : Nat)
  | joined (threadID : Nat)
  | detaching (threadID inst : Nat)
  | removed (inst : Nat)
  deriving DecidableEq

/-- The threads and the calls have numbers, which are not in the source. -/
structure State where
  gThreads : List WKCThreadIdentifier
  gThreadsIndex : Nat
  phase : Nat → Phase := fun _ => .absent
  inst : Nat → Nat := fun _ => 0
  /-- what `createThread` returns -/
  ident : Nat → Nat := fun _ => 0
  /-- joined or detached -/
  letGo : Nat → Bool := fun _ => false
  call : Nat → Call := fun _ => .none

inductive Action
  /-- `wkcThreadCreatePeer` returns an instance, or null -/
  | createPeer (t inst : Nat)
  | append (t : Nat)
  /-- `createThread` returns and lets go of `creationMutex` -/
  | release (t : Nat)
  | finish (t : Nat)
  | waitForThreadCompletion (k threadID : Nat)
  | detachThread (k threadID : Nat)
  /-- the next step of a call; a peer says which thread it has joined or detached, if any -/
  | proceed (k : Nat) (t : Option Nat)

def mainThreadIdentifier : Nat := 1

def initializeThreading (main : Nat) : State where
  gThreads := [⟨main, mainThreadIdentifier⟩]
  gThreadsIndex := mainThreadIdentifier + 1

def getThreadInstance (s : State) (id : Nat) : Nat :=
  ((s.gThreads.find? fun e => e.m_identifier == id).map WKCThreadIdentifier.m_instance).getD 0

def removeThreadIdentifier (s : State) (id : Nat) : State :=
  { s with gThreads := s.gThreads.eraseP fun e => e.m_identifier == id }

/-- asked in a thread with this instance -/
def currentThread (s : State) (inst : Nat) : Nat :=
  ((s.gThreads.find? fun e => e.m_instance == inst).map WKCThreadIdentifier.m_identifier).getD 0

def isMainThread (s : State) (inst : Nat) : Bool := currentThread s inst == mainThreadIdentifier

def setPhase (s : State) (t : Nat) (p : Phase) : State := { s with phase := Function.update s.phase t p }

def setCall (s : State) (k : Nat) (c : Call) : State := { s with call := Function.update s.call k c }

/-- `wkcThreadCreatePeer` has returned an instance -/
def createPeer (s : State) (t inst : Nat) : State :=
  { s with phase := Function.update s.phase t .created, inst := Function.update s.inst t inst }

/-- `gThreads->append` in `createThreadInternal` -/
def append (s : State) (t : Nat) : State :=
  { s with
    gThreads := s.gThreads ++ [⟨s.inst t, s.gThreadsIndex⟩]
    gThreadsIndex := (s.gThreadsIndex + 1) % 2 ^ 32
    phase := Function.update s.phase t .established
    ident := Function.update s.ident t s.gThreadsIndex }

/-- the peer has joined or detached `t` -/
def letGoOf (s : State) : Option Nat → State
  | none => s
  | some t => { s with letGo := Function.update s.letGo t true }

/-- one step of a call; a join blocks until the thread has ended, or fails -/
def proceed (s : State) (k : Nat) (t : Option Nat) : State :=
  match s.call k with
  | .none => s
  | .joining threadID inst =>
    match t with
    | none => setCall s k (.joined threadID)
    | some t =>
      if s.inst t = inst ∧ s.phase t = .ended then letGoOf (setCall s k (.joined threadID)) (some t) else s
  | .joined threadID => setCall (removeThreadIdentifier s threadID) k .none
  | .detaching threadID inst => setCall (removeThreadIdentifier s threadID) k (.removed inst)
  | .removed inst =>
    match t with
    | none => setCall s k .none
    | some t => if s.inst t = inst then letGoOf (setCall s k .none) (some t) else s

def step (s : State) : Action → State
  | .createPeer t inst => if inst = 0 ∨ s.phase t ≠ .absent then s else createPeer s t inst
  | .append t => if s.phase t = .created then append s t else s
  | .release t => if s.phase t = .established then setPhase s t .running else s
  | .finish t => if s.phase t = .running then setPhase s t .ended else s
  | .waitForThreadCompletion k threadID =>
    if s.call k = .none then setCall s k (.joining threadID (getThreadInstance s threadID)) else s
  | .detachThread k threadID =>
    if s.call k = .none then setCall s k (.detaching threadID (getThreadInstance s threadID)) else s
  | .proceed k t => proceed s k t

/-! ## what is meant -/

/-- `ident` gives every thread the identifier that it sees -/
structure Identified (main : Nat) (ident : Nat → Nat) (s : State) : Prop where
  sees : ∀ t, s.phase t = .running → currentThread s (s.inst t) = ident t ∧ ident t ≠ 0
  distinct : ∀ t t', t ≠ t' → s.phase t = .running → s.phase t' = .running →
    currentThread s (s.inst t) ≠ currentThread s (s.inst t')
  main : ∀ inst, isMainThread s inst = true → inst = main

/-- An instance is given again only after its thread was joined or detached and has ended. -/
def Peers (main : Nat) (s : State) : Action → Prop
  | .createPeer _ inst => inst ≠ main ∧
      ∀ t, s.phase t ≠ .absent → s.inst t = inst → s.phase t = .ended ∧ s.letGo t = true
  | _ => True

/-- the identifier that the next step of a call takes out of the table -/
def removes : Call → Option Nat
  | .joined threadID => some threadID
  | .detaching threadID _ => some threadID
  | _ => none

/-- a thread that is in the table and has not ended -/
def Listed (s : State) (t : Nat) : Prop := s.phase t = .established ∨ s.phase t = .running

def Clear (s : State) : Action → Prop
  | .createPeer _ inst => ∀ e ∈ s.gThreads, e.m_instance ≠ inst
  | .append t => s.phase t = .created → s.gThreadsIndex ≠ 0 ∧ s.gThreadsIndex ≠ mainThreadIdentifier ∧
      ∀ e ∈ s.gThreads, e.m_identifier ≠ s.gThreadsIndex
  | .proceed k _ => ∀ id, removes (s.call k) = some id → ∀ t, Listed s t → s.ident t ≠ id
  | _ => True

/-! ## the table -/

theorem currentThread_of_mem {s : State} (hnodup : (s.gThreads.map WKCThreadIdentifier.m_instance).Nodup)
    {e : WKCThreadIdentifier} (he : e ∈ s.gThreads) : currentThread s e.m_instance = e.m_identifier := by
  have hsome : (s.gThreads.find? fun e' => e'.m_instance == e.m_instance).isSome = true :=
    List.find?_isSome.mpr ⟨e, he, by simp⟩
  obtain ⟨found, hfind⟩ := Option.isSome_iff_exists.mp hsome
  have hsame : found.m_instance = e.m_instance := by simpa using List.find?_some hfind
  have hfound : found = e := List.inj_on_of_nodup_map hnodup (List.mem_of_find?_eq_some hfind) he hsame
  rw [currentThread, hfind, hfound]
  rfl

theorem mem_of_currentThread {s : State} {inst : Nat} (h : currentThread s inst ≠ 0) :
    ⟨inst, currentThread s inst⟩ ∈ s.gThreads := by
  unfold currentThread at h ⊢
  cases hfind : s.gThreads.find? fun e => e.m_instance == inst with
  | none =>
    rw [hfind] at h
    exact absurd rfl h
  | some e =>
    have hinst : e.m_instance = inst := by simpa using List.find?_some hfind
    have hmem := List.mem_of_find?_eq_some hfind
    rw [← hinst]
    exact hmem

/-! ## the invariant -/

/-- a thread of the peer that has not ended -/
def Live (s : State) (t : Nat) : Prop := s.phase t = .created ∨ Listed s t

structure Inv (main : Nat) (s : State) : Prop where
  instances : (s.gThreads.map WKCThreadIdentifier.m_instance).Nodup
  identifiers : (s.gThreads.map WKCThreadIdentifier.m_identifier).Nodup
  ne_zero : ∀ e ∈ s.gThreads, e.m_identifier ≠ 0
  main : ∀ e ∈ s.gThreads, e.m_identifier = mainThreadIdentifier → e.m_instance = main
  listed : ∀ t, Listed s t → ⟨s.inst t, s.ident t⟩ ∈ s.gThreads
  created : ∀ t, s.phase t = .created → ∀ e ∈ s.gThreads, e.m_instance ≠ s.inst t
  apart : ∀ t t', t ≠ t' → Live s t → Live s t' → s.inst t ≠ s.inst t'

section
variable {main : Nat} {s : State}

theorem inv_initializeThreading (main : Nat) : Inv main (initializeThreading main) := by
  refine ⟨List.nodup_singleton _, List.nodup_singleton _, ?_, ?_, ?_, ?_, ?_⟩
  · intro e he
    rw [List.mem_singleton.mp he]
    exact Nat.one_ne_zero
  · intro e he _
    rw [List.mem_singleton.mp he]
  · rintro t (h | h) <;> cases h
  · intro t h
    cases h
  · rintro t t' - (h | h | h) <;> cases h

theorem Inv.congr (h : Inv main s) {s' : State} (htable : s'.gThreads = s.gThreads) (hphase : s'.phase = s.phase)
    (hinst : s'.inst = s.inst) (hident : s'.ident = s.ident) : Inv main s' := by
  obtain ⟨instances, identifiers, ne_zero, hmain, listed, created, apart⟩ := h
  refine ⟨?_, ?_, ?_, ?_, ?_, ?_, ?_⟩
  · rwa [htable]
  · rwa [htable]
  · rwa [htable]
  · rwa [htable]
  · unfold Listed
    rwa [htable, hphase, hinst, hident]
  · rwa [htable, hphase, hinst]
  · unfold Live Listed
    rwa [hphase, hinst]

theorem Inv.remove (h : Inv main s) {id : Nat} (hid : ∀ t, Listed s t → s.ident t ≠ id) :
    Inv main (removeThreadIdentifier s id) := by
  have hsub : (removeThreadIdentifier s id).gThreads.Sublist s.gThreads := List.eraseP_sublist
  refine ⟨h.instances.sublist (hsub.map _), h.identifiers.sublist (hsub.map _), ?_, ?_, ?_, ?_, h.apart⟩
  · exact fun e he => h.ne_zero e (hsub.subset he)
  · exact fun e he => h.main e (hsub.subset he)
  · intro t ht
    apply (List.mem_eraseP_of_neg _).mpr (h.listed t ht)
    simp [hid t ht]
  · exact fun t ht e he => h.created t ht e (hsub.subset he)

theorem Inv.setPhase (h : Inv main s) {t : Nat} {p : Phase} (hp : p ≠ .created)
    (hlisted : p = .established ∨ p = .running → Listed s t) : Inv main (setPhase s t p) := by
  have hold : ∀ t', Listed (Threads.setPhase s t p) t' → Listed s t' := by
    intro t' ht'
    by_cases htt : t' = t
    · subst htt
      apply hlisted
      simpa [Listed, Threads.setPhase] using ht'
    · simpa [Listed, Threads.setPhase, Function.update_of_ne htt] using ht'
  have hcreated : ∀ t', (Threads.setPhase s t p).phase t' = .created → s.phase t' = .created := by
    intro t' ht'
    by_cases htt : t' = t
    · subst htt
      exact absurd (by simpa [Threads.setPhase] using ht') hp
    · simpa [Threads.setPhase, Function.update_of_ne htt] using ht'
  have hlive : ∀ t', Live (Threads.setPhase s t p) t' → Live s t' := fun t' => Or.imp (hcreated t') (hold t')
  exact ⟨h.instances, h.identifiers, h.ne_zero, h.main, fun t' ht' => h.listed t' (hold t' ht'),
    fun t' ht' => h.created t' (hcreated t' ht'), fun t' t'' hne h' h'' => h.apart t' t'' hne (hlive t' h') (hlive t'' h'')⟩

theorem Inv.createPeer (h : Inv main s) {t inst : Nat} (hfresh : ∀ t', Live s t' → s.inst t' ≠ inst)
    (hclear : ∀ e ∈ s.gThreads, e.m_instance ≠ inst) (habsent : s.phase t = .absent) :
    Inv main (createPeer s t inst) := by
  have hself : (Threads.createPeer s t inst).inst t = inst := Function.update_self ..
  have hphase : (Threads.createPeer s t inst).phase t = .created := Function.update_self ..
  have hother : ∀ t', t' ≠ t → (Threads.createPeer s t inst).phase t' = s.phase t' ∧
      (Threads.createPeer s t inst).inst t' = s.inst t' := fun t' hne =>
    ⟨Function.update_of_ne hne _ _, Function.update_of_ne hne _ _⟩
  have hlive : ∀ t', t' ≠ t → Live (Threads.createPeer s t inst) t' → Live s t' := by
    intro t' hne ht'
    rwa [Live, Listed, (hother t' hne).1] at ht'
  refine ⟨h.instances, h.identifiers, h.ne_zero, h.main, ?_, ?_, ?_⟩
  · intro t' ht'
    have hne : t' ≠ t := by
      rintro rfl
      rw [Listed, hphase] at ht'
      rcases ht' with ht' | ht' <;> cases ht'
    rw [Listed, (hother t' hne).1] at ht'
    rw [(hother t' hne).2]
    exact h.listed t' ht'
  · intro t' ht'
    by_cases hne : t' = t
    · rw [hne, hself]
      exact hclear
    · rw [(hother t' hne).1] at ht'
      rw [(hother t' hne).2]
      exact h.created t' ht'
  · intro t' t'' hne h' h''
    by_cases ht' : t' = t
    · have ht'' : t'' ≠ t := fun heq => hne (ht'.trans heq.symm)
      rw [ht', hself, (hother t'' ht'').2]
      exact (hfresh t'' (hlive t'' ht'' h'')).symm
    · rw [(hother t' ht').2]
      by_cases ht'' : t'' = t
      · rw [ht'', hself]
        exact hfresh t' (hlive t' ht' h')
      · rw [(hother t'' ht'').2]
        exact h.apart t' t'' hne (hlive t' ht' h') (hlive t'' ht'' h'')

theorem Inv.append (h : Inv main s) {t : Nat} (hcreated : s.phase t = .created) (hzero : s.gThreadsIndex ≠ 0)
    (hmain : s.gThreadsIndex ≠ mainThreadIdentifier) (hnew : ∀ e ∈ s.gThreads, e.m_identifier ≠ s.gThreadsIndex) :
    Inv main (append s t) := by
  have hsame : ∀ t', t' ≠ t → (Threads.append s t).phase t' = s.phase t' := fun t' hne =>
    Function.update_of_ne hne _ _
  have hlisted : ∀ t', t' ≠ t → Listed (Threads.append s t) t' → Listed s t' := by
    intro t' hne ht'
    rwa [Listed, hsame t' hne] at ht'
  have hphase : (Threads.append s t).phase t = .established := Function.update_self ..
  have hother : ∀ t', (Threads.append s t).phase t' = .created → t' ≠ t ∧ s.phase t' = .created := by
    intro t' ht'
    have hne : t' ≠ t := by
      rintro rfl
      rw [hphase] at ht'
      cases ht'
    rw [hsame t' hne] at ht'
    exact ⟨hne, ht'⟩
  have hlive : ∀ t', Live (Threads.append s t) t' → Live s t' := by
    intro t' ht'
    by_cases hne : t' = t
    · exact Or.inl (by rw [hne]; exact hcreated)
    · rcases ht' with ht' | ht'
      · exact Or.inl (hother t' ht').2
      · exact Or.inr (hlisted t' hne ht')
  have htable : (Threads.append s t).gThreads = s.gThreads ++ [⟨s.inst t, s.gThreadsIndex⟩] := rfl
  refine ⟨?_, ?_, ?_, ?_, ?_, ?_, fun t' t'' hne h' h'' => h.apart t' t'' hne (hlive t' h') (hlive t'' h'')⟩
  · rw [htable, List.map_append, List.map_singleton, ← List.concat_eq_append]
    apply h.instances.concat
    intro hmem
    obtain ⟨e, he, hinst⟩ := List.mem_map.mp hmem
    exact h.created t hcreated e he hinst
  · rw [htable, List.map_append, List.map_singleton, ← List.concat_eq_append]
    apply h.identifiers.concat
    intro hmem
    obtain ⟨e, he, hident⟩ := List.mem_map.mp hmem
    exact hnew e he hident
  · rw [htable, List.forall_mem_append]
    exact ⟨h.ne_zero, List.forall_mem_singleton.mpr hzero⟩
  · rw [htable, List.forall_mem_append]
    exact ⟨h.main, List.forall_mem_singleton.mpr fun heq => absurd heq hmain⟩
  · intro t' ht'
    rw [htable, List.mem_append]
    by_cases hne : t' = t
    · rw [hne]
      show _ ∨ (⟨s.inst t, Function.update s.ident t s.gThreadsIndex t⟩ : WKCThreadIdentifier) ∈ _
      rw [Function.update_self]
      exact Or.inr List.mem_cons_self
    · show (⟨s.inst t', Function.update s.ident t s.gThreadsIndex t'⟩ : WKCThreadIdentifier) ∈ _ ∨ _
      rw [Function.update_of_ne hne]
      exact Or.inl (h.listed t' (hlisted t' hne ht'))
  · intro t' ht'
    obtain ⟨hne, ht'⟩ := hother t' ht'
    rw [htable, List.forall_mem_append]
    exact ⟨h.created t' ht', List.forall_mem_singleton.mpr
      (h.apart t t' (fun heq => hne heq.symm) (Or.inl hcreated) (Or.inl ht'))⟩

theorem inv_step (a : Action) (hpeers : Peers main s a) (hclear : Clear s a) (h : Inv main s) : Inv main (step s a) := by
  cases a with
  | createPeer t inst =>
    show Inv main (if inst = 0 ∨ s.phase t ≠ .absent then s else createPeer s t inst)
    split
    · exact h
    · have habsent : s.phase t = .absent := by tauto
      apply h.createPeer _ hclear habsent
      intro t' hlive hsame
      have hpresent : s.phase t' ≠ .absent := by
        intro hp
        rcases hlive with h' | h' | h' <;> rw [hp] at h' <;> cases h'
      have hended := (hpeers.2 t' hpresent hsame).1
      rcases hlive with h' | h' | h' <;> rw [hended] at h' <;> cases h'
  | append t =>
    show Inv main (if s.phase t = .created then append s t else s)
    split
    · obtain ⟨hzero, hmain, hnew⟩ := hclear ‹_›
      exact h.append ‹_› hzero hmain hnew
    · exact h
  | release t =>
    show Inv main (if s.phase t = .established then setPhase s t .running else s)
    split
    · exact h.setPhase (by simp) fun _ => Or.inl ‹_›
    · exact h
  | finish t =>
    show Inv main (if s.phase t = .running then setPhase s t .ended else s)
    split
    · exact h.setPhase (by simp) fun _ => Or.inr ‹_›
    · exact h
  | waitForThreadCompletion k | detachThread k =>
    show Inv main (if s.call k = .none then setCall s k _ else s)
    split
    · exact h.congr rfl rfl rfl rfl
    · exact h
  | proceed k t =>
    have hquiet : ∀ c t, Inv main (letGoOf (setCall s k c) t) := by
      intro c t
      cases t <;> exact h.congr rfl rfl rfl rfl
    show Inv main (proceed s k t)
    unfold proceed
    cases hcall : s.call k with
    | none => exact h
    | joining threadID inst =>
      cases t with
      | none => exact hquiet _ none
      | some t =>
        show Inv main (if s.inst t = inst ∧ s.phase t = .ended then _ else s)
        split
        · exact hquiet _ (some t)
        · exact h
    | joined threadID => exact (h.remove (hclear threadID (by rw [hcall]; rfl))).congr rfl rfl rfl rfl
    | detaching threadID inst => exact (h.remove (hclear threadID (by rw [hcall]; rfl))).congr rfl rfl rfl rfl
    | removed inst =>
      cases t with
      | none => exact hquiet _ none
      | some t =>
        show Inv main (if s.inst t = inst then _ else s)
        split
        · exact hquiet _ (some t)
        · exact h

/-! ## runs -/

/-- a thread that has its identifier -/
def Numbered (s : State) (t : Nat) : Prop := Listed s t ∨ s.phase t = .ended

theorem numbered_setPhase {t u : Nat} {p : Phase} (hp : p = .running ∨ p = .ended) (h : Numbered s t) :
    Numbered (setPhase s u p) t := by
  by_cases htu : t = u
  · subst htu
    have hphase : (setPhase s t p).phase t = p := Function.update_self ..
    rw [Numbered, Listed, hphase]
    tauto
  · have hphase : (setPhase s u p).phase t = s.phase t := Function.update_of_ne htu _ _
    rwa [Numbered, Listed, hphase]

theorem ne_of_numbered {t u : Nat} (h : Numbered s t) (hu : s.phase u = .absent ∨ s.phase u = .created) : t ≠ u := by
  rintro rfl
  rcases h with (h | h) | h <;> rw [h] at hu <;> simp at hu

/-- `t` goes on with its identifier -/
def GoesOn (s : State) (t : Nat) (s' : State) : Prop := Numbered s' t ∧ s'.ident t = s.ident t

theorem goesOn_congr {t : Nat} {s' : State} (h : Numbered s t) (hphase : s'.phase t = s.phase t)
    (hident : s'.ident t = s.ident t) : GoesOn s t s' := by
  refine ⟨?_, hident⟩
  rwa [Numbered, Listed, hphase]

theorem numbered_step (a : Action) {t : Nat} (h : Numbered s t) : GoesOn s t (step s a) := by
  cases a with
  | createPeer u inst =>
    show GoesOn s t (if inst = 0 ∨ s.phase u ≠ .absent then s else createPeer s u inst)
    split
    · exact ⟨h, rfl⟩
    · have hne := ne_of_numbered h (Or.inl (by tauto : s.phase u = .absent))
      exact goesOn_congr h (Function.update_of_ne hne _ _) rfl
  | append u =>
    show GoesOn s t (if s.phase u = .created then append s u else s)
    split
    · have hne := ne_of_numbered h (Or.inr ‹_›)
      exact goesOn_congr h (Function.update_of_ne hne _ _) (Function.update_of_ne hne _ _)
    · exact ⟨h, rfl⟩
  | release u =>
    show GoesOn s t (if s.phase u = .established then setPhase s u .running else s)
    split
    · exact ⟨numbered_setPhase (Or.inl rfl) h, rfl⟩
    · exact ⟨h, rfl⟩
  | finish u =>
    show GoesOn s t (if s.phase u = .running then setPhase s u .ended else s)
    split
    · exact ⟨numbered_setPhase (Or.inr rfl) h, rfl⟩
    · exact ⟨h, rfl⟩
  | waitForThreadCompletion k | detachThread k =>
    show GoesOn s t (if s.call k = .none then setCall s k _ else s)
    split <;> exact ⟨h, rfl⟩
  | proceed k u =>
    have hsame : (proceed s k u).phase = s.phase ∧ (proceed s k u).ident = s.ident := by
      unfold proceed
      split
      · exact ⟨rfl, rfl⟩
      · split
        · exact ⟨rfl, rfl⟩
        · split <;> exact ⟨rfl, rfl⟩
      · exact ⟨rfl, rfl⟩
      · exact ⟨rfl, rfl⟩
      · split
        · exact ⟨rfl, rfl⟩
        · split <;> exact ⟨rfl, rfl⟩
    exact goesOn_congr h (congrFun hsame.1 t) (congrFun hsame.2 t)

theorem ident_run (as : List Action) {t : Nat} (h : Numbered s t) : (run step s as).ident t = s.ident t := by
  induction as generalizing s with
  | nil => rfl
  | cons a as ih =>
    obtain ⟨hnext, hident⟩ := numbered_step a h
    rw [run_cons, ih hnext, hident]

theorem Inv.sees (h : Inv main s) {t : Nat} (ht : s.phase t = .running) : currentThread s (s.inst t) = s.ident t :=
  currentThread_of_mem h.instances (h.listed t (Or.inr ht))

theorem Inv.identified (h : Inv main s) {ident : Nat → Nat} (hident : ∀ t, s.phase t = .running → s.ident t = ident t) :
    Identified main ident s where
  sees t ht := by
    have hmem := h.listed t (Or.inr ht)
    rw [h.sees ht, ← hident t ht]
    exact ⟨rfl, h.ne_zero _ hmem⟩
  distinct t t' hne ht ht' := by
    rw [h.sees ht, h.sees ht']
    intro hsame
    have heq := List.inj_on_of_nodup_map h.identifiers (h.listed t (Or.inr ht)) (h.listed t' (Or.inr ht')) hsame
    exact h.apart t t' hne (Or.inr (Or.inr ht)) (Or.inr (Or.inr ht')) (congrArg WKCThreadIdentifier.m_instance heq)
  main inst hinst := by
    have hone : currentThread s inst = mainThreadIdentifier := by simpa [isMainThread] using hinst
    have hmem := mem_of_currentThread (by rw [hone]; exact Nat.one_ne_zero)
    exact h.main _ hmem hone

end

/-- One assignment of identifiers does for the whole of a clear run. -/
theorem identified_along (main : Nat) (as : List Action) (hpeers : Along step (Peers main) (initializeThreading main) as)
    (hclear : Along step Clear (initializeThreading main) as) :
    ∃ ident : Nat → Nat, ∀ pre, pre <+: as → Identified main ident (run step (initializeThreading main) pre) := by
  refine ⟨(run step (initializeThreading main) as).ident, fun pre hpre => ?_⟩
  have hboth := hpeers.and hclear
  have hinv : Inv main (run step (initializeThreading main) pre) :=
    hboth.inv_prefix (fun s a hC h => inv_step a hC.1 hC.2 h) (inv_initializeThreading main) pre hpre
  obtain ⟨post, rfl⟩ := hpre
  apply hinv.identified
  intro t ht
  have hrun : run step (initializeThreading main) (pre ++ post) =
      run step (run step (initializeThreading main) pre) post := List.foldl_append
  rw [hrun, ident_run post (Or.inl (Or.inr ht))]

/-- two threads that the main thread 7 creates, the first of which ends and is waited for -/
def twoThreads : List Action :=
  [.createPeer 0 8, .append 0, .release 0, .createPeer 1 9, .append 1, .release 1, .finish 0,
    .waitForThreadCompletion 0 2, .proceed 0 (some 0), .proceed 0 none]

theorem identified_twoThreads : ∃ ident : Nat → Nat, ∀ pre, pre <+: twoThreads →
    Identified 7 ident (run step (initializeThreading 7) pre) := by
  apply identified_along 7 twoThreads
  · refine ⟨⟨by decide, fun t ht => absurd rfl ht⟩, trivial, trivial, ⟨by decide, fun t _ hinst => ?_⟩, trivial, trivial,
      trivial, trivial, trivial, trivial, trivial⟩
    match t with
    | 0 => exact absurd hinst (by decide)
    | t + 1 => exact absurd hinst (show (0 : Nat) ≠ 9 by decide)
  · refine ⟨?_, fun _ => by decide, trivial, ?_, fun _ => by decide, trivial, trivial, trivial,
      fun _ hid => absurd hid (Option.some_ne_none _).symm, fun id hid t ht => ?_, trivial⟩
    · show ∀ e ∈ [(⟨7, 1⟩ : WKCThreadIdentifier)], e.m_instance ≠ 8
      decide
    · show ∀ e ∈ [(⟨7, 1⟩ : WKCThreadIdentifier), ⟨8, 2⟩], e.m_instance ≠ 9
      decide
    obtain rfl : 2 = id := Option.some.inj hid
    match t with
    | 0 => exact absurd ht (by rintro (h | h) <;> exact absurd h (by decide))
    | 1 => decide
    | t + 2 => exact absurd ht (by rintro (h | h) <;> cases h)

/-- a thread that is created by the main thread 7 and runs -/
def oneThread : List Action := [.createPeer 0 8, .append 0, .release 0]

/-- `stop` of the audio destination detaches a thread that goes on for a while, and then has no identifier. -/
theorem detached_unseen : Along step (Peers 7) (initializeThreading 7)
      (oneThread ++ [.detachThread 0 2, .proceed 0 none]) ∧
    ¬ ∃ ident : Nat → Nat, ∀ pre, pre <+: oneThread ++ [.detachThread 0 2, .proceed 0 none] →
      Identified 7 ident (run step (initializeThreading 7) pre) := by
  constructor
  · exact ⟨⟨by decide, fun t ht => absurd rfl ht⟩, trivial, trivial, trivial, trivial, trivial⟩
  · rintro ⟨ident, h⟩
    obtain ⟨hsees, hzero⟩ := (h _ (List.prefix_refl _)).sees 0 (by decide)
    exact hzero (hsees.symm.trans (by decide))

end Wkc.Threads
