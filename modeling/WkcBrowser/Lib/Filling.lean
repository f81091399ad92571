import Mathlib.Data.List.Flatten

/-!
# A buffer that is filled from the front

* `put`, `putAll`        writes to a buffer of entries; a write outside is `none`;
* `Filled`               the entries that are done stand at the front;
* `Filled.putAll`        what is written behind them, as long as there is room;
* `Filled.putAll_full`   and that it fails when there is none;
* `putNext_loop`         a loop that writes what it is given behind what it has written;
* `flatMap_filter_eq`    which parts may be left out of a concatenation.
-/

namespace Filling
variable {β : Type*}

def put (buf : List β) (i : Nat) (b : β) : Option (List β) :=
  if i < buf.length then some (buf.set i b) else none

def putAll (buf : List β) (i : Nat) : List β → Option (List β)
  | [] => some buf
  | b :: bs => (put buf i b).bind fun buf => putAll buf (i + 1) bs

theorem putAll_singleton {buf : List β} {i : Nat} {b : β} : putAll buf i [b] = put buf i b :=
  Option.bind_fun_some (put buf i b)

theorem putAll_append {as bs : List β} {buf : List β} {i : Nat} :
    putAll buf i (as ++ bs) = (putAll buf i as).bind fun buf => putAll buf (i + as.length) bs := by
  induction as generalizing buf i with
  | nil => rfl
  | cons a as ih =>
    rw [List.cons_append, putAll, putAll, Option.bind_assoc, List.length_cons]
    congr 1
    funext buf
    rw [ih, Nat.add_assoc, Nat.add_comm 1]

/-- `done` stands at the front of a buffer of `size` entries -/
structure Filled (size : Nat) (done buf : List β) : Prop where
  length : buf.length = size
  front : buf.take done.length = done

namespace Filled
variable {size : Nat} {done buf : List β} {b : β} {bs : List β}

theorem nothing (h : buf.length = size) : Filled size [] buf := ⟨h, rfl⟩

theorem room (h : Filled size done buf) : done.length ≤ size := by
  have hlength := congrArg List.length h.front
  rw [List.length_take, h.length] at hlength
  omega

theorem getElem? (h : Filled size done buf) {i : Nat} (hi : i < done.length) : buf[i]? = done[i]? := by
  rw [← List.getElem?_take_of_lt hi, h.front]

theorem of_prefix (h : Filled size done buf) {earlier : List β} (hearlier : earlier <+: done) : Filled size earlier buf := by
  obtain ⟨rest, rfl⟩ := hearlier
  refine ⟨h.length, ?_⟩
  have hfront := congrArg (List.take earlier.length) h.front
  rwa [List.take_take, List.length_append, Nat.min_eq_left (Nat.le_add_right _ _), List.take_left' rfl] at hfront

theorem put (h : Filled size done buf) (hroom : done.length < size) :
    ∃ out, put buf done.length b = some out ∧ Filled size (done ++ [b]) out := by
  refine ⟨buf.set done.length b, if_pos (by rw [h.length]; exact hroom), ?_, ?_⟩
  · rw [List.length_set, h.length]
  · rw [List.length_append, List.length_singleton, List.take_add_one, List.take_set_of_le (Nat.le_refl _), h.front,
      List.getElem?_set_self (by rw [h.length]; exact hroom), Option.toList_some]

theorem putAll (h : Filled size done buf) (bs : List β) (hroom : done.length + bs.length ≤ size) :
    ∃ out, putAll buf done.length bs = some out ∧ Filled size (done ++ bs) out := by
  induction bs generalizing done buf with
  | nil => exact ⟨buf, rfl, by rwa [List.append_nil]⟩
  | cons b bs ih =>
    rw [List.length_cons] at hroom
    obtain ⟨buf', hput, hfilled⟩ := h.put (b := b) (by omega)
    obtain ⟨out, hall, hout⟩ := ih hfilled (by rw [List.length_append, List.length_singleton]; omega)
    rw [List.length_append, List.length_singleton] at hall
    refine ⟨out, ?_, by rwa [List.append_assoc] at hout⟩
    rw [Filling.putAll, hput, Option.bind_some, hall]

theorem put_full (h : Filled size done buf) (hfull : size ≤ done.length) : Filling.put buf done.length b = none :=
  if_neg (by rw [h.length]; omega)

theorem putAll_full (h : Filled size done buf) (bs : List β) (hfull : size < done.length + bs.length) :
    Filling.putAll buf done.length bs = none := by
  induction bs generalizing done buf with
  | nil =>
    have hroom := h.room
    rw [List.length_nil] at hfull
    omega
  | cons b bs ih =>
    rw [Filling.putAll]
    by_cases hlast : done.length < size
    · obtain ⟨buf', hput, hfilled⟩ := h.put (b := b) hlast
      have hrest := ih hfilled (by
        rw [List.length_cons] at hfull
        rw [List.length_append, List.length_singleton]
        omega)
      rw [List.length_append, List.length_singleton] at hrest
      rw [hput, Option.bind_some, hrest]
    · rw [h.put_full (by omega), Option.bind_none]

theorem of_putAll (h : Filled size done buf) {out : List β} (hall : Filling.putAll buf done.length bs = some out) :
    Filled size (done ++ bs) out := by
  by_cases hroom : done.length + bs.length ≤ size
  · obtain ⟨out', hall', hfilled⟩ := h.putAll bs hroom
    obtain rfl := Option.some.inj (hall.symm.trans hall')
    exact hfilled
  · rw [h.putAll_full bs (by omega)] at hall
    exact absurd hall (by simp)

end Filled

/-! ## a loop with an index -/

/-- `buf[i++] = b` -/
def putNext (s : List β × Nat) (b : β) : Option (List β × Nat) := (put s.1 s.2 b).map fun buf => (buf, s.2 + 1)

theorem putNext_all (buf : List β) (i : Nat) (bs : List β) :
    bs.foldlM putNext (buf, i) = (putAll buf i bs).map fun buf => (buf, i + bs.length) := by
  induction bs generalizing buf i with
  | nil => rfl
  | cons b bs ih =>
    show (putNext (buf, i) b).bind (fun s => bs.foldlM putNext s) = _
    rw [putNext, putAll, Option.bind_map, Option.map_bind]
    congr 1
    funext buf
    rw [Function.comp_apply, ih, Function.comp_apply, List.length_cons, Nat.add_right_comm, Nat.add_assoc]

theorem putNext_loop {α : Type*} (g : α → List β) (l : List α) (buf : List β) (i : Nat) :
    l.foldlM (fun s a => (g a).foldlM putNext s) (buf, i) =
      (putAll buf i (l.flatMap g)).map fun buf => (buf, i + (l.flatMap g).length) := by
  induction l generalizing buf i with
  | nil => rfl
  | cons a l ih =>
    show ((g a).foldlM putNext (buf, i)).bind (fun s => l.foldlM _ s) = _
    rw [putNext_all, List.flatMap_cons, putAll_append, Option.bind_map, Option.map_bind]
    congr 1
    funext buf
    rw [Function.comp_apply, ih, Function.comp_apply, List.length_append, Nat.add_assoc]

theorem flatMap_filter_eq {α : Type*} {p : α → Bool} {f : α → List β} {l : List α} :
    (l.filter p).flatMap f = l.flatMap f ↔ ∀ a ∈ l, p a = false → f a = [] := by
  induction l with
  | nil => simp
  | cons a l ih =>
    rw [List.forall_mem_cons, List.flatMap_cons, ← ih]
    cases hp : p a with
    | true =>
      rw [List.filter_cons_of_pos hp, List.flatMap_cons, List.append_right_inj]
      simp
    | false =>
      rw [List.filter_cons_of_neg (by simp [hp])]
      constructor
      · intro h
        have hle : ((l.filter p).flatMap f).length ≤ (l.flatMap f).length :=
          (List.filter_sublist.flatMap f).length_le
        rw [h, List.length_append] at hle
        have hnil : f a = [] := List.length_eq_zero_iff.mp (by omega)
        exact ⟨fun _ => hnil, by rwa [hnil, List.nil_append] at h⟩
      · rintro ⟨hnil, h⟩
        rw [hnil rfl, List.nil_append, h]

end Filling
