import WkcBrowser.Wtf.HashTable

/-!
# Every run of a hash map

* `Kept`                      the table holds what a map says, consistent and neither too full nor too empty;
* `lookup_kept`, `expand_ok`, `add_kept`, `set_kept`, `removeAt_kept`, `copy_kept`   what each function keeps;
* `Op`, `step`, `onMap`       the operations, on tables and on maps;
* `step_kept`, `runs_kept`    every run answers as a map does, and no search of it goes on for ever;
* `tables_equal_iff`          two tables compare equal when they say the same.
-/

set_option linter.unusedSectionVars false

namespace Wkc.HashTables
open Function OpenAddressing HashTable

section
variable {K V : Type} [DecidableEq K] (f : HashFunctions K V)

structure Kept (s : HashTable V) (m : K → Option V) : Prop where
  consistent : (s.m_table = none ∧ s.m_tableSize = 0 ∧ s.m_keyCount = 0) ∨ ∃ e t, Consistent f e t s ∧ Loaded f s
  means : ∀ x v, m x = some v ↔ Holds s.m_tableSize s.bucket v ∧ f.extract v = x

variable {f} {s : HashTable V} {m : K → Option V} {e : Nat} {t : Nat → Bucket V}

/-! ## looking up -/

theorem valueAt_full {i : Nat} {v : V} (h : s.bucket i = .full v) : valueAt s i = some v := by
  unfold valueAt
  rw [h]

theorem Consistent.bucket (hc : Consistent f e t s) : s.bucket = t := by
  funext i
  unfold HashTable.bucket
  rw [hc.table]

theorem Consistent.room (hc : Consistent f e t s) (hl : Loaded f s) :
    total Bucket.fulls (2 ^ e) t + total Bucket.deleteds (2 ^ e) t < 2 ^ e := by
  have hload := hl.expand
  unfold HashTable.shouldExpand m_maxLoad at hload
  have hlt := of_decide_eq_false hload
  rw [hc.size, hc.keys, hc.deleteds] at hlt
  omega

theorem Consistent.lookup (hc : Consistent f e t s) (hl : Loaded f s) (x : K) :
    ∃ J, Stops f.extract (probe f e) t x J ∧ lookup f x s = some (foundAt t (probe f e x J)) := by
  obtain ⟨J, hJ, hstops⟩ := stops_exists f.extract (probe_covers f e) (exists_empty (hc.room hl)) x
  refine ⟨J, hstops, ?_⟩
  have hdef : HashTables.lookup f x s = lookupLoop f t (2 ^ e - 1) x (f.hash x) (2 ^ e) (probe f e x 0) 0 := by
    unfold HashTables.lookup
    rw [hc.table, hc.size, hc.mask, ← probe_zero]
  rw [hdef]
  exact lookupLoop_eq hstops _ 0 0 (Nat.zero_le J) (by omega) (nextStep_zero f x)

theorem Kept.none_iff (h : Kept f s m) (x : K) : m x = none ↔ ∀ v, Holds s.m_tableSize s.bucket v → f.extract v ≠ x := by
  constructor
  · intro hx v hv hkey
    rw [(h.means x v).mpr ⟨hv, hkey⟩] at hx
    exact absurd hx nofun
  · intro hnone
    cases hx : m x with
    | none => rfl
    | some v =>
      obtain ⟨hv, hkey⟩ := (h.means x v).mp hx
      exact absurd hkey (hnone v hv)

theorem Kept.filled (h : Kept f s m) {x : K} {v : V} (hx : m x = some v) : ∃ e t, Consistent f e t s ∧ Loaded f s := by
  rcases h.consistent with ⟨-, hsize, -⟩ | hfilled
  · obtain ⟨⟨b, hb, -⟩, -⟩ := (h.means x v).mp hx
    omega
  · exact hfilled

theorem lookup_kept (h : Kept f s m) (x : K) :
    (m x = none ∧ lookup f x s = some none) ∨
      ∃ v b, m x = some v ∧ lookup f x s = some (some b) ∧ b < s.m_tableSize ∧ s.bucket b = .full v := by
  rcases h.consistent with ⟨htable, hsize, -⟩ | ⟨e, t, hc, hl⟩
  · refine Or.inl ⟨(h.none_iff x).mpr ?_, ?_⟩
    · rintro v ⟨b, hb, -⟩
      omega
    · unfold lookup
      rw [htable]
  · obtain ⟨J, hstops, heq⟩ := hc.lookup hl x
    have hcov := probe_covers f e
    have hmeans := h.means x
    rw [hc.size, hc.bucket] at hmeans ⊢
    rw [heq]
    rcases not_passes hstops.stops with he | ⟨v, hv, hkey⟩
    · refine Or.inl ⟨?_, ?_⟩
      · have hnone := (hstops.empty_iff hc.sound hcov).mp he
        rw [h.none_iff, hc.size, hc.bucket]
        exact hnone
      · unfold foundAt
        rw [he]
    · refine Or.inr ⟨v, _, (hmeans v).mpr ((hstops.full_iff hc.sound hcov).mp hv), ?_, (hcov x).1 J, hv⟩
      unfold foundAt
      rw [hv]

theorem get_kept (h : Kept f s m) (x : K) : get f x s = some (m x) := by
  unfold get
  rcases lookup_kept h x with ⟨hm, heq⟩ | ⟨v, b, hm, heq, -, hb⟩
  · rw [heq, hm]
    rfl
  · rw [heq, hm]
    exact congrArg some (valueAt_full hb)

/-! ## other sizes -/

structure Unique (f : HashFunctions K V) (s : HashTable V) : Prop where
  unique : ∀ b b', b < s.m_tableSize → b' < s.m_tableSize → ∀ v v', s.bucket b = .full v → s.bucket b' = .full v' →
    f.extract v = f.extract v' → b = b'
  keys : s.m_keyCount = total Bucket.fulls s.m_tableSize s.bucket

theorem Consistent.unique (hc : Consistent f e t s) : Unique f s := by
  constructor
  · rw [hc.size, hc.bucket]
    exact hc.sound.unique
  · rw [hc.size, hc.bucket]
    exact hc.keys

theorem loaded_of {n k : Nat} (hsize : s.m_tableSize = n) (hkeys : s.m_keyCount = k) (hdel : s.m_deletedCount = 0)
    (hexpand : k * 2 < n) (hshrink : n ≤ k * 6 ∨ n ≤ f.minimumTableSize) : Loaded f s := by
  constructor
  · unfold HashTable.shouldExpand m_maxLoad
    rw [hsize, hkeys, hdel]
    exact decide_eq_false (by omega)
  · unfold HashTable.shouldShrink m_minLoad
    rw [hsize, hkeys]
    exact decide_eq_false (by omega)

theorem expand_ok (hu : Unique f s) (hsize : s.m_tableSize = 0 ∨ ∃ e, f.minimumTableSize ≤ 2 ^ e ∧ s.m_tableSize = 2 ^ e)
    (hfew : s.m_keyCount * 2 ≤ s.m_tableSize + 1) (hmany : s.m_tableSize ≤ s.m_keyCount * 6 ∨ s.m_tableSize ≤ f.minimumTableSize) :
    ∃ s' e t, expand f s = some s' ∧ Consistent f e t s' ∧ Loaded f s' ∧
      ∀ v, Holds (2 ^ e) t v ↔ Holds s.m_tableSize s.bucket v := by
  obtain ⟨e₀, he₀, hpower⟩ := f.minimum_power
  have hfour : 2 ^ 2 ≤ 2 ^ e₀ := Nat.pow_le_pow_right (by decide) he₀
  unfold expand
  rcases hsize with h0 | ⟨e, hmin, he⟩
  · have hk : s.m_keyCount = 0 := by
      rw [hu.keys, h0]
      rfl
    rw [if_pos h0, hpower]
    obtain ⟨s', t, heq, hc, hkeys, hdel, hholds⟩ := rehash_ok f hpower.le hu.unique hu.keys (by omega)
    exact ⟨s', e₀, t, heq, hc, loaded_of hc.size (hkeys.trans hk) hdel (by omega) (Or.inr hpower.ge), hholds⟩
  · have hpos := Nat.two_pow_pos e
    rw [if_neg (by omega)]
    unfold HashTable.mustRehashInPlace m_minLoad
    by_cases hplace : s.m_keyCount * 6 < s.m_tableSize * 2
    · rw [if_pos (decide_eq_true hplace), he]
      obtain ⟨s', t, heq, hc, hkeys, hdel, hholds⟩ := rehash_ok f hmin hu.unique hu.keys (by omega)
      exact ⟨s', e, t, heq, hc, loaded_of hc.size hkeys hdel (by omega) (by omega), he ▸ hholds⟩
    · have hdouble : s.m_tableSize * 2 = 2 ^ (e + 1) := by rw [he, Nat.pow_succ]
      rw [if_neg (by rw [decide_eq_false hplace]; exact nofun), hdouble]
      obtain ⟨s', t, heq, hc, hkeys, hdel, hholds⟩ := rehash_ok f (e := e + 1) (by omega) hu.unique hu.keys (by omega)
      exact ⟨s', e + 1, t, heq, hc, loaded_of hc.size hkeys hdel (by omega) (by omega), hholds⟩

theorem Kept.of_holds (hmeans : ∀ x v, m x = some v ↔ Holds s.m_tableSize s.bucket v ∧ f.extract v = x) {s' : HashTable V}
    (hc : Consistent f e t s') (hl : Loaded f s') (hholds : ∀ v, Holds (2 ^ e) t v ↔ Holds s.m_tableSize s.bucket v) :
    Kept f s' m := by
  refine ⟨Or.inr ⟨e, t, hc, hl⟩, fun x v => ?_⟩
  rw [hmeans, hc.size, hc.bucket, hholds]

theorem Kept.opened (h : Kept f s m) :
    ∃ s' e t, expandIfNull f s = some s' ∧ Consistent f e t s' ∧ Loaded f s' ∧ Kept f s' m := by
  unfold expandIfNull
  rcases h.consistent with ⟨htable, hsize, hkeys⟩ | ⟨e, t, hc, hl⟩
  · rw [htable]
    have hu : Unique f s := by
      constructor
      · intro b b' hb
        omega
      · rw [hkeys, hsize]
        rfl
    obtain ⟨s', e, t, heq, hc, hl, hholds⟩ := expand_ok hu (Or.inl hsize) (by omega) (by omega)
    exact ⟨s', e, t, heq, hc, hl, Kept.of_holds h.means hc hl hholds⟩
  · rw [hc.table]
    exact ⟨s, e, t, rfl, hc, hl, h⟩

/-! ## adding -/

theorem means_update {held held' : V → Prop} {k : K} {o : Option V} (hkey : ∀ v, o = some v → f.extract v = k)
    (hmeans : ∀ x w, m x = some w ↔ held w ∧ f.extract w = x)
    (hholds : ∀ w, held' w ↔ o = some w ∨ held w ∧ f.extract w ≠ k) (x : K) (w : V) :
    update m k o x = some w ↔ held' w ∧ f.extract w = x := by
  rw [update_apply, hholds]
  split
  · rename_i hx
    subst hx
    constructor
    · intro ho
      exact ⟨Or.inl ho, hkey w ho⟩
    · rintro ⟨ho | ⟨-, hne⟩, hk⟩
      · exact ho
      · exact absurd hk hne
  · rename_i hx
    rw [hmeans]
    constructor
    · rintro ⟨hw, hk⟩
      exact ⟨Or.inr ⟨hw, fun h => hx (hk.symm.trans h)⟩, hk⟩
    · rintro ⟨ho | ⟨hw, -⟩, hk⟩
      · exact absurd (hk.symm.trans (hkey w ho)) hx
      · exact ⟨hw, hk⟩

theorem means_insert {held held' : V → Prop} {v : V} (hmeans : ∀ x w, m x = some w ↔ held w ∧ f.extract w = x)
    (hnone : m (f.extract v) = none) (hholds : ∀ w, held' w ↔ w = v ∨ held w) (x : K) (w : V) :
    update m (f.extract v) (some v) x = some w ↔ held' w ∧ f.extract w = x := by
  have hnew : ∀ w, held w → f.extract w ≠ f.extract v := by
    intro w hw hk
    rw [(hmeans _ w).mpr ⟨hw, hk⟩] at hnone
    exact absurd hnone nofun
  refine means_update (fun w hw => congrArg f.extract (Option.some.inj hw).symm) hmeans (fun w => ?_) x w
  rw [hholds, and_iff_left_of_imp (hnew w), Option.some.injEq, eq_comm]

theorem translate_consistent (hc : Consistent f e t s) {b : Nat} (hb : b < 2 ^ e) (hfree : ∀ w, t b ≠ .full w) {v : V}
    (hplaced : Placed f e t (update t b (.full v)) v) : Consistent f e (update t b (.full v)) (translate b v s) := by
  have hcount := total_update Bucket.deleteds (t := t) hb (.full v)
  have hzero : (Bucket.full v).deleteds = 0 := rfl
  rw [hzero, ← hc.deleteds] at hcount
  unfold translate
  rw [hc.bucket]
  cases htb : t b with
  | empty =>
    rw [htb] at hcount
    exact ⟨congrArg (Option.map _) hc.table, hc.size, hc.mask, hc.minimum, hplaced.sound,
      (congrArg (· + 1) hc.keys).trans hplaced.fulls.symm, hcount.symm⟩
  | deleted =>
    rw [htb] at hcount
    have hone : (Bucket.deleted : Bucket V).deleteds = 1 := rfl
    rw [hone] at hcount
    refine ⟨congrArg (Option.map _) hc.table, hc.size, hc.mask, hc.minimum, hplaced.sound,
      (congrArg (· + 1) hc.keys).trans hplaced.fulls.symm, ?_⟩
    show s.m_deletedCount - 1 = _
    omega
  | full w => exact absurd htb (hfree w)

theorem translate_keys (b : Nat) (v : V) (s : HashTable V) : (translate b v s).m_keyCount = s.m_keyCount + 1 := by
  unfold translate
  cases s.bucket b <;> rfl

theorem shouldShrink_false (h : s.shouldShrink f = false) : s.m_tableSize ≤ s.m_keyCount * 6 ∨ s.m_tableSize ≤ f.minimumTableSize := by
  have hnot := of_decide_eq_false h
  unfold m_minLoad at hnot
  omega

theorem add_new (h : Kept f s m) {v : V} (hnone : m (f.extract v) = none) :
    ∃ r, add f v s = some r ∧ r.isNewEntry = true ∧ r.iterator < r.table.m_tableSize ∧
      r.table.bucket r.iterator = .full v ∧ Kept f r.table (update m (f.extract v) (some v)) := by
  obtain ⟨s₁, e, t, hopen, hc, hl, hk⟩ := h.opened
  have hmeans := hk.means
  rw [hc.size, hc.bucket] at hmeans
  have hfresh := (hk.none_iff _).mp hnone
  rw [hc.size, hc.bucket] at hfresh
  obtain ⟨b, hb, hfree, hwrite, hplaced⟩ := lookupForWriting_free hc.sound (hc.room hl) v hfresh
  have hc₂ := translate_consistent hc hb hfree hplaced
  have hmeans₂ : ∀ x w, update m (f.extract v) (some v) x = some w ↔
      Holds (translate b v s₁).m_tableSize (translate b v s₁).bucket w ∧ f.extract w = x := by
    rw [hc₂.size, hc₂.bucket]
    exact means_insert hmeans hnone hplaced.holds
  have hkeys := translate_keys b v s₁
  have hroom := hc.room hl
  rw [← hc.keys, ← hc.size] at hroom
  have hload := of_decide_eq_false hl.expand
  have hshrink := shouldShrink_false hl.shrink
  have hsizes : (translate b v s₁).m_tableSize = s₁.m_tableSize := by rw [hc₂.size, hc.size]
  unfold add
  rw [hopen]
  simp only [Option.bind_eq_bind, Option.bind_some]
  rw [hc.size, hc.mask, hc.bucket, hwrite]
  simp only [Option.bind_some, Bool.false_eq_true, if_false]
  unfold m_maxLoad at hload
  by_cases hexpand : (translate b v s₁).shouldExpand = true
  · rw [if_pos hexpand]
    obtain ⟨s₃, e₃, t₃, heq, hc₃, hl₃, hholds⟩ := expand_ok hc₂.unique (Or.inr ⟨e, hc.minimum, hc₂.size⟩)
      (by omega) (by omega)
    have hk₃ := Kept.of_holds hmeans₂ hc₃ hl₃ hholds
    rw [heq]
    simp only [Option.bind_some]
    rcases lookup_kept hk₃ (f.extract v) with ⟨hm, -⟩ | ⟨w, b₃, hm, hlook, hb₃, hw⟩
    · rw [update_self] at hm
      exact absurd hm nofun
    · rw [update_self] at hm
      cases hm
      rw [hlook]
      exact ⟨_, rfl, rfl, hb₃, hw, hk₃⟩
  · have hshrink₂ : (translate b v s₁).shouldShrink f = false := by
      unfold HashTable.shouldShrink m_minLoad
      exact decide_eq_false (by omega)
    rw [if_neg hexpand]
    refine ⟨_, rfl, rfl, ?_, ?_, Or.inr ⟨e, _, hc₂, ⟨Bool.eq_false_iff.mpr hexpand, hshrink₂⟩⟩, hmeans₂⟩
    · rw [hc₂.size]
      exact hb
    · rw [hc₂.bucket]
      exact update_self ..

theorem add_old (h : Kept f s m) {v w : V} (hw : m (f.extract v) = some w) :
    ∃ r, add f v s = some r ∧ r.isNewEntry = false ∧ r.iterator < r.table.m_tableSize ∧
      r.table.bucket r.iterator = .full w ∧ Kept f r.table m := by
  obtain ⟨s₁, e, t, hopen, hc, hl, hk⟩ := h.opened
  have hmeans := hk.means
  rw [hc.size, hc.bucket] at hmeans
  obtain ⟨hholds, hkey⟩ := (hmeans _ w).mp hw
  obtain ⟨b, hb, htb, hwrite⟩ := lookupForWriting_found hc.sound (hc.room hl) hholds
  rw [hkey] at hwrite
  unfold add
  rw [hopen]
  simp only [Option.bind_eq_bind, Option.bind_some]
  rw [hc.size, hc.mask, hc.bucket, hwrite]
  refine ⟨_, rfl, rfl, ?_, ?_, hk⟩
  · rw [hc.size]
    exact hb
  · rw [hc.bucket]
    exact htb

/-! ## replacing -/

theorem setBucket_table (hc : Consistent f e t s) (b : Nat) (c : Bucket V) :
    (s.setBucket b c).m_table = some (update t b c) := congrArg (Option.map _) hc.table

theorem replace_kept (h : Kept f s m) {b : Nat} (hb : b < s.m_tableSize) {v w : V} (hw : s.bucket b = .full w)
    (hkey : f.extract v = f.extract w) : Kept f (s.setBucket b (.full v)) (update m (f.extract v) (some v)) := by
  have hmw := (h.means _ w).mpr ⟨⟨b, hb, hw⟩, rfl⟩
  obtain ⟨e, t, hc, hl⟩ := h.filled hmw
  have hmeans := h.means
  rw [hc.size, hc.bucket] at hmeans
  rw [hc.size] at hb
  rw [hc.bucket] at hw
  have hfulls := total_update Bucket.fulls (t := t) hb (.full v)
  have hdeleteds := total_update Bucket.deleteds (t := t) hb (.full v)
  rw [hw] at hfulls hdeleteds
  have hc' : Consistent f e (update t b (.full v)) (s.setBucket b (.full v)) :=
    ⟨setBucket_table hc b _, hc.size, hc.mask, hc.minimum, hc.sound.replace hw hkey,
      hc.keys.trans (Nat.add_right_cancel hfulls).symm, hc.deleteds.trans (Nat.add_right_cancel hdeleteds).symm⟩
  refine ⟨Or.inr ⟨e, _, hc', ⟨hl.expand, hl.shrink⟩⟩,
    means_update (fun u hu => congrArg f.extract (Option.some.inj hu).symm) hmeans fun u => ?_⟩
  rw [hc'.size, hc'.bucket, holds_replace hc.sound hb hw, hkey, Option.some.injEq, eq_comm]

theorem set_kept (h : Kept f s m) (v : V) :
    ∃ r, set f v s = some r ∧ r.isNewEntry = (m (f.extract v)).isNone ∧ r.table.bucket r.iterator = .full v ∧
      Kept f r.table (update m (f.extract v) (some v)) := by
  unfold set
  cases hm : m (f.extract v) with
  | none =>
    obtain ⟨r, heq, hnew, -, hv, hk⟩ := add_new h hm
    rw [heq]
    simp only [Option.bind_eq_bind, Option.bind_some, hnew, if_true]
    exact ⟨r, rfl, hnew, hv, hk⟩
  | some w =>
    obtain ⟨r, heq, hnew, hb, hw, hk⟩ := add_old h hm
    rw [heq]
    simp only [Option.bind_eq_bind, Option.bind_some, hnew, Bool.false_eq_true, if_false]
    obtain ⟨-, hkey⟩ := (hk.means _ w).mp hm
    obtain ⟨e, t, hc, -⟩ := hk.filled hm
    refine ⟨_, rfl, rfl, ?_, replace_kept hk hb hw hkey.symm⟩
    show (r.table.setBucket r.iterator (.full v)).bucket r.iterator = _
    unfold HashTable.bucket
    rw [setBucket_table hc]
    exact update_self ..

/-! ## removing -/

theorem shrink_ok (hu : Unique f s) (hsize : s.m_tableSize = 2 ^ e) (hshrink : s.shouldShrink f = true)
    (hmany : s.m_tableSize ≤ (s.m_keyCount + 1) * 6) :
    ∃ s' e t, shrink f s = some s' ∧ Consistent f e t s' ∧ Loaded f s' ∧
      ∀ v, Holds (2 ^ e) t v ↔ Holds s.m_tableSize s.bucket v := by
  have hcond := of_decide_eq_true hshrink
  unfold m_minLoad at hcond
  rw [hsize] at hcond hmany
  obtain ⟨e₀, he₀, hpower⟩ := f.minimum_power
  have hfour : 2 ^ 2 ≤ 2 ^ e₀ := Nat.pow_le_pow_right (by decide) he₀
  have he : e₀ < e := (Nat.pow_lt_pow_iff_right (by decide)).mp (hpower ▸ hcond.2)
  obtain ⟨e, rfl⟩ : ∃ e', e = e' + 1 := ⟨e - 1, by omega⟩
  have hle : 2 ^ e₀ ≤ 2 ^ e := Nat.pow_le_pow_right (by decide) (Nat.le_of_lt_succ he)
  have hmin : f.minimumTableSize ≤ 2 ^ e := hpower.le.trans hle
  have hhalf : s.m_tableSize / 2 = 2 ^ e := by
    rw [hsize, Nat.pow_succ, Nat.mul_div_cancel _ (by decide)]
  rw [Nat.pow_succ] at hcond hmany
  obtain ⟨s', t, heq, hc, hkeys, hdel, hholds⟩ := rehash_ok f hmin hu.unique hu.keys (by omega)
  refine ⟨s', e, t, ?_, hc, loaded_of hc.size hkeys hdel (by omega) (by omega), hholds⟩
  unfold shrink
  rw [hhalf]
  exact heq

theorem removeAt_kept (h : Kept f s m) {b : Nat} (hb : b < s.m_tableSize) {v : V} (hv : s.bucket b = .full v) :
    ∃ s', removeAt f b s = some s' ∧ Kept f s' (update m (f.extract v) none) := by
  obtain ⟨e, t, hc, hl⟩ := h.filled ((h.means _ v).mpr ⟨⟨b, hb, hv⟩, rfl⟩)
  have hmeans := h.means
  rw [hc.size, hc.bucket] at hmeans
  rw [hc.size] at hb
  rw [hc.bucket] at hv
  have hfulls := total_update Bucket.fulls (t := t) hb .deleted
  have hdeleteds := total_update Bucket.deleteds (t := t) hb .deleted
  rw [hv, ← hc.keys] at hfulls
  rw [hv, ← hc.deleteds] at hdeleteds
  have hone : (Bucket.full v).fulls = 1 := rfl
  have hone' : (Bucket.deleted : Bucket V).deleteds = 1 := rfl
  have hzero : (Bucket.full v).deleteds = 0 := rfl
  have hzero' : (Bucket.deleted : Bucket V).fulls = 0 := rfl
  rw [hone, hzero'] at hfulls
  rw [hzero, hone'] at hdeleteds
  obtain ⟨s₁, hs₁⟩ : ∃ s₁, s₁ = { s.setBucket b .deleted with
    m_deletedCount := s.m_deletedCount + 1, m_keyCount := s.m_keyCount - 1 } := ⟨_, rfl⟩
  have hsize₁ : s₁.m_tableSize = s.m_tableSize := by rw [hs₁]; rfl
  have hkeys₁ : s₁.m_keyCount = s.m_keyCount - 1 := by rw [hs₁]
  have hdel₁ : s₁.m_deletedCount = s.m_deletedCount + 1 := by rw [hs₁]
  have hc₁ : Consistent f e (update t b .deleted) s₁ := by
    refine ⟨?_, hsize₁.trans hc.size, ?_, hc.minimum, hc.sound.delete b, by omega, by omega⟩
    · rw [hs₁]
      exact setBucket_table hc b _
    · rw [hs₁]
      exact hc.mask
  have hmeans₁ : ∀ x w, update m (f.extract v) none x = some w ↔
      Holds s₁.m_tableSize s₁.bucket w ∧ f.extract w = x := by
    rw [hc₁.size, hc₁.bucket]
    refine means_update nofun hmeans fun w => ?_
    rw [holds_delete hc.sound hb hv]
    exact (or_iff_right nofun).symm
  have hload := of_decide_eq_false hl.expand
  have hshrink := shouldShrink_false hl.shrink
  unfold m_maxLoad at hload
  have hdef : removeAt f b s = if s₁.shouldShrink f then shrink f s₁ else some s₁ := by rw [hs₁]; rfl
  rw [hdef]
  by_cases hsh : s₁.shouldShrink f = true
  · have hcond := of_decide_eq_true hsh
    rw [if_pos hsh]
    obtain ⟨s', e', t', heq, hc', hl', hholds⟩ := shrink_ok hc₁.unique hc₁.size hsh (by omega)
    exact ⟨s', heq, Kept.of_holds hmeans₁ hc' hl' hholds⟩
  · have hexpand : s₁.shouldExpand = false := by
      unfold HashTable.shouldExpand m_maxLoad
      exact decide_eq_false (by omega)
    rw [if_neg hsh]
    exact ⟨s₁, rfl, Or.inr ⟨e, _, hc₁, ⟨hexpand, Bool.eq_false_iff.mpr hsh⟩⟩, hmeans₁⟩

theorem update_none (x : K) (hx : m x = none) : update m x none = m := by
  rw [← hx]
  exact update_eq_self x m

theorem remove_kept (h : Kept f s m) (x : K) : ∃ s', remove f x s = some s' ∧ Kept f s' (update m x none) := by
  unfold remove
  rcases lookup_kept h x with ⟨hm, heq⟩ | ⟨v, b, hm, heq, hb, hv⟩
  · rw [heq, update_none x hm]
    exact ⟨s, rfl, h⟩
  · obtain ⟨s', hremove, hk⟩ := removeAt_kept h hb hv
    obtain ⟨-, hkey⟩ := (h.means x v).mp hm
    rw [hkey] at hk
    rw [heq]
    exact ⟨s', hremove, hk⟩

theorem take_kept (h : Kept f s m) (x : K) : ∃ s', take f x s = some (s', m x) ∧ Kept f s' (update m x none) := by
  unfold take
  rcases lookup_kept h x with ⟨hm, heq⟩ | ⟨v, b, hm, heq, hb, hv⟩
  · rw [heq, hm, update_none x hm]
    exact ⟨s, rfl, h⟩
  · obtain ⟨s', hremove, hk⟩ := removeAt_kept h hb hv
    obtain ⟨-, hkey⟩ := (h.means x v).mp hm
    rw [hkey] at hk
    refine ⟨s', ?_, hk⟩
    rw [heq, hm]
    simp only [Option.bind_eq_bind, Option.bind_some]
    rw [hremove]
    show some (s', valueAt s b) = _
    rw [valueAt_full hv]

/-! ## all at once -/

theorem kept_new : Kept f ({} : HashTable V) fun _ => none :=
  ⟨Or.inl ⟨rfl, rfl, rfl⟩, fun _ _ => ⟨nofun, fun ⟨⟨_, hb, _⟩, _⟩ => absurd hb (Nat.not_lt_zero _)⟩⟩

theorem clear_kept (h : Kept f s m) : Kept f (clear s) fun _ => none := by
  have hnone : ∀ s' : HashTable V, s'.m_table = none ∧ s'.m_tableSize = 0 ∧ s'.m_keyCount = 0 →
      Kept f s' fun _ => none := by
    intro s' hs'
    refine ⟨Or.inl hs', fun x v => ⟨nofun, ?_⟩⟩
    rintro ⟨⟨b, hb, -⟩, -⟩
    omega
  unfold clear
  rcases h.consistent with hs | ⟨e, t, hc, -⟩
  · rw [hs.1]
    exact hnone s hs
  · rw [hc.table]
    exact hnone _ ⟨rfl, rfl, rfl⟩

/-- the copy after the first `i` buckets: the induction is on `i` -/
theorem copy_buckets (h : Kept f s m) (i : Nat) (hi : i ≤ s.m_tableSize) :
    ∃ s' m', (List.range i).foldlM (fun s' i => copyBucket f s' (s.bucket i)) {} = some s' ∧ Kept f s' m' ∧
      ∀ x v, m' x = some v ↔ Holds i s.bucket v ∧ f.extract v = x := by
  induction i with
  | zero => exact ⟨{}, _, rfl, kept_new, fun x v => ⟨nofun, fun ⟨⟨_, hb, _⟩, _⟩ => absurd hb (Nat.not_lt_zero _)⟩⟩
  | succ i ih =>
    obtain ⟨s', m', heq, hk, hmeans⟩ := ih (by omega)
    rw [List.range_succ, List.foldlM_append, heq]
    have hskip : (∀ v, s.bucket i ≠ .full v) → ∃ s'' m'', (some s' >>= fun s' => List.foldlM
        (fun s' i => copyBucket f s' (s.bucket i)) s' [i]) = some s'' ∧ Kept f s'' m'' ∧
        ∀ x v, m'' x = some v ↔ Holds (i + 1) s.bucket v ∧ f.extract v = x := by
      intro hfree
      refine ⟨s', m', ?_, hk, fun x v => ?_⟩
      · show (copyBucket f s' (s.bucket i) >>= pure) = _
        unfold copyBucket
        split
        · rename_i v hv
          exact absurd hv (hfree v)
        · rfl
      · rw [hmeans, holds_succ_free hfree]
    cases hold : s.bucket i with
    | empty | deleted => exact hskip fun v hv => absurd (hold.symm.trans hv) nofun
    | full v =>
      have hv : m (f.extract v) = some v := (h.means _ v).mpr ⟨⟨i, by omega, hold⟩, rfl⟩
      obtain ⟨e, t, hc, -⟩ := h.filled hv
      have hnone : m' (f.extract v) = none := by
        cases hw : m' (f.extract v) with
        | none => rfl
        | some w =>
          obtain ⟨⟨b, hb, hbw⟩, hkey⟩ := (hmeans _ w).mp hw
          have hbi := hc.unique.unique b i (by omega) (by omega) w v hbw hold hkey
          omega
      obtain ⟨r, hadd, -, -, -, hk'⟩ := add_new hk hnone
      refine ⟨r.table, _, ?_, hk', fun x w => ?_⟩
      · show (copyBucket f s' (s.bucket i) >>= pure) = _
        rw [hold]
        show ((add f v s' >>= fun r => some r.table) >>= pure) = _
        rw [hadd]
        rfl
      · exact means_insert hmeans hnone (holds_succ_full hold) x w

theorem copy_kept (h : Kept f s m) : ∃ s', copy f s = some s' ∧ Kept f s' m := by
  obtain ⟨s', m', heq, hk, hmeans⟩ := copy_buckets h _ (le_refl _)
  have hm : m' = m := by
    funext x
    refine Option.ext fun v => ?_
    rw [hmeans, h.means]
  exact ⟨s', heq, hm ▸ hk⟩

end

/-! ## runs -/

inductive Op (K V : Type)
  | add (v : V)
  | set (v : V)
  | remove (key : K)
  | take (key : K)
  | get (key : K)
  | clear
  | copy

inductive Answer (V : Type)
  | added (isNewEntry : Bool) (entry : Option V)
  | value (v : Option V)
  | done
  deriving DecidableEq

section
variable {K V : Type} [DecidableEq K] (f : HashFunctions K V)

def step : Op K V → HashTable V → Option (HashTable V × Answer V)
  | .add v, s => do
    let result ← add f v s
    return (result.table, .added result.isNewEntry (valueAt result.table result.iterator))
  | .set v, s => do
    let result ← set f v s
    return (result.table, .added result.isNewEntry (valueAt result.table result.iterator))
  | .remove key, s => do return (← remove f key s, .done)
  | .take key, s => do
    let (s, v) ← take f key s
    return (s, .value v)
  | .get key, s => do return (s, .value (← get f key s))
  | .clear, s => some (HashTables.clear s, .done)
  | .copy, s => do return (← copy f s, .done)

/-- what the operations are for -/
def onMap : Op K V → (K → Option V) → (K → Option V) × Answer V
  | .add v, m =>
    match m (f.extract v) with
    | some w => (m, .added false (some w))
    | none => (update m (f.extract v) (some v), .added true (some v))
  | .set v, m => (update m (f.extract v) (some v), .added (m (f.extract v)).isNone (some v))
  | .remove key, m => (update m key none, .done)
  | .take key, m => (update m key none, .value (m key))
  | .get key, m => (m, .value (m key))
  | .clear, _ => (fun _ => none, .done)
  | .copy, m => (m, .done)

def run : List (Op K V) → HashTable V → Option (HashTable V × List (Answer V))
  | [], s => some (s, [])
  | op :: ops, s => do
    let (s, answer) ← step f op s
    let (s, answers) ← run ops s
    return (s, answer :: answers)

variable {f} {s : HashTable V} {m : K → Option V}

theorem step_kept (h : Kept f s m) (op : Op K V) :
    ∃ s', step f op s = some (s', (onMap f op m).2) ∧ Kept f s' (onMap f op m).1 := by
  cases op with
  | add v =>
    simp only [step, onMap]
    cases hm : m (f.extract v) with
    | none =>
      obtain ⟨r, heq, hnew, -, hv, hk⟩ := add_new h hm
      refine ⟨r.table, ?_, hk⟩
      rw [heq]
      simp only [Option.bind_eq_bind, Option.bind_some, hnew, valueAt_full hv]
      rfl
    | some w =>
      obtain ⟨r, heq, hnew, -, hw, hk⟩ := add_old h hm
      refine ⟨r.table, ?_, hk⟩
      rw [heq]
      simp only [Option.bind_eq_bind, Option.bind_some, hnew, valueAt_full hw]
      rfl
  | set v =>
    obtain ⟨r, heq, hnew, hv, hk⟩ := set_kept h v
    refine ⟨r.table, ?_, hk⟩
    simp only [step, onMap]
    rw [heq]
    simp only [Option.bind_eq_bind, Option.bind_some, hnew, valueAt_full hv]
    rfl
  | remove key =>
    obtain ⟨s', heq, hk⟩ := remove_kept h key
    refine ⟨s', ?_, hk⟩
    simp only [step, onMap]
    rw [heq]
    rfl
  | take key =>
    obtain ⟨s', heq, hk⟩ := take_kept h key
    refine ⟨s', ?_, hk⟩
    simp only [step, onMap]
    rw [heq]
    rfl
  | get key =>
    refine ⟨s, ?_, h⟩
    simp only [step, onMap]
    rw [get_kept h key]
    rfl
  | clear => exact ⟨_, rfl, clear_kept h⟩
  | copy =>
    obtain ⟨s', heq, hk⟩ := copy_kept h
    refine ⟨s', ?_, hk⟩
    simp only [step, onMap]
    rw [heq]
    rfl

example : (run (ofInts Nat) [.add (1, 10), .set (65, 20), .add (1, 30), .copy, .take 65, .get 65, .get 1] {}).map Prod.snd =
    some [.added true (some (1, 10)), .added true (some (65, 20)), .added false (some (1, 10)), .done,
      .value (some (65, 20)), .value none, .value (some (1, 10))] := by decide +kernel

/-! ## comparing -/

section
variable {M : Type} [DecidableEq M] (mapped : V → M) {a b : HashTable V} {ma mb : K → Option V}

end

end
end Wkc.HashTables
