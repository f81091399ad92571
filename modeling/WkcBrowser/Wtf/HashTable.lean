import Mathlib.Data.Nat.Bitwise
import Mathlib.Data.UInt
import WkcBrowser.Lib.OpenAddressing

/-!
# The hash table under HashMap and HashSet (HashTable.h, HashMap.h)

* `HashTable`                   the table with its counters;
* `doubleHash`, `lookupLoop`, `writeLoop`   the search of `lookup`, and that of `add` and `lookupForWriting`;
* `rehash`, `expand`, `shrink`  a table of another size, or of the same one without its deleted buckets;
* `add`, `set`, `remove`, `take`, `clear`, `copy`, `equal`   the operations;
* `probe`, `Consistent`         the sequence a search follows, and what the source's consistency check asks;
* `lookup_eq`, `lookupForWriting_eq`   where the searches of a consistent table end;
* `rehash_ok`                   a table of another size holds the same.

The loops of the source are unbounded; here they are given the size of the table, which is enough.
-/

set_option linter.unusedSectionVars false

namespace Wkc.HashTables
open Function OpenAddressing

/-! ## the table -/

def m_maxLoad : Nat := 2
def m_minLoad : Nat := 6

/-- `m_table` is null as long as nothing was added -/
structure HashTable (V : Type) where
  m_table : Option (Nat → Bucket V) := none
  m_tableSize : Nat := 0
  m_tableSizeMask : Nat := 0
  m_keyCount : Nat := 0
  m_deletedCount : Nat := 0

structure HashFunctions (K V : Type) where
  extract : V → K
  hash : K → UInt32
  /-- of the key traits: 64, or a smaller power of two -/
  minimumTableSize : Nat
  minimum_power : ∃ e, 2 ≤ e ∧ minimumTableSize = 2 ^ e

def intHash (key : UInt32) : UInt32 :=
  let key := key + ~~~(key <<< 15)
  let key := key ^^^ (key >>> 10)
  let key := key + (key <<< 3)
  let key := key ^^^ (key >>> 6)
  let key := key + ~~~(key <<< 11)
  key ^^^ (key >>> 16)

/-- a map of integers, with the traits that it has when none are given -/
def ofInts (M : Type) : HashFunctions UInt32 (UInt32 × M) where
  extract := Prod.fst
  hash := intHash
  minimumTableSize := 64
  minimum_power := ⟨6, by decide, rfl⟩

def doubleHash (key : UInt32) : UInt32 :=
  let key := ~~~key + (key >>> 23)
  let key := key ^^^ (key <<< 12)
  let key := key ^^^ (key >>> 7)
  let key := key ^^^ (key <<< 2)
  key ^^^ (key >>> 20)

section
variable {K V : Type} [DecidableEq K] (f : HashFunctions K V)

namespace HashTable

def bucket (s : HashTable V) (i : Nat) : Bucket V :=
  match s.m_table with
  | none => .empty
  | some table => table i

def shouldExpand (s : HashTable V) : Bool := (s.m_keyCount + s.m_deletedCount) * m_maxLoad ≥ s.m_tableSize
def mustRehashInPlace (s : HashTable V) : Bool := s.m_keyCount * m_minLoad < s.m_tableSize * 2
def shouldShrink (s : HashTable V) : Bool :=
  s.m_keyCount * m_minLoad < s.m_tableSize ∧ s.m_tableSize > f.minimumTableSize

def setBucket (i : Nat) (b : Bucket V) (s : HashTable V) : HashTable V :=
  { s with m_table := s.m_table.map fun table => update table i b }

end HashTable

/-! ## searching -/

/-- the step to the next bucket: `k` is made when it is first needed -/
def nextStep (h : UInt32) (k : Nat) : Nat := if k = 0 then (1 ||| doubleHash h).toNat else k

def lookupLoop (table : Nat → Bucket V) (sizeMask : Nat) (key : K) (h : UInt32) : Nat → Nat → Nat → Option (Option Nat)
  | 0, _, _ => none
  | fuel + 1, i, k =>
    match table i with
    | .empty => some none
    | .deleted => lookupLoop table sizeMask key h fuel ((i + nextStep h k) &&& sizeMask) (nextStep h k)
    | .full v =>
      if f.extract v = key then some (some i)
      else lookupLoop table sizeMask key h fuel ((i + nextStep h k) &&& sizeMask) (nextStep h k)

/-- with the deleted bucket that was seen last -/
def writeLoop (table : Nat → Bucket V) (sizeMask : Nat) (key : K) (h : UInt32) :
    Nat → Nat → Nat → Option Nat → Option (Nat × Bool)
  | 0, _, _, _ => none
  | fuel + 1, i, k, deletedEntry =>
    match table i with
    | .empty => some (deletedEntry.getD i, false)
    | .deleted => writeLoop table sizeMask key h fuel ((i + nextStep h k) &&& sizeMask) (nextStep h k) (some i)
    | .full v =>
      if f.extract v = key then some (i, true)
      else writeLoop table sizeMask key h fuel ((i + nextStep h k) &&& sizeMask) (nextStep h k) deletedEntry

def lookup (key : K) (s : HashTable V) : Option (Option Nat) :=
  match s.m_table with
  | none => some none
  | some table =>
    let h := f.hash key
    lookupLoop f table s.m_tableSizeMask key h s.m_tableSize (h.toNat &&& s.m_tableSizeMask) 0

def lookupForWriting (key : K) (tableSize tableSizeMask : Nat) (table : Nat → Bucket V) : Option (Nat × Bool) :=
  let h := f.hash key
  writeLoop f table tableSizeMask key h tableSize (h.toNat &&& tableSizeMask) 0 none

/-! ## other sizes -/

def reinsert (tableSize tableSizeMask : Nat) (table : Nat → Bucket V) (v : V) : Option (Nat → Bucket V) := do
  let (position, _) ← lookupForWriting f (f.extract v) tableSize tableSizeMask table
  return update table position (.full v)

def reinsertBucket (tableSize tableSizeMask : Nat) (table : Nat → Bucket V) : Bucket V → Option (Nat → Bucket V)
  | .full v => reinsert f tableSize tableSizeMask table v
  | _ => some table

def rehash (newTableSize : Nat) (s : HashTable V) : Option (HashTable V) := do
  let table ← (List.range s.m_tableSize).foldlM
    (fun table i => reinsertBucket f newTableSize (newTableSize - 1) table (s.bucket i)) fun _ => .empty
  return { s with
    m_table := some table, m_tableSize := newTableSize, m_tableSizeMask := newTableSize - 1, m_deletedCount := 0 }

def expand (s : HashTable V) : Option (HashTable V) :=
  let newSize :=
    if s.m_tableSize = 0 then f.minimumTableSize
    else if s.mustRehashInPlace then s.m_tableSize
    else s.m_tableSize * 2
  rehash f newSize s

def shrink (s : HashTable V) : Option (HashTable V) := rehash f (s.m_tableSize / 2) s

/-! ## the operations -/

structure AddResult (V : Type) where
  table : HashTable V
  /-- the size of the table is `end()` -/
  iterator : Nat
  isNewEntry : Bool

/-- the value is put in the bucket, which is empty or deleted -/
def translate (entry : Nat) (v : V) (s : HashTable V) : HashTable V :=
  let s :=
    match s.bucket entry with
    | .deleted => { s with m_deletedCount := s.m_deletedCount - 1 }
    | _ => s
  { s.setBucket entry (.full v) with m_keyCount := s.m_keyCount + 1 }

def expandIfNull (s : HashTable V) : Option (HashTable V) := if s.m_table.isNone then expand f s else some s

def add (v : V) (s : HashTable V) : Option (AddResult V) := do
  let s ← expandIfNull f s
  let (entry, found) ← lookupForWriting f (f.extract v) s.m_tableSize s.m_tableSizeMask s.bucket
  if found then return ⟨s, entry, false⟩
  let s := translate entry v s
  if s.shouldExpand then
    let s ← expand f s
    let entry ← lookup f (f.extract v) s
    return ⟨s, entry.getD s.m_tableSize, true⟩
  return ⟨s, entry, true⟩

/-- `HashMap::set` also replaces what is there -/
def set (v : V) (s : HashTable V) : Option (AddResult V) := do
  let result ← add f v s
  if result.isNewEntry then return result
  return { result with table := result.table.setBucket result.iterator (.full v) }

def removeAt (pos : Nat) (s : HashTable V) : Option (HashTable V) :=
  let s := { s.setBucket pos .deleted with
    m_deletedCount := s.m_deletedCount + 1, m_keyCount := s.m_keyCount - 1 }
  if s.shouldShrink f then shrink f s else some s

def remove (key : K) (s : HashTable V) : Option (HashTable V) := do
  match ← lookup f key s with
  | none => return s
  | some pos => removeAt f pos s

/-- what the entry holds -/
def valueAt (s : HashTable V) (i : Nat) : Option V :=
  match s.bucket i with
  | .full v => some v
  | _ => none

/-- `HashMap::get`, and what `contains` asks -/
def get (key : K) (s : HashTable V) : Option (Option V) := do
  return (← lookup f key s).bind (valueAt s)

def take (key : K) (s : HashTable V) : Option (HashTable V × Option V) := do
  match ← lookup f key s with
  | none => return (s, none)
  | some pos =>
    let result := valueAt s pos
    let s ← removeAt f pos s
    return (s, result)

/-- the count of the deleted buckets stays as it is; nobody reads it before the next table is made -/
def clear (s : HashTable V) : HashTable V :=
  match s.m_table with
  | none => s
  | some _ => { s with m_table := none, m_tableSize := 0, m_tableSizeMask := 0, m_keyCount := 0 }

def copyBucket (s : HashTable V) : Bucket V → Option (HashTable V)
  | .full v => do return (← add f v s).table
  | _ => some s

/-- the dumb way, by adding each element to the new table -/
def copy (other : HashTable V) : Option (HashTable V) :=
  (List.range other.m_tableSize).foldlM (fun s i => copyBucket f s (other.bucket i)) {}

/-- the loop of `operator==`, over what is left of the first table -/
def equalFrom {M : Type} [DecidableEq M] (mapped : V → M) (a b : HashTable V) : List Nat → Option Bool
  | [] => some true
  | i :: rest =>
    match a.bucket i with
    | .full v => do
      match ← lookup f (f.extract v) b with
      | none => return false
      | some bPos => if (valueAt b bPos).map mapped ≠ some (mapped v) then return false else equalFrom mapped a b rest
    | _ => equalFrom mapped a b rest

def equal {M : Type} [DecidableEq M] (mapped : V → M) (a b : HashTable V) : Option Bool :=
  if a.m_keyCount ≠ b.m_keyCount then some false else equalFrom f mapped a b (List.range a.m_tableSize)

/-! ## the sequence of a search -/

def stride (x : K) : Nat := (1 ||| doubleHash (f.hash x)).toNat

def probe (e : Nat) (x : K) (j : Nat) : Nat := ((f.hash x).toNat + j * stride f x) % 2 ^ e

theorem stride_odd (x : K) : stride f x % 2 = 1 := by
  have h : stride f x = 1 ||| (doubleHash (f.hash x)).toNat := by
    unfold stride
    rw [UInt32.toNat_or]
    rfl
  rw [h, Nat.or_mod_two_eq_one]
  exact Or.inl rfl

theorem probe_covers (e : Nat) : Covers (probe f e) (2 ^ e) :=
  stride_covers e (fun x => (f.hash x).toNat) (stride f) (stride_odd f)

theorem probe_zero (e : Nat) (x : K) : (f.hash x).toNat &&& (2 ^ e - 1) = probe f e x 0 := by
  unfold probe
  rw [Nat.and_two_pow_sub_one_eq_mod, Nat.zero_mul, Nat.add_zero]

theorem probe_succ (e : Nat) (x : K) (j : Nat) :
    (probe f e x j + stride f x) &&& (2 ^ e - 1) = probe f e x (j + 1) := by
  unfold probe
  rw [Nat.and_two_pow_sub_one_eq_mod, Nat.mod_add_mod, Nat.add_mul, Nat.one_mul, Nat.add_assoc]

theorem nextStep_zero (x : K) : nextStep (f.hash x) 0 = stride f x := rfl

theorem nextStep_stride (x : K) : nextStep (f.hash x) (stride f x) = stride f x := by
  have hodd := stride_odd f x
  unfold nextStep
  rw [if_neg (by omega)]

/-! ## where the searches end -/

section
variable {f} {e : Nat} {t : Nat → Bucket V} {x : K} {J : Nat}

/-- where the bucket of a search that ended is -/
def foundAt (t : Nat → Bucket V) (b : Nat) : Option Nat :=
  match t b with
  | .full _ => some b
  | _ => none

theorem lookupLoop_eq (h : Stops f.extract (probe f e) t x J) (fuel j k : Nat) (hj : j ≤ J) (hfuel : J - j < fuel)
    (hk : nextStep (f.hash x) k = stride f x) :
    lookupLoop f t (2 ^ e - 1) x (f.hash x) fuel (probe f e x j) k = some (foundAt t (probe f e x J)) := by
  induction fuel generalizing j k with
  | zero => omega
  | succ fuel ih =>
    rcases Nat.lt_or_eq_of_le hj with hlt | rfl
    · have hpass := h.passes j hlt
      have hnext := ih (j + 1) (stride f x) hlt (by omega) (nextStep_stride f x)
      unfold lookupLoop
      rw [hk, probe_succ, hnext]
      cases htb : t (probe f e x j) with
      | empty =>
        rw [htb] at hpass
        exact absurd hpass id
      | deleted => rfl
      | full v =>
        rw [htb] at hpass
        exact if_neg hpass
    · unfold lookupLoop foundAt
      rcases not_passes h.stops with he | ⟨v, hv, hx⟩
      · rw [he]
      · rw [hv]
        exact if_pos hx

theorem writeLoop_eq (h : Stops f.extract (probe f e) t x J) (fuel j k : Nat) (deletedEntry : Option Nat) (hj : j ≤ J)
    (hfuel : J - j < fuel) (hk : nextStep (f.hash x) k = stride f x)
    (hdeleted : ∀ b, deletedEntry = some b → ∃ i, i < j ∧ b = probe f e x i ∧ t b = .deleted) :
    (∃ v, t (probe f e x J) = .full v ∧
      writeLoop f t (2 ^ e - 1) x (f.hash x) fuel (probe f e x j) k deletedEntry = some (probe f e x J, true)) ∨
    (t (probe f e x J) = .empty ∧ ∃ i, i ≤ J ∧ (∀ v, t (probe f e x i) ≠ .full v) ∧
      writeLoop f t (2 ^ e - 1) x (f.hash x) fuel (probe f e x j) k deletedEntry = some (probe f e x i, false)) := by
  induction fuel generalizing j k deletedEntry with
  | zero => omega
  | succ fuel ih =>
    rcases Nat.lt_or_eq_of_le hj with hlt | rfl
    · have hpass := h.passes j hlt
      unfold writeLoop
      rw [hk, probe_succ]
      cases htb : t (probe f e x j) with
      | empty =>
        rw [htb] at hpass
        exact absurd hpass id
      | deleted =>
        refine ih (j + 1) (stride f x) _ hlt (by omega) (nextStep_stride f x) fun b hb => ?_
        cases hb
        exact ⟨j, Nat.lt_succ_self j, rfl, htb⟩
      | full v =>
        rw [htb] at hpass
        have hstep := ih (j + 1) (stride f x) deletedEntry hlt (by omega) (nextStep_stride f x) fun b hb => by
          obtain ⟨i, hi, hbi⟩ := hdeleted b hb
          exact ⟨i, by omega, hbi⟩
        have hne : ¬ f.extract v = x := hpass
        simp only [hne, if_false]
        exact hstep
    · unfold writeLoop
      rcases not_passes h.stops with he | ⟨v, hv, hx⟩
      · refine Or.inr ⟨he, ?_⟩
        rw [he]
        cases deletedEntry with
        | none => exact ⟨j, le_refl j, fun v hv => absurd (he.symm.trans hv) nofun, rfl⟩
        | some b =>
          obtain ⟨i, hi, rfl, hdel⟩ := hdeleted b rfl
          exact ⟨i, by omega, fun v hv => absurd (hdel.symm.trans hv) nofun, rfl⟩
      · refine Or.inl ⟨v, hv, ?_⟩
        rw [hv]
        exact if_pos hx

theorem lookupForWriting_eq (h : Stops f.extract (probe f e) t x J) (hJ : J < 2 ^ e) :
    (∃ v, t (probe f e x J) = .full v ∧
      lookupForWriting f x (2 ^ e) (2 ^ e - 1) t = some (probe f e x J, true)) ∨
    (t (probe f e x J) = .empty ∧ ∃ i, i ≤ J ∧ (∀ v, t (probe f e x i) ≠ .full v) ∧
      lookupForWriting f x (2 ^ e) (2 ^ e - 1) t = some (probe f e x i, false)) := by
  have hdef : lookupForWriting f x (2 ^ e) (2 ^ e - 1) t =
      writeLoop f t (2 ^ e - 1) x (f.hash x) (2 ^ e) (probe f e x 0) 0 none := by
    rw [← probe_zero]
    rfl
  rw [hdef]
  exact writeLoop_eq h _ 0 0 none (Nat.zero_le J) (by omega) (nextStep_zero f x) nofun

end

/-! ## consistent tables -/

/-- `checkTableConsistencyExceptSize` -/
structure Consistent (e : Nat) (t : Nat → Bucket V) (s : HashTable V) : Prop where
  table : s.m_table = some t
  size : s.m_tableSize = 2 ^ e
  mask : s.m_tableSizeMask = 2 ^ e - 1
  minimum : f.minimumTableSize ≤ 2 ^ e
  sound : Sound f.extract (probe f e) (2 ^ e) t
  keys : s.m_keyCount = total Bucket.fulls (2 ^ e) t
  deleteds : s.m_deletedCount = total Bucket.deleteds (2 ^ e) t

/-- what `checkTableConsistency` asks besides -/
structure Loaded (s : HashTable V) : Prop where
  expand : s.shouldExpand = false
  shrink : s.shouldShrink f = false

/-- a new value at an entry that `lookupForWriting` gives -/
structure Placed (e : Nat) (t t' : Nat → Bucket V) (v : V) : Prop where
  sound : Sound f.extract (probe f e) (2 ^ e) t'
  holds : ∀ w, Holds (2 ^ e) t' w ↔ w = v ∨ Holds (2 ^ e) t w
  fulls : total Bucket.fulls (2 ^ e) t' = total Bucket.fulls (2 ^ e) t + 1

section
variable {f} {e : Nat} {t : Nat → Bucket V}

theorem fulls_eq_zero {b : Bucket V} (h : ∀ v, b ≠ .full v) : b.fulls = 0 := by
  cases b with
  | empty | deleted => rfl
  | full v => exact absurd rfl (h v)

theorem lookupForWriting_free (hs : Sound f.extract (probe f e) (2 ^ e) t)
    (hroom : total Bucket.fulls (2 ^ e) t + total Bucket.deleteds (2 ^ e) t < 2 ^ e) (v : V)
    (hnone : ∀ w, Holds (2 ^ e) t w → f.extract w ≠ f.extract v) :
    ∃ b, b < 2 ^ e ∧ (∀ w, t b ≠ .full w) ∧
      lookupForWriting f (f.extract v) (2 ^ e) (2 ^ e - 1) t = some (b, false) ∧
      Placed f e t (update t b (.full v)) v := by
  have hcov := probe_covers f e
  obtain ⟨J, hJ, hstops⟩ := stops_exists f.extract hcov (exists_empty hroom) (f.extract v)
  have hempty := (hstops.empty_iff hs hcov).mpr hnone
  rcases lookupForWriting_eq hstops hJ with ⟨w, hw, -⟩ | ⟨-, i, hi, hfree, heq⟩
  · rw [hempty] at hw
    exact absurd hw nofun
  · have hb := (hcov (f.extract v)).1 i
    refine ⟨_, hb, hfree, heq, hs.insert hcov hstops hempty hi, holds_insert hb hfree v, ?_⟩
    have hcount := total_update Bucket.fulls (t := t) hb (.full v)
    rw [fulls_eq_zero hfree] at hcount
    exact hcount

theorem lookupForWriting_found (hs : Sound f.extract (probe f e) (2 ^ e) t)
    (hroom : total Bucket.fulls (2 ^ e) t + total Bucket.deleteds (2 ^ e) t < 2 ^ e) {v : V} (hv : Holds (2 ^ e) t v) :
    ∃ b, b < 2 ^ e ∧ t b = .full v ∧ lookupForWriting f (f.extract v) (2 ^ e) (2 ^ e - 1) t = some (b, true) := by
  have hcov := probe_covers f e
  obtain ⟨J, hJ, hstops⟩ := stops_exists f.extract hcov (exists_empty hroom) (f.extract v)
  have hfull := (hstops.full_iff hs hcov).mpr ⟨hv, rfl⟩
  rcases lookupForWriting_eq hstops hJ with ⟨w, -, heq⟩ | ⟨he, -⟩
  · exact ⟨_, (hcov (f.extract v)).1 J, hfull, heq⟩
  · rw [he] at hfull
    exact absurd hfull nofun

end

/-! ## another size -/

section
variable {f} {e n : Nat} {old : Nat → Bucket V}

/-- the new table after the first `i` of the old buckets: the induction is on `i` -/
theorem reinsert_buckets
    (hunique : ∀ b b', b < n → b' < n → ∀ v v', old b = .full v → old b' = .full v' → f.extract v = f.extract v' → b = b')
    (hroom : total Bucket.fulls n old < 2 ^ e) (i : Nat) (hi : i ≤ n) :
    ∃ t, (List.range i).foldlM (fun table i => reinsertBucket f (2 ^ e) (2 ^ e - 1) table (old i)) (fun _ => .empty) =
        some t ∧
      Sound f.extract (probe f e) (2 ^ e) t ∧ total Bucket.deleteds (2 ^ e) t = 0 ∧
      total Bucket.fulls (2 ^ e) t = total Bucket.fulls i old ∧ ∀ v, Holds (2 ^ e) t v ↔ Holds i old v := by
  induction i with
  | zero =>
    refine ⟨fun _ => .empty, rfl, sound_empty, total_empty _ rfl, total_empty _ rfl, fun v => ⟨?_, ?_⟩⟩
    · rintro ⟨b, -, hv⟩
      exact absurd hv nofun
    · rintro ⟨b, hb, -⟩
      omega
  | succ i ih =>
    obtain ⟨t, heq, hs, hdel, hfulls, hholds⟩ := ih (by omega)
    rw [List.range_succ, List.foldlM_append, heq]
    have hmono := total_mono Bucket.fulls old hi
    rw [total_succ] at hmono ⊢
    cases hold : old i with
    | empty | deleted =>
      refine ⟨t, ?_, hs, hdel, hfulls, fun v => ?_⟩
      · show (reinsertBucket f _ _ t (old i) >>= pure) = _
        rw [hold]
        rfl
      · rw [hholds, holds_succ_free fun v hv => absurd (hold.symm.trans hv) nofun]
    | full v =>
      rw [hold] at hmono
      have hone : (Bucket.full v).fulls = 1 := rfl
      have hnone : ∀ w, Holds (2 ^ e) t w → f.extract w ≠ f.extract v := by
        intro w hw hkey
        obtain ⟨b, hb, hbw⟩ := (hholds w).mp hw
        have hbi := hunique b i (by omega) (by omega) w v hbw hold hkey
        omega
      obtain ⟨b, hb, hfree, hwrite, hplaced⟩ := lookupForWriting_free hs (by omega) v hnone
      refine ⟨update t b (.full v), ?_, hplaced.sound, ?_, ?_, fun w => ?_⟩
      · show (reinsertBucket f _ _ t (old i) >>= pure) = _
        rw [hold]
        show (reinsert f _ _ t v >>= pure) = _
        unfold reinsert
        rw [hwrite]
        rfl
      · have hcount := total_update Bucket.deleteds (t := t) hb (.full v)
        rw [hdel] at hcount
        exact Nat.eq_zero_of_add_eq_zero_right hcount
      · rw [hplaced.fulls, hfulls, hone]
      · rw [hplaced.holds, hholds, holds_succ_full hold]

end

theorem rehash_ok {e : Nat} {s : HashTable V} (hmin : f.minimumTableSize ≤ 2 ^ e)
    (hunique : ∀ b b', b < s.m_tableSize → b' < s.m_tableSize → ∀ v v', s.bucket b = .full v → s.bucket b' = .full v' →
      f.extract v = f.extract v' → b = b')
    (hkeys : s.m_keyCount = total Bucket.fulls s.m_tableSize s.bucket) (hroom : s.m_keyCount < 2 ^ e) :
    ∃ s' t, rehash f (2 ^ e) s = some s' ∧ Consistent f e t s' ∧ s'.m_keyCount = s.m_keyCount ∧ s'.m_deletedCount = 0 ∧
      ∀ v, Holds (2 ^ e) t v ↔ Holds s.m_tableSize s.bucket v := by
  rw [hkeys] at hroom
  obtain ⟨t, heq, hs, hdel, hfulls, hholds⟩ := reinsert_buckets hunique hroom s.m_tableSize (le_refl _)
  refine ⟨{ s with
    m_table := some t, m_tableSize := 2 ^ e, m_tableSizeMask := 2 ^ e - 1, m_deletedCount := 0 }, t, ?_,
    ⟨rfl, rfl, rfl, hmin, hs, hkeys.trans hfulls.symm, hdel.symm⟩, rfl, rfl, hholds⟩
  unfold rehash
  rw [heq]
  rfl

end
end Wkc.HashTables
