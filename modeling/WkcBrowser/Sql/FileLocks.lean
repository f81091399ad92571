import WkcBrowser.Lib.RangeLocks
import WkcBrowser.Lib.Runs
import Mathlib.Data.Fintype.Basic

/-!
# The locks of the SQLite VFS

`wkcLock`, `wkcUnlock` and `wkcCheckReservedLock`, as the requests they make to the lock manager.  A request
for EXCLUSIVE gives the shared range up before it asks for it again, exclusively; a reader that is still there
makes this fail, and then the handle holds less than RESERVED and more.

* `wkcLock`, `wkcUnlock`, `wkcCheckReservedLock`   the calls;
* `Vfs`, `Op`, `step`                              connections that make them, in any order;
* `described`                                      the ranges of a lock type;
* `file_locks`                                     what holds between the calls.
-/

set_option linter.unusedSectionVars false

namespace Wkc
namespace Sql
open Locks

inductive LockRange where
  | WKC_PENDING_LOCK_BYTE
  | WKC_RESERVED_LOCK_BYTE
  | WKC_SHARED_LOCK
  deriving DecidableEq

inductive LockType where
  | NONE
  | SHARED
  | RESERVED
  | PENDING
  | EXCLUSIVE
  deriving DecidableEq

def LockType.toNat : LockType → Nat
  | .NONE => 0
  | .SHARED => 1
  | .RESERVED => 2
  | .PENDING => 3
  | .EXCLUSIVE => 4

inductive Result where
  | SQLITE_OK
  | SQLITE_BUSY
  | SQLITE_IOERR_UNLOCK
  -- `*pResOut` of `wkcCheckReservedLock`, which returns `SQLITE_OK`
  | reserved (pResOut : Bool)
  deriving DecidableEq

/-- what a call leaves: `fLockType`, and what it returned -/
structure Returned where
  fLockType : LockType := .NONE
  result : Result := .SQLITE_OK

abbrev LockCall := Call LockRange Returned

/-- the loop over `cnt` -/
def tryPending : Nat → (Bool → LockCall) → LockCall
  | 0, next => next false
  | cnt + 1, next => .lock .exclusive .WKC_PENDING_LOCK_BYTE fun ret =>
      if ret then next true else tryPending cnt next

/-- `wkcLock` after the pending lock; `ret` is 0 if that was tried and refused -/
def lockRanges (fLockType locktype : LockType) (ret : Bool) : LockCall :=
  if ret = false then .done ⟨fLockType, .SQLITE_BUSY⟩
  else
    match locktype with
    | .NONE => .done ⟨fLockType, .SQLITE_OK⟩
    | .SHARED => .lock .shared .WKC_SHARED_LOCK fun ret =>
        .unlock .WKC_PENDING_LOCK_BYTE
          (.done (if ret then ⟨.SHARED, .SQLITE_OK⟩ else ⟨fLockType, .SQLITE_BUSY⟩))
    | .RESERVED => .lock .exclusive .WKC_RESERVED_LOCK_BYTE fun ret =>
        .done (if ret then ⟨.RESERVED, .SQLITE_OK⟩ else ⟨fLockType, .SQLITE_BUSY⟩)
    | .PENDING => .done ⟨.PENDING, .SQLITE_OK⟩
    | .EXCLUSIVE => .unlock .WKC_SHARED_LOCK (.lock .exclusive .WKC_SHARED_LOCK fun ret =>
        .done (if ret then ⟨.EXCLUSIVE, .SQLITE_OK⟩ else ⟨fLockType, .SQLITE_BUSY⟩))

def wkcLock (fLockType locktype : LockType) : LockCall :=
  if locktype.toNat ≤ fLockType.toNat then .done ⟨fLockType, .SQLITE_OK⟩
  else if fLockType = .NONE ∨ (locktype = .EXCLUSIVE ∧ fLockType = .RESERVED) then
    tryPending 3 (lockRanges fLockType locktype)
  else lockRanges fLockType locktype true

def unlockIf (b : Bool) (r : LockRange) (next : LockCall) : LockCall := if b then .unlock r next else next

/-- `wkcUnlock` after the shared range of an exclusive lock -/
def unlockRanges (type locktype : LockType) (ret : Bool) : LockCall :=
  unlockIf (decide (LockType.RESERVED.toNat ≤ type.toNat)) .WKC_RESERVED_LOCK_BYTE
    (unlockIf (decide (LockType.SHARED.toNat ≤ type.toNat) && decide (locktype = .NONE)) .WKC_SHARED_LOCK
      (unlockIf (decide (LockType.PENDING.toNat ≤ type.toNat)) .WKC_PENDING_LOCK_BYTE
        (.done ⟨locktype, if ret then .SQLITE_OK else .SQLITE_IOERR_UNLOCK⟩)))

def wkcUnlock (type locktype : LockType) : LockCall :=
  if LockType.EXCLUSIVE.toNat ≤ type.toNat then
    .unlock .WKC_SHARED_LOCK
      (if locktype = .SHARED then .lock .shared .WKC_SHARED_LOCK (unlockRanges type locktype)
        else unlockRanges type locktype true)
  else unlockRanges type locktype true

def wkcCheckReservedLock (fLockType : LockType) : LockCall :=
  if LockType.RESERVED.toNat ≤ fLockType.toNat then .done ⟨fLockType, .reserved true⟩
  else .lock .exclusive .WKC_RESERVED_LOCK_BYTE fun ret =>
    unlockIf ret .WKC_RESERVED_LOCK_BYTE (.done ⟨fLockType, .reserved (!ret)⟩)

/-! ## connections -/

abbrev Vfs (H : Type*) := System H LockRange Returned

inductive Op (H : Type*) where
  | lock (h : H) (locktype : LockType)
  | unlock (h : H) (locktype : LockType)
  | checkReservedLock (h : H)
  -- the next peer call of the call that `h` is in
  | peer (h : H)

section
variable {H : Type*} [DecidableEq H] [Fintype H]

def step (v : Vfs H) : Op H → Vfs H
  | .lock h locktype => v.start h (wkcLock (v.level h).fLockType locktype)
  | .unlock h locktype => v.start h (wkcUnlock (v.level h).fLockType locktype)
  | .checkReservedLock h => v.start h (wkcCheckReservedLock (v.level h).fLockType)
  | .peer h => v.advance h

/-- one call of a connection after another, with the lock types that SQLite uses -/
def Uses (v : Vfs H) : Op H → Prop
  | .lock h locktype => v.call h = none ∧ (locktype.toNat ≤ (v.level h).fLockType.toNat ∨
      ((v.level h).fLockType = .NONE ∧ locktype = .SHARED) ∨
      ((v.level h).fLockType = .SHARED ∧ locktype = .RESERVED) ∨
      (((v.level h).fLockType = .RESERVED ∨ (v.level h).fLockType = .PENDING) ∧ locktype = .EXCLUSIVE))
  | .unlock h locktype => v.call h = none ∧ (locktype = .SHARED ∨ locktype = .NONE) ∧
      locktype.toNat ≤ (v.level h).fLockType.toNat
  | .checkReservedLock h => v.call h = none
  | .peer _ => True

instance (v : Vfs H) : ∀ op, Decidable (Uses v op)
  | .lock _ _ => inferInstanceAs (Decidable (_ ∧ _))
  | .unlock _ _ => inferInstanceAs (Decidable (_ ∧ _))
  | .checkReservedLock h => inferInstanceAs (Decidable (v.call h = none))
  | .peer _ => instDecidableTrue

/-- the next request is for the shared range, exclusively -/
def asksExclusive : Option LockCall → Bool
  | some (.lock .exclusive .WKC_SHARED_LOCK _) => true
  | _ => false

/-- no reader is left when the shared range is asked for exclusively -/
def ReadersGone (v : Vfs H) : Op H → Prop
  | .peer h => asksExclusive (v.call h) = true → Grants v.table h .exclusive .WKC_SHARED_LOCK
  | _ => True

instance (v : Vfs H) : ∀ op, Decidable (ReadersGone v op)
  | .peer h => inferInstanceAs (Decidable (asksExclusive (v.call h) = true → _))
  | .lock _ _ => instDecidableTrue
  | .unlock _ _ => instDecidableTrue
  | .checkReservedLock _ => instDecidableTrue

end

/-- the ranges of a lock type -/
def described : LockType → Held LockRange
  | .NONE, _ => none
  | .EXCLUSIVE, _ => some .exclusive
  | _, .WKC_SHARED_LOCK => some .shared
  | .SHARED, _ => none
  | .RESERVED, .WKC_RESERVED_LOCK_BYTE => some .exclusive
  | .RESERVED, .WKC_PENDING_LOCK_BYTE => none
  | .PENDING, _ => some .exclusive

/-- the ranges are those of `fLockType` -/
def Ends (x : Held LockRange) (a : Returned) : Prop := x = described a.fLockType

/-- who holds the shared range exclusively has reserved the file -/
def Ordered (x : Held LockRange) : Prop :=
  x .WKC_SHARED_LOCK = some .exclusive → x .WKC_RESERVED_LOCK_BYTE = some .exclusive

instance (x : Held LockRange) : Decidable (Ordered x) := inferInstanceAs (Decidable (_ → _))

/-- a request that may be refused: not the last one of EXCLUSIVE, nor the shared range of a handle that has
reserved the file -/
def Refusable (x : Held LockRange) (k : Kind) (r : LockRange) : Prop :=
  r = .WKC_SHARED_LOCK → k = .shared ∧ x .WKC_RESERVED_LOCK_BYTE ≠ some .exclusive

abbrev Good (c : LockCall) (x : Held LockRange) : Prop := Tame Ordered Refusable Ends c x

theorem ordered_described (l : LockType) : Ordered (described l) := by
  intro h
  cases l <;> first | rfl | cases h

theorem good_done {l : LockType} {result : Result} {x : Held LockRange} (h : x = described l) :
    Good (.done ⟨l, result⟩) x := by
  refine ⟨?_, h⟩
  rw [h]
  exact ordered_described l

/-! ## each call is good -/

theorem held_ext {x y : Held LockRange} (hp : x .WKC_PENDING_LOCK_BYTE = y .WKC_PENDING_LOCK_BYTE)
    (hr : x .WKC_RESERVED_LOCK_BYTE = y .WKC_RESERVED_LOCK_BYTE)
    (hs : x .WKC_SHARED_LOCK = y .WKC_SHARED_LOCK) : x = y := by
  funext r
  cases r with
  | WKC_PENDING_LOCK_BYTE => exact hp
  | WKC_RESERVED_LOCK_BYTE => exact hr
  | WKC_SHARED_LOCK => exact hs

theorem good_shared : Good (lockRanges .NONE .SHARED true)
    ((described .NONE).set .WKC_PENDING_LOCK_BYTE (some .exclusive)) := by
  refine ⟨by decide, ⟨by decide, good_done ?_⟩, fun _ => ⟨by decide, good_done ?_⟩⟩ <;> exact held_ext rfl rfl rfl

theorem good_tryPending {l locktype : LockType}
    (hl : Good (lockRanges l locktype true) ((described l).set .WKC_PENDING_LOCK_BYTE (some .exclusive)))
    (cnt : Nat) : Good (tryPending cnt (lockRanges l locktype)) (described l) := by
  induction cnt with
  | zero => exact good_done rfl
  | succ cnt ih => exact ⟨ordered_described l, hl, fun _ => ih⟩

theorem good_reserved : Good (lockRanges .SHARED .RESERVED true) (described .SHARED) := by
  refine ⟨by decide, good_done ?_, fun _ => good_done rfl⟩
  exact held_ext rfl rfl rfl

theorem good_exclusive {l : LockType} {x : Held LockRange} (hp : x .WKC_PENDING_LOCK_BYTE = some .exclusive)
    (hr : x .WKC_RESERVED_LOCK_BYTE = some .exclusive) : Good (lockRanges l .EXCLUSIVE true) x := by
  refine ⟨fun _ => hr, ⟨fun _ => hr, good_done ?_, fun hrefused => ?_⟩⟩
  · exact held_ext hp hr rfl
  · cases (hrefused rfl).1

theorem good_wkcLock {l locktype : LockType} (h : locktype.toNat ≤ l.toNat ∨ (l = .NONE ∧ locktype = .SHARED) ∨
    (l = .SHARED ∧ locktype = .RESERVED) ∨ ((l = .RESERVED ∨ l = .PENDING) ∧ locktype = .EXCLUSIVE)) :
    Good (wkcLock l locktype) (described l) := by
  unfold wkcLock
  split
  · exact good_done rfl
  next hup =>
  rcases h with hdown | ⟨rfl, rfl⟩ | ⟨rfl, rfl⟩ | ⟨rfl | rfl, rfl⟩
  · exact absurd hdown hup
  · exact good_tryPending good_shared 3
  · exact good_reserved
  · exact good_tryPending (good_exclusive rfl rfl) 3
  · exact good_exclusive rfl rfl

theorem good_unlock_shared {type : LockType} (hle : LockType.SHARED.toNat ≤ type.toNat) :
    Good (wkcUnlock type .SHARED) (described type) := by
  cases type with
  | NONE => exact absurd hle (by decide)
  | SHARED => exact good_done rfl
  | RESERVED => exact ⟨by decide, good_done (held_ext rfl rfl rfl)⟩
  | PENDING => exact ⟨by decide, by decide, good_done (held_ext rfl rfl rfl)⟩
  | EXCLUSIVE =>
    refine ⟨by decide, by decide, ⟨by decide, by decide, good_done (held_ext rfl rfl rfl)⟩, fun hrefused => ?_⟩
    -- nobody else can hold the range: the handle has still reserved the file
    exact absurd rfl (hrefused rfl).2

theorem good_unlock_none (type : LockType) : Good (wkcUnlock type .NONE) (described type) := by
  cases type with
  | NONE => exact good_done rfl
  | SHARED => exact ⟨by decide, good_done (held_ext rfl rfl rfl)⟩
  | RESERVED => exact ⟨by decide, by decide, good_done (held_ext rfl rfl rfl)⟩
  | PENDING => exact ⟨by decide, by decide, by decide, good_done (held_ext rfl rfl rfl)⟩
  | EXCLUSIVE => exact ⟨by decide, by decide, by decide, by decide, good_done (held_ext rfl rfl rfl)⟩

theorem good_wkcUnlock {type locktype : LockType} (hlock : locktype = .SHARED ∨ locktype = .NONE)
    (hle : locktype.toNat ≤ type.toNat) : Good (wkcUnlock type locktype) (described type) := by
  rcases hlock with rfl | rfl
  · exact good_unlock_shared hle
  · exact good_unlock_none type

theorem good_wkcCheckReservedLock (l : LockType) : Good (wkcCheckReservedLock l) (described l) := by
  cases l with
  | NONE | SHARED => exact ⟨by decide, ⟨by decide, good_done (held_ext rfl rfl rfl)⟩, fun _ => good_done rfl⟩
  | RESERVED | PENDING | EXCLUSIVE => exact good_done rfl

/-! ## runs -/

section
variable {H : Type*} [DecidableEq H] [Fintype H] {v : Vfs H}

/-- between its calls -/
structure LocksSound (v : Vfs H) : Prop where
  exact : ∀ h, v.call h = none → v.table h = described (v.level h).fLockType
  busy : ∀ h, v.call h = none → (v.level h).result = .SQLITE_BUSY →
    ∀ r, described (v.level h).fLockType r ≠ none → v.table h r = described (v.level h).fLockType r
  unlocked : ∀ h, v.call h = none → (v.level h).fLockType = .NONE → ∀ r, v.table h r = none
  reserved : ∀ h h', v.call h = none → v.call h' = none → LockType.RESERVED.toNat ≤ (v.level h).fLockType.toNat →
    LockType.RESERVED.toNat ≤ (v.level h').fLockType.toNat → h = h'
  exclusive : ∀ h h', h ≠ h' → v.call h = none → v.call h' = none → (v.level h).fLockType = .EXCLUSIVE →
    (v.level h').fLockType = .NONE

theorem described_reserved {l : LockType} (h : LockType.RESERVED.toNat ≤ l.toNat) :
    described l .WKC_RESERVED_LOCK_BYTE = some .exclusive := by
  cases l <;> first | rfl | exact absurd h (by decide)

theorem described_shared {l : LockType} (h : described l .WKC_SHARED_LOCK = none) : l = .NONE := by
  cases l <;> first | rfl | cases h

theorem steady_sound (h : Steady Ordered Refusable Ends v) : LocksSound v := by
  have hexact : ∀ i, v.call i = none → v.table i = described (v.level i).fLockType := fun i hi => (h.idle i hi).2
  refine ⟨hexact, ?_, ?_, ?_, ?_⟩
  · intro i hi _ r _
    rw [hexact i hi]
  · intro i hi hnone r
    rw [hexact i hi, hnone]
    rfl
  · intro i j hi hj hri hrj
    by_contra hij
    have hheld : v.table i .WKC_RESERVED_LOCK_BYTE = some .exclusive := by
      rw [hexact i hi]
      exact described_reserved hri
    have hfree := h.compatible i j _ hij hheld
    rw [hexact j hj, described_reserved hrj] at hfree
    cases hfree
  · intro i j hij hi hj hex
    have hheld : v.table i .WKC_SHARED_LOCK = some .exclusive := by
      rw [hexact i hi, hex]
      rfl
    have hfree := h.compatible i j _ hij hheld
    rw [hexact j hj] at hfree
    exact described_shared hfree

theorem refusable (h : Steady Ordered Refusable Ends v) {i : H} {k : Kind} {r : LockRange}
    {next : Bool → LockCall} (hgone : ReadersGone v (.peer i)) (hcall : v.call i = some (.lock k r next))
    (hrefused : ¬ Grants v.table i k r) : Refusable (v.table i) k r := by
  intro hr
  subst hr
  cases k with
  | exclusive => exact absurd (hgone (by rw [hcall]; rfl)) hrefused
  | shared =>
    refine ⟨rfl, fun hreserved => hrefused ?_⟩
    intro j hji
    cases hshared : v.table j .WKC_SHARED_LOCK with
    | none => exact .inl rfl
    | some k' =>
      cases k' with
      | shared => exact .inr ⟨rfl, rfl⟩
      | exclusive =>
        -- then `j` would have reserved the file too
        have hboth := h.compatible i j _ (Ne.symm hji) hreserved
        rw [h.holds j hshared] at hboth
        cases hboth

theorem steady_step (h : Steady Ordered Refusable Ends v) {op : Op H} (hu : Uses v op) (hg : ReadersGone v op) :
    Steady Ordered Refusable Ends (step v op) := by
  cases op with
  | lock i locktype =>
    refine h.start ?_
    rw [(h.idle i hu.1).2]
    exact good_wkcLock hu.2
  | unlock i locktype =>
    refine h.start ?_
    rw [(h.idle i hu.1).2]
    exact good_wkcUnlock hu.2.1 hu.2.2
  | checkReservedLock i =>
    refine h.start ?_
    rw [(h.idle i hu).2]
    exact good_wkcCheckReservedLock _
  | peer i => exact h.advance fun k r next hcall hrefused => refusable h hg hcall hrefused

/-- connections that have just been opened -/
def opened (H : Type*) : Vfs H where
  table _ _ := none
  level _ := {}
  call _ := none

theorem opened_steady : Steady Ordered Refusable Ends (opened H) where
  compatible _ _ _ _ hfalse := by cases hfalse
  idle _ _ := ⟨nofun, rfl⟩
  busy _ _ hcall := by cases hcall

end

/-- **The locks of a database file.**  Connections call one after another or in between, with the lock types
that SQLite uses.  If no reader is left whenever a call asks for the shared range exclusively, then at every
moment and for the handles that are not in a call, the lock types say what the handles hold, at most one is
RESERVED or above, and an EXCLUSIVE one is alone. -/
theorem file_locks {H : Type*} [DecidableEq H] [Fintype H] (ops : List (Op H))
    (hu : Runs.Along step Uses (opened H) ops) (hg : Runs.Along step ReadersGone (opened H) ops) :
    ∀ pre, pre <+: ops → LocksSound (Runs.run step (opened H) pre) := by
  intro pre hpre
  have hboth := hu.and hg
  exact steady_sound (hboth.inv_prefix (P := Steady Ordered Refusable Ends)
    (fun _ _ hC h => steady_step h hC.1 hC.2) opened_steady pre hpre)

/-- one connection goes up to EXCLUSIVE and back, the other reads the reserved byte in between -/
def alone : List (Op (Fin 2)) :=
  [.lock 0 .SHARED, .peer 0, .peer 0, .peer 0, .peer 0, .lock 0 .RESERVED, .peer 0, .checkReservedLock 1, .peer 0,
    .lock 0 .EXCLUSIVE, .peer 0, .peer 1, .peer 0, .peer 0, .peer 1, .peer 0]

theorem file_locks_alone : Runs.Along step Uses (opened (Fin 2)) alone ∧
    Runs.Along step ReadersGone (opened (Fin 2)) alone ∧
    LocksSound (Runs.run step (opened (Fin 2)) alone) ∧
    ((Runs.run step (opened (Fin 2)) alone).level 0).fLockType = .EXCLUSIVE := by
  have hu : Runs.Along step Uses (opened (Fin 2)) alone := by decide
  have hg : Runs.Along step ReadersGone (opened (Fin 2)) alone := by decide
  exact ⟨hu, hg, file_locks alone hu hg alone (List.prefix_refl _), by decide⟩

/-- both read, and one of them wants to write -/
def reader : List (Op (Fin 2)) :=
  [.lock 0 .SHARED, .peer 0, .peer 0, .peer 0, .peer 0, .lock 1 .SHARED, .peer 1, .peer 1, .peer 1, .peer 1,
    .lock 0 .RESERVED, .peer 0, .peer 0, .lock 0 .EXCLUSIVE, .peer 0, .peer 0, .peer 0, .peer 0]

/-- the refused EXCLUSIVE leaves RESERVED without the shared range, and with the pending byte -/
theorem busy_loses_shared : Runs.Along step Uses (opened (Fin 2)) reader ∧
    ((Runs.run step (opened (Fin 2)) reader).level 0).result = .SQLITE_BUSY ∧
    ¬ LocksSound (Runs.run step (opened (Fin 2)) reader) := by
  refine ⟨by decide, by decide, ?_⟩
  intro h
  have hidle : (Runs.run step (opened (Fin 2)) reader).call 0 = none := by decide
  have hexact := congrFun (h.exact 0 hidle) .WKC_SHARED_LOCK
  exact absurd hexact (by decide)

end Sql
end Wkc
