import Mathlib.Logic.Function.Basic
import WkcBrowser.Wtf.Strings

/-!
# The string of the application

* `State`           the `WKC::String` objects and the `StringPrivate`s they point to;
* `State.step`      one call; there is no state after the use of a `StringPrivate` that is missing or destroyed;
* `Values`          the same calls on `WTF::String` values;
* `Rep`             each object owns its `StringPrivate` and shows the value;
* `Permitted`       what a call asks of the strings, so that it does what it does to a `WTF::String`;
* `faithful_iff`    a sequence of calls is faithful exactly if each of its calls is permitted.
-/

namespace Wkc
namespace Helpers
open Buf Strings

/-! ## objects -/

inductive TextDirection
  | RTL | LTR
  deriving DecidableEq

/-- A `CString` may have no data. -/
structure StringPrivate where
  m_impl : WTFString := none
  m_latin1 : Option (Option Bytes) := none
  m_utf8 : Option (Option Bytes) := none
  m_direction : TextDirection := .LTR

def StringPrivate.setImpl (d : StringPrivate) (i : WTFString) : StringPrivate := if i = none then d else { d with m_impl := i }

/-- The pointers of `m_private` are numbers.  An object that is not there, or is no more, is `none`. -/
structure State where
  privates : Nat → Option StringPrivate
  newPrivate : Nat
  objects : Nat → Option (Option Nat)
  newObject : Nat

namespace State

def init : State := { privates := fun _ => none, newPrivate := 0, objects := fun _ => none, newObject := 0 }

def m_private (s : State) (this : Nat) : Option Nat := (s.objects this).join

/-- `*m_private` -/
def deref (s : State) (this : Nat) : Option StringPrivate := (s.m_private this).bind s.privates

/-- `IMPL()` -/
def impl (s : State) (this : Nat) : Option WTFString :=
  match s.m_private this with
  | none => some none
  | some p => (s.privates p).map StringPrivate.m_impl

/-- what happens to `*m_private` -/
def update (s : State) (this : Nat) (f : StringPrivate → StringPrivate) : Option State :=
  match s.m_private this with
  | none => none
  | some p => (s.privates p).map fun d => { s with privates := Function.update s.privates p (some (f d)) }

/-- `m_private->setImpl(i)` -/
def setImpl (s : State) (this : Nat) (i : WTFString) : Option State := s.update this fun d => d.setImpl i

/-- `delete m_private` -/
def release (s : State) (this : Nat) : Option State :=
  match s.m_private this with
  | none => some s
  | some p => (s.privates p).map fun _ => { s with privates := Function.update s.privates p none }

/-- `WTF::String _b(b.impl())`: it is made of a `WKC::String` that takes the pointer, and deletes it when it ends -/
def take (s : State) (b : Nat) : Option (WTFString × State) :=
  (s.impl b).bind fun i => (s.release b).map fun s => (i, s)

/-- `m_private = new StringPrivate()`, with what is set in it -/
def put (s : State) (this : Nat) (d : StringPrivate) : State :=
  { s with
    privates := Function.update s.privates s.newPrivate (some d)
    newPrivate := s.newPrivate + 1
    objects := Function.update s.objects this (some (some s.newPrivate)) }

/-- the assignment's `if (!m_private) m_private = new StringPrivate()` -/
def ensure (s : State) (this : Nat) : State := if s.m_private this = none then s.put this {} else s

/-- a constructor that makes a `StringPrivate` -/
def create (s : State) (d : StringPrivate) : State := { s.put s.newObject d with newObject := s.newObject + 1 }

/-- the operator of `WTF::String` that makes a `WKC::String` -/
def ofWTF (s : State) (a : WTFString) : State := s.create (({} : StringPrivate).setImpl a)

/-- the constructor of `WTF::String` that takes a `WKC::String` -/
def toWTF (s : State) (str : Nat) : Option WTFString := s.impl str

end State

/-! ## calls -/

/-- what is told about a string -/
inductive Reply
  | done
  | units (characters : Option WString)
  | length (n : Nat)
  | bool (b : Bool)
  | place (i : Option Nat)
  | bytes (data : Option Bytes)
  | direction (dir : TextDirection)
  deriving DecidableEq

/-- the functions that change a `WTF::String` of the impl and set its impl -/
inductive Change
  | append (str : Option Bytes)
  | appendUnits (str : Option WString)
  | appendUnitsLen (str : Option WString)
  | replace (a b : Option WString)
  | truncate (len : Nat)
  | remove (pos len : Nat)
  | insert (str : Option WString) (pos len : Nat)

def Change.apply (c : Change) (a : WTFString) : WTFString :=
  match c with
  | .append str => a.append (WTFString.ofText (.chars str))
  | .appendUnits str => a.append (WTFString.ofText (.units str))
  | .appendUnitsLen str => WTFString.appendUnits a str
  | .replace p r => a.replace (WTFString.ofText (.units p)) (WTFString.ofText (.units r))
  | .truncate len => a.truncate len
  | .remove pos len => a.remove pos len
  -- the second argument is the length there, and the third is the position
  | .insert str pos len => WTFString.insert a (str.map fun units => units.take pos) len

/-- the functions that make a string of another -/
inductive Part
  | substring (pos len : Nat)
  | lower
  | upper

/-- the functions that read a `WTF::String` of the impl, and the impl alone -/
inductive Read
  | characters
  | length
  | isNull
  | isEmpty
  | equal (b : Option Bytes)
  | notEqual (b : Option Bytes)
  | find (ch : UInt16) (len : Int)
  | reverseFind (ch : UInt16)
  | toWTF

def Read.apply (r : Read) (a : WTFString) : Reply :=
  match r with
  | .characters => .units a.units
  | .length => .length a.length
  | .isNull => .bool (a.units = none)
  | .isEmpty => .bool a.isEmpty
  | .equal b => .bool (a.equal b)
  | .notEqual b => .bool (!a.equal b)
  | .find ch len => .place (a.findUnit ch (len % 2 ^ 32).toNat)
  | .reverseFind ch => .place (a.reverseFind ch)
  | .toWTF => .units a.units

/-- the functions of the `StringPrivate` -/
inductive Access
  | utf8
  | latin1
  | charactersWithNullTermination
  | direction
  | setDirection (dir : TextDirection)

def Access.reply (c : Access) (d : StringPrivate) : Reply :=
  match c with
  | .utf8 => .bytes d.m_impl.utf8
  | .latin1 => .bytes (some d.m_impl.latin1)
  | .charactersWithNullTermination => .units d.m_impl.units
  | .direction => .direction d.m_direction
  | .setDirection _ => .done

/-- The impl with the NUL behind it has the same characters. -/
def Access.apply (c : Access) (d : StringPrivate) : StringPrivate :=
  match c with
  | .utf8 => { d with m_utf8 := some d.m_impl.utf8 }
  | .latin1 => { d with m_latin1 := some (some d.m_impl.latin1) }
  | .charactersWithNullTermination => d
  | .direction => d
  | .setDirection dir => { d with m_direction := dir }

/-- A `WTF::String` has no direction. -/
def Access.value (c : Access) (a : WTFString) : Option Reply :=
  match c with
  | .utf8 => some (.bytes a.utf8)
  | .latin1 => some (.bytes (some a.latin1))
  | .charactersWithNullTermination => some (.units a.units)
  | .direction => none
  | .setDirection _ => none

/-- New objects get the next number. -/
inductive Op
  | default
  | construct (str : Text)
  | copy (str : Nat)
  | fromWTF (a : WTFString)
  | assign (this orig : Nat)
  | change (this : Nat) (c : Change)
  | append (this str : Nat)
  | replaceUnits (this : Nat) (a : Option WString) (b : Nat)
  | replace (this a b : Nat)
  | replaceAt (this index len b : Nat)
  | part (this : Nat) (c : Part)
  | read (this : Nat) (r : Read)
  | find (this str : Nat)
  | access (this : Nat) (c : Access)
  | destroy (this : Nat)

/-- the objects that a call is about -/
def Op.uses : Op → List Nat
  | .default => []
  | .construct _ => []
  | .copy str => [str]
  | .fromWTF _ => []
  | .assign this orig => [this, orig]
  | .change this _ => [this]
  | .append this str => [this, str]
  | .replaceUnits this _ b => [this, b]
  | .replace this a b => [this, a, b]
  | .replaceAt this _ _ b => [this, b]
  | .part this _ => [this]
  | .read this _ => [this]
  | .find this str => [this, str]
  | .access this _ => [this]
  | .destroy this => [this]

/-- the object whose string a call is for, where it may change it -/
def Op.own : Op → Option Nat
  | .assign this _ => some this
  | .change this _ => some this
  | .append this _ => some this
  | .replaceUnits this _ _ => some this
  | .replace this _ _ => some this
  | .replaceAt this _ _ _ => some this
  | .destroy this => some this
  | _ => none

section
variable (wkcUnicodeToLowerPeer wkcUnicodeToUpperPeer : UInt16 → UInt16)

def Part.apply (c : Part) (a : WTFString) : WTFString :=
  match c with
  | .substring pos len => a.substring pos len
  | .lower => a.lower wkcUnicodeToLowerPeer
  | .upper => a.upper wkcUnicodeToUpperPeer

/-- a call on objects that are there -/
def State.perform (s : State) : Op → Option (State × Reply)
  | .default =>
    some ({ s with objects := Function.update s.objects s.newObject (some none), newObject := s.newObject + 1 }, .done)
  | .construct str => some (s.create { m_impl := some (StringImpl.create str) }, .done)
  | .copy str => (s.deref str).map fun d => (s.create (({} : StringPrivate).setImpl d.m_impl), .done)
  | .fromWTF a => some (s.ofWTF a, .done)
  | .assign this orig =>
    if this = orig then some (s, .done)
    else
      let s := s.ensure this
      (s.deref orig).bind fun d => (s.setImpl this d.m_impl).map fun s => (s, .done)
  | .change this c => (s.impl this).bind fun a => (s.setImpl this (c.apply a)).map fun s => (s, .done)
  | .append this str =>
    (s.impl this).bind fun a => (s.impl str).bind fun b => (s.setImpl this (a.append b)).map fun s => (s, .done)
  | .replaceUnits this a b =>
    (s.impl this).bind fun v => (s.take b).bind fun (_b, s) =>
      (s.setImpl this (v.replace (WTFString.ofText (.units a)) _b)).map fun s => (s, .done)
  | .replace this a b =>
    (s.impl this).bind fun v => (s.take a).bind fun (_a, s) => (s.take b).bind fun (_b, s) =>
      (s.setImpl this (v.replace _a _b)).map fun s => (s, .done)
  | .replaceAt this index len b =>
    (s.impl this).bind fun v => (s.take b).bind fun (_b, s) =>
      (s.setImpl this (v.replaceAt index len _b)).map fun s => (s, .done)
  | .part this c =>
    (s.impl this).map fun a =>
      let ret := c.apply wkcUnicodeToLowerPeer wkcUnicodeToUpperPeer a
      (s.create { m_impl := some (StringImpl.create (.unitsLen ret.units)) }, .done)
  | .read this r => (s.impl this).map fun a => (s, r.apply a)
  | .find this str => (s.impl this).bind fun a => (s.impl str).map fun b => (s, .place (a.find b))
  | .access this c => (s.deref this).bind fun d => (s.update this c.apply).map fun s => (s, c.reply d)
  | .destroy this => (s.release this).map fun s => ({ s with objects := Function.update s.objects this none }, .done)

/-- Nothing is called on an object that is not there. -/
def State.step (s : State) (op : Op) : Option (State × Reply) :=
  if op.uses.all fun x => (s.objects x).isSome then
    s.perform wkcUnicodeToLowerPeer wkcUnicodeToUpperPeer op
  else some (s, .done)

/-! ## the same on values -/

structure Values where
  value : Nat → Option WTFString
  newObject : Nat

namespace Values

def init : Values := { value := fun _ => none, newObject := 0 }

def get (vs : Values) (this : Nat) : WTFString := (vs.value this).join

def put (vs : Values) (this : Nat) (a : WTFString) : Values :=
  { vs with value := Function.update vs.value this (some a) }

def create (vs : Values) (a : WTFString) : Values := { vs.put vs.newObject a with newObject := vs.newObject + 1 }

/-- what a call does to strings that are `WTF::String`s, and what it tells -/
def perform (vs : Values) : Op → Values × Option Reply
  | .default => (vs.create none, some .done)
  | .construct str => (vs.create (WTFString.ofText str), some .done)
  | .copy str => (vs.create (vs.get str), some .done)
  | .fromWTF a => (vs.create a, some .done)
  | .assign this orig => (vs.put this (vs.get orig), some .done)
  | .change this c => (vs.put this (c.apply (vs.get this)), some .done)
  | .append this str => (vs.put this ((vs.get this).append (vs.get str)), some .done)
  | .replaceUnits this a b =>
    (vs.put this ((vs.get this).replace (WTFString.ofText (.units a)) (vs.get b)), some .done)
  | .replace this a b => (vs.put this ((vs.get this).replace (vs.get a) (vs.get b)), some .done)
  | .replaceAt this index len b => (vs.put this ((vs.get this).replaceAt index len (vs.get b)), some .done)
  | .part this c => (vs.create (c.apply wkcUnicodeToLowerPeer wkcUnicodeToUpperPeer (vs.get this)), some .done)
  | .read this r => (vs, some (r.apply (vs.get this)))
  | .find this str => (vs, some (.place ((vs.get this).find (vs.get str))))
  | .access this c => (vs, c.value (vs.get this))
  | .destroy this => ({ vs with value := Function.update vs.value this none }, some .done)

def step (vs : Values) (op : Op) : Values × Option Reply :=
  if op.uses.all fun x => (vs.value x).isSome then
    vs.perform wkcUnicodeToLowerPeer wkcUnicodeToUpperPeer op
  else (vs, some .done)

end Values
end

/-! ## what is compared -/

/-- the value of an object: `none` inside where there is no object, and outside where its `StringPrivate` is destroyed -/
def State.shown (s : State) (this : Nat) : Option (Option (Option WString)) :=
  if s.objects this = none then some none else (s.impl this).map fun a => some a.units

/-- Each object shows the value. -/
def Shows (s : State) (vs : Values) : Prop := ∀ x, s.shown x = some ((vs.value x).map WTFString.units)

def Agrees (r : Reply) (want : Option Reply) : Prop := ∀ w ∈ want, r = w

section
variable (wkcUnicodeToLowerPeer wkcUnicodeToUpperPeer : UInt16 → UInt16)

/-- No call uses a `StringPrivate` that is missing or destroyed, and each call tells what it tells of `WTF::String`s
and leaves the objects with their values. -/
def Faithful : State → Values → List Op → Prop
  | _, _, [] => True
  | s, vs, op :: ops =>
    ∃ s' r, s.step wkcUnicodeToLowerPeer wkcUnicodeToUpperPeer op = some (s', r) ∧
      Agrees r (vs.step wkcUnicodeToLowerPeer wkcUnicodeToUpperPeer op).2 ∧
      Shows s' (vs.step wkcUnicodeToLowerPeer wkcUnicodeToUpperPeer op).1 ∧
      Faithful s' (vs.step wkcUnicodeToLowerPeer wkcUnicodeToUpperPeer op).1 ops

/-- what a function that makes a string asks of the string: that it is not null, and for small and capital letters how
its characters are held -/
def Part.Permitted (c : Part) (a v : WTFString) : Prop :=
  ∃ i i', a = some i ∧ v = some i' ∧
    match c with
    | .substring _ _ => True
    | .lower => SameLower wkcUnicodeToLowerPeer i i'
    | .upper => SameUpper wkcUnicodeToUpperPeer i i'

/-- what a call asks of the strings before it -/
def Permitted (s : State) (vs : Values) : Op → Prop
  | .default => True
  | .construct str => str.isNull = false
  | .copy str => s.m_private str ≠ none
  | .fromWTF _ => True
  | .assign this orig =>
    this = orig ∨ (s.m_private orig ≠ none ∧ (vs.get orig = none → vs.get this = none))
  | .change this _ => s.m_private this ≠ none
  | .append this _ => s.m_private this ≠ none
  | .replaceUnits this _ b => s.m_private this ≠ none ∧ s.m_private b = none
  | .replace this a b => s.m_private this ≠ none ∧ s.m_private a = none ∧ s.m_private b = none
  | .replaceAt this _ _ b => s.m_private this ≠ none ∧ s.m_private b = none
  | .part this c =>
    ∃ a, s.impl this = some a ∧ c.Permitted wkcUnicodeToLowerPeer wkcUnicodeToUpperPeer a (vs.get this)
  | .read _ _ => True
  | .find _ _ => True
  | .access this _ => s.m_private this ≠ none
  | .destroy _ => True

def Allowed (s : State) (vs : Values) (op : Op) : Prop :=
  (∀ x ∈ op.uses, s.objects x ≠ none) → Permitted wkcUnicodeToLowerPeer wkcUnicodeToUpperPeer s vs op

/-- Each call is permitted in the state that the calls before it leave. -/
def AllAllowed : State → Values → List Op → Prop
  | _, _, [] => True
  | s, vs, op :: ops =>
    Allowed wkcUnicodeToLowerPeer wkcUnicodeToUpperPeer s vs op ∧
      ∀ s' r, s.step wkcUnicodeToLowerPeer wkcUnicodeToUpperPeer op = some (s', r) →
        AllAllowed s' (vs.step wkcUnicodeToLowerPeer wkcUnicodeToUpperPeer op).1 ops

end

/-! ## ownership -/

structure Rep (s : State) (vs : Values) : Prop where
  shows : Shows s vs
  owned : ∀ x y p, s.objects x = some (some p) → s.objects y = some (some p) → x = y
  fresh : ∀ x p, s.objects x = some (some p) → p < s.newPrivate
  newObject : s.newObject = vs.newObject

theorem Rep.init : Rep State.init Values.init :=
  ⟨fun _ => rfl, nofun, nofun, rfl⟩

section
variable {s : State} {vs : Values} {x y p : Nat}

theorem m_private_eq_some : s.m_private x = some p ↔ s.objects x = some (some p) := Option.join_eq_some_iff

theorem impl_of_missing (h : s.m_private x = none) : s.impl x = some none := by
  rw [State.impl, h]

theorem impl_of_private (h : s.m_private x = some p) : s.impl x = (s.privates p).map StringPrivate.m_impl := by
  rw [State.impl, h]

theorem Rep.exists_iff (h : Rep s vs) (x : Nat) : s.objects x = none ↔ vs.value x = none := by
  have hx := h.shows x
  unfold State.shown at hx
  split at hx
  · next hnone => exact iff_of_true hnone (Option.map_eq_none_iff.mp (Option.some.inj hx).symm)
  · next hsome =>
    refine iff_of_false hsome fun hv => ?_
    rw [hv] at hx
    obtain ⟨a, _, ha⟩ := Option.map_eq_some_iff.mp hx
    exact absurd ha nofun

theorem Rep.impl (h : Rep s vs) (hx : s.objects x ≠ none) :
    ∃ a, s.impl x = some a ∧ a.units = (vs.get x).units ∧ vs.value x = some (vs.get x) := by
  obtain ⟨v, hv⟩ := Option.ne_none_iff_exists'.mp (mt (h.exists_iff x).mpr hx)
  have hshow := h.shows x
  rw [State.shown, if_neg hx, hv] at hshow
  obtain ⟨a, ha, hu⟩ := Option.map_eq_some_iff.mp hshow
  have hget : vs.get x = v := by rw [Values.get, hv, Option.join_some]
  exact ⟨a, ha, by rw [hget]; exact Option.some.inj hu, by rw [hget]; exact hv⟩

theorem Rep.deref (h : Rep s vs) (hp : s.m_private x = some p) :
    ∃ d, s.privates p = some d ∧ d.m_impl.units = (vs.get x).units := by
  obtain ⟨a, ha, hu, _⟩ := h.impl (x := x) (by rw [m_private_eq_some.mp hp]; exact Option.some_ne_none _)
  rw [impl_of_private hp] at ha
  obtain ⟨d, hd, rfl⟩ := Option.map_eq_some_iff.mp ha
  exact ⟨d, hd, hu⟩

/-! ## what a call does to the memory -/

theorem shown_congr {s' : State} (hobjects : s'.objects y = s.objects y)
    (hprivates : ∀ p, s.objects y = some (some p) → s'.privates p = s.privates p) : s'.shown y = s.shown y := by
  have himpl : s'.impl y = s.impl y := by
    rw [State.impl, State.impl, State.m_private, State.m_private, hobjects]
    match hm : s.objects y with
    | none => rfl
    | some none => rfl
    | some (some p) =>
      show Option.map _ (s'.privates p) = Option.map _ (s.privates p)
      rw [hprivates p hm]
  rw [State.shown, State.shown, hobjects, himpl]

theorem shown_private {d : StringPrivate} (hx : s.objects x = some (some p)) (hd : s.privates p = some d) :
    s.shown x = some (some d.m_impl.units) := by
  rw [State.shown, if_neg (by rw [hx]; exact Option.some_ne_none _), impl_of_private (m_private_eq_some.mpr hx), hd]
  rfl

theorem shown_missing (hx : s.objects x = some none) : s.shown x = some (some none) := by
  rw [State.shown, if_neg (by rw [hx]; exact Option.some_ne_none _), impl_of_missing (by rw [State.m_private, hx]; rfl)]
  rfl

theorem shown_destroyed (hx : s.objects x = some (some p)) (hd : s.privates p = none) : s.shown x = none := by
  rw [State.shown, if_neg (by rw [hx]; exact Option.some_ne_none _), impl_of_private (m_private_eq_some.mpr hx), hd]
  rfl

@[simp] theorem put_value_self (vs : Values) (x : Nat) (v : WTFString) : (vs.put x v).value x = some v :=
  Function.update_self ..

@[simp] theorem put_value_ne (hy : y ≠ x) (v : WTFString) : (vs.put x v).value y = vs.value y := Function.update_of_ne hy ..

theorem Rep.put (h : Rep s vs) (x : Nat) {d : StringPrivate} {v : WTFString} (hu : d.m_impl.units = v.units) :
    Rep (s.put x d) (vs.put x v) := by
  have hself : (s.put x d).objects x = some (some s.newPrivate) := Function.update_self ..
  have hothers : ∀ y, y ≠ x → (s.put x d).objects y = s.objects y := fun y hy => Function.update_of_ne hy ..
  have hold : ∀ y p, s.objects y = some (some p) → p ≠ s.newPrivate := fun y p hp => Nat.ne_of_lt (h.fresh y p hp)
  refine ⟨fun y => ?_, fun y z p hy hz => ?_, fun y p hy => ?_, h.newObject⟩
  · by_cases hy : y = x
    · subst hy
      rw [shown_private hself (Function.update_self ..), hu, put_value_self, Option.map_some]
    · rw [shown_congr (hothers y hy) fun p hp => Function.update_of_ne (hold y p hp) .., h.shows y, put_value_ne hy]
  · by_cases hyx : y = x
    · by_cases hzx : z = x
      · rw [hyx, hzx]
      · subst hyx
        rw [hself] at hy
        rw [hothers z hzx] at hz
        exact absurd (Option.some.inj (Option.some.inj hy)).symm (hold z p hz)
    · rw [hothers y hyx] at hy
      by_cases hzx : z = x
      · subst hzx
        rw [hself] at hz
        exact absurd (Option.some.inj (Option.some.inj hz)).symm (hold y p hy)
      · rw [hothers z hzx] at hz
        exact h.owned y z p hy hz
  · by_cases hyx : y = x
    · subst hyx
      rw [hself] at hy
      rw [← Option.some.inj (Option.some.inj hy)]
      exact Nat.lt_succ_self _
    · rw [hothers y hyx] at hy
      exact Nat.lt_succ_of_lt (h.fresh y p hy)

theorem Rep.next (h : Rep s vs) : Rep { s with newObject := s.newObject + 1 } { vs with newObject := vs.newObject + 1 } :=
  ⟨h.shows, h.owned, h.fresh, congrArg Nat.succ h.newObject⟩

theorem Rep.create (h : Rep s vs) {d : StringPrivate} {v : WTFString} (hu : d.m_impl.units = v.units) :
    Rep (s.create d) (vs.create v) := by
  unfold State.create Values.create
  rw [← h.newObject]
  have hput := (h.put s.newObject hu).next
  rwa [Values.put, ← h.newObject] at hput

theorem Rep.update (h : Rep s vs) (hp : s.m_private x = some p) {f : StringPrivate → StringPrivate} {v : WTFString}
    (hu : ∀ d, s.privates p = some d → (f d).m_impl.units = v.units) :
    ∃ s', s.update x f = some s' ∧ Rep s' (vs.put x v) := by
  obtain ⟨d, hd, _⟩ := h.deref hp
  let s' : State := { s with privates := Function.update s.privates p (some (f d)) }
  have hs' : s.update x f = some s' := by
    rw [State.update, hp]
    show Option.map _ (s.privates p) = some s'
    rw [hd]
    rfl
  refine ⟨s', hs', fun y => ?_, h.owned, h.fresh, h.newObject⟩
  by_cases hy : y = x
  · subst hy
    have hpriv : s'.privates p = some (f d) := Function.update_self ..
    have hself : s'.shown y = some (some (f d).m_impl.units) := shown_private (m_private_eq_some.mp hp) hpriv
    rw [hself, hu d hd, put_value_self, Option.map_some]
  · have hother : ∀ q, s.objects y = some (some q) → s'.privates q = s.privates q := by
      intro q hq
      refine Function.update_of_ne ?_ ..
      rintro rfl
      exact hy (h.owned y x q hq (m_private_eq_some.mp hp))
    have hsame : s'.shown y = s.shown y := shown_congr rfl hother
    rw [hsame, h.shows y, put_value_ne hy]

theorem Rep.setImpl (h : Rep s vs) (hp : s.m_private x ≠ none) {i v : WTFString} (hu : i.units = v.units)
    (hnull : i = none → vs.get x = none) : ∃ s', s.setImpl x i = some s' ∧ Rep s' (vs.put x v) := by
  obtain ⟨p, hp⟩ := Option.ne_none_iff_exists'.mp hp
  refine h.update hp fun d hd => ?_
  unfold StringPrivate.setImpl
  split
  · next hi =>
    obtain ⟨d', hd', hunits⟩ := h.deref hp
    rw [hd] at hd'
    rw [Option.some.inj hd', hunits, hnull hi, ← hu, hi]
  · exact hu

theorem setImpl_missing (hp : s.m_private x = none) (i : WTFString) : s.setImpl x i = none := by
  rw [State.setImpl, State.update, hp]

theorem release_eq (h : Rep s vs) (x : Nat) :
    ∃ s', s.release x = some s' ∧ s'.objects = s.objects ∧ s'.newPrivate = s.newPrivate ∧ s'.newObject = s.newObject ∧
      ∀ q, (∀ y, s.objects y = some (some q) → y ≠ x) → s'.privates q = s.privates q := by
  rw [State.release]
  match hp : s.m_private x with
  | none => exact ⟨s, rfl, rfl, rfl, rfl, fun _ _ => rfl⟩
  | some p =>
    obtain ⟨d, hd, _⟩ := h.deref hp
    let s' : State := { s with privates := Function.update s.privates p none }
    have hs' : Option.map (fun _ => s') (s.privates p) = some s' := by rw [hd, Option.map_some]
    refine ⟨s', hs', rfl, rfl, rfl, fun q hq => Function.update_of_ne ?_ ..⟩
    rintro rfl
    exact hq x (m_private_eq_some.mp hp) rfl

theorem Rep.destroy (h : Rep s vs) (x : Nat) :
    ∃ s', s.release x = some s' ∧
      Rep { s' with objects := Function.update s'.objects x none } { vs with value := Function.update vs.value x none } := by
  obtain ⟨s', hs', hobjects, hnew, hcount, hprivates⟩ := release_eq h x
  have hothers : ∀ y, y ≠ x → Function.update s.objects x none y = s.objects y := fun y hy => Function.update_of_ne hy ..
  have hthere : ∀ y q, Function.update s.objects x none y = some (some q) → y ≠ x ∧ s.objects y = some (some q) := by
    intro y q hy
    by_cases hyx : y = x
    · rw [hyx, Function.update_self] at hy
      exact absurd hy nofun
    · rw [hothers y hyx] at hy
      exact ⟨hyx, hy⟩
  refine ⟨s', hs', ?_⟩
  rw [hobjects]
  refine ⟨fun y => ?_, fun y z q hy hz => ?_, fun y q hy => ?_, hcount.trans h.newObject⟩
  · dsimp only
    by_cases hy : y = x
    · subst hy
      rw [State.shown, if_pos (Function.update_self ..), Function.update_self]
      rfl
    · rw [Function.update_of_ne hy, ← h.shows y]
      refine shown_congr (hothers y hy) fun q hq => hprivates q fun z hz => ?_
      rw [h.owned z y q hz hq]
      exact hy
  · exact h.owned y z q (hthere y q hy).2 (hthere z q hz).2
  · exact hnew ▸ h.fresh y q (hthere y q hy).2

theorem Rep.default (h : Rep s vs) :
    Rep { s with objects := Function.update s.objects s.newObject (some none), newObject := s.newObject + 1 }
      (vs.create none) := by
  have hthere : ∀ y q, Function.update s.objects s.newObject (some none) y = some (some q) → s.objects y = some (some q) := by
    intro y q hy
    by_cases hyx : y = s.newObject
    · rw [hyx, Function.update_self] at hy
      exact absurd hy nofun
    · rwa [Function.update_of_ne hyx] at hy
  refine ⟨fun y => ?_, fun y z q hy hz => h.owned y z q (hthere y q hy) (hthere z q hz),
    fun y q hy => h.fresh y q (hthere y q hy), congrArg Nat.succ h.newObject⟩
  show State.shown _ y = some (((vs.put vs.newObject none).value y).map WTFString.units)
  by_cases hy : y = s.newObject
  · rw [shown_missing (by rw [hy]; exact Function.update_self ..), hy, h.newObject, put_value_self]
    rfl
  · rw [put_value_ne (h.newObject ▸ hy), ← h.shows y]
    exact shown_congr (Function.update_of_ne hy ..) fun _ _ => rfl

theorem take_missing (hy : s.m_private y = none) : s.take y = some (none, s) := by
  rw [State.take, impl_of_missing hy, State.release, hy]
  rfl

theorem Rep.get_missing (h : Rep s vs) (hy : s.objects y ≠ none) (hp : s.m_private y = none) : vs.get y = none := by
  obtain ⟨a, ha, hu, _⟩ := h.impl hy
  rw [impl_of_missing hp] at ha
  rw [← Option.some.inj ha] at hu
  exact WTFString.units_none_iff.mp hu.symm

/-! ## what stays destroyed -/

theorem release_destroyed {s' : State} (hd : s.privates p = none ∨ s.m_private y = some p) (hs' : s.release y = some s') :
    s'.privates p = none ∧ s'.objects = s.objects := by
  unfold State.release at hs'
  split at hs'
  · next hm =>
    cases hs'
    refine ⟨hd.resolve_right ?_, rfl⟩
    rw [hm]
    exact nofun
  · next q hq =>
    obtain ⟨d, _, rfl⟩ := Option.map_eq_some_iff.mp hs'
    refine ⟨?_, rfl⟩
    by_cases hpq : p = q
    · rw [hpq]
      exact Function.update_self ..
    · refine (Function.update_of_ne hpq ..).trans (hd.resolve_right ?_)
      rw [hq]
      exact fun heq => hpq (Option.some.inj heq).symm

theorem take_destroyed {i : WTFString} {s' : State} (hd : s.privates p = none ∨ s.m_private y = some p)
    (hs' : s.take y = some (i, s')) : s'.privates p = none ∧ s'.objects = s.objects := by
  obtain ⟨a, _, hs'⟩ := Option.bind_eq_some_iff.mp hs'
  obtain ⟨t, ht, heq⟩ := Option.map_eq_some_iff.mp hs'
  cases heq
  exact release_destroyed hd ht

theorem take_objects {i : WTFString} {s' : State} (hs' : s.take y = some (i, s')) : s'.objects = s.objects := by
  obtain ⟨a, _, hs'⟩ := Option.bind_eq_some_iff.mp hs'
  obtain ⟨t, ht, heq⟩ := Option.map_eq_some_iff.mp hs'
  cases heq
  unfold State.release at ht
  split at ht
  · cases ht
    rfl
  · obtain ⟨d, _, rfl⟩ := Option.map_eq_some_iff.mp ht
    rfl

theorem setImpl_destroyed {i : WTFString} {s' : State} (hd : s.privates p = none) (hs' : s.setImpl x i = some s') :
    s'.privates p = none ∧ s'.objects = s.objects := by
  unfold State.setImpl State.update at hs'
  split at hs'
  · exact absurd hs' nofun
  · next q hq =>
    obtain ⟨d, hdq, rfl⟩ := Option.map_eq_some_iff.mp hs'
    refine ⟨(Function.update_of_ne ?_ ..).trans hd, rfl⟩
    rintro rfl
    rw [hd] at hdq
    exact absurd hdq nofun

theorem not_shows_destroyed {s' : State} (hy : s.m_private y = some p) (hobjects : s'.objects = s.objects)
    (hd : s'.privates p = none) (vs' : Values) : ¬ Shows s' vs' := by
  intro hshows
  have hy' := hshows y
  rw [shown_destroyed (by rw [hobjects]; exact m_private_eq_some.mp hy) hd] at hy'
  exact absurd hy' nofun

end

/-! ## calls on values -/

theorem Read.apply_units (r : Read) {a b : WTFString} (h : a.units = b.units) : r.apply a = r.apply b := by
  cases r with
  | characters => exact congrArg Reply.units h
  | length => exact congrArg (fun u => Reply.length (Option.getD u []).length) h
  | isNull => exact congrArg (fun u => Reply.bool (decide (u = none))) h
  | isEmpty => exact congrArg (fun u => Reply.bool (Option.getD u []).isEmpty) h
  | equal str => exact congrArg (fun u => Reply.bool (decide (u = (WTFString.ofText (.chars str)).units))) h
  | notEqual str => exact congrArg (fun u => Reply.bool (!decide (u = (WTFString.ofText (.chars str)).units))) h
  | find | reverseFind => exact congrArg (fun u => Reply.place (Option.bind u _)) h
  | toWTF => exact congrArg Reply.units h

theorem agrees_some {r w : Reply} : Agrees r (some w) ↔ r = w := by
  simp [Agrees]

theorem Access.reply_agrees (c : Access) {d : StringPrivate} {a : WTFString} (h : d.m_impl.units = a.units) :
    Agrees (c.reply d) (c.value a) := by
  cases c with
  | utf8 =>
    refine agrees_some.mpr ?_
    show Reply.bytes d.m_impl.utf8 = Reply.bytes a.utf8
    unfold WTFString.utf8 WTFString.length
    rw [h]
  | latin1 =>
    refine agrees_some.mpr ?_
    show Reply.bytes (some d.m_impl.latin1) = Reply.bytes (some a.latin1)
    unfold WTFString.latin1
    rw [h]
  | charactersWithNullTermination => exact agrees_some.mpr (congrArg Reply.units h)
  | direction | setDirection => exact nofun

theorem Access.apply_impl (c : Access) (d : StringPrivate) : (c.apply d).m_impl = d.m_impl := by
  cases c <;> rfl

open WTFString in
theorem Change.apply_units (c : Change) {a b : WTFString} (h : a.units = b.units) :
    (c.apply a).units = (c.apply b).units := by
  cases c with
  | append | appendUnits => exact units_append h rfl
  | appendUnitsLen str => exact units_appendUnits h str
  | replace p r => exact units_replace h rfl rfl
  | truncate len => exact units_truncate h len
  | remove pos len => exact units_remove h pos len
  | insert str pos len => exact units_insert h _ len

open WTFString in
theorem Change.apply_some (c : Change) (i : StringImpl) : c.apply (some i) ≠ none := by
  cases c with
  | append | appendUnits => exact append_some i _
  | appendUnitsLen str => exact appendUnits_some i str
  | replace p r => exact replace_some i _ _
  | truncate len => exact truncate_some i len
  | remove pos len => exact remove_some i pos len
  | insert str pos len => exact insert_some i _ len

theorem Part.permitted_iff (lower upper : UInt16 → UInt16) (c : Part) {a v : WTFString} (h : a.units = v.units) :
    some ((c.apply lower upper a).units.getD []) = (c.apply lower upper v).units ↔ c.Permitted lower upper a v := by
  obtain ⟨rfl, rfl⟩ | ⟨i, i', rfl, rfl, hi⟩ := WTFString.units_eq h
  · refine iff_of_false ?_ fun ⟨i, _, hi, _⟩ => absurd hi nofun
    cases c <;> exact nofun
  · have hpermitted : c.Permitted lower upper (some i) (some i') ↔
        match c with
        | .substring _ _ => True
        | .lower => SameLower lower i i'
        | .upper => SameUpper upper i i' :=
      ⟨fun ⟨_, _, hj, hj', hc⟩ => by cases hj; cases hj'; exact hc, fun hc => ⟨i, i', rfl, rfl, hc⟩⟩
    rw [hpermitted]
    cases c with
    | substring pos len =>
      refine iff_of_true ?_ trivial
      show some (i.substring pos len).characters = some (i'.substring pos len).characters
      rw [characters_substring, characters_substring, hi]
    | lower => exact (Option.some_inj).trans (lower_iff lower hi)
    | upper => exact (Option.some_inj).trans (upper_iff upper hi)

/-! ## one call -/

/-- where a call that does what it does to values leaves the memory -/
def Lands (out : Option (State × Reply)) (want : Values × Option Reply) : Prop :=
  ∃ s' r, out = some (s', r) ∧ Agrees r want.2 ∧ Rep s' want.1

/-- what is seen of such a call -/
def Fits (out : Option (State × Reply)) (want : Values × Option Reply) : Prop :=
  ∃ s' r, out = some (s', r) ∧ Agrees r want.2 ∧ Shows s' want.1

theorem not_fits_none {want : Values × Option Reply} : ¬ Fits none want :=
  fun ⟨_, _, hout, _⟩ => absurd hout nofun

section
variable {s : State} {vs : Values} {this : Nat}

theorem Rep.lands {s' : State} {vs' : Values} (h : Rep s' vs') {r : Reply} {want : Option Reply} (hr : Agrees r want) :
    Lands (some (s', r)) (vs', want) :=
  ⟨s', r, rfl, hr, h⟩

theorem fits_create_iff (h : Rep s vs) (d : StringPrivate) (v : WTFString) :
    Fits (some (s.create d, .done)) (vs.create v, some .done) ↔ d.m_impl.units = v.units := by
  constructor
  · rintro ⟨s', r, hout, _, hshows⟩
    cases hout
    have hnew := hshows s.newObject
    have hobject : (s.create d).objects s.newObject = some (some s.newPrivate) := Function.update_self ..
    have hprivate : (s.create d).privates s.newPrivate = some d := Function.update_self ..
    have hvalue : (vs.create v).value s.newObject = some v := by
      rw [h.newObject]
      exact Function.update_self ..
    rw [shown_private hobject hprivate, hvalue] at hnew
    exact Option.some.inj (Option.some.inj hnew)
  · intro hu
    exact ⟨_, _, rfl, agrees_some.mpr rfl, (h.create hu).shows⟩

theorem lands_setImpl (h : Rep s vs) (hp : s.m_private this ≠ none) {i v : WTFString} (hu : i.units = v.units)
    (hnull : i = none → vs.get this = none) :
    Lands ((s.setImpl this i).map fun s => (s, .done)) (vs.put this v, some .done) := by
  obtain ⟨s', hs', hrep⟩ := h.setImpl hp hu hnull
  rw [hs']
  exact hrep.lands (agrees_some.mpr rfl)

theorem not_fits_setImpl (hp : s.m_private this = none) (i : WTFString) (want : Values × Option Reply) :
    ¬ Fits ((s.setImpl this i).map fun s => (s, .done)) want := by
  rw [setImpl_missing hp]
  exact not_fits_none

theorem null_of_apply {f : WTFString → WTFString} (hf : ∀ i, f (some i) ≠ none) {a v : WTFString} (hu : a.units = v.units)
    (ha : f a = none) : v = none := by
  obtain ⟨_, hv⟩ | ⟨i, _, rfl, _, _⟩ := WTFString.units_eq hu
  · exact hv
  · exact absurd ha (hf i)

theorem put_get (h : vs.value this = some (vs.get this)) : vs.put this (vs.get this) = vs := by
  rw [Values.put, ← h, Function.update_eq_self]

theorem Rep.ensure (h : Rep s vs) (hthis : s.objects this ≠ none) :
    Rep (s.ensure this) vs ∧ (s.ensure this).m_private this ≠ none ∧
      ∀ y, y ≠ this → (s.ensure this).m_private y = s.m_private y := by
  unfold State.ensure
  split
  · next hmissing =>
    obtain ⟨_, _, _, hvalue⟩ := h.impl hthis
    have hput := h.put this (d := {}) (v := vs.get this) (by rw [h.get_missing hthis hmissing])
    rw [put_get hvalue] at hput
    refine ⟨hput, ?_, fun y hy => congrArg Option.join (Function.update_of_ne hy ..)⟩
    rw [m_private_eq_some.mpr (Function.update_self ..)]
    exact Option.some_ne_none _
  · next hp => exact ⟨h, hp, fun _ _ => rfl⟩

theorem deref_eq_none (h : s.m_private this = none) : s.deref this = none := by
  rw [State.deref, h]
  rfl

theorem Rep.deref_eq (h : Rep s vs) (hp : s.m_private this ≠ none) :
    ∃ d, s.deref this = some d ∧ d.m_impl.units = (vs.get this).units := by
  obtain ⟨p, hp⟩ := Option.ne_none_iff_exists'.mp hp
  obtain ⟨d, hd, hu⟩ := h.deref hp
  exact ⟨d, by rw [State.deref, hp]; exact hd, hu⟩

theorem lands_assign (h : Rep s vs) {orig : Nat} (hne : this ≠ orig) (hthis : s.objects this ≠ none)
    (hp : s.m_private orig ≠ none) (hnull : vs.get orig = none → vs.get this = none) :
    Lands (((s.ensure this).deref orig).bind fun d => ((s.ensure this).setImpl this d.m_impl).map fun s => (s, .done))
      (vs.put this (vs.get orig), some .done) := by
  obtain ⟨hrep, hprivate, hsame⟩ := h.ensure hthis
  obtain ⟨d, hd, hu⟩ := hrep.deref_eq (by rwa [hsame orig hne.symm])
  rw [hd]
  refine lands_setImpl hrep hprivate hu fun hi => hnull ?_
  rw [hi] at hu
  exact WTFString.units_none_iff.mp hu.symm

theorem not_fits_assign_null (h : Rep s vs) {orig : Nat} (hthis : s.objects this ≠ none)
    (horig : vs.get orig = none) (hnull : vs.get this ≠ none) :
    ¬ Fits (((s.ensure this).deref orig).bind fun d => ((s.ensure this).setImpl this d.m_impl).map fun s => (s, .done))
      (vs.put this (vs.get orig), some .done) := by
  rintro ⟨s', r, hout, _, hshows⟩
  obtain ⟨hrep, hprivate, _⟩ := h.ensure hthis
  obtain ⟨d, hd, hout⟩ := Option.bind_eq_some_iff.mp hout
  obtain ⟨t, ht, heq⟩ := Option.map_eq_some_iff.mp hout
  cases heq
  have hnone : d.m_impl = none := by
    obtain ⟨q, hq, hdq⟩ := Option.bind_eq_some_iff.mp hd
    obtain ⟨d', hd', hu⟩ := hrep.deref hq
    rw [hdq] at hd'
    rw [← Option.some.inj hd', horig] at hu
    exact WTFString.units_none_iff.mp hu
  obtain ⟨p, hp⟩ := Option.ne_none_iff_exists'.mp hprivate
  obtain ⟨t', ht', hrep'⟩ := hrep.update (f := fun e => e.setImpl d.m_impl) (v := vs.get this) hp fun e he => by
    obtain ⟨e', he', hu⟩ := hrep.deref hp
    rw [he] at he'
    rw [hnone, StringPrivate.setImpl, if_pos rfl, Option.some.inj he', hu]
  have hsame : s' = t' := Option.some.inj (ht.symm.trans ht')
  have hold := hrep'.shows this
  rw [← hsame, hshows this, put_value_self, put_value_self, horig] at hold
  exact hnull (WTFString.units_none_iff.mp (Option.some.inj (Option.some.inj hold)).symm)

theorem setImpl_new (i : WTFString) : (({} : StringPrivate).setImpl i).m_impl = i := by
  unfold StringPrivate.setImpl
  split
  · next h => exact h.symm
  · rfl

variable (lower upper : UInt16 → UInt16)

theorem perform_lands (h : Rep s vs) (op : Op) (hthere : ∀ x ∈ op.uses, s.objects x ≠ none)
    (hp : Permitted lower upper s vs op) : Lands (s.perform lower upper op) (vs.perform lower upper op) := by
  cases op with
  | default => exact h.default.lands (agrees_some.mpr rfl)
  | construct str =>
    refine (h.create ?_).lands (agrees_some.mpr rfl)
    rw [WTFString.ofText, if_neg (by rw [hp]; exact Bool.false_ne_true)]
  | copy str =>
    obtain ⟨d, hd, hu⟩ := h.deref_eq hp
    rw [State.perform, hd]
    exact (h.create (by rwa [setImpl_new])).lands (agrees_some.mpr rfl)
  | fromWTF a => exact (h.create (by rw [setImpl_new])).lands (agrees_some.mpr rfl)
  | assign this orig =>
    rw [State.perform]
    split
    · next heq =>
      subst heq
      obtain ⟨_, _, _, hvalue⟩ := h.impl (hthere this (by simp [Op.uses]))
      rw [Values.perform, put_get hvalue]
      exact h.lands (agrees_some.mpr rfl)
    · next hne =>
      obtain ⟨hprivate, hnull⟩ := hp.resolve_left hne
      exact lands_assign h hne (hthere this (by simp [Op.uses])) hprivate hnull
  | change this c =>
    obtain ⟨a, ha, hu, _⟩ := h.impl (hthere this (by simp [Op.uses]))
    rw [State.perform, ha]
    exact lands_setImpl h hp (c.apply_units hu) (null_of_apply c.apply_some hu)
  | append this str =>
    obtain ⟨a, ha, hu, _⟩ := h.impl (hthere this (by simp [Op.uses]))
    obtain ⟨b, hb, hub, _⟩ := h.impl (hthere str (by simp [Op.uses]))
    rw [State.perform, ha, Option.bind_some, hb]
    exact lands_setImpl h hp (WTFString.units_append hu hub)
      (null_of_apply (f := fun a => a.append b) (fun i => WTFString.append_some i b) hu)
  | replaceUnits this p b =>
    obtain ⟨a, ha, hu, _⟩ := h.impl (hthere this (by simp [Op.uses]))
    rw [State.perform, ha, Option.bind_some, take_missing hp.2, Values.perform,
      h.get_missing (hthere b (by simp [Op.uses])) hp.2]
    exact lands_setImpl h hp.1 (WTFString.units_replace hu rfl rfl)
      (null_of_apply (f := fun a => a.replace _ none) (fun i => WTFString.replace_some i _ none) hu)
  | replace this p b =>
    obtain ⟨a, ha, hu, _⟩ := h.impl (hthere this (by simp [Op.uses]))
    rw [State.perform, ha, Option.bind_some, take_missing hp.2.1, Option.bind_some, Values.perform,
      h.get_missing (hthere p (by simp [Op.uses])) hp.2.1, h.get_missing (hthere b (by simp [Op.uses])) hp.2.2]
    show Lands ((s.take b).bind _) _
    rw [take_missing hp.2.2]
    exact lands_setImpl h hp.1 (WTFString.units_replace hu rfl rfl)
      (null_of_apply (f := fun a => a.replace none none) (fun i => WTFString.replace_some i none none) hu)
  | replaceAt this index len b =>
    obtain ⟨a, ha, hu, _⟩ := h.impl (hthere this (by simp [Op.uses]))
    rw [State.perform, ha, Option.bind_some, take_missing hp.2, Values.perform,
      h.get_missing (hthere b (by simp [Op.uses])) hp.2]
    exact lands_setImpl h hp.1 (WTFString.units_replaceAt hu rfl index len)
      (null_of_apply (f := fun a => a.replaceAt index len none) (fun i => Option.some_ne_none _) hu)
  | part this c =>
    obtain ⟨a, ha, hpart⟩ := hp
    obtain ⟨a', ha', hu, _⟩ := h.impl (hthere this (by simp [Op.uses]))
    cases ha.symm.trans ha'
    rw [State.perform, ha]
    refine (h.create ?_).lands (agrees_some.mpr rfl)
    rw [← (c.permitted_iff lower upper hu).mpr hpart]
    exact congrArg some (characters_create16 _)
  | read this r =>
    obtain ⟨a, ha, hu, _⟩ := h.impl (hthere this (by simp [Op.uses]))
    rw [State.perform, ha]
    exact h.lands (agrees_some.mpr (r.apply_units hu))
  | find this str =>
    obtain ⟨a, ha, hu, _⟩ := h.impl (hthere this (by simp [Op.uses]))
    obtain ⟨b, hb, hub, _⟩ := h.impl (hthere str (by simp [Op.uses]))
    rw [State.perform, ha, Option.bind_some, hb]
    refine h.lands (agrees_some.mpr ?_)
    unfold WTFString.find
    rw [hu, hub]
  | access this c =>
    obtain ⟨_, _, _, hvalue⟩ := h.impl (hthere this (by simp [Op.uses]))
    obtain ⟨p, hp⟩ := Option.ne_none_iff_exists'.mp hp
    obtain ⟨d, hd, hu⟩ := h.deref_eq (by rw [hp]; exact Option.some_ne_none p)
    obtain ⟨s', hs', hrep⟩ := h.update (f := c.apply) (v := vs.get this) hp fun e he => by
      obtain ⟨e', he', hue⟩ := h.deref hp
      rw [he] at he'
      rw [c.apply_impl, Option.some.inj he', hue]
    rw [put_get hvalue] at hrep
    rw [State.perform, hd, Option.bind_some, hs']
    exact hrep.lands (c.reply_agrees hu)
  | destroy this =>
    obtain ⟨s', hs', hrep⟩ := h.destroy this
    rw [State.perform, hs']
    exact hrep.lands (agrees_some.mpr rfl)

theorem not_fits_taken {t s' : State} {r : Reply} {b p : Nat} {i : WTFString} (hb : s.m_private b = some p)
    (ht : t.privates p = none) (hobjects : t.objects = s.objects)
    (hs' : (t.setImpl this i).map (fun s => (s, Reply.done)) = some (s', r)) (vs' : Values) : ¬ Shows s' vs' := by
  obtain ⟨t', ht', heq⟩ := Option.map_eq_some_iff.mp hs'
  cases heq
  obtain ⟨hd, hobjects'⟩ := setImpl_destroyed ht ht'
  exact not_shows_destroyed hb (hobjects'.trans hobjects) hd vs'

theorem private_of_setImpl {t s' : State} {r : Reply} {i : WTFString} (hobjects : t.objects = s.objects)
    (hs' : (t.setImpl this i).map (fun s => (s, Reply.done)) = some (s', r)) : s.m_private this ≠ none := by
  intro hmissing
  rw [setImpl_missing (by rwa [State.m_private, hobjects])] at hs'
  exact absurd hs' nofun

theorem permitted_of_take {f : WTFString → WTFString → WTFString} {b : Nat} {want : Values × Option Reply}
    (hfits : Fits ((s.impl this).bind fun v => (s.take b).bind fun (_b, s) =>
      (s.setImpl this (f v _b)).map fun s => (s, .done)) want) : s.m_private this ≠ none ∧ s.m_private b = none := by
  obtain ⟨s', r, hout, _, hshows⟩ := hfits
  obtain ⟨a, _, hout⟩ := Option.bind_eq_some_iff.mp hout
  obtain ⟨⟨i, t⟩, ht, hout⟩ := Option.bind_eq_some_iff.mp hout
  refine ⟨private_of_setImpl (take_objects ht) hout, ?_⟩
  by_contra hb
  obtain ⟨q, hq⟩ := Option.ne_none_iff_exists'.mp hb
  obtain ⟨hd, hobjects⟩ := take_destroyed (.inr hq) ht
  exact not_fits_taken hq hd hobjects hout want.1 hshows

theorem permitted_of_takes {p b : Nat} {want : Values × Option Reply}
    (hfits : Fits ((s.impl this).bind fun v => (s.take p).bind fun (_a, s) => (s.take b).bind fun (_b, s) =>
      (s.setImpl this (v.replace _a _b)).map fun s => (s, .done)) want) :
    s.m_private this ≠ none ∧ s.m_private p = none ∧ s.m_private b = none := by
  obtain ⟨s', r, hout, _, hshows⟩ := hfits
  obtain ⟨a, _, hout⟩ := Option.bind_eq_some_iff.mp hout
  obtain ⟨⟨i, t⟩, ht, hout⟩ := Option.bind_eq_some_iff.mp hout
  obtain ⟨⟨j, u⟩, hu, hout⟩ := Option.bind_eq_some_iff.mp hout
  have hobjects : u.objects = s.objects := (take_objects hu).trans (take_objects ht)
  refine ⟨private_of_setImpl hobjects hout, ?_, ?_⟩
  · by_contra hp
    obtain ⟨q, hq⟩ := Option.ne_none_iff_exists'.mp hp
    have hd := (take_destroyed (.inl (take_destroyed (.inr hq) ht).1) hu).1
    exact not_fits_taken hq hd hobjects hout want.1 hshows
  · by_contra hb
    obtain ⟨q, hq⟩ := Option.ne_none_iff_exists'.mp hb
    have hqt : t.m_private b = some q := by rwa [State.m_private, take_objects ht]
    exact not_fits_taken hq (take_destroyed (.inr hqt) hu).1 hobjects hout want.1 hshows

/-- A call that is not permitted uses a `StringPrivate` that is not there, or leaves another value. -/
theorem permitted_of_fits (h : Rep s vs) (op : Op) (hthere : ∀ x ∈ op.uses, s.objects x ≠ none)
    (hfits : Fits (s.perform lower upper op) (vs.perform lower upper op)) : Permitted lower upper s vs op := by
  cases op with
  | default => trivial
  | construct str =>
    have hu := (fits_create_iff h _ _).mp hfits
    by_contra hnull
    rw [WTFString.ofText, if_pos (by simpa [Permitted] using hnull)] at hu
    exact absurd hu nofun
  | copy str =>
    intro hmissing
    rw [State.perform, deref_eq_none hmissing] at hfits
    exact not_fits_none hfits
  | fromWTF a => trivial
  | assign this orig =>
    by_cases heq : this = orig
    · exact .inl heq
    rw [State.perform, if_neg heq] at hfits
    obtain ⟨_, _, hsame⟩ := h.ensure (hthere this (by simp [Op.uses]))
    refine .inr ⟨fun hmissing => ?_, fun horig => ?_⟩
    · dsimp only at hfits
      rw [deref_eq_none (by rwa [hsame orig (Ne.symm heq)])] at hfits
      exact not_fits_none hfits
    · by_contra hnull
      exact not_fits_assign_null h (hthere this (by simp [Op.uses])) horig hnull hfits
  | change this c =>
    intro hmissing
    rw [State.perform, impl_of_missing hmissing] at hfits
    exact not_fits_setImpl hmissing _ _ hfits
  | append this str =>
    intro hmissing
    obtain ⟨b, hb, _⟩ := h.impl (hthere str (by simp [Op.uses]))
    rw [State.perform, impl_of_missing hmissing, Option.bind_some, hb] at hfits
    exact not_fits_setImpl hmissing _ _ hfits
  | replaceUnits this p b => exact permitted_of_take hfits
  | replace this p b => exact permitted_of_takes hfits
  | replaceAt this index len b => exact permitted_of_take (f := fun v _b => v.replaceAt index len _b) hfits
  | part this c =>
    obtain ⟨a, ha, hu, _⟩ := h.impl (hthere this (by simp [Op.uses]))
    rw [State.perform, ha] at hfits
    refine ⟨a, ha, (c.permitted_iff lower upper hu).mp ?_⟩
    rw [← (fits_create_iff h _ _).mp hfits]
    exact congrArg some (characters_create16 _).symm
  | read | find => trivial
  | access this c =>
    intro hmissing
    rw [State.perform, deref_eq_none hmissing] at hfits
    exact not_fits_none hfits
  | destroy this => trivial

/-! ## sequences of calls -/

theorem all_isSome {α : Type} (f : Nat → Option α) (xs : List Nat) :
    (xs.all fun x => (f x).isSome) = true ↔ ∀ x ∈ xs, f x ≠ none := by
  simp [Option.ne_none_iff_isSome]

theorem step_cases (h : Rep s vs) (op : Op) :
    ((∀ x ∈ op.uses, s.objects x ≠ none) ∧ s.step lower upper op = s.perform lower upper op ∧
        vs.step lower upper op = vs.perform lower upper op) ∨
      ((¬ ∀ x ∈ op.uses, s.objects x ≠ none) ∧ s.step lower upper op = some (s, .done) ∧
        vs.step lower upper op = (vs, some .done)) := by
  have hsame : (∀ x ∈ op.uses, vs.value x ≠ none) ↔ ∀ x ∈ op.uses, s.objects x ≠ none :=
    forall₂_congr fun x _ => not_congr (h.exists_iff x).symm
  unfold State.step Values.step
  by_cases hthere : ∀ x ∈ op.uses, s.objects x ≠ none
  · exact .inl ⟨hthere, if_pos ((all_isSome _ _).mpr hthere), if_pos ((all_isSome _ _).mpr (hsame.mpr hthere))⟩
  · exact .inr ⟨hthere, if_neg (mt (all_isSome _ _).mp hthere), if_neg (mt (all_isSome _ _).mp (mt hsame.mp hthere))⟩

theorem step_lands (h : Rep s vs) (op : Op) (hallowed : Allowed lower upper s vs op) :
    Lands (s.step lower upper op) (vs.step lower upper op) := by
  obtain ⟨hthere, hs, hvs⟩ | ⟨_, hs, hvs⟩ := step_cases lower upper h op
  · rw [hs, hvs]
    exact perform_lands lower upper h op hthere (hallowed hthere)
  · rw [hs, hvs]
    exact h.lands (agrees_some.mpr rfl)

theorem allowed_of_fits (h : Rep s vs) (op : Op) (hfits : Fits (s.step lower upper op) (vs.step lower upper op)) :
    Allowed lower upper s vs op := by
  intro hthere
  obtain ⟨_, hs, hvs⟩ | ⟨hnot, _⟩ := step_cases lower upper h op
  · rw [hs, hvs] at hfits
    exact permitted_of_fits lower upper h op hthere hfits
  · exact absurd hthere hnot

theorem faithful_iff (ops : List Op) : ∀ {s : State} {vs : Values}, Rep s vs →
    (Faithful lower upper s vs ops ↔ AllAllowed lower upper s vs ops) := by
  induction ops with
  | nil => exact fun _ => Iff.rfl
  | cons op ops ih =>
    intro s vs h
    constructor
    · rintro ⟨s', r, hs', hr, hshows, hrest⟩
      have hallowed := allowed_of_fits lower upper h op ⟨s', r, hs', hr, hshows⟩
      obtain ⟨t, q, ht, _, hrep⟩ := step_lands lower upper h op hallowed
      cases ht.symm.trans hs'
      refine ⟨hallowed, fun u w hu => ?_⟩
      cases hu.symm.trans hs'
      exact (ih hrep).mp hrest
    · rintro ⟨hallowed, hrest⟩
      obtain ⟨s', r, hs', hr, hrep⟩ := step_lands lower upper h op hallowed
      exact ⟨s', r, hs', hr, hrep.shows, (ih hrep).mpr (hrest s' r hs')⟩

end

theorem step_others (lower upper : UInt16 → UInt16) (vs : Values) (op : Op) {y : Nat} (hown : op.own ≠ some y)
    (hnew : y ≠ vs.newObject) : (vs.step lower upper op).1.value y = vs.value y := by
  unfold Values.step
  split
  swap
  · rfl
  have hown' : ∀ {this : Nat}, some this ≠ some y → y ≠ this := fun h heq => h (congrArg some heq.symm)
  cases op with
  | default | construct | copy | fromWTF => exact put_value_ne hnew _
  | assign | change | append | replaceUnits | replace | replaceAt => exact put_value_ne (hown' hown) _
  | part this c => exact put_value_ne hnew _
  | read | find | access => rfl
  | destroy this => exact Function.update_of_ne (hown' hown) ..

/-- The strings behave as values in a sequence of calls exactly if each call is permitted: as `WTF::String`s, of which
no call changes another than its own.  There and back again a `WTF::String` is the same. -/
theorem value_type (lower upper : UInt16 → UInt16) :
    (∀ ops, Faithful lower upper State.init Values.init ops ↔ AllAllowed lower upper State.init Values.init ops) ∧
      (∀ (vs : Values) (op : Op) (y : Nat), op.own ≠ some y → y ≠ vs.newObject →
        (vs.step lower upper op).1.value y = vs.value y) ∧
      ∀ s a, (State.ofWTF s a).toWTF s.newObject = some a := by
  refine ⟨fun ops => faithful_iff lower upper ops Rep.init, fun vs op y => step_others lower upper vs op, fun s a => ?_⟩
  have hobject : (State.ofWTF s a).objects s.newObject = some (some s.newPrivate) := Function.update_self ..
  have hprivate : (State.ofWTF s a).privates s.newPrivate = some (({} : StringPrivate).setImpl a) :=
    Function.update_self ..
  rw [State.toWTF, impl_of_private (m_private_eq_some.mpr hobject), hprivate, Option.map_some, setImpl_new]

/-- One letter stays where the null string is assigned, and the default string is not copied. -/
theorem null_is_lost :
    ¬ Faithful id id State.init Values.init
        [.construct (.chars (some [0x41])), .fromWTF none, .assign 0 1] ∧
      ¬ Faithful id id State.init Values.init [.default, .copy 0] := by
  constructor
  · rintro ⟨s, r, hs, _, _, t, q, ht, _, _, u, v, hu, _, hshows, _⟩
    cases hs
    cases ht
    cases hu
    exact absurd (hshows 0) (by decide)
  · rintro ⟨s, r, hs, _, _, t, q, ht, _⟩
    cases hs
    exact absurd ht nofun

end Helpers
end Wkc
