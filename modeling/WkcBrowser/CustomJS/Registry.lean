import Mathlib.Data.List.AList
import WkcBrowser.Lib.Runs
import WkcBrowser.Wtf.Words

/-!
# The lists of custom JS functions

* `WKCWebFramePrivate`      the four lists of a frame;
* `Process.getCustomJSAPI` and the like      a lookup, kept in a static variable of the function that makes it;
* `registered`              what was last put into a list under a name, told from the calls alone;
* `lists_registered`        the lists hold it;
* `firstLookup`             what the first call of a lookup function ought to have found;
* `lookups_iff`             every lookup finds what is registered exactly if that is what the first one found.
-/

namespace Wkc
namespace CustomJS
open Buf

/-! ## the lists -/

/-- pointers to functions; the null pointer is `none` -/
structure WKCCustomJSAPIList where
  CustomJSName : Option Bytes
  CustomJSAPI : Option Nat
  CustomJSStringAPI : Option Nat
  CustomJSStringFree : Option Nat
  deriving DecidableEq

/-- `HashTraits::emptyValue()` -/
def emptyValue : WKCCustomJSAPIList :=
  { CustomJSName := none, CustomJSAPI := none, CustomJSStringAPI := none, CustomJSStringFree := none }

/-- `HashMap<WTF::String, WKCCustomJSAPIList>` -/
abbrev CustomJSAPIListHashMap := AList (fun _ : WString => WKCCustomJSAPIList)

def CustomJSAPIListHashMap.get (list : CustomJSAPIListHashMap) (key : WString) : WKCCustomJSAPIList :=
  (list.lookup key).getD emptyValue

/-- an entry with a name, as it is registered -/
structure NamedAPI extends WKCCustomJSAPIList where
  name : Bytes
  named : CustomJSName = some name

structure WKCWebFramePrivate where
  m_customJSList : CustomJSAPIListHashMap
  m_customJSListInternal : CustomJSAPIListHashMap
  m_customJSStringList : CustomJSAPIListHashMap
  m_customJSStringListInternal : CustomJSAPIListHashMap

/-- the lists as `construct` makes them; no list is missing from then on -/
def WKCWebFramePrivate.construct : WKCWebFramePrivate := ⟨∅, ∅, ∅, ∅⟩

/-- the list a function is about -/
inductive Kind
  | api | apiInternal | stringAPI | stringAPIInternal
  deriving DecidableEq

namespace WKCWebFramePrivate

def list (f : WKCWebFramePrivate) : Kind → CustomJSAPIListHashMap
  | .api => f.m_customJSList
  | .apiInternal => f.m_customJSListInternal
  | .stringAPI => f.m_customJSStringList
  | .stringAPIInternal => f.m_customJSStringListInternal

def initCustomJSAPIList (_ : WKCWebFramePrivate) : WKCWebFramePrivate :=
  { m_customJSList := ∅, m_customJSListInternal := ∅, m_customJSStringList := ∅, m_customJSStringListInternal := ∅ }

/-- the loop of the four; `list` holds `listnum` entries -/
def setAll (m : CustomJSAPIListHashMap) (listnum : Int) (list : List NamedAPI) : CustomJSAPIListHashMap :=
  (list.take listnum.toNat).foldl (fun m e => m.insert (fromLatin1 e.name) e.toWKCCustomJSAPIList) m

def setCustomJSAPIList (f : WKCWebFramePrivate) (listnum : Int) (list : List NamedAPI) :
    Bool × WKCWebFramePrivate :=
  if listnum > 0 then (true, { f with m_customJSList := setAll f.m_customJSList listnum list }) else (false, f)

def setCustomJSAPIListInternal (f : WKCWebFramePrivate) (listnum : Int) (list : List NamedAPI) :
    Bool × WKCWebFramePrivate :=
  if listnum > 0 then (true, { f with m_customJSListInternal := setAll f.m_customJSListInternal listnum list })
  else (false, f)

def setCustomJSStringAPIList (f : WKCWebFramePrivate) (listnum : Int) (list : List NamedAPI) :
    Bool × WKCWebFramePrivate :=
  if listnum > 0 then (true, { f with m_customJSStringList := setAll f.m_customJSStringList listnum list })
  else (false, f)

def setCustomJSStringAPIListInternal (f : WKCWebFramePrivate) (listnum : Int) (list : List NamedAPI) :
    Bool × WKCWebFramePrivate :=
  if listnum > 0 then
    (true, { f with m_customJSStringListInternal := setAll f.m_customJSStringListInternal listnum list })
  else (false, f)

def setList (f : WKCWebFramePrivate) (listnum : Int) (list : List NamedAPI) :
    Kind → Bool × WKCWebFramePrivate
  | .api => f.setCustomJSAPIList listnum list
  | .apiInternal => f.setCustomJSAPIListInternal listnum list
  | .stringAPI => f.setCustomJSStringAPIList listnum list
  | .stringAPIInternal => f.setCustomJSStringAPIListInternal listnum list

end WKCWebFramePrivate

/-! ## the process -/

/-- the frames, and the variable `apis` of each lookup function, which all frames share -/
structure Process where
  frames : Nat → WKCWebFramePrivate
  apis : Kind → Option WKCCustomJSAPIList

def Process.start : Process := { frames := fun _ => .construct, apis := fun _ => none }

namespace Process

/-- A static variable is initialized when its declaration is reached for the first time. -/
def getStatic (s : Process) (k : Kind) (initial : WKCCustomJSAPIList) : WKCCustomJSAPIList × Process :=
  match s.apis k with
  | some apis => (apis, s)
  | none => (initial, { s with apis := Function.update s.apis k (some initial) })

def getCustomJSAPI (s : Process) (f : Nat) (api_name : Bytes) : WKCCustomJSAPIList × Process :=
  s.getStatic .api ((s.frames f).m_customJSList.get (fromLatin1 api_name))

def getCustomJSAPIInternal (s : Process) (f : Nat) (api_name : Bytes) : WKCCustomJSAPIList × Process :=
  s.getStatic .apiInternal ((s.frames f).m_customJSListInternal.get (fromLatin1 api_name))

def getCustomJSStringAPI (s : Process) (f : Nat) (api_name : Bytes) : WKCCustomJSAPIList × Process :=
  s.getStatic .stringAPI ((s.frames f).m_customJSStringList.get (fromLatin1 api_name))

def getCustomJSStringAPIInternal (s : Process) (f : Nat) (api_name : Bytes) : WKCCustomJSAPIList × Process :=
  s.getStatic .stringAPIInternal ((s.frames f).m_customJSStringListInternal.get (fromLatin1 api_name))

def getAPI (s : Process) (k : Kind) (f : Nat) (api_name : Bytes) : WKCCustomJSAPIList × Process :=
  match k with
  | .api => s.getCustomJSAPI f api_name
  | .apiInternal => s.getCustomJSAPIInternal f api_name
  | .stringAPI => s.getCustomJSStringAPI f api_name
  | .stringAPIInternal => s.getCustomJSStringAPIInternal f api_name

end Process

/-- the calls, each on a frame -/
inductive Call
  | initCustomJSAPIList (frame : Nat)
  | set (kind : Kind) (frame : Nat) (listnum : Int) (list : List NamedAPI)
  | get (kind : Kind) (frame : Nat) (api_name : Bytes)

def Process.step (s : Process) : Call → Process
  | .initCustomJSAPIList f => { s with frames := Function.update s.frames f (s.frames f).initCustomJSAPIList }
  | .set k f listnum list =>
    { s with frames := Function.update s.frames f ((s.frames f).setList listnum list k).2 }
  | .get k f api_name => (s.getAPI k f api_name).2

/-- the process after some calls, of which the last is the first of the list -/
def Process.after (calls : List Call) : Process := calls.foldr (fun c s => s.step c) .start

/-! ## what is wanted -/

/-- the last entry of a list that has the name -/
def lastNamed (name : Bytes) (list : List NamedAPI) : Option WKCCustomJSAPIList :=
  (list.reverse.find? fun e => e.name = name).map NamedAPI.toWKCCustomJSAPIList

/-- the entry registered last under the name since the list was emptied -/
def registered (k : Kind) (f : Nat) (name : Bytes) : List Call → Option WKCCustomJSAPIList
  | [] => none
  | .initCustomJSAPIList f' :: calls => if f' = f then none else registered k f name calls
  | .set k' f' listnum list :: calls =>
    if k' = k ∧ f' = f then (lastNamed name (list.take listnum.toNat)).or (registered k f name calls)
    else registered k f name calls
  | .get .. :: calls => registered k f name calls

def wanted (k : Kind) (f : Nat) (name : Bytes) (calls : List Call) : WKCCustomJSAPIList :=
  (registered k f name calls).getD emptyValue

/-- what the first call of a lookup function is to find -/
def firstLookup (k : Kind) : List Call → Option WKCCustomJSAPIList
  | [] => none
  | .get k' f name :: calls => (firstLookup k calls).or (if k' = k then some (wanted k' f name calls) else none)
  | .initCustomJSAPIList _ :: calls => firstLookup k calls
  | .set .. :: calls => firstLookup k calls

/-- Every lookup finds what is registered. -/
def Finds (calls : List Call) : Prop :=
  ∀ k f name past, .get k f name :: past <:+ calls → ((Process.after past).getAPI k f name).1 = wanted k f name past

/-- Every lookup is for what the first one by the same function was for. -/
def Constant (calls : List Call) : Prop :=
  ∀ k f name past, .get k f name :: past <:+ calls → ∀ first ∈ firstLookup k past, wanted k f name past = first

/-! ## what the lists hold -/

theorem fromLatin1_injective {a b : Bytes} (h : fromLatin1 a = fromLatin1 b) : a = b := by
  refine List.map_injective_iff.mpr ?_ h
  intro x y hxy
  apply UInt8.toNat_inj.mp
  have hnat := congrArg UInt16.toNat hxy
  rwa [UInt8.toNat_toUInt16, UInt8.toNat_toUInt16] at hnat

theorem lookup_setAll (name : Bytes) (listnum : Int) (list : List NamedAPI) (m : CustomJSAPIListHashMap) :
    (WKCWebFramePrivate.setAll m listnum list).lookup (fromLatin1 name) =
      (lastNamed name (list.take listnum.toNat)).or (m.lookup (fromLatin1 name)) := by
  unfold WKCWebFramePrivate.setAll lastNamed
  induction list.take listnum.toNat generalizing m with
  | nil => rfl
  | cons e es ih =>
    rw [List.foldl_cons, ih, List.reverse_cons, List.find?_append]
    by_cases hname : e.name = name
    · rw [hname, AList.lookup_insert]
      cases es.reverse.find? fun e => e.name = name <;> simp [hname]
    · have hkey : fromLatin1 name ≠ fromLatin1 e.name := fun h => hname (fromLatin1_injective h).symm
      rw [AList.lookup_insert_ne hkey]
      cases es.reverse.find? fun e => e.name = name <;> simp [hname]

section
variable (k : Kind) (f : Nat) (name : Bytes)

theorem list_setList (fr : WKCWebFramePrivate) (listnum : Int) (list : List NamedAPI) (k' : Kind) :
    (fr.setList listnum list k').2.list k =
      if k' = k then WKCWebFramePrivate.setAll (fr.list k) listnum list else fr.list k := by
  have hnone : ¬ listnum > 0 → ∀ m, WKCWebFramePrivate.setAll m listnum list = m := by
    intro hle m
    have hzero : listnum.toNat = 0 := by omega
    rw [WKCWebFramePrivate.setAll, hzero]
    rfl
  cases k' <;> cases k <;>
    simp only [WKCWebFramePrivate.setList, WKCWebFramePrivate.setCustomJSAPIList,
      WKCWebFramePrivate.setCustomJSAPIListInternal, WKCWebFramePrivate.setCustomJSStringAPIList,
      WKCWebFramePrivate.setCustomJSStringAPIListInternal] <;>
    split <;> simp_all [WKCWebFramePrivate.list]

theorem getAPI_eq (s : Process) :
    s.getAPI k f name = s.getStatic k (((s.frames f).list k).get (fromLatin1 name)) := by
  cases k <;> rfl

theorem frames_getAPI (s : Process) : (s.getAPI k f name).2.frames = s.frames := by
  rw [getAPI_eq, Process.getStatic]
  split <;> rfl

theorem lists_registered (calls : List Call) :
    (((Process.after calls).frames f).list k).lookup (fromLatin1 name) = registered k f name calls := by
  induction calls with
  | nil => cases k <;> rfl
  | cons c calls ih =>
    show ((((Process.after calls).step c).frames f).list k).lookup _ = _
    cases c with
    | initCustomJSAPIList f' =>
      rw [registered, Process.step]
      dsimp only
      by_cases hf : f' = f
      · subst hf
        rw [if_pos rfl, Function.update_self]
        cases k <;> rfl
      · rw [if_neg hf, Function.update_of_ne (Ne.symm hf)]
        exact ih
    | set k' f' listnum list =>
      rw [registered, Process.step]
      dsimp only
      by_cases hf : f' = f
      · subst hf
        rw [Function.update_self, list_setList]
        by_cases hk : k' = k
        · rw [if_pos hk, if_pos ⟨hk, rfl⟩, lookup_setAll, ih]
        · rw [if_neg hk, if_neg (fun h => hk h.1)]
          exact ih
      · rw [if_neg (fun h => hf h.2), Function.update_of_ne (Ne.symm hf)]
        exact ih
    | get k' f' name' =>
      rw [registered, Process.step, frames_getAPI]
      exact ih

theorem get_registered (calls : List Call) :
    (((Process.after calls).frames f).list k).get (fromLatin1 name) = wanted k f name calls := by
  rw [CustomJSAPIListHashMap.get, lists_registered, wanted]

/-! ## what the lookups find -/

theorem apis_getStatic (s : Process) (k' : Kind) (initial : WKCCustomJSAPIList) :
    (s.getStatic k' initial).2.apis k = (s.apis k).or (if k' = k then some initial else none) := by
  unfold Process.getStatic
  split
  · next apis hapis =>
    by_cases hk : k' = k
    · subst hk
      rw [hapis]
      rfl
    · rw [if_neg hk, Option.or_none]
  · next hnone =>
    by_cases hk : k' = k
    · subst hk
      rw [if_pos rfl, hnone]
      exact Function.update_self ..
    · rw [if_neg hk, Option.or_none]
      exact Function.update_of_ne (Ne.symm hk) ..

theorem apis_firstLookup (calls : List Call) : (Process.after calls).apis k = firstLookup k calls := by
  induction calls with
  | nil => rfl
  | cons c calls ih =>
    show ((Process.after calls).step c).apis k = _
    cases c with
    | initCustomJSAPIList | set => exact ih
    | get k' f' name' => rw [firstLookup, Process.step, getAPI_eq, apis_getStatic, ih, get_registered]

theorem getAPI_firstLookup (calls : List Call) :
    ((Process.after calls).getAPI k f name).1 = (firstLookup k calls).getD (wanted k f name calls) := by
  rw [getAPI_eq, get_registered, Process.getStatic, apis_firstLookup]
  cases firstLookup k calls <;> rfl

end

/-- Every lookup finds what is registered exactly if that is, for each of the four functions, what its first call
found. -/
theorem lookups_iff (calls : List Call) : Finds calls ↔ Constant calls := by
  have hone : ∀ k f name past, ((Process.after past).getAPI k f name).1 = wanted k f name past ↔
      ∀ first ∈ firstLookup k past, wanted k f name past = first := by
    intro k f name past
    rw [getAPI_firstLookup]
    cases firstLookup k past with
    | none => simp
    | some first => simp [eq_comm]
  constructor
  · intro h k f name past hpast
    exact (hone k f name past).mp (h k f name past hpast)
  · intro h k f name past hpast
    exact (hone k f name past).mpr (h k f name past hpast)

/-! ### two functions -/

/-- `f` and `g` -/
def nameF : Bytes := [0x66]
def nameG : Bytes := [0x67]

def entry (name : Bytes) (api : Nat) : NamedAPI where
  CustomJSName := some name
  CustomJSAPI := some api
  CustomJSStringAPI := none
  CustomJSStringFree := none
  name := name
  named := rfl

/-- `g` is asked for after `f`, and `f` is found. -/
theorem second_lookup_finds_first :
    ((Process.after [.get .api 0 nameF, .set .api 0 2 [entry nameF 1, entry nameG 2]]).getAPI .api 0 nameG).1 =
        (entry nameF 1).toWKCCustomJSAPIList ∧
      wanted .api 0 nameG [.get .api 0 nameF, .set .api 0 2 [entry nameF 1, entry nameG 2]] =
        (entry nameG 2).toWKCCustomJSAPIList ∧
      ¬ ∀ calls, Finds calls := by
  have hfound : ((Process.after [.get .api 0 nameF, .set .api 0 2 [entry nameF 1, entry nameG 2]]).getAPI .api 0 nameG).1 =
      (entry nameF 1).toWKCCustomJSAPIList := by decide
  have hwanted : wanted .api 0 nameG [.get .api 0 nameF, .set .api 0 2 [entry nameF 1, entry nameG 2]] =
      (entry nameG 2).toWKCCustomJSAPIList := by decide
  refine ⟨hfound, hwanted, ?_⟩
  intro h
  have heq := h [.get .api 0 nameG, .get .api 0 nameF, .set .api 0 2 [entry nameF 1, entry nameG 2]] .api 0 nameG _
    (List.suffix_refl _)
  rw [hfound, hwanted] at heq
  exact absurd heq (by decide)

end CustomJS
end Wkc
