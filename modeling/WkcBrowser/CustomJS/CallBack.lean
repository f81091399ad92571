import Mathlib.Data.List.TakeWhile
import WkcBrowser.CustomJS.Registry

/-!
# Custom JS functions that are called

* `pickUp`        the name of the function, cut out of what the object says it is;
* `callBack`      what `CustomJSCallBackWKC` and `CustomJSStringCallBackWKC` have in common;
* `Event`         what they do on the way;
* `pickUp_within`, `pickUp_eq`      when the name is cut out of the text, and what it is then;
* `released_once` every block is released exactly once;
* `callBack_iff`  when a call reaches the function that the text names.
-/

namespace Wkc
namespace CustomJS
open Buf

/-! ## the text -/

/-- a string has no more units than fit in memory with `sizeof(StringImpl)` -/
structure UString where
  units : WString
  bound : units.length + 20 < 2 ^ 32

/-- `static_cast<size_t>(-1)` -/
def notFound : Nat := 2 ^ 32 - 1

def UString.find (s : UString) (c : UInt16) : Nat := if c ∈ s.units then s.units.idxOf c else notFound

/-- no bytes at all for a text that might get too long -/
def UString.utf8 (s : UString) : Option Bytes :=
  if s.units.length > (2 ^ 32 - 1) / 3 then none else some (Wkc.utf8 s.units)

def UString.funcNameSt (s : UString) : Nat := (s.find 0x20 + 1) % 2 ^ 32
def UString.funcNameEd (s : UString) : Nat := s.find 0x28
def UString.funcNameLen (s : UString) : Nat := minus s.funcNameEd s.funcNameSt

/-- the bytes that `memcpy` reads; none are read where there are none to copy -/
def UString.copied (s : UString) : Option Bytes :=
  if s.funcNameLen = 0 then some [] else s.utf8.bind fun data => load data s.funcNameSt s.funcNameLen

/-- the buffer `funcName` -/
def UString.pickUp (s : UString) : Except Fault Bytes :=
  match s.copied with
  | none => .error .outOfBounds
  | some bytes =>
    match store (zeros ((s.funcNameLen + 1) % 2 ^ 32)) 0 bytes with
    | none => .error .outOfBounds
    | some funcName => .ok funcName

/-- the text in a buffer, up to the NUL -/
def cString (buf : Bytes) : Bytes := buf.takeWhile (· != 0)

/-! ## the arguments -/

inductive JSValue
  | null
  | undefined
  | boolean (flg : Bool)
  | number (num : UInt64)
  | string (s : WString)
  | object
  deriving DecidableEq

/-- the type and the data that belongs to it -/
inductive WKCCustomJSAPIArg
  | null
  | undefined
  | boolean (booleanData : Bool)
  | double (doubleData : UInt64)
  | char (charPtr : Nat)
  | unsupport
  deriving DecidableEq

/-- what the callback functions do; blocks are numbered in the order of their allocation -/
inductive Event
  | malloc (p : Nat) (size : Nat)
  | lookup (internal : Bool) (name : Bytes)
  | willCall (api : WKCCustomJSAPIList)
  | call (isExternalApi : Bool) (apiPtr : Nat) (apiArgs : List WKCCustomJSAPIArg)
  | freeString (stringApiRet : Nat)
  | free (p : Nat)
  deriving DecidableEq

/-- The next block is `p`. -/
def CustomJSArgsListAdds (p : Nat) : List JSValue → List WKCCustomJSAPIArg × List Event
  | [] => ([], [])
  | .null :: args => ((CustomJSArgsListAdds p args).1.cons .null, (CustomJSArgsListAdds p args).2)
  | .undefined :: args => ((CustomJSArgsListAdds p args).1.cons .undefined, (CustomJSArgsListAdds p args).2)
  | .boolean flg :: args => ((CustomJSArgsListAdds p args).1.cons (.boolean flg), (CustomJSArgsListAdds p args).2)
  | .number num :: args => ((CustomJSArgsListAdds p args).1.cons (.double num), (CustomJSArgsListAdds p args).2)
  | .string s :: args =>
    ((CustomJSArgsListAdds (p + 1) args).1.cons (.char p),
      (CustomJSArgsListAdds (p + 1) args).2.cons (.malloc p (s.length * 3 + 1)))
  | .object :: args => ((CustomJSArgsListAdds p args).1.cons .unsupport, (CustomJSArgsListAdds p args).2)

/-- `apiArgs`, block 1, is released last. -/
def CustomJSFuncArgsFree (apiArgs : List WKCCustomJSAPIArg) : List Event :=
  (apiArgs.filterMap fun arg => match arg with
    | .char charPtr => some (.free charPtr)
    | _ => none) ++ [.free 1]

/-! ## the calls -/

/-- what the callback functions ask for: the frame of the window, its lists, the client -/
structure Outcomes where
  webFrame : Bool
  internal : Bytes → Option WKCCustomJSAPIList
  external : Bytes → Option WKCCustomJSAPIList
  dispatchWillCallCustomJS : WKCCustomJSAPIList → Bool

section
variable {β : Type*} (pick : WKCCustomJSAPIList → Option Nat) (o : Outcomes)

/-- The entry of the internal list is taken if it can be called, or else that of the other list. -/
def search (name : Bytes) : List Event × Option (Bool × WKCCustomJSAPIList × Nat) :=
  match (o.internal name).bind fun api => (pick api).map fun apiPtr => (false, api, apiPtr) with
  | some found => ([.lookup true name], some found)
  | none =>
    ([.lookup true name, .lookup false name],
      (o.external name).bind fun api => (pick api).map fun apiPtr => (true, api, apiPtr))

/-- the call of what was found, if the client lets it pass -/
def execute (call : Bool → Nat → List WKCCustomJSAPIArg → β) (init : β) (apiArgs : List WKCCustomJSAPIArg) :
    Option (Bool × WKCCustomJSAPIList × Nat) → β × List Event
  | none => (init, [])
  | some (isExternalApi, api, apiPtr) =>
    if o.dispatchWillCallCustomJS api then
      (call isExternalApi apiPtr apiArgs, [.willCall api, .call isExternalApi apiPtr apiArgs])
    else (init, [.willCall api])

/-- the callback functions: `pick` is the function of an entry that can be called, `call` what it returns, `release`
what is done with that at the end -/
def callBack (call : Bool → Nat → List WKCCustomJSAPIArg → β) (init : β) (release : β → List Event) (ustr : UString)
    (args : List JSValue) : Except Fault (β × List Event) :=
  if o.webFrame = false then .ok (init, release init)
  else
    ustr.pickUp.map fun funcName =>
      let apiArgs := (CustomJSArgsListAdds 2 args).1
      let copied := if args = [] then [] else .malloc 1 (args.length * 16) :: (CustomJSArgsListAdds 2 args).2
      let found := search pick o (cString funcName)
      let called := execute o call init apiArgs found.2
      (called.1, [.malloc 0 funcName.length] ++ copied ++ (found.1 ++ called.2 ++ release called.1) ++
        (if args = [] then [] else CustomJSFuncArgsFree apiArgs) ++ [.free 0])

end

/-- `CustomJSAPI` has to be there. -/
def CustomJSCallBackWKC (o : Outcomes) (apiRet : Bool → Nat → List WKCCustomJSAPIArg → Int) (ustr : UString)
    (args : List JSValue) : Except Fault (Int × List Event) :=
  callBack WKCCustomJSAPIList.CustomJSAPI o apiRet 0 (fun _ => []) ustr args

/-- `CustomJSStringAPI`, with something to release its strings -/
def stringApi (api : WKCCustomJSAPIList) : Option Nat :=
  match api.CustomJSStringAPI, api.CustomJSStringFree with
  | some stringApiPtr, some _ => some stringApiPtr
  | _, _ => none

/-- The string that is returned is released when it has been copied. -/
def CustomJSStringCallBackWKC (o : Outcomes) (stringApiRet : Bool → Nat → List WKCCustomJSAPIArg → Option Nat)
    (ustr : UString) (args : List JSValue) : Except Fault (Option Nat × List Event) :=
  callBack stringApi o stringApiRet none (fun ret => ret.toList.map .freeString) ustr args

/-! ## what is wanted -/

/-- `function ` -/
def functionWord : WString := [0x66, 0x75, 0x6E, 0x63, 0x74, 0x69, 0x6F, 0x6E, 0x20]

/-- The text is `function NAME(` with something behind it. -/
structure UString.Names (s : UString) (name rest : WString) : Prop where
  units : s.units = functionWord ++ name ++ 0x28 :: rest
  plain : ∀ c ∈ name, c ≠ 0x20 ∧ c ≠ 0x28 ∧ c ≠ 0x29

/-- no space before the first parenthesis, or no parenthesis -/
def UString.Nameless (s : UString) : Prop := 0x28 ∉ s.units ∨ 0x20 ∉ s.units.take (s.units.idxOf 0x28)

def Event.allocated : Event → Option Nat
  | .malloc p _ => some p
  | _ => none

def Event.released : Event → Option Nat
  | .free p => some p
  | _ => none

/-- The blocks are different ones, and they are released, each once, and nothing else is. -/
def ReleasedOnce (events : List Event) : Prop :=
  (events.filterMap Event.allocated).Nodup ∧
    (events.filterMap Event.released).Perm (events.filterMap Event.allocated)

/-- The name is copied out of the text into the buffer, it is the one that the text has, no function is called where
it has none, and every block is released once. -/
def Reaches {β : Type*} (s : UString) (result : Except Fault (β × List Event)) : Prop :=
  ∃ ret events, result = .ok (ret, events) ∧
    (∀ name rest, s.Names name rest → ∀ internal looked, .lookup internal looked ∈ events → looked = Wkc.utf8 name) ∧
    (s.Nameless → ∀ isExternalApi apiPtr apiArgs, .call isExternalApi apiPtr apiArgs ∉ events) ∧
    ReleasedOnce events

/-- what stands before the parenthesis of a text without a space, as many bytes as units -/
def UString.unnamed (s : UString) : Bytes := cString ((Wkc.utf8 s.units).take (s.units.idxOf 0x28))

/-- An entry that can be called is there, and the client lets the call pass. -/
def Invokes (pick : WKCCustomJSAPIList → Option Nat) (o : Outcomes) (name : Bytes) : Prop :=
  ∃ found ∈ (search pick o name).2, o.dispatchWillCallCustomJS found.2.1 = true

/-- the texts that a call can be made with -/
structure Callable (pick : WKCCustomJSAPIList → Option Nat) (o : Outcomes) (s : UString) : Prop where
  paren : 0x28 ∈ s.units
  space : 0x20 ∈ s.units → s.units.idxOf 0x20 < s.units.idxOf 0x28
  bytes : s.units.length ≤ (2 ^ 32 - 1) / 3 ∨ s.funcNameSt = s.units.idxOf 0x28
  name : ∀ name rest, s.Names name rest → ∀ c ∈ name, c ≠ 0 ∧ isASCII c = true
  unnamed : 0x20 ∉ s.units → ¬ Invokes pick o s.unnamed

/-! ## the name in the buffer -/

section
variable {s : UString}

theorem funcNameSt_eq : s.funcNameSt = if 0x20 ∈ s.units then s.units.idxOf 0x20 + 1 else 0 := by
  have hbound := s.bound
  unfold UString.funcNameSt UString.find
  split
  · next h =>
    have hlt := List.idxOf_lt_length_iff.mpr h
    exact Nat.mod_eq_of_lt (by omega)
  · rfl

theorem funcNameSt_le : s.funcNameSt ≤ s.units.length := by
  rw [funcNameSt_eq]
  split
  · next h => exact List.idxOf_lt_length_iff.mpr h
  · exact Nat.zero_le _

theorem funcNameLen_eq (hparen : 0x28 ∈ s.units) (hle : s.funcNameSt ≤ s.units.idxOf 0x28) :
    s.funcNameLen = s.units.idxOf 0x28 - s.funcNameSt := by
  have hbound := s.bound
  have hlt := List.idxOf_lt_length_iff.mpr hparen
  rw [UString.funcNameLen, UString.funcNameEd, UString.find, if_pos hparen]
  exact minus_eq hle (by omega)

theorem copied_eq (hparen : 0x28 ∈ s.units) (hle : s.funcNameSt ≤ s.units.idxOf 0x28)
    (hbytes : s.units.length ≤ (2 ^ 32 - 1) / 3 ∨ s.funcNameSt = s.units.idxOf 0x28) :
    s.copied = some (((utf8 s.units).drop s.funcNameSt).take (s.units.idxOf 0x28 - s.funcNameSt)) := by
  have hlt := List.idxOf_lt_length_iff.mpr hparen
  have hlen := le_length_utf8 s.units
  rw [UString.copied, funcNameLen_eq hparen hle]
  split
  · next hzero => rw [hzero, List.take_zero]
  · next hpos =>
    have hshort : s.units.length ≤ (2 ^ 32 - 1) / 3 := hbytes.resolve_right (by omega)
    rw [UString.utf8, if_neg (Nat.not_lt.mpr hshort), Option.bind_some, load, if_pos (by omega)]

theorem pickUp_eq (hparen : 0x28 ∈ s.units) (hle : s.funcNameSt ≤ s.units.idxOf 0x28)
    (hbytes : s.units.length ≤ (2 ^ 32 - 1) / 3 ∨ s.funcNameSt = s.units.idxOf 0x28) :
    s.pickUp = .ok (((utf8 s.units).drop s.funcNameSt).take (s.units.idxOf 0x28 - s.funcNameSt) ++ [0]) := by
  have hbound := s.bound
  have hlt := List.idxOf_lt_length_iff.mpr hparen
  have hlen := le_length_utf8 s.units
  have hsize : ((utf8 s.units).drop s.funcNameSt |>.take (s.units.idxOf 0x28 - s.funcNameSt)).length =
      s.units.idxOf 0x28 - s.funcNameSt := by
    rw [List.length_take, List.length_drop]
    omega
  have hstore := store_zeros [] ((utf8 s.units).drop s.funcNameSt |>.take (s.units.idxOf 0x28 - s.funcNameSt)) 1
  rw [hsize] at hstore
  rw [UString.pickUp, copied_eq hparen hle hbytes, funcNameLen_eq hparen hle, Nat.mod_eq_of_lt (by omega)]
  dsimp only
  rw [show store (zeros _) 0 _ = _ from hstore]
  rfl

theorem pickUp_within {buf : Bytes} (h : s.pickUp = .ok buf) : 0x28 ∈ s.units ∧ s.funcNameSt ≤ s.units.idxOf 0x28 ∧
    (s.units.length ≤ (2 ^ 32 - 1) / 3 ∨ s.funcNameSt = s.units.idxOf 0x28) := by
  have hbound := s.bound
  have hstart := funcNameSt_le (s := s)
  have hend : s.funcNameEd = if 0x28 ∈ s.units then s.units.idxOf 0x28 else 2 ^ 32 - 1 := rfl
  have hlen : s.funcNameLen = (s.funcNameEd + (2 ^ 32 - s.funcNameSt)) % 2 ^ 32 := rfl
  unfold UString.pickUp at h
  cases hcopied : s.copied with
  | none =>
    rw [hcopied] at h
    cases h
  | some bytes =>
    rw [hcopied] at h
    dsimp only at h
    cases hstore : store (zeros ((s.funcNameLen + 1) % 2 ^ 32)) 0 bytes with
    | none =>
      rw [hstore] at h
      cases h
    | some out =>
      have hroom := store_within hstore
      rw [zeros_length] at hroom
      unfold UString.copied at hcopied
      split at hcopied
      · next hzero =>
        -- nothing is copied, so the two places are the same
        by_cases hparen : 0x28 ∈ s.units
        · have hlt := List.idxOf_lt_length_iff.mpr hparen
          rw [if_pos hparen] at hend
          exact ⟨hparen, by omega, Or.inr (by omega)⟩
        · rw [if_neg hparen] at hend
          omega
      · next hpos =>
        obtain ⟨data, hdata, hload⟩ := Option.bind_eq_some_iff.mp hcopied
        have hinside := load_within hload
        have hcount : bytes.length = s.funcNameLen := by
          rw [load, if_pos hinside] at hload
          rw [← Option.some.inj hload, List.length_take, List.length_drop]
          omega
        unfold UString.utf8 at hdata
        split at hdata
        · cases hdata
        next hshort =>
        obtain rfl := Option.some.inj hdata
        have htext := length_utf8_le s.units
        by_cases hparen : 0x28 ∈ s.units
        · have hlt := List.idxOf_lt_length_iff.mpr hparen
          rw [if_pos hparen] at hend
          exact ⟨hparen, by omega, Or.inl (by omega)⟩
        · rw [if_neg hparen] at hend
          by_cases hspace : 0x20 ∈ s.units
          · have hless := length_utf8_lt hspace
            omega
          · rw [funcNameSt_eq, if_neg hspace] at hlen
            omega

end

theorem cString_terminated (x : Bytes) : cString (x ++ [0]) = cString x := by
  unfold cString
  induction x with
  | nil => rfl
  | cons b x ih =>
    rw [List.cons_append, List.takeWhile_cons, List.takeWhile_cons, ih]

theorem cString_eq {x : Bytes} (h : ∀ b ∈ x, b ≠ 0) : cString x = x :=
  List.takeWhile_eq_self_iff.mpr fun b hb => bne_iff_ne.mpr (h b hb)

theorem ne_zero_of_mem_cString {x : Bytes} {b : UInt8} (h : b ∈ cString x) : b ≠ 0 := by
  have hb := List.all_eq_true.mp (List.all_takeWhile (p := fun b : UInt8 => b != 0) (l := x)) b h
  simpa using hb

theorem cString_name {name : WString} :
    cString ((utf8 name).take name.length) = utf8 name ↔ ∀ c ∈ name, c ≠ 0 ∧ isASCII c = true := by
  constructor
  · intro h
    have hle := (List.takeWhile_prefix (fun b : UInt8 => b != 0) (l := (utf8 name).take name.length)).length_le
    have hlen := congrArg List.length h
    unfold cString at hlen
    rw [hlen, List.length_take] at hle
    have hge := le_length_utf8 name
    have hascii := ascii_of_length_utf8 (s := name) (by omega)
    intro c hc
    refine ⟨?_, List.all_eq_true.mp hascii c hc⟩
    rintro rfl
    have hzero : (0 : UInt8) ∈ utf8 name := by
      rw [utf8_ascii hascii]
      exact List.mem_map.mpr ⟨0, hc, rfl⟩
    rw [← h] at hzero
    exact ne_zero_of_mem_cString hzero rfl
  · intro h
    have hascii : name.all isASCII = true := List.all_eq_true.mpr fun c hc => (h c hc).2
    rw [utf8_ascii hascii, List.take_of_length_le (by simp)]
    refine cString_eq ?_
    intro b hb
    obtain ⟨c, hc, rfl⟩ := List.mem_map.mp hb
    obtain ⟨hne, hsmall⟩ := h c hc
    intro hzero
    apply hne
    have hlt : c.toNat < 0x80 := of_decide_eq_true hsmall
    have hnat : c.toNat % 2 ^ 8 = 0 := congrArg UInt8.toNat hzero
    apply UInt16.toNat_inj.mp
    show c.toNat = 0
    omega

section
variable {s : UString} {name rest : WString}

theorem UString.Names.space (h : s.Names name rest) : s.funcNameSt = 9 := by
  have hmem : 0x20 ∈ s.units := by
    rw [h.units]
    simp [functionWord]
  have hfirst : s.units.idxOf 0x20 = 8 := by
    rw [h.units, List.append_assoc, List.idxOf_append_of_mem (by decide)]
    rfl
  rw [funcNameSt_eq, if_pos hmem, hfirst]

theorem UString.Names.paren (h : s.Names name rest) : 0x28 ∈ s.units ∧ s.units.idxOf 0x28 = 9 + name.length := by
  have hname : 0x28 ∉ functionWord ++ name := by
    rw [List.mem_append, not_or]
    exact ⟨by decide, fun hmem => (h.plain _ hmem).2.1 rfl⟩
  constructor
  · rw [h.units]
    simp
  · rw [h.units, List.idxOf_append_of_notMem hname, List.idxOf_cons_self, List.length_append]
    rfl

theorem UString.Names.bytes (h : s.Names name rest) :
    ((Wkc.utf8 s.units).drop s.funcNameSt).take (s.units.idxOf 0x28 - s.funcNameSt) = (Wkc.utf8 name).take name.length := by
  have hword : Wkc.utf8 (functionWord ++ name) = Wkc.utf8 functionWord ++ Wkc.utf8 name := by
    show Wkc.utf8 (0x66 :: 0x75 :: 0x6E :: 0x63 :: 0x74 :: 0x69 :: 0x6F :: 0x6E :: 0x20 :: name) = _
    simp only [utf8_cons (show isLead 0x66 = false from rfl), utf8_cons (show isLead 0x75 = false from rfl),
      utf8_cons (show isLead 0x6E = false from rfl), utf8_cons (show isLead 0x63 = false from rfl),
      utf8_cons (show isLead 0x74 = false from rfl), utf8_cons (show isLead 0x69 = false from rfl),
      utf8_cons (show isLead 0x6F = false from rfl), utf8_cons (show isLead 0x20 = false from rfl)]
    rfl
  have htext : Wkc.utf8 s.units = Wkc.utf8 functionWord ++ (Wkc.utf8 name ++ Wkc.utf8 (0x28 :: rest)) := by
    rw [h.units, utf8_append _ (by simp [isTrail]), hword, List.append_assoc]
  have hcount := le_length_utf8 name
  rw [h.space, h.paren.2, htext, List.drop_left' (by rfl), Nat.add_sub_cancel_left, List.take_append_of_le_length hcount]

theorem unnamed_eq (h : 0x20 ∉ s.units) :
    cString (((utf8 s.units).drop s.funcNameSt).take (s.units.idxOf 0x28 - s.funcNameSt) ++ [0]) = s.unnamed := by
  rw [funcNameSt_eq, if_neg h, cString_terminated]
  rfl

end

/-! ## the events -/

def WKCCustomJSAPIArg.buffer : WKCCustomJSAPIArg → Option Nat
  | .char charPtr => some charPtr
  | _ => none

theorem adds_allocated (args : List JSValue) (p : Nat) : (CustomJSArgsListAdds p args).2.filterMap Event.allocated =
    (CustomJSArgsListAdds p args).1.filterMap WKCCustomJSAPIArg.buffer := by
  induction args generalizing p with
  | nil => rfl
  | cons arg args ih =>
    cases arg with
    | string s => exact congrArg (List.cons p) (ih (p + 1))
    | null | undefined | boolean | number | object => exact ih p

theorem adds_buffers (args : List JSValue) (p : Nat) :
    ((CustomJSArgsListAdds p args).1.filterMap WKCCustomJSAPIArg.buffer).Pairwise (· < ·) ∧
      ∀ q ∈ (CustomJSArgsListAdds p args).1.filterMap WKCCustomJSAPIArg.buffer, p ≤ q := by
  induction args generalizing p with
  | nil => exact ⟨List.Pairwise.nil, fun q hq => absurd hq List.not_mem_nil⟩
  | cons arg args ih =>
    cases arg with
    | string s =>
      obtain ⟨hsorted, hge⟩ := ih (p + 1)
      simp only [CustomJSArgsListAdds, List.filterMap_cons, WKCCustomJSAPIArg.buffer]
      refine ⟨List.pairwise_cons.mpr ⟨hge, hsorted⟩, ?_⟩
      rintro q (_ | ⟨_, hq⟩)
      · exact Nat.le_refl p
      · exact Nat.le_of_succ_le (hge q hq)
    | null | undefined | boolean | number | object => exact ih p

theorem mem_adds {args : List JSValue} {p : Nat} {e : Event} (h : e ∈ (CustomJSArgsListAdds p args).2) :
    ∃ q size, e = .malloc q size := by
  induction args generalizing p with
  | nil => cases h
  | cons arg args ih =>
    cases arg with
    | string s =>
      rcases List.mem_cons.mp h with rfl | htail
      · exact ⟨p, _, rfl⟩
      · exact ih htail
    | null | undefined | boolean | number | object => exact ih h

theorem free_released (apiArgs : List WKCCustomJSAPIArg) : (CustomJSFuncArgsFree apiArgs).filterMap Event.released =
    apiArgs.filterMap WKCCustomJSAPIArg.buffer ++ [1] := by
  unfold CustomJSFuncArgsFree
  rw [List.filterMap_append, List.filterMap_filterMap]
  congr 1
  apply List.filterMap_congr
  intro arg _
  cases arg <;> rfl

theorem mem_free {apiArgs : List WKCCustomJSAPIArg} {e : Event} (h : e ∈ CustomJSFuncArgsFree apiArgs) :
    ∃ q, e = .free q := by
  rcases List.mem_append.mp h with hbuffer | hlast
  · obtain ⟨arg, -, harg⟩ := List.mem_filterMap.mp hbuffer
    cases arg with
    | char charPtr => exact ⟨charPtr, (Option.some.inj harg).symm⟩
    | null | undefined | boolean | double | unsupport => cases harg
  · exact ⟨1, List.mem_singleton.mp hlast⟩

section
variable {β : Type*} {pick : WKCCustomJSAPIList → Option Nat} {o : Outcomes} {name : Bytes}
  {call : Bool → Nat → List WKCCustomJSAPIArg → β} {init : β} {release : β → List Event} {s : UString}
  {args : List JSValue}

theorem mem_search {e : Event} (h : e ∈ (search pick o name).1) : ∃ internal, e = .lookup internal name := by
  unfold search at h
  split at h
  · exact ⟨true, List.mem_singleton.mp h⟩
  · rcases List.mem_cons.mp h with he | h
    · exact ⟨true, he⟩
    · exact ⟨false, List.mem_singleton.mp h⟩

theorem lookup_mem_search : .lookup true name ∈ (search pick o name).1 := by
  unfold search
  split <;> exact List.mem_cons_self

theorem mem_execute {apiArgs : List WKCCustomJSAPIArg} {found : Option (Bool × WKCCustomJSAPIList × Nat)} {e : Event}
    (h : e ∈ (execute o call init apiArgs found).2) :
    (∃ api, e = .willCall api) ∨
      ((∃ f ∈ found, o.dispatchWillCallCustomJS f.2.1 = true) ∧ ∃ ext apiPtr, e = .call ext apiPtr apiArgs) := by
  unfold execute at h
  split at h
  · cases h
  · next isExternalApi api apiPtr =>
    split at h
    · next hpass =>
      rcases List.mem_cons.mp h with he | h
      · exact Or.inl ⟨api, he⟩
      · exact Or.inr ⟨⟨_, rfl, hpass⟩, isExternalApi, apiPtr, List.mem_singleton.mp h⟩
    · exact Or.inl ⟨api, List.mem_singleton.mp h⟩

theorem call_mem_execute {apiArgs : List WKCCustomJSAPIArg} {found : Option (Bool × WKCCustomJSAPIList × Nat)}
    (h : ∃ f ∈ found, o.dispatchWillCallCustomJS f.2.1 = true) :
    ∃ ext apiPtr, .call ext apiPtr apiArgs ∈ (execute o call init apiArgs found).2 := by
  obtain ⟨⟨isExternalApi, api, apiPtr⟩, hfound, hpass⟩ := h
  rw [Option.mem_def.mp hfound, execute, if_pos hpass]
  exact ⟨isExternalApi, apiPtr, List.mem_cons_of_mem _ List.mem_cons_self⟩

theorem mem_called {apiArgs : List WKCCustomJSAPIArg} {freed : List Event} {e : Event}
    (hfreed : ∀ e ∈ freed, ∃ str, e = .freeString str)
    (h : e ∈ (search pick o name).1 ++ (execute o call init apiArgs (search pick o name).2).2 ++ freed) :
    (∃ internal, e = .lookup internal name) ∨ (∃ api, e = .willCall api) ∨
      (Invokes pick o name ∧ ∃ ext apiPtr, e = .call ext apiPtr apiArgs) ∨ ∃ str, e = .freeString str := by
  rcases List.mem_append.mp h with h | h
  · rcases List.mem_append.mp h with h | h
    · exact Or.inl (mem_search h)
    · rcases mem_execute h with hasked | hcalled
      · exact Or.inr (Or.inl hasked)
      · exact Or.inr (Or.inr (Or.inl hcalled))
  · exact Or.inr (Or.inr (Or.inr (hfreed e h)))

/-- some events between the allocations and the releases -/
def between (n : Nat) (args : List JSValue) (middle : List Event) : List Event :=
  [.malloc 0 n] ++ (if args = [] then [] else .malloc 1 (args.length * 16) :: (CustomJSArgsListAdds 2 args).2) ++
    middle ++ (if args = [] then [] else CustomJSFuncArgsFree (CustomJSArgsListAdds 2 args).1) ++ [.free 0]

theorem mem_between {n : Nat} {middle : List Event} {e : Event} (hmalloc : e.allocated = none)
    (hfree : e.released = none) : e ∈ between n args middle ↔ e ∈ middle := by
  constructor
  · intro h
    simp only [between, List.mem_append, List.mem_singleton] at h
    rcases h with (((rfl | h) | h) | h) | rfl
    · cases hmalloc
    · split at h
      · cases h
      · rcases List.mem_cons.mp h with rfl | h
        · cases hmalloc
        · obtain ⟨q, size, rfl⟩ := mem_adds h
          cases hmalloc
    · exact h
    · split at h
      · cases h
      · obtain ⟨q, rfl⟩ := mem_free h
        cases hfree
    · cases hfree
  · intro h
    simp only [between, List.mem_append]
    exact Or.inl (Or.inl (Or.inr h))

theorem released_once {n : Nat} {middle : List Event} (hmiddle : ∀ e ∈ middle, e.allocated = none ∧ e.released = none) :
    ReleasedOnce (between n args middle) := by
  have hallocated : middle.filterMap Event.allocated = [] :=
    List.filterMap_eq_nil_iff.mpr fun e he => (hmiddle e he).1
  have hreleased : middle.filterMap Event.released = [] := List.filterMap_eq_nil_iff.mpr fun e he => (hmiddle e he).2
  unfold ReleasedOnce between
  simp only [List.filterMap_append, hallocated, hreleased]
  split
  · exact ⟨List.nodup_singleton 0, List.Perm.refl [0]⟩
  obtain ⟨hsorted, hge⟩ := adds_buffers args 2
  have hadded : ((CustomJSArgsListAdds 2 args).2).filterMap Event.released = [] := by
    refine List.filterMap_eq_nil_iff.mpr ?_
    intro e he
    obtain ⟨q, size, rfl⟩ := mem_adds he
    rfl
  have hfreed : (CustomJSFuncArgsFree (CustomJSArgsListAdds 2 args).1).filterMap Event.allocated = [] := by
    refine List.filterMap_eq_nil_iff.mpr ?_
    intro e he
    obtain ⟨q, rfl⟩ := mem_free he
    rfl
  simp only [List.filterMap_cons, Event.allocated, Event.released, List.filterMap_nil, adds_allocated, hadded, hfreed,
    free_released, List.nil_append, List.append_nil, List.cons_append]
  constructor
  · refine List.nodup_cons.mpr ⟨?_, List.nodup_cons.mpr ⟨?_, hsorted.imp Nat.ne_of_lt⟩⟩
    · rintro (_ | ⟨_, h⟩)
      exact absurd (hge 0 h) (by decide)
    · intro h
      exact absurd (hge 1 h) (by decide)
  · refine List.perm_append_comm.trans (List.Perm.cons 0 ?_)
    exact List.perm_append_singleton 1 _

variable (hrelease : ∀ ret, ∀ e ∈ release ret, ∃ str, e = .freeString str)
include hrelease

theorem callBack_ok (hframe : o.webFrame = true) {buf : Bytes} (hpick : s.pickUp = .ok buf) :
    ∃ ret middle, callBack pick o call init release s args = .ok (ret, between buf.length args middle) ∧
      (∀ e ∈ middle, e.allocated = none ∧ e.released = none) ∧
      (.lookup true (cString buf) ∈ middle ∧ ∀ internal looked, .lookup internal looked ∈ middle → looked = cString buf) ∧
      ((∃ ext apiPtr apiArgs, .call ext apiPtr apiArgs ∈ middle) ↔ Invokes pick o (cString buf)) := by
  let called := execute o call init (CustomJSArgsListAdds 2 args).1 (search pick o (cString buf)).2
  refine ⟨called.1, (search pick o (cString buf)).1 ++ called.2 ++ release called.1, ?_, ?_, ⟨?_, ?_⟩, ?_⟩
  · rw [callBack, if_neg (by rw [hframe]; decide), hpick]
    rfl
  · intro e he
    rcases mem_called (hrelease _) he with ⟨internal, rfl⟩ | ⟨api, rfl⟩ | ⟨-, ext, apiPtr, rfl⟩ | ⟨str, rfl⟩
    · exact ⟨rfl, rfl⟩
    · exact ⟨rfl, rfl⟩
    · exact ⟨rfl, rfl⟩
    · exact ⟨rfl, rfl⟩
  · exact List.mem_append_left _ (List.mem_append_left _ lookup_mem_search)
  · intro internal looked he
    rcases mem_called (hrelease _) he with ⟨_, he⟩ | ⟨api, he⟩ | ⟨-, ext, apiPtr, he⟩ | ⟨str, he⟩
    · exact (Event.lookup.inj he).2
    · cases he
    · cases he
    · cases he
  · constructor
    · rintro ⟨ext, apiPtr, apiArgs, he⟩
      rcases mem_called (hrelease _) he with ⟨_, he⟩ | ⟨api, he⟩ | ⟨hinvokes, -⟩ | ⟨str, he⟩
      · cases he
      · cases he
      · exact hinvokes
      · cases he
    · intro hinvokes
      obtain ⟨ext, apiPtr, he⟩ := call_mem_execute hinvokes
      exact ⟨ext, apiPtr, _, List.mem_append_left _ (List.mem_append_right _ he)⟩

theorem reaches_noFrame (hframe : o.webFrame = false) : Reaches s (callBack pick o call init release s args) := by
  refine ⟨init, release init, if_pos hframe, ?_, ?_, ?_⟩
  · intro name rest _ internal looked hmem
    obtain ⟨str, he⟩ := hrelease init _ hmem
    cases he
  · intro _ isExternalApi apiPtr apiArgs hmem
    obtain ⟨str, he⟩ := hrelease init _ hmem
    cases he
  · have hnothing : ∀ e ∈ release init, e.allocated = none ∧ e.released = none := by
      intro e he
      obtain ⟨str, rfl⟩ := hrelease init e he
      exact ⟨rfl, rfl⟩
    unfold ReleasedOnce
    rw [List.filterMap_eq_nil_iff.mpr fun e he => (hnothing e he).1,
      List.filterMap_eq_nil_iff.mpr fun e he => (hnothing e he).2]
    exact ⟨List.nodup_nil, List.Perm.refl []⟩

theorem callable_of_reaches (hframe : o.webFrame = true) (h : Reaches s (callBack pick o call init release s args)) :
    Callable pick o s := by
  obtain ⟨ret, events, h, hname, hcall, -⟩ := h
  cases hpick : s.pickUp with
  | error fault =>
    rw [callBack, if_neg (by rw [hframe]; decide), hpick] at h
    cases h
  | ok buf =>
    obtain ⟨hparen, hle, hbytes⟩ := pickUp_within hpick
    obtain rfl := Except.ok.inj (hpick.symm.trans (pickUp_eq hparen hle hbytes))
    obtain ⟨ret', middle, hrun, -, ⟨hlooked, -⟩, hinvoked⟩ := callBack_ok hrelease hframe hpick
    obtain ⟨rfl, rfl⟩ := Prod.mk.inj (Except.ok.inj (h.symm.trans hrun))
    refine ⟨hparen, ?_, hbytes, ?_, ?_⟩
    · intro hspace
      rwa [funcNameSt_eq, if_pos hspace] at hle
    · intro name rest hnames
      have heq := hname name rest hnames true _ ((mem_between rfl rfl).mpr hlooked)
      rw [cString_terminated, hnames.bytes] at heq
      exact cString_name.mp heq
    · intro hspace hinvokes
      rw [← unnamed_eq hspace] at hinvokes
      obtain ⟨ext, apiPtr, apiArgs, hmem⟩ := hinvoked.mpr hinvokes
      have hnameless : s.Nameless := Or.inr fun hfront => hspace (List.mem_of_mem_take hfront)
      exact hcall hnameless ext apiPtr apiArgs ((mem_between rfl rfl).mpr hmem)

theorem reaches_of_callable (hframe : o.webFrame = true) (h : Callable pick o s) :
    Reaches s (callBack pick o call init release s args) := by
  obtain ⟨hparen, hspace, hbytes, hname, hunnamed⟩ := h
  have hle : s.funcNameSt ≤ s.units.idxOf 0x28 := by
    rw [funcNameSt_eq]
    split
    · next h => exact hspace h
    · exact Nat.zero_le _
  obtain ⟨ret, middle, hrun, hmiddle, ⟨-, hlooked⟩, hinvoked⟩ :=
    callBack_ok hrelease hframe (pickUp_eq hparen hle hbytes)
  refine ⟨ret, _, hrun, ?_, ?_, released_once hmiddle⟩
  · intro name rest hnames internal looked hmem
    have heq := hlooked internal looked ((mem_between rfl rfl).mp hmem)
    rw [cString_terminated, hnames.bytes] at heq
    exact heq.trans (cString_name.mpr (hname name rest hnames))
  · intro hnameless isExternalApi apiPtr apiArgs hmem
    have hinvokes := hinvoked.mp ⟨isExternalApi, apiPtr, apiArgs, (mem_between rfl rfl).mp hmem⟩
    have hno : 0x20 ∉ s.units := by
      intro hmem
      have hfront := hnameless.resolve_left (not_not_intro hparen)
      exact hfront ((List.mem_take_iff_idxOf_lt hmem).mpr (hspace hmem))
    rw [unnamed_eq hno] at hinvokes
    exact hunnamed hno hinvokes

theorem callBack_iff : Reaches s (callBack pick o call init release s args) ↔ o.webFrame = false ∨ Callable pick o s := by
  cases hframe : o.webFrame with
  | false => exact iff_of_true (reaches_noFrame hrelease hframe) (Or.inl rfl)
  | true =>
    rw [or_iff_right (by decide)]
    exact ⟨callable_of_reaches hrelease hframe, reaches_of_callable hrelease hframe⟩

end

/-- Both callback functions reach the function that the text names exactly if there is no frame, or the text is one that
a call can be made with. -/
theorem calls_reach_iff (o : Outcomes) (apiRet : Bool → Nat → List WKCCustomJSAPIArg → Int)
    (stringApiRet : Bool → Nat → List WKCCustomJSAPIArg → Option Nat) (s : UString) (args : List JSValue) :
    (Reaches s (CustomJSCallBackWKC o apiRet s args) ↔
        o.webFrame = false ∨ Callable WKCCustomJSAPIList.CustomJSAPI o s) ∧
      (Reaches s (CustomJSStringCallBackWKC o stringApiRet s args) ↔ o.webFrame = false ∨ Callable stringApi o s) := by
  constructor
  · exact callBack_iff nofun
  · refine callBack_iff ?_
    intro ret e he
    obtain ⟨str, -, rfl⟩ := List.mem_map.mp he
    exact ⟨str, rfl⟩

/-! ### three texts -/

def noFunctions : Outcomes where
  webFrame := true
  internal _ := none
  external _ := none
  dispatchWillCallCustomJS _ := true

/-- every name is that of function 7 -/
def oneFunction : Outcomes := { noFunctions with external := fun _ => some { emptyValue with CustomJSAPI := some 7 } }

def emptyText : UString := { units := [], bound := by decide }

/-- `function é(` -/
def accented : UString := { units := functionWord ++ [0xE9, 0x28], bound := by decide }

/-- `f(` -/
def spaceless : UString := { units := [0x66, 0x28], bound := by decide }

/-- The copy for an empty text leaves the buffer, half of a letter is looked up, and a function is called without a
name. -/
theorem other_names :
    CustomJSCallBackWKC noFunctions (fun _ _ _ => 0) emptyText [] = .error .outOfBounds ∧
      CustomJSCallBackWKC noFunctions (fun _ _ _ => 0) accented [] =
        .ok (0, [.malloc 0 2, .lookup true [0xC3], .lookup false [0xC3], .free 0]) ∧
      CustomJSCallBackWKC oneFunction (fun _ _ _ => 0) spaceless [] =
        .ok (0, [.malloc 0 2, .lookup true [0x66], .lookup false [0x66],
          .willCall { emptyValue with CustomJSAPI := some 7 }, .call true 7 [], .free 0]) ∧
      ¬ ∀ o apiRet s args, Reaches s (CustomJSCallBackWKC o apiRet s args) := by
  have hempty : CustomJSCallBackWKC noFunctions (fun _ _ _ => 0) emptyText [] = .error .outOfBounds := rfl
  refine ⟨hempty, rfl, rfl, ?_⟩
  intro h
  obtain ⟨ret, events, heq, -⟩ := h noFunctions (fun _ _ _ => 0) emptyText []
  rw [hempty] at heq
  cases heq

end CustomJS
end Wkc
