import Mathlib.Data.List.MinMax
import WkcBrowser.Net.AuthenticationJar

/-!
# Which password a request is answered with

The loops of `AuthenticationJar` compare the keys of the entries only; the passwords are read once the loop is over,
and whether the confirmed ones are read is then up to the last entry of the list.

* `choice`                      the place of the entry that a request is answered from, by the keys alone;
* `getWebUserPassword_eq`       the answer: the passwords of that entry, by the flag of it or of the last one;
* `getWebUserPassword_faithful` the answer is the entry's own, and a matter of the matching entries only;
* `setWebUserPassword_eq`       a call of set as a change of one place;
* `set_get_iff`, `set_delete_get_iff`   what a get finds after a set, and after a set and a delete.
-/

namespace Wkc
namespace AuthenticationJar

/-! ## the keys of the entries -/

/-- what the loops compare of an entry -/
structure EntryKey where
  host : WString
  realm : WString
  fullPath : WString
  basePath : WString

def entryKey (info : AuthInfo) : EntryKey := ⟨info.host, info.realm, info.fullPath, info.basePath⟩

namespace EntryKey

def asked (key : WebKey) (realm : WString) (e : EntryKey) : Bool :=
  e.host == key.host && (realm.isEmpty || e.realm == realm)

/-- the entry is of just the path -/
def exact (key : WebKey) (realm : WString) (e : EntryKey) : Bool := e.asked key realm && key.fullPath == e.fullPath

def above (key : WebKey) (realm : WString) (e : EntryKey) : Bool :=
  e.asked key realm && e.fullPath.isPrefixOf key.fullPath

def beside (key : WebKey) (realm : WString) (e : EntryKey) : Bool :=
  e.asked key realm && (!e.fullPath.isPrefixOf key.fullPath && e.basePath.isPrefixOf key.fullPath)

def matched (key : WebKey) (realm : WString) (e : EntryKey) : Bool :=
  e.asked key realm && (e.fullPath.isPrefixOf key.fullPath || e.basePath.isPrefixOf key.fullPath)

end EntryKey

open EntryKey

/-- the place of the entry that a request is answered from -/
def choice (key : WebKey) (realm : WString) (entries : List EntryKey) : Option Nat :=
  ((entries.zipIdx.find? (fun p => p.1.exact key realm)).or
    (((entries.zipIdx.filter (fun p => p.1.above key realm)).argmax (fun p => p.1.fullPath.length)).or
      ((entries.zipIdx.filter (fun p => p.1.beside key realm)).argmax (fun p => p.1.basePath.length)))).map Prod.snd

/-! ## the loop makes this choice -/

theorem argmax_map {α β : Type} (g : α → β) (f : β → Nat) (l : List α) :
    (l.map g).argmax f = (l.argmax (fun a => f (g a))).map g := by
  induction l using List.reverseRecOn with
  | nil => rfl
  | append_singleton l a ih =>
    rw [List.map_append, List.map_singleton, List.argmax_concat, List.argmax_concat, ih]
    cases l.argmax (fun a => f (g a)) with
    | none => rfl
    | some c => exact (apply_ite (Option.map g) (f (g c) < f (g a)) (some a) (some c)).symm

theorem longer_full : (fun current info => some (longer current info true)) =
    List.argAux (fun b c : AuthInfo × Nat => c.1.fullPath.length < b.1.fullPath.length) := by
  funext current info
  cases current with
  | none => rfl
  | some c => exact apply_ite some (c.1.fullPath.length < info.1.fullPath.length) info c

theorem longer_base : (fun current info => some (longer current info false)) =
    List.argAux (fun b c : AuthInfo × Nat => c.1.basePath.length < b.1.basePath.length) := by
  funext current info
  cases current with
  | none => rfl
  | some c => exact apply_ite some (c.1.basePath.length < info.1.basePath.length) info c

section
variable {parser : UrlParser} {jar : List AuthInfo} {url realm : WString} {key : WebKey}

/-- the choice, among the entries themselves -/
def chosen (key : WebKey) (realm : WString) (infos : List (AuthInfo × Nat)) : Option (AuthInfo × Nat) :=
  (infos.find? (fun p => (entryKey p.1).exact key realm)).or
    (((infos.filter (fun p => (entryKey p.1).above key realm)).argmax (fun p => p.1.fullPath.length)).or
      ((infos.filter (fun p => (entryKey p.1).beside key realm)).argmax (fun p => p.1.basePath.length)))

theorem choice_eq (key : WebKey) (realm : WString) (jar : List AuthInfo) :
    choice key realm (jar.map entryKey) = (chosen key realm jar.zipIdx).map Prod.snd := by
  have hkeys : (jar.map entryKey).zipIdx = jar.zipIdx.map (Prod.map entryKey id) := List.zipIdx_map ..
  unfold choice chosen
  simp only [hkeys, List.find?_map, List.filter_map, argmax_map, ← Option.map_or, Option.map_map]
  rfl

theorem chosen_mem {infos : List (AuthInfo × Nat)} {p : AuthInfo × Nat} (h : chosen key realm infos = some p) :
    p ∈ infos := by
  rcases Option.or_eq_some_iff.mp h with hexact | ⟨-, h⟩
  · exact List.mem_of_find?_eq_some hexact
  · rcases Option.or_eq_some_iff.mp h with habove | ⟨-, hbeside⟩
    · exact List.mem_of_mem_filter (List.argmax_mem habove)
    · exact List.mem_of_mem_filter (List.argmax_mem hbeside)

theorem chosen_get {p : AuthInfo × Nat} (h : chosen key realm jar.zipIdx = some p) : jar[p.2]? = some p.1 :=
  List.mem_zipIdx_iff_getElem?.mp (chosen_mem h)

/-- the flag by which the passwords of an entry are read -/
def flag (key : WebKey) (jar : List AuthInfo) (info : AuthInfo) : Bool :=
  if key.fullPath = info.fullPath then info.confirmed else lastConfirmed jar

theorem getWebUserPassword_chosen (parser : UrlParser) (jar : List AuthInfo) (url realm : WString) :
    (getWebUserPassword parser jar url realm).1 = (chosen (webKey (parser.parse url)) realm jar.zipIdx).map
      (fun p => credentials p.1 (flag (webKey (parser.parse url)) jar p.1)) := by
  unfold getWebUserPassword
  generalize webKey (parser.parse url) = key
  rw [getLoop_eq, List.find?_map, longer_full, longer_base]
  unfold chosen
  have hexact : (fun p : AuthInfo × Nat => (entryKey p.1).exact key realm)
      = ((fun info => asked key realm info && key.fullPath == info.fullPath) ∘ Prod.fst) := rfl
  rw [hexact]
  cases hfind : jar.zipIdx.find? ((fun info => asked key realm info && key.fullPath == info.fullPath) ∘ Prod.fst) with
  | some p =>
    have hpath : key.fullPath = p.1.fullPath := by
      have hp := List.find?_some hfind
      simp only [Function.comp_apply, Bool.and_eq_true, beq_iff_eq] at hp
      exact hp.2
    simp only [Option.map_some, Option.some_or, flag, if_pos hpath]
  | none =>
    have hother : ∀ p ∈ jar.zipIdx, asked key realm p.1 = true → flag key jar p.1 = lastConfirmed jar := by
      intro p hp hasked
      have hnot := List.find?_eq_none.mp hfind p hp
      refine if_neg (fun heq => hnot ?_)
      rw [Function.comp_apply, hasked, Bool.true_and, beq_iff_eq]
      exact heq
    simp only [Option.map_none, Option.none_or]
    -- the two loops are maxima over the entries above and beside the page
    have hfull : (jar.zipIdx.filter (fun p => asked key realm p.1 && p.1.fullPath.isPrefixOf key.fullPath)).foldl
        (List.argAux (fun b c : AuthInfo × Nat => c.1.fullPath.length < b.1.fullPath.length)) none =
        (jar.zipIdx.filter (fun p => (entryKey p.1).above key realm)).argmax (fun p => p.1.fullPath.length) := rfl
    have hbase : (jar.zipIdx.filter (fun p => asked key realm p.1 &&
        (!p.1.fullPath.isPrefixOf key.fullPath && p.1.basePath.isPrefixOf key.fullPath))).foldl
        (List.argAux (fun b c : AuthInfo × Nat => c.1.basePath.length < b.1.basePath.length)) none =
        (jar.zipIdx.filter (fun p => (entryKey p.1).beside key realm)).argmax (fun p => p.1.basePath.length) := rfl
    rw [hfull, hbase]
    cases habove : (jar.zipIdx.filter (fun p => (entryKey p.1).above key realm)).argmax
        (fun p => p.1.fullPath.length) with
    | some p =>
      obtain ⟨hp, hq⟩ := List.mem_filter.mp (List.argmax_mem habove)
      have hflag := hother p hp (Bool.and_eq_true_iff.mp hq).1
      simp only [Option.some_or, Option.map_some, hflag]
    | none =>
      cases hbeside : (jar.zipIdx.filter (fun p => (entryKey p.1).beside key realm)).argmax
          (fun p => p.1.basePath.length) with
      | some p =>
        obtain ⟨hp, hq⟩ := List.mem_filter.mp (List.argmax_mem hbeside)
        have hflag := hother p hp (Bool.and_eq_true_iff.mp hq).1
        simp only [Option.none_or, Option.map_some, hflag]
      | none => rfl

theorem getWebUserPassword_eq (parser : UrlParser) (jar : List AuthInfo) (url realm : WString) :
    (getWebUserPassword parser jar url realm).1 =
      (choice (webKey (parser.parse url)) realm (jar.map entryKey)).bind (fun i => jar[i]?.map
        (fun info => credentials info (flag (webKey (parser.parse url)) jar info))) := by
  rw [getWebUserPassword_chosen, choice_eq]
  cases h : chosen (webKey (parser.parse url)) realm jar.zipIdx with
  | none => rfl
  | some p => simp [chosen_get h]

/-! ## the selected entry -/

def pair (c : Credentials) : WString × WString := (c.user, c.passwd)

/-- The entry that a request should be answered from: one with just its path, else one with the longest path above
it, else one with the longest directory above it. -/
inductive Selected (key : WebKey) (realm : WString) (jar : List AuthInfo) (info : AuthInfo) : Prop where
  | exact : info ∈ jar → (entryKey info).exact key realm → Selected key realm jar info
  | above : info ∈ jar → (∀ other ∈ jar, (entryKey other).exact key realm = false) →
      (entryKey info).above key realm →
      (∀ other ∈ jar, (entryKey other).above key realm → other.fullPath.length ≤ info.fullPath.length) →
      Selected key realm jar info
  | beside : info ∈ jar → (∀ other ∈ jar, (entryKey other).above key realm = false) →
      (entryKey info).matched key realm →
      (∀ other ∈ jar, (entryKey other).matched key realm → other.basePath.length ≤ info.basePath.length) →
      Selected key realm jar info

theorem exact_above {e : EntryKey} (h : e.exact key realm = true) : e.above key realm = true := by
  unfold EntryKey.exact at h
  unfold EntryKey.above
  rw [Bool.and_eq_true, beq_iff_eq] at h
  simp [h.1, h.2]

theorem matched_eq (key : WebKey) (realm : WString) (e : EntryKey) :
    e.matched key realm = (e.above key realm || e.beside key realm) := by
  unfold EntryKey.matched EntryKey.above EntryKey.beside
  cases e.asked key realm <;> cases e.fullPath.isPrefixOf key.fullPath <;> simp

theorem mem_zipIdx_fst {p : AuthInfo × Nat} (h : p ∈ jar.zipIdx) : p.1 ∈ jar :=
  List.mem_of_getElem? (List.mem_zipIdx_iff_getElem?.mp h)

theorem exists_zipIdx {info : AuthInfo} (h : info ∈ jar) : ∃ i, (info, i) ∈ jar.zipIdx := by
  obtain ⟨i, hi⟩ := List.mem_iff_getElem?.mp h
  exact ⟨i, List.mem_zipIdx_iff_getElem?.mpr hi⟩

theorem none_above (h : (jar.zipIdx.filter (fun p => (entryKey p.1).above key realm)).argmax
    (fun p => p.1.fullPath.length) = none) : ∀ other ∈ jar, (entryKey other).above key realm = false := by
  intro other hother
  obtain ⟨i, hi⟩ := exists_zipIdx hother
  exact Bool.eq_false_of_not_eq_true (List.filter_eq_nil_iff.mp (List.argmax_eq_none.mp h) _ hi)

theorem chosen_selected {p : AuthInfo × Nat} (h : chosen key realm jar.zipIdx = some p) :
    Selected key realm jar p.1 := by
  have hmem := mem_zipIdx_fst (chosen_mem h)
  rcases Option.or_eq_some_iff.mp h with hexact | ⟨hnone, h⟩
  · have hp := List.find?_some hexact
    exact .exact hmem hp
  · rcases Option.or_eq_some_iff.mp h with habove | ⟨hnone', hbeside⟩
    · refine .above hmem ?_ (List.mem_filter.mp (List.argmax_mem habove)).2 ?_
      · intro other hother
        obtain ⟨i, hi⟩ := exists_zipIdx hother
        exact Bool.eq_false_of_not_eq_true (List.find?_eq_none.mp hnone _ hi)
      · intro other hother hover
        obtain ⟨i, hi⟩ := exists_zipIdx hother
        exact List.le_of_mem_argmax (f := fun p : AuthInfo × Nat => p.1.fullPath.length)
          (List.mem_filter.mpr ⟨hi, hover⟩) habove
    · have hnot := none_above hnone'
      have hsame : ∀ other ∈ jar, (entryKey other).matched key realm = (entryKey other).beside key realm := by
        intro other hother
        rw [matched_eq, hnot other hother, Bool.false_or]
      refine .beside hmem hnot ?_ ?_
      · rw [hsame _ hmem]
        exact (List.mem_filter.mp (List.argmax_mem hbeside)).2
      · intro other hother hover
        rw [hsame other hother] at hover
        obtain ⟨i, hi⟩ := exists_zipIdx hother
        exact List.le_of_mem_argmax (f := fun p : AuthInfo × Nat => p.1.basePath.length)
          (List.mem_filter.mpr ⟨hi, hover⟩) hbeside

theorem Selected.matched {info : AuthInfo} (h : Selected key realm jar info) :
    info ∈ jar ∧ (entryKey info).matched key realm = true := by
  cases h with
  | exact hmem hexact => exact ⟨hmem, by rw [matched_eq, exact_above hexact]; rfl⟩
  | above hmem _ habove _ => exact ⟨hmem, by rw [matched_eq, habove]; rfl⟩
  | beside hmem _ hmatched _ => exact ⟨hmem, hmatched⟩

/-- the entry itself, without its place -/
def pick (key : WebKey) (realm : WString) (jar : List AuthInfo) : Option AuthInfo :=
  (jar.find? (fun info => (entryKey info).exact key realm)).or
    (((jar.filter (fun info => (entryKey info).above key realm)).argmax (fun info => info.fullPath.length)).or
      ((jar.filter (fun info => (entryKey info).beside key realm)).argmax (fun info => info.basePath.length)))

theorem chosen_pick (key : WebKey) (realm : WString) (jar : List AuthInfo) :
    (chosen key realm jar.zipIdx).map Prod.fst = pick key realm jar := by
  have hfst : jar = jar.zipIdx.map Prod.fst := (List.zipIdx_map_fst 0 jar).symm
  unfold chosen pick
  conv_rhs => rw [hfst]
  simp only [List.find?_map, List.filter_map, argmax_map, ← Option.map_or]
  rfl

theorem pick_matched (key : WebKey) (realm : WString) (jar : List AuthInfo) :
    pick key realm (jar.filter (fun info => (entryKey info).matched key realm)) = pick key realm jar := by
  have habove : ∀ info : AuthInfo, ((entryKey info).above key realm && (entryKey info).matched key realm)
      = (entryKey info).above key realm := by
    intro info
    rw [matched_eq]
    cases (entryKey info).above key realm <;> simp
  have hbeside : ∀ info : AuthInfo, ((entryKey info).beside key realm && (entryKey info).matched key realm)
      = (entryKey info).beside key realm := by
    intro info
    rw [matched_eq]
    cases (entryKey info).beside key realm <;> simp
  have hexact : ∀ info : AuthInfo,
      decide ((entryKey info).matched key realm = true ∧ (entryKey info).exact key realm = true)
        = (entryKey info).exact key realm := by
    intro info
    cases h : (entryKey info).exact key realm with
    | true => simp [matched_eq, exact_above h]
    | false => simp
  unfold pick
  simp only [List.find?_filter, List.filter_filter, habove, hbeside, hexact]

/-! ## the answer is the selected entry's own -/

/-- The answer is the selected entry's own passwords; entries that do not match have no say in it. -/
structure Faithful (parser : UrlParser) (jar : List AuthInfo) (url realm : WString) : Prop where
  own : (∃ info ∈ jar, (entryKey info).matched (webKey (parser.parse url)) realm) →
    ∃ info, Selected (webKey (parser.parse url)) realm jar info ∧
      (getWebUserPassword parser jar url realm).1.map pair = some (pair (current info))
  others : ∀ jar' : List AuthInfo,
    jar'.filter (fun info => (entryKey info).matched (webKey (parser.parse url)) realm)
      = jar.filter (fun info => (entryKey info).matched (webKey (parser.parse url)) realm) →
    (getWebUserPassword parser jar' url realm).1.map pair = (getWebUserPassword parser jar url realm).1.map pair

theorem getWebUserPassword_pick (parser : UrlParser) (jar : List AuthInfo) (url realm : WString) :
    (getWebUserPassword parser jar url realm).1 = (pick (webKey (parser.parse url)) realm jar).map
      (fun info => credentials info (flag (webKey (parser.parse url)) jar info)) := by
  rw [getWebUserPassword_chosen, ← chosen_pick, Option.map_map]
  rfl

theorem pick_selected {info : AuthInfo} (h : pick key realm jar = some info) : Selected key realm jar info := by
  rw [← chosen_pick] at h
  obtain ⟨p, hp, rfl⟩ := Option.map_eq_some_iff.mp h
  exact chosen_selected hp

theorem pick_isSome {info : AuthInfo} (hmem : info ∈ jar) (h : (entryKey info).matched key realm = true) :
    (pick key realm jar).isSome := by
  by_contra hnone
  have hnone := Option.not_isSome_iff_eq_none.mp hnone
  rw [matched_eq, Bool.or_eq_true] at h
  unfold pick at hnone
  rw [Option.or_eq_none_iff, Option.or_eq_none_iff, List.argmax_eq_none, List.argmax_eq_none] at hnone
  rcases h with habove | hbeside
  · exact List.filter_eq_nil_iff.mp hnone.2.1 info hmem habove
  · exact List.filter_eq_nil_iff.mp hnone.2.2 info hmem hbeside

/-- both pairs of passwords of an entry are the same -/
def OnePair (info : AuthInfo) : Prop := info.user = info.tmpUser ∧ info.passwd = info.tmpPasswd

theorem onePair_iff (info : AuthInfo) :
    OnePair info ↔ pair (credentials info true) = pair (credentials info false) := by
  simp [OnePair, pair, credentials]

theorem onePair_flag {info : AuthInfo} (h : OnePair info) (a b : Bool) :
    pair (credentials info a) = pair (credentials info b) := by
  have hsame := (onePair_iff info).mp h
  cases a <;> cases b <;> simp [hsame]

/-- an entry of another host, to stand last -/
def stranger (key : WebKey) (confirmed : Bool) : AuthInfo :=
  { serverType := .HTTP, authScheme := .HTTPBasic, host := key.host ++ [0], port := 0, basePath := [], fullPath := []
    realm := [], confirmed := confirmed, user := [], passwd := [], tmpUser := [], tmpPasswd := [] }

theorem stranger_unmatched (key : WebKey) (realm : WString) (confirmed : Bool) :
    (entryKey (stranger key confirmed)).matched key realm = false := by
  have hhost : (key.host ++ [0] == key.host) = false := by simp
  unfold EntryKey.matched EntryKey.asked
  rw [Bool.and_eq_false_iff, Bool.and_eq_false_iff]
  exact .inl (.inl hhost)

/-- **A lookup answers with the passwords of the entry it has selected**, whatever the other entries are, exactly if
that entry has just the path of the request, or both its pairs of passwords are the same, or there is none. -/
theorem getWebUserPassword_faithful (parser : UrlParser) (jar : List AuthInfo) (url realm : WString) :
    Faithful parser jar url realm ↔ ∀ info, pick (webKey (parser.parse url)) realm jar = some info →
      (webKey (parser.parse url)).fullPath = info.fullPath ∨ OnePair info := by
  constructor
  · intro h info hpick
    by_cases hpath : (webKey (parser.parse url)).fullPath = info.fullPath
    · exact .inl hpath
    · refine .inr ((onePair_iff info).mpr ?_)
      -- the flag of an entry of another host, appended to the list, is the one that is read
      have hlast : ∀ b, (getWebUserPassword parser (jar ++ [stranger (webKey (parser.parse url)) b]) url realm).1.map
          pair = some (pair (credentials info b)) := by
        intro b
        have hfilter : (jar ++ [stranger (webKey (parser.parse url)) b]).filter
            (fun info => (entryKey info).matched (webKey (parser.parse url)) realm)
            = jar.filter (fun info => (entryKey info).matched (webKey (parser.parse url)) realm) := by
          simp [List.filter_append, stranger_unmatched]
        rw [getWebUserPassword_pick, ← pick_matched, hfilter, pick_matched, hpick]
        simp [flag, hpath, lastConfirmed, stranger]
      have hsame : ∀ b, (getWebUserPassword parser (jar ++ [stranger (webKey (parser.parse url)) b]) url realm).1.map
          pair = (getWebUserPassword parser jar url realm).1.map pair :=
        fun b => h.others _ (by simp [List.filter_append, stranger_unmatched])
      exact Option.some.inj ((hlast true).symm.trans ((hsame true).trans ((hsame false).symm.trans (hlast false))))
  · intro h
    -- whichever flag is read, the answer is the entry's own
    have hown : ∀ (jar' : List AuthInfo) (info : AuthInfo), pick (webKey (parser.parse url)) realm jar = some info →
        pair (credentials info (flag (webKey (parser.parse url)) jar' info)) = pair (current info) := by
      intro jar' info hpick
      rcases h info hpick with hpath | hone
      · rw [flag, if_pos hpath]
        rfl
      · exact onePair_flag hone _ _
    constructor
    · rintro ⟨other, hmem, hmatched⟩
      obtain ⟨info, hinfo⟩ := Option.isSome_iff_exists.mp (pick_isSome hmem hmatched)
      refine ⟨info, pick_selected hinfo, ?_⟩
      rw [getWebUserPassword_pick, hinfo]
      exact congrArg some (hown jar info hinfo)
    · intro jar' hfilter
      have hpick : pick (webKey (parser.parse url)) realm jar' = pick (webKey (parser.parse url)) realm jar := by
        rw [← pick_matched, hfilter, pick_matched]
      rw [getWebUserPassword_pick, getWebUserPassword_pick, hpick]
      cases hinfo : pick (webKey (parser.parse url)) realm jar with
      | none => rfl
      | some info =>
        exact congrArg some ((hown jar' info hinfo).trans (hown jar info hinfo).symm)

end

namespace Sample

/-- the first character of a URL is the host, the rest is the path -/
def sites : UrlParser where
  parse url := ⟨url.take 1, 0, url.drop 1, true, true⟩
  locationPath _ location := location.drop 1

/-- `h/a/` -/
def folder : WString := [0x68, slash, 0x61, slash]

/-- `h/a/b` -/
def page : WString := [0x68, slash, 0x61, slash, 0x62]

/-- `i/` -/
def elsewhere : WString := [0x69, slash]

/-- a password for the folder is confirmed, then one for another host is tried -/
def tried : List JarCall :=
  [.set folder .HTTP .HTTPBasic [0x72] [0x75] [0x70] [] true, .set elsewhere .HTTP .HTTPBasic [0x72] [0x76] [0x71] [] false]

end Sample

open AuthenticationJar.Sample

/-- the confirmed password is not answered, because the last entry is not confirmed -/
theorem getWebUserPassword_unfaithful : ¬ Faithful sites (Runs.run (call sites) [] tried) page [0x72] := by
  intro h
  have hall : ∀ info ∈ Runs.run (call sites) [] tried,
      (entryKey info).matched (webKey (sites.parse page)) [0x72] = true → pair (current info) = ([0x75], [0x70]) := by
    decide +kernel
  have hsome : ∃ info ∈ Runs.run (call sites) [] tried,
      (entryKey info).matched (webKey (sites.parse page)) [0x72] = true := by
    decide +kernel
  have hanswer : (getWebUserPassword sites (Runs.run (call sites) [] tried) page [0x72]).1.map pair = some ([], []) := by
    decide +kernel
  obtain ⟨info, hselected, hown⟩ := h.own hsome
  obtain ⟨hmem, hmatched⟩ := hselected.matched
  rw [hanswer, hall info hmem hmatched] at hown
  cases hown

section
variable {parser : UrlParser} {jar : List AuthInfo} {url realm : WString} {key : WebKey}

/-! ## a set as a change of one place -/

/-- the entry that a set appends, without its passwords -/
def blank (key : WebKey) (servertype : ProtectionSpaceServerType) (authscheme : ProtectionSpaceAuthenticationScheme)
    (realm : WString) : AuthInfo :=
  { serverType := servertype, authScheme := authscheme, host := key.host, port := key.port
    basePath := if decide (authscheme = .NTLM) then [slash] else key.basePath
    fullPath := if decide (authscheme = .NTLM) then [slash] else key.fullPath
    realm := realm, confirmed := false, user := [], passwd := [], tmpUser := [], tmpPasswd := [] }

/-- the entries, with the one that a set would append -/
def room (key : WebKey) (servertype : ProtectionSpaceServerType) (authscheme : ProtectionSpaceAuthenticationScheme)
    (realm : WString) (jar : List AuthInfo) : List AuthInfo :=
  if jar.any (updates key servertype authscheme realm) then jar else jar ++ [blank key servertype authscheme realm]

/-- the place that a set stores into -/
def target (key : WebKey) (servertype : ProtectionSpaceServerType) (authscheme : ProtectionSpaceAuthenticationScheme)
    (realm : WString) (jar : List AuthInfo) : Nat :=
  jar.findIdx (updates key servertype authscheme realm)

theorem updateFirst_eq (p : AuthInfo → Bool) (f : AuthInfo → AuthInfo) (jar : List AuthInfo) :
    updateFirst p f jar = if jar.any p then some (jar.modify (jar.findIdx p) f) else none := by
  induction jar with
  | nil => rfl
  | cons info rest ih =>
    rw [updateFirst, List.any_cons, List.findIdx_cons]
    cases hp : p info with
    | true => simp
    | false =>
      rw [ih]
      cases rest.any p <;> simp

theorem modify_append (jar : List AuthInfo) (f : AuthInfo → AuthInfo) (info : AuthInfo) :
    (jar ++ [info]).modify jar.length f = jar ++ [f info] := by
  induction jar with
  | nil => rfl
  | cons x rest ih => simpa using ih

theorem setWebUserPassword_eq (parser : UrlParser) (jar : List AuthInfo) (url : WString)
    (servertype : ProtectionSpaceServerType) (authscheme : ProtectionSpaceAuthenticationScheme)
    (realm user passwd : WString) (confirmed : Bool) :
    setWebUserPassword parser jar url servertype authscheme realm user passwd [] confirmed =
      (room (webKey (parser.parse url)) servertype authscheme realm jar).modify
        (target (webKey (parser.parse url)) servertype authscheme realm jar) (store confirmed user passwd) := by
  unfold setWebUserPassword room target
  dsimp only
  generalize webKey (parser.parse url) = key
  rw [updateFirst_eq]
  cases hany : jar.any (updates key servertype authscheme realm) with
  | true => simp
  | false =>
    have hend : jar.findIdx (updates key servertype authscheme realm) = jar.length := by
      rw [List.findIdx_eq_length]
      intro info hinfo
      exact Bool.eq_false_of_not_eq_true (List.any_eq_false.mp hany info hinfo)
    rw [hend]
    simp [modify_append, blank]

theorem target_lt (servertype : ProtectionSpaceServerType) (authscheme : ProtectionSpaceAuthenticationScheme) :
    target key servertype authscheme realm jar < (room key servertype authscheme realm jar).length := by
  unfold room target
  cases hany : jar.any (updates key servertype authscheme realm) with
  | true =>
    obtain ⟨info, hmem, hinfo⟩ := List.any_eq_true.mp hany
    simpa using List.findIdx_lt_length_of_exists ⟨info, hmem, hinfo⟩
  | false =>
    have hle : jar.findIdx (updates key servertype authscheme realm) ≤ jar.length := List.findIdx_le_length
    simp only [Bool.false_eq_true, if_false, List.length_append, List.length_singleton]
    omega

/-! ## what is read after a set -/

/-- whether the entry at a place is confirmed, once the one at `t` has been stored into -/
def confirmedAt (entries : List AuthInfo) (t : Nat) (confirmed : Bool) (place : Nat) : Bool :=
  if place = t then confirmed else (entries[place]?.map AuthInfo.confirmed).getD false

/-- the flag by which the entry at `s` is read then: its own if it has just the path, else that of the last entry -/
def flagAt (key : WebKey) (entries : List AuthInfo) (t : Nat) (confirmed : Bool) (s : Nat) (info : AuthInfo) : Bool :=
  confirmedAt entries t confirmed (if key.fullPath = info.fullPath then s else entries.length - 1)

theorem entryKey_store (confirmed : Bool) (user passwd : WString) (info : AuthInfo) :
    entryKey (store confirmed user passwd info) = entryKey info := by
  cases confirmed <;> rfl

theorem store_confirmed (confirmed : Bool) (user passwd : WString) (info : AuthInfo) :
    (store confirmed user passwd info).confirmed = confirmed := by
  cases confirmed <;> rfl

theorem modify_keys (entries : List AuthInfo) (t : Nat) (confirmed : Bool) (user passwd : WString) :
    (entries.modify t (store confirmed user passwd)).map entryKey = entries.map entryKey := by
  apply List.ext_getElem?
  intro i
  rw [List.getElem?_map, List.getElem?_modify, List.getElem?_map]
  cases entries[i]? with
  | none => rfl
  | some info =>
    by_cases h : t = i
    · simp [h, entryKey_store]
    · simp [h]

theorem confirmedAt_modify {entries : List AuthInfo} {t : Nat} (ht : t < entries.length) (confirmed : Bool)
    (user passwd : WString) (place : Nat) :
    ((entries.modify t (store confirmed user passwd))[place]?.map AuthInfo.confirmed).getD false =
      confirmedAt entries t confirmed place := by
  unfold confirmedAt
  rw [List.getElem?_modify]
  by_cases h : place = t
  · subst h
    simp [ht, store_confirmed]
  · have h' : ¬ t = place := fun heq => h heq.symm
    simp [h, h']

theorem get_modify {entries : List AuthInfo} {t : Nat} (ht : t < entries.length) (parser : UrlParser)
    (url realm user passwd : WString) (confirmed : Bool) :
    (getWebUserPassword parser (entries.modify t (store confirmed user passwd)) url realm).1 =
      (choice (webKey (parser.parse url)) realm (entries.map entryKey)).bind (fun s => entries[s]?.map (fun info =>
        credentials (if s = t then store confirmed user passwd info else info)
          (flagAt (webKey (parser.parse url)) entries t confirmed s info))) := by
  rw [getWebUserPassword_eq, modify_keys]
  generalize webKey (parser.parse url) = key
  congr 1
  funext s
  have hlast : lastConfirmed (entries.modify t (store confirmed user passwd))
      = confirmedAt entries t confirmed (entries.length - 1) := by
    rw [lastConfirmed, List.getLast?_eq_getElem?, List.length_modify, confirmedAt_modify ht]
  have hown := confirmedAt_modify ht confirmed user passwd s
  have hflag : ∀ info, flag key (entries.modify t (store confirmed user passwd)) info =
      if key.fullPath = info.fullPath then info.confirmed else confirmedAt entries t confirmed (entries.length - 1) := by
    intro info
    rw [flag, hlast]
  rw [List.getElem?_modify] at hown ⊢
  cases hs : entries[s]? with
  | none => rfl
  | some info =>
    rw [hs] at hown
    have hpath : (store confirmed user passwd info).fullPath = info.fullPath :=
      congrArg EntryKey.fullPath (entryKey_store confirmed user passwd info)
    by_cases h : t = s
    · subst h
      by_cases hexact : key.fullPath = info.fullPath
      · simp [hflag, flagAt, hpath, hexact, store_confirmed, confirmedAt]
      · simp [hflag, flagAt, hpath, hexact]
    · have h' : ¬ s = t := fun heq => h heq.symm
      by_cases hexact : key.fullPath = info.fullPath
      · simp [hflag, flagAt, hexact, h, h', hs, confirmedAt]
      · simp [hflag, flagAt, hexact, h, h']

/-- The entry at `s` is read with these passwords: it is the one they have been stored into, read by the flag they
have been stored under; or it has them already in the pair that is read. -/
inductive ReadAs (entries : List AuthInfo) (t : Nat) (confirmed : Bool) (user passwd : WString) (s : Nat)
    (info : AuthInfo) (read : Bool) : Prop where
  | stored : s = t → read = confirmed → ReadAs entries t confirmed user passwd s info read
  | erased : s = t → confirmed = true → read = false → user = [] → passwd = [] →
      ReadAs entries t confirmed user passwd s info read
  | kept : s = t → confirmed = false → read = true → (info.user, info.passwd) = (user, passwd) →
      ReadAs entries t confirmed user passwd s info read
  | other : s ≠ t → pair (credentials info read) = (user, passwd) → ReadAs entries t confirmed user passwd s info read

theorem readAs_iff (entries : List AuthInfo) (t : Nat) (confirmed : Bool) (user passwd : WString) (s : Nat)
    (info : AuthInfo) (read : Bool) :
    pair (credentials (if s = t then store confirmed user passwd info else info) read) = (user, passwd) ↔
      ReadAs entries t confirmed user passwd s info read := by
  by_cases h : s = t
  · rw [if_pos h]
    constructor
    · intro heq
      cases confirmed <;> cases read
      · exact .stored h rfl
      · exact .kept h rfl rfl heq
      · exact .erased h rfl rfl (congrArg Prod.fst heq).symm (congrArg Prod.snd heq).symm
      · exact .stored h rfl
    · intro hread
      cases hread with
      | stored _ hflag => subst hflag; cases read <;> rfl
      | erased _ hconfirmed hflag huser hpasswd => subst hconfirmed hflag huser hpasswd; rfl
      | kept _ hconfirmed hflag hpair => subst hconfirmed hflag; exact hpair
      | other hne => exact absurd h hne
  · rw [if_neg h]
    constructor
    · exact .other h
    · intro hread
      cases hread with
      | stored hs | erased hs | kept hs => exact absurd hs h
      | other _ hpair => exact hpair

/-- the entry that is read then is of this scheme and is read with these passwords -/
def ReadsBack (key : WebKey) (realm : WString) (authscheme : ProtectionSpaceAuthenticationScheme)
    (entries : List AuthInfo) (t : Nat) (confirmed : Bool) (user passwd : WString) : Prop :=
  ∃ s info, choice key realm (entries.map entryKey) = some s ∧ entries[s]? = some info ∧
    info.authScheme = authscheme ∧
    ReadAs entries t confirmed user passwd s info (flagAt key entries t confirmed s info)

/-- **What a get finds after a set**: the credentials of the set exactly if the entry that the get chooses is the one
that the set stores into and the flag that the get reads is that of the set, or else the pair that is read is that of
the set by chance. -/
theorem set_get_iff (parser : UrlParser) (jar : List AuthInfo) (url : WString)
    (authscheme : ProtectionSpaceAuthenticationScheme) (realm user passwd : WString) (confirmed : Bool) :
    (∃ servertype, (getWebUserPassword parser
        (setWebUserPassword parser jar url .HTTP authscheme realm user passwd [] confirmed) url realm).1 =
      some ⟨servertype, authscheme, user, passwd⟩) ↔
      ReadsBack (webKey (parser.parse url)) realm authscheme
        (room (webKey (parser.parse url)) .HTTP authscheme realm jar)
        (target (webKey (parser.parse url)) .HTTP authscheme realm jar) confirmed user passwd := by
  rw [setWebUserPassword_eq, get_modify (target_lt ..)]
  unfold ReadsBack
  generalize webKey (parser.parse url) = key
  generalize room key .HTTP authscheme realm jar = entries
  generalize target key .HTTP authscheme realm jar = t
  have hscheme : ∀ (s : Nat) (info : AuthInfo) (read : Bool),
      (credentials (if s = t then store confirmed user passwd info else info) read).authscheme = info.authScheme := by
    intro s info read
    split
    · cases confirmed <;> rfl
    · rfl
  constructor
  · rintro ⟨servertype, hanswer⟩
    obtain ⟨s, hs, hanswer⟩ := Option.bind_eq_some_iff.mp hanswer
    obtain ⟨info, hinfo, hanswer⟩ := Option.map_eq_some_iff.mp hanswer
    refine ⟨s, info, hs, hinfo, ?_, (readAs_iff ..).mp ?_⟩
    · rw [← hscheme s info, hanswer]
    · rw [hanswer]
      rfl
  · rintro ⟨s, info, hs, hinfo, hauth, hread⟩
    have hpair := (readAs_iff ..).mpr hread
    have hsame := hscheme s info (flagAt key entries t confirmed s info)
    rw [hs, Option.bind_some, hinfo, Option.map_some]
    generalize credentials _ _ = answer at hpair hsame
    obtain ⟨servertype, scheme, u, p⟩ := answer
    obtain ⟨rfl, rfl⟩ := Prod.mk.inj hpair
    exact ⟨servertype, by rw [← hauth, ← hsame]⟩

end

/-- a get answers with the other scheme's password, stored before for the same folder -/
theorem set_get_other : ¬ ∃ servertype, (getWebUserPassword sites
      (setWebUserPassword sites
        (Runs.run (call sites) [] [.set folder .HTTP .HTTPBasic [0x72] [0x75] [0x70] [] true])
        folder .HTTP .HTTPDigest [0x72] [0x76] [0x71] [] true) folder [0x72]).1 =
    some ⟨servertype, .HTTPDigest, [0x76], [0x71]⟩ := by
  have hanswer : (getWebUserPassword sites
      (setWebUserPassword sites
        (Runs.run (call sites) [] [.set folder .HTTP .HTTPBasic [0x72] [0x75] [0x70] [] true])
        folder .HTTP .HTTPDigest [0x72] [0x76] [0x71] [] true) folder [0x72]).1 =
      some ⟨.HTTP, .HTTPBasic, [0x75], [0x70]⟩ := by decide +kernel
  rintro ⟨servertype, h⟩
  rw [hanswer] at h
  cases h

section
variable {parser : UrlParser} {jar : List AuthInfo} {url realm : WString} {key : WebKey}

/-! ## what is read after a set and a delete -/

/-- the entry is deleted for a URL of this key -/
def EntryKey.rejected (key : WebKey) (realm : WString) (e : EntryKey) : Bool :=
  e.asked key realm && (key.fullPath == e.fullPath && key.basePath == e.basePath)

/-- the entries that a delete leaves, with the places they had -/
def left (key : WebKey) (realm : WString) (entries : List AuthInfo) : List (AuthInfo × Nat) :=
  entries.zipIdx.eraseIdx (entries.findIdx (fun info => (entryKey info).rejected key realm))

/-- whether an entry is confirmed once an unconfirmed set has stored into the place `t` -/
def staysConfirmed (t : Nat) (p : AuthInfo × Nat) : Bool := if p.2 = t then false else p.1.confirmed

/-- the flag by which an entry is read among those that are left -/
def flagLeft (key : WebKey) (t : Nat) (infos : List (AuthInfo × Nat)) (p : AuthInfo × Nat) : Bool :=
  if key.fullPath = p.1.fullPath then staysConfirmed t p else (infos.getLast?.map (staysConfirmed t)).getD false

/-- Passwords are gone after an unconfirmed set and a delete, by the entries before both: the set appends an entry and
the delete meets no older one; or what a get finds among the entries left is another one than the set stores into,
which has other passwords; or it is that one, but it is read as confirmed and was with other passwords. -/
inductive Forgets (key : WebKey) (authscheme : ProtectionSpaceAuthenticationScheme) (realm : WString)
    (jar : List AuthInfo) (user passwd : WString) : Prop where
  | fresh : (∀ info ∈ jar, updates key .HTTP authscheme realm info = false) →
      (∀ info ∈ jar, (entryKey info).rejected key realm = false) →
      (authscheme = .NTLM → key.fullPath = [slash] ∧ key.basePath = [slash]) →
      Forgets key authscheme realm jar user passwd
  | elsewhere : (∀ p, chosen key realm (left key realm (room key .HTTP authscheme realm jar)) = some p →
      p.2 ≠ target key .HTTP authscheme realm jar ∧
      pair (credentials p.1 (flagLeft key (target key .HTTP authscheme realm jar)
        (left key realm (room key .HTTP authscheme realm jar)) p)) ≠ (user, passwd)) →
      Forgets key authscheme realm jar user passwd
  | confirmed (p : AuthInfo × Nat) :
      chosen key realm (left key realm (room key .HTTP authscheme realm jar)) = some p →
      p.2 = target key .HTTP authscheme realm jar →
      flagLeft key p.2 (left key realm (room key .HTTP authscheme realm jar)) p = true →
      (p.1.user, p.1.passwd) ≠ (user, passwd) → Forgets key authscheme realm jar user passwd

/-- an entry at its place, after a set has stored into the place `t` -/
def stored (t : Nat) (user passwd : WString) (p : AuthInfo × Nat) : AuthInfo :=
  if p.2 = t then store false user passwd p.1 else p.1

theorem entryKey_stored (t : Nat) (user passwd : WString) (p : AuthInfo × Nat) :
    entryKey (stored t user passwd p) = entryKey p.1 := by
  unfold stored
  split
  · exact entryKey_store ..
  · rfl

theorem stored_confirmed (t : Nat) (user passwd : WString) (p : AuthInfo × Nat) :
    (stored t user passwd p).confirmed = staysConfirmed t p := by
  unfold stored staysConfirmed
  split
  · exact store_confirmed ..
  · rfl

theorem modify_stored (entries : List AuthInfo) (t : Nat) (user passwd : WString) :
    entries.modify t (store false user passwd) = entries.zipIdx.map (stored t user passwd) := by
  apply List.ext_getElem?
  intro i
  rw [List.getElem?_modify, List.getElem?_map, List.getElem?_zipIdx, Option.map_map]
  cases entries[i]? with
  | none => rfl
  | some info =>
    by_cases h : t = i
    · simp [stored, h]
    · have h' : ¬ i = t := fun heq => h heq.symm
      simp [stored, h, h']

theorem deleteWebUserPassword_stored (parser : UrlParser) (entries : List AuthInfo) (t : Nat)
    (url realm user passwd : WString) :
    deleteWebUserPassword parser (entries.modify t (store false user passwd)) url realm =
      (left (webKey (parser.parse url)) realm entries).map (stored t user passwd) := by
  have hdelete : deleteWebUserPassword parser (entries.modify t (store false user passwd)) url realm =
      (entries.modify t (store false user passwd)).eraseP
        (fun info => (entryKey info).rejected (webKey (parser.parse url)) realm) := rfl
  -- the delete looks at the keys, which the set has not changed
  have hplace : (entries.modify t (store false user passwd)).findIdx?
      (fun info => (entryKey info).rejected (webKey (parser.parse url)) realm) =
      entries.findIdx? (fun info => (entryKey info).rejected (webKey (parser.parse url)) realm) := by
    have hkeys := congrArg (List.findIdx? (fun e => EntryKey.rejected (webKey (parser.parse url)) realm e))
      (modify_keys entries t false user passwd)
    rwa [List.findIdx?_map, List.findIdx?_map] at hkeys
  rw [hdelete, List.eraseP_eq_eraseIdx, hplace, left, modify_stored]
  cases hfind : entries.findIdx? (fun info => (entryKey info).rejected (webKey (parser.parse url)) realm) with
  | none =>
    have hend := List.findIdx_eq_length.mpr (fun info hinfo => List.findIdx?_eq_none_iff.mp hfind info hinfo)
    rw [hend, List.eraseIdx_of_length_le (by rw [List.length_zipIdx])]
  | some d =>
    have hd : entries.findIdx (fun info => (entryKey info).rejected (webKey (parser.parse url)) realm) = d := by
      rw [List.findIdx_eq_getD_findIdx?, hfind]
      rfl
    rw [hd]
    show (entries.zipIdx.map (stored t user passwd)).eraseIdx d = _
    rw [List.eraseIdx_eq_take_drop_succ, List.eraseIdx_eq_take_drop_succ, List.map_append, List.map_take, List.map_drop]

theorem getWebUserPassword_stored (parser : UrlParser) (infos : List (AuthInfo × Nat)) (t : Nat)
    (url realm user passwd : WString) :
    (getWebUserPassword parser (infos.map (stored t user passwd)) url realm).1 =
      (chosen (webKey (parser.parse url)) realm infos).map (fun p =>
        credentials (stored t user passwd p) (flagLeft (webKey (parser.parse url)) t infos p)) := by
  rw [getWebUserPassword_pick]
  generalize webKey (parser.parse url) = key
  have hfull : ∀ p, (stored t user passwd p).fullPath = p.1.fullPath := fun p =>
    congrArg EntryKey.fullPath (entryKey_stored t user passwd p)
  have hbase : ∀ p, (stored t user passwd p).basePath = p.1.basePath := fun p =>
    congrArg EntryKey.basePath (entryKey_stored t user passwd p)
  have hpick : pick key realm (infos.map (stored t user passwd)) =
      (chosen key realm infos).map (stored t user passwd) := by
    unfold pick chosen
    simp only [List.find?_map, List.filter_map, argmax_map, ← Option.map_or, Function.comp_def, entryKey_stored,
      hfull, hbase]
  have hflag : ∀ p, flag key (infos.map (stored t user passwd)) (stored t user passwd p) = flagLeft key t infos p := by
    intro p
    unfold flag flagLeft lastConfirmed
    rw [hfull, stored_confirmed, List.getLast?_map, Option.map_map]
    have hlast : AuthInfo.confirmed ∘ stored t user passwd = staysConfirmed t := funext (stored_confirmed t user passwd)
    rw [hlast]
  rw [hpick, Option.map_map]
  simp only [Function.comp_def, hflag]

theorem pair_stored (t : Nat) (user passwd : WString) (p : AuthInfo × Nat) (read : Bool) :
    pair (credentials (stored t user passwd p) read) =
      if p.2 = t ∧ read = false then (user, passwd) else pair (credentials p.1 read) := by
  unfold stored
  by_cases h : p.2 = t
  · cases read <;> simp [h, store, credentials, pair]
  · simp [h]

theorem get_deleted (parser : UrlParser) (jar : List AuthInfo) (url : WString)
    (authscheme : ProtectionSpaceAuthenticationScheme) (realm user passwd : WString) :
    (getWebUserPassword parser (deleteWebUserPassword parser
      (setWebUserPassword parser jar url .HTTP authscheme realm user passwd [] false) url realm) url realm).1 =
    (chosen (webKey (parser.parse url)) realm
        (left (webKey (parser.parse url)) realm (room (webKey (parser.parse url)) .HTTP authscheme realm jar))).map
      (fun p => credentials (stored (target (webKey (parser.parse url)) .HTTP authscheme realm jar) user passwd p)
        (flagLeft (webKey (parser.parse url)) (target (webKey (parser.parse url)) .HTTP authscheme realm jar)
          (left (webKey (parser.parse url)) realm (room (webKey (parser.parse url)) .HTTP authscheme realm jar)) p)) := by
  rw [setWebUserPassword_eq, deleteWebUserPassword_stored, getWebUserPassword_stored]

theorem delete_fresh {authscheme : ProtectionSpaceAuthenticationScheme}
    (hnew : ∀ info ∈ jar, updates (webKey (parser.parse url)) .HTTP authscheme realm info = false)
    (hold : ∀ info ∈ jar, (entryKey info).rejected (webKey (parser.parse url)) realm = false)
    (hpath : authscheme = .NTLM →
      (webKey (parser.parse url)).fullPath = [slash] ∧ (webKey (parser.parse url)).basePath = [slash])
    (user passwd : WString) :
    deleteWebUserPassword parser (setWebUserPassword parser jar url .HTTP authscheme realm user passwd [] false) url
      realm = jar := by
  rw [setWebUserPassword_eq]
  generalize hkey : webKey (parser.parse url) = key at *
  have hany : jar.any (updates key .HTTP authscheme realm) = false :=
    List.any_eq_false.mpr (fun info hinfo => Bool.eq_false_iff.mp (hnew info hinfo))
  have hend : target key .HTTP authscheme realm jar = jar.length := List.findIdx_eq_length.mpr hnew
  have hdelete : ∀ entries, deleteWebUserPassword parser entries url realm =
      entries.eraseP (fun info => (entryKey info).rejected key realm) := fun entries => by rw [← hkey]; rfl
  have hblank : (entryKey (store false user passwd (blank key .HTTP authscheme realm))).rejected key realm = true := by
    rw [entryKey_store]
    by_cases hntlm : authscheme = .NTLM
    · simp [EntryKey.rejected, EntryKey.asked, entryKey, blank, hntlm, hpath hntlm]
    · simp [EntryKey.rejected, EntryKey.asked, entryKey, blank, hntlm]
  rw [room, hany, hend, hdelete]
  show ((jar ++ [blank key .HTTP authscheme realm]).modify jar.length _).eraseP _ = jar
  rw [modify_append, List.eraseP_append_right _ (fun info hinfo => Bool.eq_false_iff.mp (hold info hinfo)),
    List.eraseP_cons, hblank, cond_true, List.append_nil]

/-- **What a get finds after an unconfirmed set and a delete**: not the password of the set, if it was not answered
before the set, exactly if the entries as they were before are such that it is forgotten. -/
theorem set_delete_get_iff (parser : UrlParser) (jar : List AuthInfo) (url : WString)
    (authscheme : ProtectionSpaceAuthenticationScheme) (realm user passwd : WString)
    (hbefore : (getWebUserPassword parser jar url realm).1.map pair ≠ some (user, passwd)) :
    (getWebUserPassword parser (deleteWebUserPassword parser
      (setWebUserPassword parser jar url .HTTP authscheme realm user passwd [] false) url realm) url realm).1.map
        pair ≠ some (user, passwd) ↔
    Forgets (webKey (parser.parse url)) authscheme realm jar user passwd := by
  have hget := get_deleted parser jar url authscheme realm user passwd
  constructor
  · intro hafter
    rw [hget] at hafter
    generalize webKey (parser.parse url) = key at hafter
    cases hchosen : chosen key realm (left key realm (room key .HTTP authscheme realm jar)) with
    | none => exact .elsewhere (fun p hp => nomatch hchosen.symm.trans hp)
    | some p =>
      rw [hchosen, Option.map_some, Option.map_some, Ne, Option.some.injEq, pair_stored] at hafter
      by_cases hplace : p.2 = target key .HTTP authscheme realm jar
      · rw [← hplace] at hafter
        have hread : flagLeft key p.2 (left key realm (room key .HTTP authscheme realm jar)) p = true :=
          Bool.eq_true_of_not_eq_false (fun hfalse => hafter (if_pos ⟨rfl, hfalse⟩))
        rw [hread, if_neg (by simp)] at hafter
        exact .confirmed p hchosen hplace hread hafter
      · refine .elsewhere (fun q hq => ?_)
        obtain rfl := Option.some.inj (hchosen.symm.trans hq)
        rw [if_neg (fun h => hplace h.1)] at hafter
        exact ⟨hplace, hafter⟩
  · intro h
    cases h with
    | fresh hnew hold hpath => rwa [delete_fresh hnew hold hpath]
    | elsewhere hother =>
      rw [hget]
      intro heq
      obtain ⟨answer, hanswer, hpair⟩ := Option.map_eq_some_iff.mp heq
      obtain ⟨p, hp, rfl⟩ := Option.map_eq_some_iff.mp hanswer
      obtain ⟨hplace, hne⟩ := hother p hp
      rw [pair_stored, if_neg (fun h => hplace h.1)] at hpair
      exact hne hpair
    | confirmed p hp hplace hread hne =>
      rw [hget, hp, Option.map_some, Option.map_some, ← hplace, hread, Ne, Option.some.injEq, pair_stored,
        if_neg (by simp)]
      exact hne

end

/-- a password that has failed for a page, with one of its folder stored already, by another scheme -/
theorem set_delete_get_page : (getWebUserPassword sites (deleteWebUserPassword sites
      (setWebUserPassword sites (Runs.run (call sites) [] tried) page .HTTP .HTTPDigest [0x72] [0x75] [0x78] [] false)
        page [0x72]) page [0x72]).1.map pair ≠ some ([0x75], [0x78]) :=
  (set_delete_get_iff sites (Runs.run (call sites) [] tried) page .HTTPDigest [0x72] [0x75] [0x78]
    (by decide +kernel)).mpr (.fresh (by decide +kernel) (by decide +kernel) (fun h => nomatch h))

/-- a password of NTLM is stored under the path of the server, where the delete does not look for it -/
theorem set_delete_get_kept : (getWebUserPassword sites [] folder [0x72]).1 = none ∧
    (getWebUserPassword sites (deleteWebUserPassword sites
      (setWebUserPassword sites [] folder .HTTP .NTLM [0x72] [0x75] [0x70] [] false) folder [0x72]) folder [0x72]).1 =
    some ⟨.HTTP, .NTLM, [0x75], [0x70]⟩ := by
  decide +kernel

end AuthenticationJar
end Wkc
