import Mathlib.Data.List.Basic
import WkcBrowser.Lib.Runs
import WkcBrowser.Wtf.Text

/-!
# `AuthenticationJar`: the passwords of web servers

The jar keeps one entry for each directory, with its host and its port.  All three loops compare the hosts
and the paths; none of them compares the ports.

* `sanitizeURL`, `basePath`, `WebKey`     what is compared of a URL;
* `getWebUserPassword`, `setWebUserPassword`, `deleteWebUserPassword`   the calls;
* `best`                the entry that answers a request;
* `Isolated`            the entry a call updates or answers with is of the port of its URL;
* `credentials_isolated`   in a run of such calls the passwords stay with their port.

`String`s are not null.
-/

namespace Wkc

inductive ProtectionSpaceServerType where
  | HTTP | HTTPS | FTP | FTPS | ProxyHTTP | ProxyHTTPS | ProxyFTP | ProxySOCKS
  deriving DecidableEq

inductive ProtectionSpaceAuthenticationScheme where
  | Default | HTTPBasic | HTTPDigest | HTMLForm | NTLM | Negotiate | ClientCertificateRequested
  | ServerTrustEvaluationRequested | Unknown
  deriving DecidableEq

/-- what `KURL` tells of a URL -/
structure UrlParts where
  host : WString
  port : UInt16
  path : WString
  hasPath : Bool
  isHTTP : Bool

/-- `KURL`: the parts of a URL, and the path of a location relative to it -/
structure UrlParser where
  parse : WString → UrlParts
  locationPath : WString → WString → WString

structure AuthInfo where
  serverType : ProtectionSpaceServerType
  authScheme : ProtectionSpaceAuthenticationScheme
  host : WString
  port : UInt16
  basePath : WString
  fullPath : WString
  realm : WString
  confirmed : Bool
  user : WString
  passwd : WString
  tmpUser : WString
  tmpPasswd : WString
  deriving DecidableEq

namespace AuthenticationJar

def slash : UInt16 := 0x2F

/-- the port of the URL: its own, or the one of its protocol -/
def sanitizeURL (u : UrlParts) : UInt16 :=
  if u.port ≠ 0 then u.port else if u.isHTTP then 80 else 443

/-- up to the last slash -/
def basePath (path : WString) : WString := (path.reverse.dropWhile (fun c => c ≠ slash)).reverse

/-- what the calls compare of a URL -/
structure WebKey where
  host : WString
  port : UInt16
  fullPath : WString
  basePath : WString

def webKey (u : UrlParts) : WebKey :=
  let path := if u.hasPath then u.path else [slash]
  { host := u.host
    port := sanitizeURL u
    fullPath := if [slash].isSuffixOf path then path else path ++ [slash]
    basePath := basePath path }

/-! ## `getWebUserPassword` -/

def longer (current : Option (AuthInfo × Nat)) (newinfo : AuthInfo × Nat) (compFull : Bool) :
    AuthInfo × Nat :=
  match current with
  | none => newinfo
  | some info =>
    if compFull then
      if info.1.fullPath.length < newinfo.1.fullPath.length then newinfo else info
    else
      if info.1.basePath.length < newinfo.1.basePath.length then newinfo else info

/-- the host and the realm are compared -/
def asked (key : WebKey) (realm : WString) (info : AuthInfo) : Bool :=
  info.host == key.host && (realm.isEmpty || info.realm == realm)

inductive Found where
  | exact (info : AuthInfo)
  | longest (fullpath basepath : Option (AuthInfo × Nat))

/-- the loop, over the entries with their places -/
def getLoop (key : WebKey) (realm : WString) :
    List (AuthInfo × Nat) → Option (AuthInfo × Nat) → Option (AuthInfo × Nat) → Found
  | [], fullpath, basepath => .longest fullpath basepath
  | (info, i) :: rest, fullpath, basepath =>
    if info.host ≠ key.host then getLoop key realm rest fullpath basepath
    else if ¬ realm.isEmpty = true ∧ info.realm ≠ realm then getLoop key realm rest fullpath basepath
    else if key.fullPath = info.fullPath then .exact info
    else if info.fullPath.isPrefixOf key.fullPath then
      getLoop key realm rest (some (longer fullpath (info, i) true)) basepath
    else if info.basePath.isPrefixOf key.fullPath then
      getLoop key realm rest fullpath (some (longer basepath (info, i) false))
    else getLoop key realm rest fullpath basepath

structure Credentials where
  servertype : ProtectionSpaceServerType
  authscheme : ProtectionSpaceAuthenticationScheme
  user : WString
  passwd : WString
  deriving DecidableEq

/-- `confirmed` is not always the entry's own -/
def credentials (info : AuthInfo) (confirmed : Bool) : Credentials :=
  { servertype := info.serverType
    authscheme := info.authScheme
    user := if confirmed then info.user else info.tmpUser
    passwd := if confirmed then info.passwd else info.tmpPasswd }

/-- whether the last entry the loop has looked at is confirmed -/
def lastConfirmed (jar : List AuthInfo) : Bool := (jar.getLast?.map AuthInfo.confirmed).getD false

def getWebUserPassword (parser : UrlParser) (jar : List AuthInfo) (url realm : WString) :
    Option Credentials × List AuthInfo :=
  match getLoop (webKey (parser.parse url)) realm jar.zipIdx none none with
  | .exact info => (some (credentials info info.confirmed), jar)
  | .longest (some (longest, i)) _ =>
    (some (credentials longest (lastConfirmed jar)), jar.set i { longest with basePath := longest.fullPath })
  | .longest none (some (longest, _)) => (some (credentials longest (lastConfirmed jar)), jar)
  | .longest none none => (none, jar)

/-! ## `setWebUserPassword`, `deleteWebUserPassword` -/

/-- the entry is updated by the call -/
def updates (key : WebKey) (servertype : ProtectionSpaceServerType)
    (authscheme : ProtectionSpaceAuthenticationScheme) (realm : WString) (info : AuthInfo) : Bool :=
  if authscheme = .NTLM then
    info.authScheme == authscheme && info.serverType == servertype && info.host == key.host
  else
    info.authScheme == authscheme && info.serverType == servertype && info.realm == realm &&
      info.host == key.host && (key.fullPath == info.fullPath || key.basePath == info.basePath)

def store (confirmed : Bool) (user passwd : WString) (info : AuthInfo) : AuthInfo :=
  if confirmed then
    { info with user := user, passwd := passwd, confirmed := true, tmpUser := [], tmpPasswd := [] }
  else { info with confirmed := false, tmpUser := user, tmpPasswd := passwd }

/-- `none` if there is no such entry -/
def updateFirst (p : AuthInfo → Bool) (f : AuthInfo → AuthInfo) : List AuthInfo → Option (List AuthInfo)
  | [] => none
  | info :: rest => if p info then some (f info :: rest) else (updateFirst p f rest).map (info :: ·)

def setWebUserPassword (parser : UrlParser) (jar : List AuthInfo) (url : WString)
    (servertype : ProtectionSpaceServerType) (authscheme : ProtectionSpaceAuthenticationScheme)
    (realm user passwd location : WString) (confirmed : Bool) : List AuthInfo :=
  let key := webKey (parser.parse url)
  let fullBaseSame := !location.isEmpty && key.fullPath.isPrefixOf (parser.locationPath url location)
  let confirmed := confirmed || !location.isEmpty
  let ntlm := decide (authscheme = .NTLM)
  let update (info : AuthInfo) : AuthInfo :=
    store confirmed user passwd
      (if !ntlm && key.fullPath == info.fullPath && fullBaseSame then
        { info with basePath := info.fullPath }
      else info)
  match updateFirst (updates key servertype authscheme realm) update jar with
  | some jar => jar
  | none =>
    if location.isEmpty then
      jar ++ [store confirmed user passwd
        { serverType := servertype, authScheme := authscheme, host := key.host, port := key.port
          basePath := if ntlm then [slash] else key.basePath
          fullPath := if ntlm then [slash] else key.fullPath
          realm := realm, confirmed := false, user := [], passwd := [], tmpUser := [], tmpPasswd := [] }]
    else jar

def deleteWebUserPassword (parser : UrlParser) (jar : List AuthInfo) (url realm : WString) :
    List AuthInfo :=
  let key := webKey (parser.parse url)
  jar.eraseP (fun info => info.host == key.host && (realm.isEmpty || info.realm == realm) &&
    (key.fullPath == info.fullPath && key.basePath == info.basePath))

/-! ## a run -/

inductive JarCall where
  | get (url realm : WString)
  | set (url : WString) (servertype : ProtectionSpaceServerType)
      (authscheme : ProtectionSpaceAuthenticationScheme) (realm user passwd location : WString)
      (confirmed : Bool)
  | delete (url realm : WString)

def call (parser : UrlParser) (jar : List AuthInfo) : JarCall → List AuthInfo
  | .get url realm => (getWebUserPassword parser jar url realm).2
  | .set url servertype authscheme realm user passwd location confirmed =>
    setWebUserPassword parser jar url servertype authscheme realm user passwd location confirmed
  | .delete url realm => deleteWebUserPassword parser jar url realm

/-- the first of the longest -/
def longestOf (compFull : Bool) (infos : List (AuthInfo × Nat)) : Option (AuthInfo × Nat) :=
  infos.foldl (fun current info => some (longer current info compFull)) none

/-- The entry for a request: the first with just its path, else the one with the longest path above it,
else the one with the longest directory above it. -/
def best (key : WebKey) (realm : WString) (jar : List AuthInfo) : Option AuthInfo :=
  match jar.find? (fun info => asked key realm info && key.fullPath == info.fullPath) with
  | some info => some info
  | none =>
    ((longestOf true (jar.zipIdx.filter (fun p => asked key realm p.1 &&
        p.1.fullPath.isPrefixOf key.fullPath))).or
      (longestOf false (jar.zipIdx.filter (fun p => asked key realm p.1 &&
        (!p.1.fullPath.isPrefixOf key.fullPath && p.1.basePath.isPrefixOf key.fullPath))))).map
      Prod.fst

/-- The entry the call updates or answers with is of the port of the URL; and if it is not found by just its
path, it is confirmed exactly if the last entry is. -/
def Isolated (parser : UrlParser) (jar : List AuthInfo) : JarCall → Prop
  | .get url realm =>
    let key := webKey (parser.parse url)
    ∀ info, best key realm jar = some info →
      info.port = key.port ∧ (key.fullPath = info.fullPath ∨ info.confirmed = lastConfirmed jar)
  | .set url servertype authscheme realm _ _ _ _ =>
    let key := webKey (parser.parse url)
    ∀ info, jar.find? (updates key servertype authscheme realm) = some info → info.port = key.port
  | .delete _ _ => True

/-- the call has stored these credentials for the host and the port -/
def JarCall.stored (parser : UrlParser) (host : WString) (port : UInt16) (user passwd : WString) :
    JarCall → Prop
  | .set url _ _ _ u p _ _ =>
    (webKey (parser.parse url)).host = host ∧ (webKey (parser.parse url)).port = port ∧
      u = user ∧ p = passwd
  | _ => False

/-! ## the loop finds the best entry -/

section
variable {key : WebKey} {realm : WString}

theorem longestOf_mem (compFull : Bool) {infos : List (AuthInfo × Nat)} {p : AuthInfo × Nat}
    (h : longestOf compFull infos = some p) : p ∈ infos := by
  have hgen : ∀ (infos : List (AuthInfo × Nat)) (current : Option (AuthInfo × Nat)),
      infos.foldl (fun current info => some (longer current info compFull)) current = some p →
      p ∈ infos ∨ current = some p := by
    intro infos
    induction infos with
    | nil => exact fun current h => .inr h
    | cons info infos ih =>
      intro current h
      rcases ih _ h with hmem | hnew
      · exact .inl (List.mem_cons_of_mem _ hmem)
      · have hnew := Option.some.inj hnew
        unfold longer at hnew
        split at hnew
        · exact .inl (by rw [hnew]; exact List.mem_cons_self)
        · split at hnew
          all_goals
            split at hnew
            · exact .inl (by rw [hnew]; exact List.mem_cons_self)
            · exact .inr (by rw [hnew])
  exact (hgen infos none h).resolve_right nofun

theorem getLoop_eq (infos : List (AuthInfo × Nat)) (fullpath basepath : Option (AuthInfo × Nat)) :
    getLoop key realm infos fullpath basepath =
      match (infos.map Prod.fst).find? (fun info => asked key realm info && key.fullPath == info.fullPath) with
      | some info => .exact info
      | none => .longest
          ((infos.filter (fun p => asked key realm p.1 && p.1.fullPath.isPrefixOf key.fullPath)).foldl
            (fun current info => some (longer current info true)) fullpath)
          ((infos.filter (fun p => asked key realm p.1 &&
            (!p.1.fullPath.isPrefixOf key.fullPath && p.1.basePath.isPrefixOf key.fullPath))).foldl
            (fun current info => some (longer current info false)) basepath) := by
  induction infos generalizing fullpath basepath with
  | nil => rfl
  | cons p infos ih =>
    obtain ⟨info, i⟩ := p
    rw [getLoop, List.map_cons, List.find?_cons, List.filter_cons, List.filter_cons]
    by_cases hhost : info.host = key.host
    · rw [if_neg (not_not_intro hhost)]
      by_cases hrealm : ¬ realm.isEmpty = true ∧ info.realm ≠ realm
      · have hnot : asked key realm info = false := by
          unfold asked
          simp [hrealm.1, hrealm.2]
        rw [if_pos hrealm, ih, hnot]
        rfl
      · have hasked : asked key realm info = true := by
          unfold asked
          simp only [hhost, beq_self_eq_true, Bool.true_and, Bool.or_eq_true, beq_iff_eq]
          by_cases hempty : realm.isEmpty = true
          · exact .inl hempty
          · exact .inr (Classical.not_not.mp (fun hne => hrealm ⟨hempty, hne⟩))
        rw [if_neg hrealm, hasked]
        by_cases hfull : key.fullPath = info.fullPath
        · have hbeq : (key.fullPath == info.fullPath) = true := beq_iff_eq.mpr hfull
          rw [if_pos hfull, hbeq]
          rfl
        · have hbeq : (key.fullPath == info.fullPath) = false := beq_false_of_ne hfull
          rw [if_neg hfull, hbeq]
          cases hprefix : info.fullPath.isPrefixOf key.fullPath with
          | true =>
            rw [if_pos rfl, ih]
            rfl
          | false =>
            rw [if_neg Bool.false_ne_true]
            cases hbase : info.basePath.isPrefixOf key.fullPath with
            | true =>
              rw [if_pos rfl, ih]
              rfl
            | false =>
              rw [if_neg Bool.false_ne_true, ih]
              rfl
    · have hnot : asked key realm info = false := by
        unfold asked
        simp [hhost]
      rw [if_pos hhost, ih, hnot]
      rfl

theorem getWebUserPassword_best {parser : UrlParser} {jar : List AuthInfo} {url : WString}
    {answer : Credentials} (h : (getWebUserPassword parser jar url realm).1 = some answer) :
    ∃ info ∈ jar, best (webKey (parser.parse url)) realm jar = some info ∧
      info.host = (webKey (parser.parse url)).host ∧
      ((webKey (parser.parse url)).fullPath = info.fullPath ∧ answer = credentials info info.confirmed ∨
        (webKey (parser.parse url)).fullPath ≠ info.fullPath ∧
          answer = credentials info (lastConfirmed jar)) := by
  unfold getWebUserPassword at h
  generalize webKey (parser.parse url) = key at h ⊢
  have hmap : jar.zipIdx.map Prod.fst = jar := List.zipIdx_map_fst 0 jar
  rw [getLoop_eq, hmap] at h
  unfold best
  cases hfind : jar.find? (fun info => asked key realm info && key.fullPath == info.fullPath) with
  | some info =>
    rw [hfind] at h
    have hmatch := List.find?_some hfind
    rw [Bool.and_eq_true, asked, Bool.and_eq_true, beq_iff_eq, beq_iff_eq] at hmatch
    exact ⟨info, List.mem_of_find?_eq_some hfind, rfl, hmatch.1.1,
      .inl ⟨hmatch.2, (Option.some.inj h).symm⟩⟩
  | none =>
    rw [hfind] at h
    dsimp only at h ⊢
    have hcand : ∀ (p : AuthInfo × Nat) (q : AuthInfo × Nat → Bool),
        p ∈ jar.zipIdx.filter (fun p => asked key realm p.1 && q p) →
        p.1 ∈ jar ∧ p.1.host = key.host ∧ key.fullPath ≠ p.1.fullPath := by
      intro p q hp
      obtain ⟨hmem, hq⟩ := List.mem_filter.mp hp
      have hjar : p.1 ∈ jar := by
        rw [← hmap]
        exact List.mem_map_of_mem hmem
      have hasked : asked key realm p.1 = true := (Bool.and_eq_true_iff.mp hq).1
      have hnot := List.find?_eq_none.mp hfind p.1 hjar
      have hhost := hasked
      rw [asked, Bool.and_eq_true, beq_iff_eq] at hhost
      refine ⟨hjar, hhost.1, ?_⟩
      intro heq
      apply hnot
      rw [hasked, Bool.true_and, beq_iff_eq]
      exact heq
    unfold longestOf
    generalize hfull : (jar.zipIdx.filter (fun p => asked key realm p.1 &&
      p.1.fullPath.isPrefixOf key.fullPath)).foldl
        (fun current info => some (longer current info true)) none = full at h ⊢
    cases full with
    | some p =>
      obtain ⟨hjar, hhost, hne⟩ := hcand p _ (longestOf_mem true hfull)
      exact ⟨p.1, hjar, rfl, hhost, .inr ⟨hne, (Option.some.inj h).symm⟩⟩
    | none =>
      generalize hbase : (jar.zipIdx.filter (fun p => asked key realm p.1 &&
        (!p.1.fullPath.isPrefixOf key.fullPath && p.1.basePath.isPrefixOf key.fullPath))).foldl
          (fun current info => some (longer current info false)) none = base at h ⊢
      cases base with
      | some p =>
        obtain ⟨hjar, hhost, hne⟩ := hcand p _ (longestOf_mem false hbase)
        exact ⟨p.1, hjar, rfl, hhost, .inr ⟨hne, (Option.some.inj h).symm⟩⟩
      | none => cases h

end

/-! ## the passwords of the jar were stored for their port -/

/-- the passwords the entry answers with -/
def current (info : AuthInfo) : Credentials := credentials info info.confirmed

/-- each entry has the passwords of a call for its host and its port -/
def Stored (parser : UrlParser) (past : List JarCall) (jar : List AuthInfo) : Prop :=
  ∀ info ∈ jar, ∃ c ∈ past,
    c.stored parser info.host info.port (current info).user (current info).passwd

section
variable {parser : UrlParser} {past : List JarCall} {jar : List AuthInfo}

theorem Stored.subset {jar' : List AuthInfo} (h : Stored parser past jar) (hsub : jar' ⊆ jar)
    (c : JarCall) : Stored parser (past ++ [c]) jar' := by
  intro info hinfo
  obtain ⟨c', hc', hstored⟩ := h info (hsub hinfo)
  exact ⟨c', List.mem_append_left _ hc', hstored⟩

theorem current_store (confirmed : Bool) (user passwd : WString) (info : AuthInfo) :
    (current (store confirmed user passwd info)).user = user ∧
      (current (store confirmed user passwd info)).passwd = passwd := by
  cases confirmed with
  | true | false => exact ⟨rfl, rfl⟩

theorem store_key (confirmed : Bool) (user passwd : WString) (info : AuthInfo) :
    (store confirmed user passwd info).host = info.host ∧
      (store confirmed user passwd info).port = info.port := by
  cases confirmed with
  | true | false => exact ⟨rfl, rfl⟩

theorem updateFirst_mem {p : AuthInfo → Bool} {f : AuthInfo → AuthInfo} {jar' : List AuthInfo}
    (h : updateFirst p f jar = some jar') :
    ∀ info ∈ jar', info ∈ jar ∨ ∃ old, jar.find? p = some old ∧ info = f old := by
  induction jar generalizing jar' with
  | nil => cases h
  | cons x jar ih =>
    rw [updateFirst] at h
    rw [List.find?_cons]
    cases hp : p x with
    | true =>
      rw [if_pos hp] at h
      obtain rfl := Option.some.inj h
      intro info hinfo
      rcases List.mem_cons.mp hinfo with rfl | hinfo
      · exact .inr ⟨x, rfl, rfl⟩
      · exact .inl (List.mem_cons_of_mem _ hinfo)
    | false =>
      rw [if_neg (by rw [hp]; exact Bool.false_ne_true)] at h
      obtain ⟨rest, hrest, rfl⟩ := Option.map_eq_some_iff.mp h
      intro info hinfo
      rcases List.mem_cons.mp hinfo with rfl | hinfo
      · exact .inl List.mem_cons_self
      · rcases ih hrest info hinfo with hmem | hold
        · exact .inl (List.mem_cons_of_mem _ hmem)
        · exact .inr hold

theorem updates_host {key : WebKey} {servertype : ProtectionSpaceServerType}
    {authscheme : ProtectionSpaceAuthenticationScheme} {realm : WString} {info : AuthInfo}
    (h : updates key servertype authscheme realm info = true) : info.host = key.host := by
  unfold updates at h
  split at h
  · rw [Bool.and_eq_true, beq_iff_eq] at h
    exact h.2
  · rw [Bool.and_eq_true, Bool.and_eq_true, beq_iff_eq] at h
    exact h.1.2

theorem Stored.get (h : Stored parser past jar) (url realm : WString) :
    Stored parser (past ++ [.get url realm]) (getWebUserPassword parser jar url realm).2 := by
  have hsame := h.subset (List.Subset.refl jar) (.get url realm)
  unfold getWebUserPassword
  generalize webKey (parser.parse url) = key
  have hmap : jar.zipIdx.map Prod.fst = jar := List.zipIdx_map_fst 0 jar
  rw [getLoop_eq, hmap]
  cases hfind : jar.find? (fun info => asked key realm info && key.fullPath == info.fullPath) with
  | some info => exact hsame
  | none =>
    dsimp only
    generalize hfull : (jar.zipIdx.filter (fun p => asked key realm p.1 &&
      p.1.fullPath.isPrefixOf key.fullPath)).foldl
        (fun current info => some (longer current info true)) none = full
    cases full with
    | some p =>
      have hmem := (List.mem_filter.mp (longestOf_mem true hfull)).1
      have hjar : p.1 ∈ jar := by
        rw [← hmap]
        exact List.mem_map_of_mem hmem
      intro info hinfo
      rcases List.mem_or_eq_of_mem_set hinfo with hold | rfl
      · exact hsame info hold
      · exact hsame p.1 hjar
    | none =>
      generalize (jar.zipIdx.filter _).foldl _ _ = base
      cases base with
      | some | none => exact hsame

theorem Stored.set (h : Stored parser past jar) {url : WString} {servertype : ProtectionSpaceServerType}
    {authscheme : ProtectionSpaceAuthenticationScheme} {realm user passwd location : WString}
    {confirmed : Bool}
    (hport : Isolated parser jar (.set url servertype authscheme realm user passwd location confirmed)) :
    Stored parser (past ++ [.set url servertype authscheme realm user passwd location confirmed])
      (setWebUserPassword parser jar url servertype authscheme realm user passwd location confirmed) := by
  have hsame := h.subset (List.Subset.refl jar)
    (.set url servertype authscheme realm user passwd location confirmed)
  -- what this call stores for its own host and port
  have hnew : ∀ (b : Bool) (info : AuthInfo), info.host = (webKey (parser.parse url)).host →
      info.port = (webKey (parser.parse url)).port →
      ∃ c ∈ past ++ [.set url servertype authscheme realm user passwd location confirmed],
        c.stored parser (store b user passwd info).host (store b user passwd info).port
          (current (store b user passwd info)).user (current (store b user passwd info)).passwd := by
    intro b info hhost hp
    obtain ⟨huser, hpasswd⟩ := current_store b user passwd info
    obtain ⟨hh, hpp⟩ := store_key b user passwd info
    refine ⟨_, List.mem_append_right _ (List.mem_singleton.mpr rfl), ?_⟩
    rw [huser, hpasswd, hh, hpp]
    exact ⟨hhost.symm, hp.symm, rfl, rfl⟩
  unfold setWebUserPassword
  dsimp only
  generalize hupdate : updateFirst _ _ jar = res
  cases res with
  | some jar' =>
    intro info hinfo
    rcases updateFirst_mem hupdate info hinfo with hold | ⟨old, hfind, rfl⟩
    · exact hsame info hold
    · have hhost := updates_host (List.find?_some hfind)
      have hp := hport old hfind
      split
      · exact hnew _ { old with basePath := old.fullPath } hhost hp
      · exact hnew _ old hhost hp
  | none =>
    dsimp only
    split
    · intro info hinfo
      rcases List.mem_append.mp hinfo with hold | hadd
      · exact hsame info hold
      · rw [List.mem_singleton.mp hadd]
        exact hnew _ _ rfl rfl
    · exact hsame

theorem Stored.call (h : Stored parser past jar) {c : JarCall} (hc : Isolated parser jar c) :
    Stored parser (past ++ [c]) (call parser jar c) := by
  cases c with
  | get url realm => exact h.get url realm
  | set url servertype authscheme realm user passwd location confirmed => exact h.set hc
  | delete url realm => exact h.subset List.eraseP_subset _

end

/-- **Passwords stay with their port.**  In a run whose calls only meet entries of the port of their URL,
a password is handed out only to a host and a port it was stored for. -/
theorem credentials_isolated (parser : UrlParser) {calls : List JarCall}
    (h : Runs.Along (call parser) (Isolated parser) [] calls) (pre post : List JarCall) (url realm : WString)
    (hcalls : calls = pre ++ .get url realm :: post) (answer : Credentials)
    (hanswer : (getWebUserPassword parser (Runs.run (call parser) [] pre) url realm).1 = some answer) :
    ∃ c ∈ pre, c.stored parser (parser.parse url).host (sanitizeURL (parser.parse url)) answer.user
      answer.passwd := by
  rw [hcalls] at h
  have hstored : Stored parser pre (Runs.run (call parser) [] pre) := by
    have hempty : Stored parser [] [] := fun info hinfo => absurd hinfo List.not_mem_nil
    exact h.left.inv_history (P := Stored parser) (fun past jar c hc hs => hs.call hc) hempty
  have hget : Isolated parser (Runs.run (call parser) [] pre) (.get url realm) := h.right.1
  obtain ⟨info, hmem, hbest, hhost, heither⟩ := getWebUserPassword_best hanswer
  obtain ⟨hport, hconfirmed⟩ := hget info hbest
  have hcurrent : answer = current info := by
    rcases heither with ⟨-, heq⟩ | ⟨hne, heq⟩
    · exact heq
    · rw [heq, ← hconfirmed.resolve_left hne]
      rfl
  obtain ⟨c, hc, hs⟩ := hstored info hmem
  refine ⟨c, hc, ?_⟩
  rw [hcurrent]
  have hkey : (parser.parse url).host = info.host := hhost.symm
  have hkeyport : sanitizeURL (parser.parse url) = info.port := hport.symm
  rw [hkey, hkeyport]
  exact hs

namespace Sample

/-- `http://h:1/` -/
def urlOne : WString := [0x68, 0x74, 0x74, 0x70, 0x3A, 0x2F, 0x2F, 0x68, 0x3A, 0x31, 0x2F]

/-- `http://h:2/` -/
def urlTwo : WString := [0x68, 0x74, 0x74, 0x70, 0x3A, 0x2F, 0x2F, 0x68, 0x3A, 0x32, 0x2F]

/-- tells the parts of these two URLs -/
def parser : UrlParser where
  parse url := ⟨[0x68], if url = urlOne then 1 else 2, [slash], true, true⟩
  locationPath _ _ := []

def setOne : JarCall := .set urlOne .HTTP .HTTPBasic [0x72] [0x75] [0x70] [] true

end Sample

open AuthenticationJar.Sample

theorem credentials_isolated_one : ∃ c ∈ [setOne],
    c.stored parser [0x68] 1 [0x75] [0x70] := by
  have halong : Runs.Along (call parser) (Isolated parser) [] [setOne, .get urlOne [0x72]] := by
    refine ⟨?_, ?_, trivial⟩
    · intro info hinfo
      cases hinfo
    · intro info hinfo
      have hbest : best (webKey (parser.parse urlOne)) [0x72] (call parser [] setOne) =
          some ⟨.HTTP, .HTTPBasic, [0x68], 1, [slash], [slash], [0x72], true, [0x75], [0x70], [], []⟩ := by
        decide +kernel
      rw [hbest] at hinfo
      obtain rfl := Option.some.inj hinfo
      exact ⟨rfl, .inl rfl⟩
  exact credentials_isolated parser halong [setOne] [] urlOne [0x72] rfl
    ⟨.HTTP, .HTTPBasic, [0x75], [0x70]⟩ (by decide +kernel)

/-- the password of one port is handed out to another -/
theorem credentials_other_port :
    (getWebUserPassword parser (Runs.run (call parser) [] [setOne]) urlTwo [0x72]).1 =
      some ⟨.HTTP, .HTTPBasic, [0x75], [0x70]⟩ ∧
    ¬ ∃ c ∈ [setOne], c.stored parser [0x68] (sanitizeURL (parser.parse urlTwo)) [0x75] [0x70] := by
  refine ⟨by decide +kernel, ?_⟩
  intro h
  obtain ⟨c, hc, hstored⟩ := h
  rw [List.mem_singleton.mp hc] at hstored
  have hport : (1 : UInt16) = 2 := hstored.2.1
  exact absurd hport (by decide)

end AuthenticationJar
end Wkc
