import WkcBrowser.Lib.Runs
import WkcBrowser.Wtf.Words
import Mathlib.Data.List.AList

/-!
# The certificates of `ResourceHandleManagerSSL`

Root CAs are registered with the SSL peer, and what the peer has registered is cached in parsed form.  Client
certificates are owned by `m_clientCerts`, and one that was selected for a server is cached under the server's
names.

* `requester`, `deletedRequester`       the keys under which a client certificate is cached and dropped;
* `Manager`, `Op`, `step`               the state, and the calls that change it;
* `exportRootCACacheIntoStore`          what goes into a certificate store;
* `exports_registered`                  which runs export what is registered;
* `clientCerts_live`                    which runs never hand out a certificate that is gone.
-/

namespace Wkc
namespace Ssl
open Buf

/-! ## text in `gBuff` -/

def RHMSSL_BUFF_LEN : Nat := 1024

def zeroed : Bytes := List.replicate RHMSSL_BUFF_LEN 0

/-- the C string at an offset -/
def stringAt (buff : Bytes) (offset : Nat) : Bytes := (buff.drop offset).takeWhile (fun b => b != 0)

def overwrite (buff : Bytes) (offset : Nat) (bs : Bytes) : Bytes :=
  buff.take offset ++ bs ++ buff.drop (offset + bs.length)

def strncat (buff : Bytes) (offset : Nat) (s : Bytes) (n : Nat) : Bytes :=
  overwrite buff (offset + (stringAt buff offset).length) (s.take n ++ [0])

/-- an `int` expression that is passed as a `size_t` -/
def toSizeT (n : Int) : Nat := (n % 2 ^ 32).toNat

/-- `"Subject: "` -/
def subjectLabel : Bytes := [0x53, 0x75, 0x62, 0x6A, 0x65, 0x63, 0x74, 0x3A, 0x20]

/-- `"\r\nIssuer: "` -/
def issuerLabel : Bytes := [0x0D, 0x0A, 0x49, 0x73, 0x73, 0x75, 0x65, 0x72, 0x3A, 0x20]

/-- The entry of the name, at most `len - 1` bytes of it; -1 if there is none.  Its length is a `memcpy` count, so
a negative one ends the program. -/
def X509_NAME_get_text_by_NID (entry : Option Bytes) (buff : Bytes) (offset : Nat) (len : Int) :
    Option (Int × Bytes) :=
  match entry with
  | none => some (-1, buff)
  | some data =>
    let i : Int := if len - 1 < data.length then len - 1 else data.length
    if i < 0 then none else some (i, overwrite buff offset (data.take i.toNat ++ [0]))

/-- the `organizationName` entries of a server certificate -/
structure ServerNames where
  subject : Option Bytes
  issuer : Option Bytes

/-- the text that `ClientCertSelectCallback` puts into `gBuff` -/
def requester : Option ServerNames → Option WString
  | none => some (fromLatin1 (stringAt zeroed 0))
  | some server => do
    let buff := strncat zeroed 0 subjectLabel (RHMSSL_BUFF_LEN - 1)
    let total_len : Int := 9
    let (length, buff) ← X509_NAME_get_text_by_NID server.subject buff total_len.toNat
      (RHMSSL_BUFF_LEN - 1 - total_len)
    let total_len := total_len + length
    let buff := strncat buff 0 issuerLabel (toSizeT (RHMSSL_BUFF_LEN - 1 - total_len))
    let total_len := total_len + 10
    let (_, buff) ← X509_NAME_get_text_by_NID server.issuer buff total_len.toNat
      (RHMSSL_BUFF_LEN - 1 - total_len)
    some (fromLatin1 (stringAt buff 0))

/-- the names as `X509_NAME_oneline` writes them, and the root CAs that came with the certificate (a null id where
the peer refused one) -/
structure ClientCertificate where
  issuer : WString
  subject : WString
  caIndexs : List (Option Nat) := []

/-- The loop of `organizationName`: the value of the entry, if there is one.  `items[1]` of a list of one is
outside the vector. -/
def organization : List WString → Option (Option WString)
  | [] => some none
  | part :: parts =>
    match split 0x3D part with
    | [] => some none
    | [name] => if name = [0x4F] then none else organization parts
    | name :: value :: rest =>
      if name = [0x4F] then some (some (rest.foldl (fun value item => value ++ 0x3D :: item) value))
      else organization parts

def organizationName (name : WString) (buff : Bytes) (offset : Nat) (buflen : Int) : Option (Nat × Bytes) := do
  match ← organization (split 0x2F name) with
  | none => some (0, buff)
  | some value =>
    some (value.length, strncat buff offset (utf8 value)
      (toSizeT (buflen - (stringAt buff offset).length - 1)))

/-- the text that `deleteClientCertCache` puts into `gBuff`; nothing if it does not fit -/
def ClientCertificate.deletedRequester (cert : ClientCertificate) : Option WString := do
  let buflen : Int := RHMSSL_BUFF_LEN - 1
  let buff := strncat zeroed 0 subjectLabel (toSizeT (buflen - (stringAt zeroed 0).length - 1))
  let offset := 9
  let buflen := buflen - 9
  let (len, buff) ← organizationName cert.issuer buff offset buflen
  let offset := offset + len
  let buflen := buflen - len
  let buff := strncat buff offset issuerLabel (toSizeT (buflen - (stringAt buff offset).length - 1))
  let offset := offset + 10
  let buflen := buflen - 10
  let (_, buff) ← organizationName cert.subject buff offset buflen
  if buff.length = RHMSSL_BUFF_LEN then some (fromLatin1 (stringAt buff 0)) else none

/-! ## the manager -/

/-- `registered` is the peer's: each id with the certificates of its PEM text, which `WKCOSSL_CERT_FILE` lists.
A pointer to a client certificate is a number. -/
structure Manager (C : Type*) where
  registered : List (Nat × List C) := []
  rootCACache : List C := []
  clientCerts : AList (fun _ : Nat => ClientCertificate) := ∅
  clientCertCache : AList (fun _ : WString => Nat) := ∅

section
variable {C : Type*}

/-- the certificates that are registered -/
def Manager.certs (m : Manager C) : List C := m.registered.flatMap Prod.snd

def wkcSSLRegisterRootCAPeer (registered : List (Nat × List C)) (certs : List C) :
    Option Nat → List (Nat × List C)
  | none => registered
  | some certid => registered ++ [(certid, certs)]

def isRegistered (registered : List (Nat × List C)) (certid : Nat) : Bool :=
  registered.any (fun entry => entry.1 == certid)

def wkcSSLUnregisterRootCAPeer (registered : List (Nat × List C)) (certid : Nat) : List (Nat × List C) :=
  registered.filter (fun entry => !(entry.1 == certid))

def clearRootCACache (m : Manager C) : Manager C := { m with rootCACache := [] }

/-- the outcome of the peer is an argument, here and below -/
def SSLRegisterRootCA (m : Manager C) (certs : List C) (certid : Option Nat) : Manager C :=
  let m' := { m with registered := wkcSSLRegisterRootCAPeer m.registered certs certid }
  if certid.isSome then clearRootCACache m' else m'

def SSLUnregisterRootCA (m : Manager C) (certid : Nat) : Manager C :=
  let m' := { m with registered := wkcSSLUnregisterRootCAPeer m.registered certid }
  if isRegistered m.registered certid then clearRootCACache m' else m'

/-- `cert` is what `d2i_X509` makes of the data -/
def SSLRegisterRootCAByDER (m : Manager C) (cert : Option C) (certid : Option Nat) : Manager C :=
  match cert with
  | none => m
  | some cert => { m with registered := wkcSSLRegisterRootCAPeer m.registered [cert] certid }

def SSLRootCADeleteAll (m : Manager C) : Manager C := clearRootCACache { m with registered := [] }

/-- a PKCS#12 that was read: the names, and its CA certificates, each with what the peer answers -/
structure Pkcs12 (C : Type*) where
  issuer : WString
  subject : WString
  ca : List (C × Option Nat)

/-- `ClientCertificate::create`, and the pointer that `new` returned -/
def SSLRegisterClientCert (m : Manager C) (cert : Nat) (pkcs12 : Option (Pkcs12 C)) : Manager C :=
  match pkcs12 with
  | none => m
  | some p =>
    { m with
      registered := p.ca.foldl (fun registered x => wkcSSLRegisterRootCAPeer registered [x.1] x.2) m.registered
      clientCerts := m.clientCerts.insert cert
        { issuer := p.issuer, subject := p.subject, caIndexs := p.ca.map Prod.snd } }

/-- `ClientCertificate::createByDER`; `names` are the issuer and the subject -/
def SSLRegisterClientCertByDER (m : Manager C) (cert : Nat) (names : Option (WString × WString)) : Manager C :=
  match names with
  | none => m
  | some names =>
    { m with clientCerts := m.clientCerts.insert cert { issuer := names.1, subject := names.2 } }

/-- the root CAs that the destructor unregisters -/
def ClientCertificate.release (registered : List (Nat × List C)) (cert : ClientCertificate) : List (Nat × List C) :=
  cert.caIndexs.foldl (fun registered certid =>
    match certid with
    | none => registered
    | some certid => wkcSSLUnregisterRootCAPeer registered certid) registered

def setClientCertCache (m : Manager C) (requester : WString) (cert : Nat) : Manager C :=
  { m with clientCertCache := m.clientCertCache.insert requester cert }

def getClientCertCache (m : Manager C) (requester : WString) : Option Nat := m.clientCertCache.lookup requester

def deleteClientCertCache (m : Manager C) (cert : ClientCertificate) : Manager C :=
  match cert.deletedRequester with
  | none => m
  | some requester => { m with clientCertCache := m.clientCertCache.erase requester }

/-- `ClientCertSelectCallback` up to the selection; `choice` is the entry of `certInfo`, a list of members of
`m_clientCerts`, that the application picks -/
def ClientCertSelectCallback (m : Manager C) (server : Option ServerNames) (choice : Option Nat) : Manager C :=
  match requester server, choice with
  | some requester, some cert =>
    if (getClientCertCache m requester).isNone ∧ cert ∈ m.clientCerts then setClientCertCache m requester cert else m
  | _, _ => m

def SSLUnregisterClientCert (m : Manager C) (certid : Nat) : Manager C :=
  match m.clientCerts.lookup certid with
  | none => m
  | some cert =>
    let m' := deleteClientCertCache { m with clientCerts := m.clientCerts.erase certid } cert
    { m' with registered := cert.release m'.registered }

def SSLClientCertDeleteAll (m : Manager C) : Manager C :=
  { m with
    clientCertCache := ∅
    registered := m.clientCerts.entries.foldl (fun registered entry => entry.2.release registered) m.registered
    clientCerts := ∅ }

/-- what OpenSSL answers during one export -/
structure ExportEnv where
  opens : Bool := true
  parsed : Bool := true
  dups : Nat → Bool := fun _ => true
  adds : Nat → Bool := fun _ => true

def buildRootCACache (m : Manager C) (env : ExportEnv) : Bool × List C :=
  -- `wkcOsslCertfIsRegistPeer`
  if m.certs.isEmpty then (true, m.rootCACache)
  else if env.opens = false then (false, m.rootCACache)
  else if env.parsed = false then (false, m.rootCACache)
  else if (List.range m.certs.length).all env.dups then (true, m.rootCACache ++ m.certs)
  else (false, [])

/-- the cache, built if it is empty -/
def filledCache (m : Manager C) (env : ExportEnv) : Bool × List C :=
  if m.rootCACache.isEmpty then buildRootCACache m env else (true, m.rootCACache)

/-- how many certificates `X509_STORE_add_cert` takes before it refuses one -/
def addedTo (env : ExportEnv) (n : Nat) : Nat := ((List.range n).takeWhile env.adds).length

/-- result, the certificates that were added to the store, and the manager -/
def exportRootCACacheIntoStore (m : Manager C) (env : ExportEnv) : Bool × List C × Manager C :=
  match filledCache m env with
  | (false, cache) => (false, [], { m with rootCACache := cache })
  | (true, cache) =>
    (decide (addedTo env cache.length = cache.length), cache.take (addedTo env cache.length),
      { m with rootCACache := cache })

inductive Op (C : Type*) where
  | registerRootCA (certs : List C) (certid : Option Nat)
  | unregisterRootCA (certid : Nat)
  | registerRootCAByDER (cert : Option C) (certid : Option Nat)
  | rootCADeleteAll
  | registerClientCert (cert : Nat) (pkcs12 : Option (Pkcs12 C))
  | registerClientCertByDER (cert : Nat) (names : Option (WString × WString))
  | clientCertSelect (server : Option ServerNames) (choice : Option Nat)
  | unregisterClientCert (certid : Nat)
  | clientCertDeleteAll
  | exportRootCA (env : ExportEnv)

def step (m : Manager C) : Op C → Manager C
  | .registerRootCA certs certid => SSLRegisterRootCA m certs certid
  | .unregisterRootCA certid => SSLUnregisterRootCA m certid
  | .registerRootCAByDER cert certid => SSLRegisterRootCAByDER m cert certid
  | .rootCADeleteAll => SSLRootCADeleteAll m
  | .registerClientCert cert pkcs12 => SSLRegisterClientCert m cert pkcs12
  | .registerClientCertByDER cert names => SSLRegisterClientCertByDER m cert names
  | .clientCertSelect server choice => ClientCertSelectCallback m server choice
  | .unregisterClientCert certid => SSLUnregisterClientCert m certid
  | .clientCertDeleteAll => SSLClientCertDeleteAll m
  | .exportRootCA env => (exportRootCACacheIntoStore m env).2.2

/-! ## root CAs -/

/-- a successful export puts exactly the registered certificates into the store -/
def ExportsRegistered (m : Manager C) (env : ExportEnv) : Prop :=
  (exportRootCACacheIntoStore m env).1 = true →
    ∀ c, c ∈ (exportRootCACacheIntoStore m env).2.1 ↔ c ∈ m.certs

/-- the call clears the cache -/
def clears (m : Manager C) : Op C → Bool
  | .registerRootCA _ certid => certid.isSome
  | .unregisterRootCA certid => isRegistered m.registered certid
  | .rootCADeleteAll => true
  | _ => false

/-- The call registers or unregisters root CAs without clearing the cache: `SSLRegisterRootCAByDER`, the CAs of a
PKCS#12, and their removal with it. -/
def silent (m : Manager C) : Op C → Bool
  | .registerRootCAByDER cert certid => cert.isSome && certid.isSome
  | .registerClientCert _ (some p) => p.ca.any (fun x => x.2.isSome)
  | .unregisterClientCert certid =>
    match m.clientCerts.lookup certid with
    | none => false
    | some cert => cert.caIndexs.any Option.isSome
  | .clientCertDeleteAll => m.clientCerts.entries.any (fun entry => entry.2.caIndexs.any Option.isSome)
  | _ => false

/-- the manager, and whether a silent change has happened since its cache was filled -/
structure Watched (C : Type*) where
  manager : Manager C := {}
  stale : Bool := false

def watch (w : Watched C) (op : Op C) : Watched C where
  manager := step w.manager op
  stale := !clears w.manager op && (w.stale || (!w.manager.rootCACache.isEmpty && silent w.manager op))

/-- no export after such a change -/
def Fresh (w : Watched C) : Op C → Prop
  | .exportRootCA _ => w.stale = false
  | _ => True

instance (w : Watched C) : ∀ op, Decidable (Fresh w op)
  | .exportRootCA _ => inferInstanceAs (Decidable (_ = _))
  | .registerRootCA .. => instDecidableTrue
  | .unregisterRootCA _ => instDecidableTrue
  | .registerRootCAByDER .. => instDecidableTrue
  | .rootCADeleteAll => instDecidableTrue
  | .registerClientCert .. => instDecidableTrue
  | .registerClientCertByDER .. => instDecidableTrue
  | .clientCertSelect .. => instDecidableTrue
  | .unregisterClientCert _ => instDecidableTrue
  | .clientCertDeleteAll => instDecidableTrue

/-- a filled cache without silent changes is what is registered -/
def Coherent (w : Watched C) : Prop :=
  w.stale = false → w.manager.rootCACache ≠ [] → w.manager.rootCACache = w.manager.certs

variable {m : Manager C} {w : Watched C}

theorem watch_run (ops : List (Op C)) :
    ∀ w : Watched C, (Runs.run watch w ops).manager = Runs.run step w.manager ops := by
  induction ops with
  | nil => intro _; rfl
  | cons op ops ih => intro w; exact ih (watch w op)

/-! ### what a call leaves of the cache and of what is registered -/

theorem release_nothing (registered : List (Nat × List C)) {cert : ClientCertificate}
    (h : cert.caIndexs.any Option.isSome = false) : cert.release registered = registered := by
  unfold ClientCertificate.release
  generalize cert.caIndexs = ids at h
  induction ids with
  | nil => rfl
  | cons certid ids ih =>
    rw [List.any_cons, Bool.or_eq_false_iff] at h
    obtain rfl : certid = none := Option.not_isSome_iff_eq_none.mp (by rw [h.1]; exact Bool.noConfusion)
    exact ih h.2

theorem deleteClientCertCache_registered (m : Manager C) (cert : ClientCertificate) :
    (deleteClientCertCache m cert).registered = m.registered := by
  unfold deleteClientCertCache
  split <;> rfl

theorem deleteClientCertCache_rootCACache (m : Manager C) (cert : ClientCertificate) :
    (deleteClientCertCache m cert).rootCACache = m.rootCACache := by
  unfold deleteClientCertCache
  split <;> rfl

theorem ClientCertSelectCallback_frame (m : Manager C) (server : Option ServerNames) (choice : Option Nat) :
    (ClientCertSelectCallback m server choice).registered = m.registered ∧
      (ClientCertSelectCallback m server choice).rootCACache = m.rootCACache := by
  unfold ClientCertSelectCallback
  split
  · split <;> exact ⟨rfl, rfl⟩
  · exact ⟨rfl, rfl⟩

theorem registerAll_nothing (ca : List (C × Option Nat)) (h : ca.any (fun x => x.2.isSome) = false) :
    ∀ registered : List (Nat × List C),
      ca.foldl (fun registered x => wkcSSLRegisterRootCAPeer registered [x.1] x.2) registered = registered := by
  induction ca with
  | nil => intro _; rfl
  | cons x ca ih =>
    intro registered
    rw [List.any_cons, Bool.or_eq_false_iff] at h
    have hx : x.2 = none := Option.not_isSome_iff_eq_none.mp (by rw [h.1]; exact Bool.noConfusion)
    rw [List.foldl_cons, hx]
    exact ih h.2 registered

theorem releaseAll_nothing (entries : List ((_ : Nat) × ClientCertificate))
    (h : entries.any (fun entry => entry.2.caIndexs.any Option.isSome) = false) :
    ∀ registered : List (Nat × List C),
      entries.foldl (fun registered entry => entry.2.release registered) registered = registered := by
  induction entries with
  | nil => intro _; rfl
  | cons entry entries ih =>
    intro registered
    rw [List.any_cons, Bool.or_eq_false_iff] at h
    rw [List.foldl_cons, release_nothing registered h.1]
    exact ih h.2 registered

theorem step_cache {op : Op C} (hop : ∀ env, op ≠ .exportRootCA env) :
    (step m op).rootCACache = if clears m op then [] else m.rootCACache := by
  cases op with
  | registerRootCA certs certid =>
    show (SSLRegisterRootCA m certs certid).rootCACache = if certid.isSome then [] else m.rootCACache
    unfold SSLRegisterRootCA
    split <;> rfl
  | unregisterRootCA certid =>
    show (SSLUnregisterRootCA m certid).rootCACache = if isRegistered m.registered certid then [] else m.rootCACache
    unfold SSLUnregisterRootCA
    split <;> rfl
  | registerRootCAByDER cert certid => cases cert <;> rfl
  | rootCADeleteAll => rfl
  | registerClientCert cert pkcs12 => cases pkcs12 <;> rfl
  | registerClientCertByDER cert names => cases names <;> rfl
  | clientCertSelect server choice => exact (ClientCertSelectCallback_frame m server choice).2
  | unregisterClientCert certid =>
    show (SSLUnregisterClientCert m certid).rootCACache = m.rootCACache
    unfold SSLUnregisterClientCert
    split
    · rfl
    · exact deleteClientCertCache_rootCACache _ _
  | clientCertDeleteAll => rfl
  | exportRootCA env => exact absurd rfl (hop env)

theorem step_registered {op : Op C} (hclears : clears m op = false) (hsilent : silent m op = false) :
    (step m op).registered = m.registered := by
  cases op with
  | registerRootCA certs certid =>
    obtain rfl : certid = none := Option.not_isSome_iff_eq_none.mp (by
      intro h
      rw [clears, h] at hclears
      cases hclears)
    rfl
  | unregisterRootCA certid =>
    have hnot : isRegistered m.registered certid = false := hclears
    show (SSLUnregisterRootCA m certid).registered = m.registered
    unfold SSLUnregisterRootCA
    dsimp only
    rw [hnot, if_neg Bool.false_ne_true]
    show m.registered.filter _ = m.registered
    refine List.filter_eq_self.mpr fun entry hentry => ?_
    have hany := List.any_eq_false.mp hnot entry hentry
    rw [Bool.not_eq_true] at hany
    rw [hany]
    rfl
  | registerRootCAByDER cert certid =>
    cases cert with
    | none => rfl
    | some cert =>
      cases certid with
      | none => rfl
      | some certid => cases hsilent
  | rootCADeleteAll => cases hclears
  | registerClientCert cert pkcs12 =>
    cases pkcs12 with
    | none => rfl
    | some p => exact registerAll_nothing p.ca hsilent m.registered
  | registerClientCertByDER cert names => cases names <;> rfl
  | clientCertSelect server choice => exact (ClientCertSelectCallback_frame m server choice).1
  | unregisterClientCert certid =>
    show (SSLUnregisterClientCert m certid).registered = m.registered
    unfold SSLUnregisterClientCert
    cases hlookup : m.clientCerts.lookup certid with
    | none => rfl
    | some cert =>
      have hnothing : cert.caIndexs.any Option.isSome = false := by
        rw [silent, hlookup] at hsilent
        exact hsilent
      show cert.release (deleteClientCertCache _ cert).registered = m.registered
      rw [release_nothing _ hnothing, deleteClientCertCache_registered]
  | clientCertDeleteAll => exact releaseAll_nothing _ hsilent m.registered
  | exportRootCA env =>
    show (exportRootCACacheIntoStore m env).2.2.registered = m.registered
    unfold exportRootCACacheIntoStore
    split <;> rfl

theorem buildRootCACache_cache (h : m.rootCACache = []) (env : ExportEnv) :
    (buildRootCACache m env).2 = [] ∨ (buildRootCACache m env).2 = m.certs := by
  unfold buildRootCACache
  rw [h]
  split
  · exact .inl rfl
  split
  · exact .inl rfl
  split
  · exact .inl rfl
  split
  · exact .inr (List.nil_append _)
  · exact .inl rfl

theorem buildRootCACache_true (h : m.rootCACache = []) {env : ExportEnv} (hb : (buildRootCACache m env).1 = true) :
    (buildRootCACache m env).2 = m.certs := by
  unfold buildRootCACache at hb ⊢
  split
  · next hempty => rw [h, List.isEmpty_iff.mp hempty]
  next hsome =>
  rw [if_neg hsome] at hb
  split
  · next hopens =>
    rw [if_pos hopens] at hb
    cases hb
  next hopens =>
  rw [if_neg hopens] at hb
  split
  · next hparsed =>
    rw [if_pos hparsed] at hb
    cases hb
  next hparsed =>
  rw [if_neg hparsed] at hb
  split
  · rw [h, List.nil_append]
  · next hdups =>
    rw [if_neg hdups] at hb
    cases hb

theorem export_cache (m : Manager C) (env : ExportEnv) :
    (exportRootCACacheIntoStore m env).2.2.rootCACache = (filledCache m env).2 := by
  unfold exportRootCACacheIntoStore
  split
  · next heq => rw [heq]
  · next heq => rw [heq]

theorem export_true {env : ExportEnv} (h : (exportRootCACacheIntoStore m env).1 = true) :
    (filledCache m env).1 = true ∧ (exportRootCACacheIntoStore m env).2.1 = (filledCache m env).2 := by
  unfold exportRootCACacheIntoStore at h ⊢
  split
  · next heq =>
    rw [heq] at h
    cases h
  · next cache heq =>
    rw [heq] at h ⊢
    have hall : addedTo env cache.length = cache.length := of_decide_eq_true h
    exact ⟨rfl, by rw [hall, List.take_length]⟩

theorem Coherent.watch (h : Coherent w) {op : Op C} (hop : Fresh w op) : Coherent (watch w op) := by
  intro hstale hcache
  have hstale' : (!clears w.manager op && (w.stale || (!w.manager.rootCACache.isEmpty && silent w.manager op)))
      = false := hstale
  show (step w.manager op).rootCACache = (step w.manager op).certs
  have hcache' : (step w.manager op).rootCACache ≠ [] := hcache
  by_cases hexport : ∃ env, op = .exportRootCA env
  · obtain ⟨env, rfl⟩ := hexport
    have hsame : (step w.manager (.exportRootCA env)).certs = w.manager.certs :=
      congrArg (List.flatMap Prod.snd) (step_registered rfl rfl)
    rw [hsame]
    change (exportRootCACacheIntoStore w.manager env).2.2.rootCACache ≠ [] at hcache'
    show (exportRootCACacheIntoStore w.manager env).2.2.rootCACache = w.manager.certs
    rw [export_cache, filledCache] at hcache' ⊢
    split at hcache'
    · next hempty =>
      rw [if_pos hempty]
      rcases buildRootCACache_cache (List.isEmpty_iff.mp hempty) env with hnil | hfull
      · exact absurd hnil hcache'
      · exact hfull
    · next hfilled =>
      rw [if_neg hfilled]
      exact h hop hcache'
  · rw [step_cache fun env henv => hexport ⟨env, henv⟩] at hcache' ⊢
    split at hcache'
    · exact absurd rfl hcache'
    next hclears =>
    have hclears' := Bool.eq_false_of_not_eq_true hclears
    rw [hclears', Bool.not_false, Bool.true_and, Bool.or_eq_false_iff, List.isEmpty_eq_false_iff.mpr hcache',
      Bool.not_false, Bool.true_and] at hstale'
    rw [if_neg hclears, Manager.certs, step_registered hclears' hstale'.2]
    exact h hstale'.1 hcache'

theorem Coherent.exports (h : Coherent w) {env : ExportEnv} (hop : Fresh w (.exportRootCA env)) :
    ExportsRegistered w.manager env := by
  intro hok c
  obtain ⟨hbuilt, hput⟩ := export_true hok
  rw [filledCache] at hbuilt hput
  rw [hput]
  split at hbuilt
  · next hempty =>
    rw [if_pos hempty, buildRootCACache_true (List.isEmpty_iff.mp hempty) hbuilt]
  · next hfilled =>
    rw [if_neg hfilled]
    show c ∈ w.manager.rootCACache ↔ _
    rw [h hop (fun hnil => hfilled (List.isEmpty_iff.mpr hnil))]

end

/-- **Root CA cache coherence.**  If no export comes after a silent change to a filled cache, with no clearing in
between, every successful export puts exactly the registered certificates into the store. -/
theorem exports_registered {C : Type*} (ops : List (Op C)) (h : Runs.Along watch Fresh {} ops) :
    ∀ pre env, pre ++ [.exportRootCA env] <+: ops → ExportsRegistered (Runs.run step {} pre) env := by
  rintro pre env ⟨post, rfl⟩
  have hcoherent : Coherent (Runs.run watch {} pre) :=
    h.left.left.inv (fun _ _ hop hw => hw.watch hop) (fun _ hnil => absurd rfl hnil)
  have hexport : Fresh (Runs.run watch {} pre) (.exportRootCA env) := h.left.right.1
  have hrun := watch_run pre ({} : Watched C)
  rw [← hrun]
  exact hcoherent.exports hexport

/-- a PKCS#12 with a CA, exports before and after a root CA is unregistered -/
def clearedBetween : List (Op Nat) :=
  [.registerRootCA [7] (some 1), .registerClientCert 5 (some ⟨[], [], [(8, some 2)]⟩), .exportRootCA {},
    .unregisterRootCA 1, .exportRootCA {}]

theorem exports_registered_between : Runs.Along watch Fresh {} clearedBetween ∧
    ExportsRegistered (Runs.run step {} (clearedBetween.take 4)) {} :=
  ⟨by decide, exports_registered clearedBetween (by decide) (clearedBetween.take 4) {} ⟨[], rfl⟩⟩

/-- a root CA that is registered as DER after an export is not in the next one -/
theorem der_not_exported : ¬ ExportsRegistered (Runs.run step {}
    [.registerRootCA [7] (some 1), .exportRootCA {}, .registerRootCAByDER (some 8) (some 2)]) {} := by
  intro h
  exact absurd ((h (by decide) 8).mpr (by decide)) (by decide)

/-! ## client certificates -/

section
variable {C : Type*} {m : Manager C}

/-- a certificate that the cache hands out has not been deleted -/
def NoDangling (m : Manager C) : Prop :=
  ∀ requester cert, getClientCertCache m requester = some cert → cert ∈ m.clientCerts

/-- a certificate that is unregistered is cached under no other key than the one that is built from its own names -/
def Deletes (m : Manager C) : Op C → Prop
  | .unregisterClientCert certid => ∀ cert, m.clientCerts.lookup certid = some cert →
      ∀ requester, getClientCertCache m requester = some certid → cert.deletedRequester = some requester
  | _ => True

theorem noDangling_new : NoDangling ({} : Manager C) := by
  intro requester cert hget
  cases hget

theorem NoDangling.insert (h : NoDangling m) (cert : Nat) (c : ClientCertificate)
    {registered : List (Nat × List C)} :
    NoDangling { m with registered := registered, clientCerts := m.clientCerts.insert cert c } := by
  intro requester cert' hget
  exact (AList.mem_insert _).mpr (.inr (h requester cert' hget))

theorem NoDangling.select (h : NoDangling m) (server : Option ServerNames) (choice : Option Nat) :
    NoDangling (ClientCertSelectCallback m server choice) := by
  unfold ClientCertSelectCallback
  split
  · next key cert _ =>
    split
    · next hcert =>
      intro requester cert' hget
      have hget' : (m.clientCertCache.insert key cert).lookup requester = some cert' := hget
      by_cases hsame : requester = key
      · subst hsame
        rw [AList.lookup_insert] at hget'
        obtain rfl := Option.some.inj hget'
        exact hcert.2
      · rw [AList.lookup_insert_ne hsame] at hget'
        exact h requester cert' hget'
    · exact h
  · exact h

theorem getClientCertCache_delete (m : Manager C) (cert : ClientCertificate) (requester : WString) :
    getClientCertCache (deleteClientCertCache m cert) requester =
      if cert.deletedRequester = some requester then none else getClientCertCache m requester := by
  unfold deleteClientCertCache
  cases hkey : cert.deletedRequester with
  | none => rw [if_neg nofun]
  | some key =>
    by_cases hsame : key = requester
    · subst hsame
      rw [if_pos rfl]
      exact AList.lookup_erase _ _
    · rw [if_neg fun heq => hsame (Option.some.inj heq)]
      exact AList.lookup_erase_ne (Ne.symm hsame)

theorem deleteClientCertCache_clientCerts (m : Manager C) (cert : ClientCertificate) :
    (deleteClientCertCache m cert).clientCerts = m.clientCerts := by
  unfold deleteClientCertCache
  split <;> rfl

theorem NoDangling.unregister (h : NoDangling m) {certid : Nat} {cert : ClientCertificate}
    (hcert : m.clientCerts.lookup certid = some cert) :
    NoDangling (SSLUnregisterClientCert m certid) ↔
      ∀ requester, getClientCertCache m requester = some certid → cert.deletedRequester = some requester := by
  have hget : ∀ requester, getClientCertCache (SSLUnregisterClientCert m certid) requester =
      if cert.deletedRequester = some requester then none else getClientCertCache m requester := by
    intro requester
    unfold SSLUnregisterClientCert
    rw [hcert]
    exact getClientCertCache_delete { m with clientCerts := m.clientCerts.erase certid } cert requester
  have hcerts : (SSLUnregisterClientCert m certid).clientCerts = m.clientCerts.erase certid := by
    unfold SSLUnregisterClientCert
    rw [hcert]
    exact deleteClientCertCache_clientCerts _ cert
  unfold NoDangling
  rw [hcerts]
  constructor
  · intro hnext requester hcached
    by_contra hother
    have hleft := hget requester
    rw [if_neg hother, hcached] at hleft
    exact (AList.mem_erase.mp (hnext requester certid hleft)).1 rfl
  · intro hkey requester cert' hleft
    rw [hget] at hleft
    split at hleft
    · cases hleft
    next hother =>
    refine AList.mem_erase.mpr ⟨?_, h requester cert' hleft⟩
    rintro rfl
    exact hother (hkey requester hleft)

theorem noDangling_step (h : NoDangling m) (op : Op C) : NoDangling (step m op) ↔ Deletes m op := by
  cases op with
  | registerRootCA certs certid =>
    refine iff_of_true ?_ trivial
    show NoDangling (SSLRegisterRootCA m certs certid)
    unfold SSLRegisterRootCA
    split <;> exact h
  | unregisterRootCA certid =>
    refine iff_of_true ?_ trivial
    show NoDangling (SSLUnregisterRootCA m certid)
    unfold SSLUnregisterRootCA
    split <;> exact h
  | registerRootCAByDER cert certid =>
    refine iff_of_true ?_ trivial
    cases cert <;> exact h
  | rootCADeleteAll => exact iff_of_true h trivial
  | registerClientCert cert pkcs12 =>
    refine iff_of_true ?_ trivial
    cases pkcs12 with
    | none => exact h
    | some p => exact h.insert cert _
  | registerClientCertByDER cert names =>
    refine iff_of_true ?_ trivial
    cases names with
    | none => exact h
    | some names => exact h.insert cert _
  | clientCertSelect server choice => exact iff_of_true (h.select server choice) trivial
  | unregisterClientCert certid =>
    cases hcert : m.clientCerts.lookup certid with
    | none =>
      have hsame : step m (.unregisterClientCert certid) = m := by
        show SSLUnregisterClientCert m certid = m
        unfold SSLUnregisterClientCert
        rw [hcert]
      rw [hsame]
      refine iff_of_true h fun cert hsome => ?_
      rw [hcert] at hsome
      cases hsome
    | some cert =>
      rw [show step m (.unregisterClientCert certid) = SSLUnregisterClientCert m certid from rfl, h.unregister hcert]
      constructor
      · intro hkey cert' hcert'
        obtain rfl := Option.some.inj (hcert.symm.trans hcert')
        exact hkey
      · intro hkey
        exact hkey cert hcert
  | clientCertDeleteAll => exact iff_of_true (fun _ _ hget => by cases hget) trivial
  | exportRootCA env =>
    refine iff_of_true ?_ trivial
    show NoDangling (exportRootCACacheIntoStore m env).2.2
    unfold exportRootCACacheIntoStore
    split <;> exact h

end

/-- **No dangling client certificate.**  In every state of a run the cache hands out only certificates that have
not been deleted, exactly if whenever one is unregistered all its entries have the key built from its own names. -/
theorem clientCerts_live {C : Type*} (ops : List (Op C)) :
    (∀ pre, pre <+: ops → NoDangling (Runs.run step {} pre)) ↔ Runs.Along step Deletes {} ops :=
  Runs.prefix_iff_along (I := fun _ => True) (P := NoDangling) (C := Deletes) (fun _ _ _ => trivial) (fun _ op _ h => noDangling_step h op) trivial
    noDangling_new ops

/-- the organisations of a server certificate: `S`, issued by `T` -/
def serverNames : ServerNames where
  subject := some [0x53]
  issuer := some [0x54]

/-- `"/O=C"`, issued by `"/O=D"` -/
def selectedCert : Op Nat := .registerClientCertByDER 5 (some ([0x2F, 0x4F, 0x3D, 0x44], [0x2F, 0x4F, 0x3D, 0x43]))

/-- the entry of a certificate stays when this is unregistered -/
theorem unregistered_cached : ¬ NoDangling (Runs.run step {}
    [selectedCert, .clientCertSelect (some serverNames) (some 5), .unregisterClientCert 5]) := by
  intro h
  exact absurd (h (fromLatin1 (subjectLabel ++ [0x53] ++ issuerLabel ++ [0x54])) 5 (by decide +kernel)) (by decide +kernel)

end Ssl
end Wkc
