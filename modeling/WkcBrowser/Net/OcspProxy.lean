import WkcBrowser.Net.ProxyFilters
import WkcBrowser.Net.ServerCertChain
import WkcBrowser.Lib.Runs

/-!
# OCSP and CRL requests, and the proxy

All these requests are made with one curl handle, whose options stay as they were set.

* `HandleSetData`, `HTTPGetResponse`   a request;
* `pageLoadProxy`      the proxy that a page load of the same URL goes through;
* `SameRoutes`         when the requests of a sequence take the routes of page loads;
* `sameProxy_iff`      that it says so of every sequence.
-/

namespace Wkc
namespace Ssl
open Buf

/-! ## the proxy -/

/-- what the authentication jar has for the proxy -/
inductive ProtectionSpaceAuthenticationScheme where
  | HTTPBasic | HTTPDigest | NTLM | other
  deriving DecidableEq

structure Credentials where
  authScheme : ProtectionSpaceAuthenticationScheme
  user : WString
  pass : WString
  deriving DecidableEq

structure ProxyInfo where
  host : WString
  port : Nat
  filters : List ProxyFilter.Filter
  /-- the result of `getProxyUserPassword` -/
  proxyUserPassword : Option Credentials

/-- `http://` -/
def httpScheme : List Nat := [0x68, 0x74, 0x74, 0x70, 0x3A, 0x2F, 0x2F]

/-- `m_proxy`, as `setProxyInfo` leaves it -/
def ProxyInfo.proxy (m : ProxyInfo) : WString :=
  if m.host.length = 0 then []
  else httpScheme.map UInt16.ofNat ++ m.host ++ 0x3A :: number (if m.port ≠ 0 then m.port else 80)

/-! ## the handle -/

inductive ProxyAuth where
  | BASIC | DIGEST | NTLM | ANY
  deriving DecidableEq

inductive RequestType where
  | OCSP | CRLDP
  deriving DecidableEq

/-- the options that are set again and again -/
structure Handle where
  proxy : Option Bytes := none
  proxyUserName : Option Bytes := none
  proxyPassword : Option Bytes := none
  proxyAuth : Option ProxyAuth := none
  url : Bytes := []
  httpHeader : List Bytes := []
  postFields : Option Bytes := none
  httpGet : Bool := false
  deriving DecidableEq

/-- the arguments of `HTTPGetResponse`, and what curl comes back with -/
structure Fetch where
  uri : Bytes
  req_type : RequestType
  headers : List Bytes
  data : Option Bytes
  received : Option Bytes

def curlProxyAuth : ProtectionSpaceAuthenticationScheme → ProxyAuth
  | .HTTPBasic => .BASIC
  | .HTTPDigest => .DIGEST
  | .NTLM => .NTLM
  | .other => .ANY

section
variable (u : Unicode)

def setProxy (m : ProxyInfo) (handle : Handle) : Handle :=
  let handle := { handle with proxy := some (utf8 m.proxy) }
  match m.proxyUserPassword with
  | some c =>
    { handle with
      proxyUserName := some (utf8 c.user)
      proxyPassword := some (utf8 c.pass)
      proxyAuth := some (curlProxyAuth c.authScheme) }
  | none => { handle with proxyAuth := some .ANY }

/-- the filters are asked about the text of the URL -/
def HandleSetData (m : ProxyInfo) (handle : Handle) (a : Fetch) : Handle :=
  let handle :=
    if m.proxy.length ≠ 0 ∧ ProxyFilter.isMatchProxyFilter u m.filters (fromLatin1 a.uri) = false then
      setProxy m handle
    else handle
  { handle with
    url := a.uri
    httpHeader := a.headers
    postFields := a.data
    httpGet := if a.req_type = .CRLDP then true else handle.httpGet }

/-- `strncmp("http://", uri, 7)` and `strlen(uri) < 13` -/
def requested (uri : Bytes) : Bool := (httpScheme.map UInt8.ofNat).isPrefixOf uri && decide (13 ≤ uri.length)

structure Outcome where
  ocsp_handle : Option Handle
  /-- the options that the request is made with -/
  performed : Option Handle
  out : Option Bytes

def HTTPGetResponse (m : ProxyInfo) (ocsp_handle : Option Handle) (a : Fetch) : Outcome :=
  match ocsp_handle with
  | none => { ocsp_handle := none, performed := none, out := none }
  | some handle =>
    if requested a.uri then
      let handle := HandleSetData u m handle a
      { ocsp_handle := some handle, performed := some handle, out := a.received }
    else { ocsp_handle := some handle, performed := none, out := none }

/-- `add` asks the filters about the host, and the handle of the job gets the proxy -/
def pageLoadProxy (m : ProxyInfo) (url : Authority) : Option Bytes :=
  let matchProxyFilter := ProxyFilter.isMatchProxyFilter u m.filters url.host
  if m.proxy.length ≠ 0 ∧ matchProxyFilter = false then some (utf8 m.proxy) else none

variable (kurl : Bytes → Authority)

def SameProxy (m : ProxyInfo) (ocsp_handle : Option Handle) (a : Fetch) : Prop :=
  ∀ handle, (HTTPGetResponse u m ocsp_handle a).performed = some handle →
    handle.proxy = pageLoadProxy u m (kurl a.uri)

def fetch (m : ProxyInfo) (ocsp_handle : Option Handle) (a : Fetch) : Option Handle :=
  (HTTPGetResponse u m ocsp_handle a).ocsp_handle

/-! ## routes -/

def HostMatches (m : ProxyInfo) (uri : Bytes) : Prop :=
  ProxyFilter.isMatchProxyFilter u m.filters (kurl uri).host = true

def TextMatches (m : ProxyInfo) (uri : Bytes) : Prop :=
  ProxyFilter.isMatchProxyFilter u m.filters (fromLatin1 uri) = true

instance (m : ProxyInfo) (uri : Bytes) : Decidable (HostMatches u kurl m uri) :=
  inferInstanceAs (Decidable (_ = true))
instance (m : ProxyInfo) (uri : Bytes) : Decidable (TextMatches u m uri) := inferInstanceAs (Decidable (_ = true))

/-- First URLs that both the host and the text keep from the proxy, then one that neither does, and from there on only
hosts that are reached through it. -/
def SameRoutes (m : ProxyInfo) : List Bytes → Prop
  | [] => True
  | uri :: uris =>
    HostMatches u kurl m uri ∧ TextMatches u m uri ∧ SameRoutes m uris ∨
      ¬HostMatches u kurl m uri ∧ ¬TextMatches u m uri ∧ ∀ uri ∈ uris, ¬HostMatches u kurl m uri

end

section
variable {u : Unicode} {kurl : Bytes → Authority} {m : ProxyInfo} {handle : Handle} {a : Fetch}

theorem setProxy_proxy : (setProxy m handle).proxy = some (utf8 m.proxy) := by
  unfold setProxy
  cases m.proxyUserPassword <;> rfl

theorem HandleSetData_proxy : (HandleSetData u m handle a).proxy =
    if m.proxy.length ≠ 0 ∧ ¬TextMatches u m a.uri then some (utf8 m.proxy) else handle.proxy := by
  have hasked : (m.proxy.length ≠ 0 ∧ ProxyFilter.isMatchProxyFilter u m.filters (fromLatin1 a.uri) = false) ↔
      (m.proxy.length ≠ 0 ∧ ¬TextMatches u m a.uri) := and_congr_right fun _ => (Bool.not_eq_true _).to_iff.symm
  unfold HandleSetData
  by_cases h : m.proxy.length ≠ 0 ∧ ¬TextMatches u m a.uri
  · rw [if_pos h]
    simp only [if_pos (hasked.mpr h)]
    exact setProxy_proxy
  · rw [if_neg h]
    simp only [if_neg (fun hfalse => h (hasked.mp hfalse))]

theorem pageLoadProxy_eq : pageLoadProxy u m (kurl a.uri) =
    if m.proxy.length ≠ 0 ∧ ¬HostMatches u kurl m a.uri then some (utf8 m.proxy) else none := by
  unfold pageLoadProxy
  exact if_congr (and_congr_right fun _ => (Bool.not_eq_true _).to_iff.symm) rfl rfl

theorem sameProxy_requested (h : requested a.uri = true) :
    SameProxy u kurl m (some handle) a ↔ (HandleSetData u m handle a).proxy = pageLoadProxy u m (kurl a.uri) := by
  unfold SameProxy HTTPGetResponse
  simp only [h, if_true, Option.some.injEq, forall_eq']

theorem sameProxy_skipped (h : requested a.uri = false) : SameProxy u kurl m (some handle) a := by
  unfold SameProxy HTTPGetResponse
  simp only [h, Bool.false_eq_true, if_false]
  intro handle' hnone
  cases hnone

theorem fetch_requested (h : requested a.uri = true) :
    fetch u m (some handle) a = some (HandleSetData u m handle a) := by
  unfold fetch HTTPGetResponse
  simp only [h, if_true]

theorem fetch_skipped (h : requested a.uri = false) : fetch u m (some handle) a = some handle := by
  unfold fetch HTTPGetResponse
  simp only [h, Bool.false_eq_true, if_false]

/-- the URLs that requests are made for -/
def uris (fetches : List Fetch) : List Bytes := (fetches.map Fetch.uri).filter requested

theorem uris_cons (fetches : List Fetch) :
    uris (a :: fetches) = if requested a.uri then a.uri :: uris fetches else uris fetches := by
  rw [uris, List.map_cons, List.filter_cons]
  rfl

theorem along_set (hproxy : m.proxy.length ≠ 0) (fetches : List Fetch) :
    ∀ handle : Handle, handle.proxy = some (utf8 m.proxy) →
      (Runs.Along (fetch u m) (SameProxy u kurl m) (some handle) fetches ↔
        ∀ uri ∈ uris fetches, ¬HostMatches u kurl m uri) := by
  induction fetches with
  | nil => exact fun _ _ => iff_of_true trivial (fun _ h => nomatch h)
  | cons a fetches ih =>
    intro handle hset
    rw [uris_cons]
    show SameProxy u kurl m (some handle) a ∧ Runs.Along _ _ (fetch u m (some handle) a) fetches ↔ _
    cases hrequested : requested a.uri with
    | false =>
      rw [fetch_skipped hrequested, and_iff_right (sameProxy_skipped hrequested), ih handle hset]
      rfl
    | true =>
      have hkept : (HandleSetData u m handle a).proxy = some (utf8 m.proxy) := by
        rw [HandleSetData_proxy, hset, ite_self]
      rw [fetch_requested hrequested, ih _ hkept, sameProxy_requested hrequested, hkept, pageLoadProxy_eq, if_pos rfl,
        List.forall_mem_cons]
      refine and_congr_left fun _ => ?_
      by_cases hhost : HostMatches u kurl m a.uri
      · rw [if_neg (fun h => h.2 hhost)]
        exact iff_of_false (fun h => nomatch h) (not_not_intro hhost)
      · rw [if_pos ⟨hproxy, hhost⟩]
        exact iff_of_true rfl hhost

theorem along_unset (hproxy : m.proxy.length ≠ 0) (fetches : List Fetch) :
    ∀ handle : Handle, handle.proxy = none →
      (Runs.Along (fetch u m) (SameProxy u kurl m) (some handle) fetches ↔ SameRoutes u kurl m (uris fetches)) := by
  induction fetches with
  | nil => exact fun _ _ => iff_of_true trivial trivial
  | cons a fetches ih =>
    intro handle hunset
    rw [uris_cons]
    show SameProxy u kurl m (some handle) a ∧ Runs.Along _ _ (fetch u m (some handle) a) fetches ↔ _
    cases hrequested : requested a.uri with
    | false =>
      rw [fetch_skipped hrequested, and_iff_right (sameProxy_skipped hrequested), ih handle hunset]
      rfl
    | true =>
      have hdata := @HandleSetData_proxy u m handle a
      rw [hunset] at hdata
      rw [fetch_requested hrequested, sameProxy_requested hrequested, pageLoadProxy_eq, if_pos rfl, SameRoutes]
      by_cases htext : TextMatches u m a.uri
      · rw [if_neg (fun h => h.2 htext)] at hdata
        rw [hdata, ih _ hdata]
        by_cases hhost : HostMatches u kurl m a.uri
        · simp [hhost, htext]
        · simp [hhost, htext, hproxy]
      · rw [if_pos ⟨hproxy, htext⟩] at hdata
        rw [hdata, along_set hproxy fetches _ hdata]
        by_cases hhost : HostMatches u kurl m a.uri
        · simp [hhost, htext]
        · simp [hhost, htext, hproxy]

theorem along_direct (hproxy : m.proxy.length = 0) (fetches : List Fetch) :
    ∀ handle : Handle, handle.proxy = none → Runs.Along (fetch u m) (SameProxy u kurl m) (some handle) fetches := by
  induction fetches with
  | nil => exact fun _ _ => trivial
  | cons a fetches ih =>
    intro handle hunset
    cases hrequested : requested a.uri with
    | false =>
      refine ⟨sameProxy_skipped hrequested, ?_⟩
      rw [fetch_skipped hrequested]
      exact ih handle hunset
    | true =>
      have hdata : (HandleSetData u m handle a).proxy = none := by
        rw [HandleSetData_proxy, if_neg (fun h => h.1 hproxy), hunset]
      refine ⟨?_, ?_⟩
      · rw [sameProxy_requested hrequested, hdata, pageLoadProxy_eq, if_neg (fun h => h.1 hproxy)]
      · rw [fetch_requested hrequested]
        exact ih _ hdata

theorem along_none (fetches : List Fetch) : Runs.Along (fetch u m) (SameProxy u kurl m) none fetches := by
  induction fetches with
  | nil => trivial
  | cons a fetches ih =>
    refine ⟨?_, ih⟩
    intro handle hperformed
    cases hperformed

theorem proxy_length : m.proxy.length = 0 ↔ m.host.length = 0 := by
  unfold ProxyInfo.proxy
  split
  · next h => exact iff_of_true rfl h
  · next h => exact iff_of_false (by simp) h

end

/-- any settings, and any sequence of requests; `created` tells whether there is a handle at all -/
theorem sameProxy_iff (u : Unicode) (kurl : Bytes → Authority) (m : ProxyInfo) (created : Bool)
    (fetches : List Fetch) :
    Runs.Along (fetch u m) (SameProxy u kurl m) (if created then some {} else none) fetches ↔
      created = false ∨ m.host.length = 0 ∨ SameRoutes u kurl m (uris fetches) := by
  cases created with
  | false => exact iff_of_true (along_none fetches) (Or.inl rfl)
  | true =>
    rw [if_pos rfl, or_iff_right (fun h => nomatch h), ← proxy_length]
    by_cases hproxy : m.proxy.length = 0
    · exact iff_of_true (along_direct hproxy fetches {} rfl) (Or.inl hproxy)
    · rw [or_iff_right hproxy]
      exact along_unset hproxy fetches {} rfl

namespace Sample

/-- the host `p`, and a filter for `a.b` -/
def filtered : ProxyInfo where
  host := [0x70]
  port := 80
  filters := [{ type := .FQDN, filter := [0x61, 0x2E, 0x62] }]
  proxyUserPassword := none

/-- `http://a.b/12` -/
def responder : Fetch where
  uri := [0x68, 0x74, 0x74, 0x70, 0x3A, 0x2F, 0x2F, 0x61, 0x2E, 0x62, 0x2F, 0x31, 0x32]
  req_type := .OCSP
  headers := []
  data := none
  received := none

/-- what stands between the scheme and the path -/
def hostOf (url : Bytes) : Authority := ⟨fromLatin1 ((url.drop 7).takeWhile (fun b => b ≠ 0x2F)), none⟩

end Sample

/-- the filter matches the host, but not the text -/
theorem responder_proxied : ¬Runs.Along (fetch .latin Sample.filtered)
    (SameProxy .latin Sample.hostOf Sample.filtered) (some {}) [Sample.responder] := by
  rintro ⟨hsame, _⟩
  have hnone := hsame _ rfl
  exact absurd hnone (by decide +kernel)

end Ssl
end Wkc
