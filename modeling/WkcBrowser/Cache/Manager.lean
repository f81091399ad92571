import WkcBrowser.Cache.Fat
import WkcBrowser.Lib.Runs

/-!
# The cache side of `ResourceHandleManager`

`Manager` is the cache together with `m_writeCacheList`, the resources that wait to be written.

* `updateCacheResource`, `addHTTPCache`     a completed response enters the cache;
* `writeCacheTimerCallback`                 the first waiting resource is written and listed;
* `clearHTTPCache`, `resetHTTPCache`        everything is dropped;
* `Op`, `step`                              the operations the manager issues, one at a time.
-/

namespace Wkc
open Buf

section
variable [FilePeers]

structure Manager where
  cache : HTTPCache := {}
  writeCacheList : List Ptr := []
  writeCacheTimer : Bool := false

/-- what `addHTTPCache` takes from the handle, the request and the response -/
structure Response where
  url : KURL
  resourceData : Option SharedBuffer
  response : ResourceResponse
  useProtocolCachePolicy : Bool := true
  methodIsOptions : Bool := false
  httpequivFlags : UInt32 := 0
  httpequivMaxAge : Double := Double.quietNaN
  now : Double := Double.zero

namespace Response

def noStore (a : Response) : Bool := a.response.cacheControlContainsNoStore

def noCache (a : Response) : Bool :=
  a.response.cacheControlContainsNoCache || decide (a.httpequivFlags &&& EHTTPEquivNoCache ≠ 0)

def mustRevalidate (a : Response) : Bool :=
  a.response.cacheControlContainsMustRevalidate
    || decide (a.httpequivFlags &&& EHTTPEquivMustRevalidate ≠ 0)

def maxAge (a : Response) : Double :=
  if a.httpequivFlags &&& EHTTPEquivMaxAge ≠ 0 then a.httpequivMaxAge else Double.quietNaN

/-- the early exits of `addHTTPCache` -/
def refused (a : Response) : Bool :=
  a.resourceData.isNone || !a.url.protocolIsInHTTPFamily
    || (a.useProtocolCachePolicy && a.methodIsOptions)

end Response

namespace Manager

/-- the first waiting resource whose URL is the wanted one up to letter case -/
def findPending (s : Manager) (url : KURL) : Option Nat :=
  s.writeCacheList.findIdx? (fun p => s.cache.equalHTTPCachedResourceURL p url)

def updateCacheResource (s : Manager) (a : Response) (data : SharedBuffer) : Option Ptr × Manager :=
  let expires := Double.quietNaN
  match s.cache.resourceForURL a.url with
  | some p =>
    if a.noStore then (none, { s with cache := s.cache.remove p })
    else
      let cache := s.cache.updateCachedResource p data a.response a.noCache a.mustRevalidate expires
        a.maxAge a.now
      (some p, { s with cache := cache.detach p })
  | none =>
    match s.findPending a.url with
    | none => (none, s)
    | some num =>
      if a.noStore then (none, { s with writeCacheList := s.writeCacheList.eraseIdx num })
      else
        match s.writeCacheList[num]? with
        | none => (none, s)
        | some p =>
          let cache := s.cache.updateCachedResource p data a.response a.noCache a.mustRevalidate
            expires a.maxAge a.now
          (some p, { s with cache := cache, writeCacheList := s.writeCacheList.eraseIdx num })

def appendPending (s : Manager) (p : Ptr) : Manager :=
  { s with writeCacheList := s.writeCacheList ++ [p], writeCacheTimer := true }

def addHTTPCache (s : Manager) (a : Response) : Bool × Manager :=
  if a.refused then (false, s)
  else
    match a.resourceData with
    | none => (false, s)
    | some data =>
      match s.updateCacheResource a data with
      | (some p, s) => if a.noStore then (false, s) else (true, s.appendPending p)
      | (none, s) =>
        if a.noStore then (false, s)
        else
          match s.cache.createHTTPCachedResource a.url data a.response a.noCache a.mustRevalidate
            Double.quietNaN a.maxAge a.now with
          | (none, cache) => (false, { s with cache := cache })
          | (some p, cache) => (true, ({ s with cache := cache } : Manager).appendPending p)

/-- `busy`: a job is scheduled or running -/
def writeCacheTimerCallback (s : Manager) (busy : Bool) (io : FileIo) (fat : FatIo) : Manager :=
  let s := { s with writeCacheTimer := false }
  match s.writeCacheList with
  | [] => s
  | p :: rest =>
    if busy then { s with writeCacheTimer := true }
    else
      let (write, cache) := s.cache.write p io
      let cache := if write = false then cache.free p else cache
      if rest = [] then { s with cache := (cache.writeFATFile fat).2, writeCacheList := rest }
      else { s with cache := cache, writeCacheList := rest, writeCacheTimer := true }

/-- the waiting resources are deleted -/
def dropPending (s : Manager) : Manager :=
  { s with
    cache := { s.cache with
      heap := fun p => if p ∈ s.writeCacheList then none else s.cache.heap p }
    writeCacheList := []
    writeCacheTimer := false }

/-- The FAT just written is too short to be read (`read_of_empty`): a fault does not arise. -/
def clearHTTPCache (s : Manager) (wr rd : FatIo) : Manager :=
  if s.cache.disabled then s
  else
    let s := s.dropPending
    let cache := ((s.cache.removeAll.purgeBySize 0).2.writeFATFile wr).2
    match cache.readFATFile rd with
    | .ok (_, cache) => { s with cache := cache }
    | .error _ => { s with cache := cache }

def resetHTTPCache (s : Manager) : Manager :=
  let s := s.dropPending
  { s with cache := s.cache.reset }

/-! ## runs -/

inductive Op where
  | addHTTPCache (a : Response)
  | writeCacheTimerCallback (busy : Bool) (io : FileIo) (fat : FatIo)
  | updateCacheResource (a : Response) (data : SharedBuffer)
  | createHTTPCachedResource (a : Response) (data : SharedBuffer)
  | remove (url : KURL)
  | detach (url : KURL)
  | purgeBySize (size : Int)
  | purgeOldest
  | setMaxTotalCacheSize (limit : Int) (fat : FatIo)
  | read (url : KURL) (io : FileIo)
  | removeAll
  | clearHTTPCache (wr rd : FatIo)
  | resetHTTPCache

/-- `remove`, `detach` and `read` are given what `resourceForURL` returns; a resource that the
caller does not put on a list is lost. -/
def step (s : Manager) : Op → Manager
  | .addHTTPCache a => (s.addHTTPCache a).2
  | .writeCacheTimerCallback busy io fat => s.writeCacheTimerCallback busy io fat
  | .updateCacheResource a data => (s.updateCacheResource a data).2
  | .createHTTPCachedResource a data =>
    { s with
      cache := (s.cache.createHTTPCachedResource a.url data a.response a.noCache a.mustRevalidate
        Double.quietNaN a.maxAge a.now).2 }
  | .remove url =>
    match s.cache.resourceForURL url with
    | some p => { s with cache := s.cache.remove p }
    | none => s
  | .detach url =>
    match s.cache.resourceForURL url with
    | some p => { s with cache := s.cache.detach p }
    | none => s
  | .purgeBySize size => { s with cache := (s.cache.purgeBySize size).2 }
  | .purgeOldest => { s with cache := s.cache.purgeOldest.2 }
  | .setMaxTotalCacheSize limit fat => { s with cache := s.cache.setMaxTotalCacheSize limit fat }
  | .read url io =>
    match s.cache.resourceForURL url with
    | some p => { s with cache := (s.cache.read p io).2.2 }
    | none => s
  | .removeAll => { s with cache := s.cache.removeAll }
  | .clearHTTPCache wr rd => s.clearHTTPCache wr rd
  | .resetHTTPCache => s.resetHTTPCache

end Manager

end

/-! ## small inputs, for the runs that witness a result -/

namespace Sample

scoped instance : FilePeers := FilePeers.joining

def host : WString := ascii ['h', 't', 't', 'p', ':', '/', '/', 'a', '/']

instance neZero_ascii : NeZero (128 : Nat) := ⟨by decide⟩

/-- `http://a/` and one more character -/
def page (c : Fin 128) : KURL where
  string := host ++ [UInt16.ofNat c]
  queryEnd := 10
  protocolIsInHTTPFamily := true
  protocolIsData := false
  isLocalFile := false
  ascii := by
    intro u hu
    rcases List.mem_append.mp hu with hu | hu
    · have hhost : host.all (fun u => decide (u.toNat < 0x80)) = true := by decide
      exact of_decide_eq_true (List.all_eq_true.mp hhost u hu)
    · rw [List.mem_singleton.mp hu, ofNat16 (by omega)]
      omega

def byte : SharedBuffer := ⟨[[1]], by decide, by decide⟩

def bytes2 : SharedBuffer := ⟨[[2, 3]], by decide, by decide⟩

def got (url : KURL) (data : SharedBuffer) : Manager.Op :=
  .addHTTPCache { url := url, resourceData := some data, response := {} }

/-- a firing of the write timer at which the body is written in one call -/
def tick (data : SharedBuffer) : Manager.Op :=
  .writeCacheTimerCallback false ⟨true, [data.size]⟩ ⟨false, false, false, []⟩

end Sample

end Wkc
