import WkcBrowser.Lib.Runs
import WkcBrowser.Wtf.Words
import Mathlib.Data.List.AList
import Mathlib.Data.List.MinMax
import Mathlib.Data.List.TakeWhile
import Mathlib.Data.Int.ConditionallyCompleteOrder
import Mathlib.Order.ConditionallyCompleteLattice.Basic

/-!
# `m_serverCertChain`: the certificate chains of the last servers

A chain is kept under the host and port of the server.  When there are too many, one with the smallest creation time
is dropped; the new one is in the map by then.

* `SSLhostAndPort`, `Certificate`, `addServerCertChain`, `getServerCertChain`   as in the sources;
* `Iteration`                  an order in which the hash map is gone through;
* `InOrder`                    what should hold of a call;
* `Admits`                     the calls that do not drop the chain they add;
* `chains_kept`                the runs whose calls are all in order.
-/

theorem length_keys_insert {α : Type*} {β : α → Type*} [DecidableEq α] (map : AList β) (a : α) (b : β a) :
    (map.insert a b).keys.length = if a ∈ map then map.keys.length else map.keys.length + 1 := by
  rw [AList.keys_insert, List.length_cons]
  split
  · next hmem =>
    have hpos := List.length_pos_of_mem (AList.mem_keys.mp hmem)
    rw [List.length_erase_of_mem (AList.mem_keys.mp hmem)]
    omega
  · next hnot => rw [List.erase_of_not_mem (mt AList.mem_keys.mpr hnot)]

theorem length_keys_erase {α : Type*} {β : α → Type*} [DecidableEq α] {map : AList β} {a : α} (h : a ∈ map) :
    (map.erase a).keys.length = map.keys.length - 1 := by
  rw [AList.keys_erase, List.length_erase_of_mem (AList.mem_keys.mp h)]

theorem idxOf_first {α : Type*} [DecidableEq α] {a first : α} {rest : List α}
    (h : (first :: rest).idxOf a ≤ (first :: rest).idxOf first) : a = first := by
  rw [List.idxOf_cons_self, Nat.le_zero] at h
  by_contra hne
  rw [List.idxOf_cons_ne _ (Ne.symm hne)] at h
  exact Nat.succ_ne_zero _ h

namespace Wkc
namespace Ssl

/-- a certificate as `PEM_write_bio_X509` writes it -/
structure Pem where
  text : Bytes
  ascii : ∀ b ∈ text, b ≠ 0 ∧ b.toNat < 0x80

/-- the host and the port of a parsed URL -/
structure Authority where
  host : WString
  port : Option UInt16

/-- `String::number` -/
def number (n : Nat) : WString := (Nat.toDigits 10 n).map (fun c => UInt16.ofNat c.toNat)

def SSLhostAndPort (u : Unicode) (kurl : Authority) : WString :=
  match kurl.port with
  | some port => u.lower kurl.host ++ 0x3A :: number port.toNat
  | none => kurl.host ++ [0x3A, 0x34, 0x34, 0x33]

/-- `time` is in seconds -/
structure Certificate where
  certs : List WString := []
  time : Int
  deriving DecidableEq

def Certificate.push (chain : Certificate) (cert : Bytes) : Certificate :=
  { chain with certs := chain.certs ++ [fromLatin1 cert] }

abbrev Chain : Type := Sigma (fun _ : WString => Certificate)

abbrev Chains := AList (fun _ : WString => Certificate)

/-- an order of the entries of a hash map -/
structure Iteration where
  order : List Chain → List Chain
  perm : ∀ entries, (order entries).Perm entries

def cMaxChains : Nat := 32

/-- the loop over the entries, with the one to `keep` in mind -/
def oldest (keep : Chain) : List Chain → Chain
  | [] => keep
  | value :: rest => if value.2.time < keep.2.time then oldest value rest else oldest keep rest

def addServerCertChain (chains : Chains) (hostPort : WString) (sk : List Pem) (now : Int) (iteration : Iteration) :
    Chains :=
  let chain := sk.foldl (fun chain x => chain.push x.text) { time := now }
  let chains := chains.insert hostPort chain
  if cMaxChains < chains.keys.length then
    match iteration.order chains.entries with
    | [] => chains
    | first :: rest => chains.erase (oldest first rest).1
  else chains

/-- `fastStrdup` of the UTF-8 text -/
def copyText (s : WString) : Bytes := (utf8 s).takeWhile (fun b => b != 0)

def getServerCertChain (chains : Chains) (hostPort : WString) : Option (List Bytes) :=
  match chains.lookup hostPort with
  | none => none
  | some cert => if cert.certs.length = 0 then none else some (cert.certs.map copyText)

/-! ## calls -/

/-- a call some seconds after the one before -/
structure AddCall where
  url : Bytes
  sk : List Pem
  elapsed : Nat
  iteration : Iteration

structure ChainCache where
  chains : Chains := ∅
  clock : Int

namespace ChainCache
variable (u : Unicode) (kurl : Bytes → Authority)

def hostPort (url : Bytes) : WString := SSLhostAndPort u (kurl url)

def step (s : ChainCache) (call : AddCall) : ChainCache :=
  let now := s.clock + call.elapsed
  { chains := addServerCertChain s.chains (hostPort u kurl call.url) call.sk now call.iteration, clock := now }

def newChain (s : ChainCache) (call : AddCall) : Certificate :=
  { certs := call.sk.map (fun x => fromLatin1 x.text), time := s.clock + call.elapsed }

/-- the map with the new chain in it -/
def inserted (s : ChainCache) (call : AddCall) : Chains :=
  s.chains.insert (hostPort u kurl call.url) (s.newChain call)

structure InOrder (s : ChainCache) (call : AddCall) : Prop where
  bounded : (s.step u kurl call).chains.keys.length ≤ cMaxChains
  added : call.sk ≠ [] → getServerCertChain (s.step u kurl call).chains (hostPort u kurl call.url) =
    some (call.sk.map Pem.text)
  evicted : ∀ chain ∈ (s.inserted u kurl call).entries, chain.1 ∉ (s.step u kurl call).chains →
    chain.1 ≠ hostPort u kurl call.url ∧
      ∀ other ∈ (s.inserted u kurl call).entries, other.1 ≠ hostPort u kurl call.url → chain.2.time ≤ other.2.time

/-- the server is known, or there is room, or some chain is older, or the iteration begins with another chain -/
def Admits (s : ChainCache) (call : AddCall) : Prop :=
  hostPort u kurl call.url ∈ s.chains ∨ s.chains.keys.length < cMaxChains ∨
    (∃ chain ∈ s.chains.entries, chain.2.time < s.clock + call.elapsed) ∨
    (call.iteration.order (s.inserted u kurl call).entries).head?.map Sigma.fst ≠ some (hostPort u kurl call.url)

/-! ## the chain that is dropped -/

theorem oldest_argmin (rest : List Chain) : ∀ keep : Chain,
    (keep :: rest).argmin (fun chain => chain.2.time) = some (oldest keep rest) := by
  induction rest with
  | nil => intro keep; rfl
  | cons value rest ih =>
    intro keep
    rw [oldest]
    split
    · next hless =>
      rw [← ih value]
      show rest.foldl _ (if value.2.time < keep.2.time then some value else some keep) = _
      rw [if_pos hless]
      rfl
    · next hnot =>
      rw [← ih keep]
      show rest.foldl _ (if value.2.time < keep.2.time then some value else some keep) = _
      rw [if_neg hnot]
      rfl

theorem copyText_pem (x : Pem) : copyText (fromLatin1 x.text) = x.text := by
  have hascii : (fromLatin1 x.text).all isASCII = true := by
    rw [List.all_eq_true]
    intro c hc
    obtain ⟨b, hb, rfl⟩ := List.mem_map.mp hc
    exact decide_eq_true (x.ascii b hb).2
  unfold copyText
  rw [utf8_ascii hascii, fromLatin1, List.map_map]
  have hid : (UInt16.toUInt8 ∘ UInt8.toUInt16) = id := by
    funext b
    exact UInt8.toUInt8_toUInt16 b
  rw [hid, List.map_id]
  refine List.takeWhile_eq_self_iff.mpr fun b hb => ?_
  exact bne_iff_ne.mpr (x.ascii b hb).1

theorem foldl_push (sk : List Pem) : ∀ chain : Certificate,
    sk.foldl (fun chain x => chain.push x.text) chain =
      { chain with certs := chain.certs ++ sk.map (fun x => fromLatin1 x.text) } := by
  induction sk with
  | nil => intro chain; simp
  | cons x sk ih =>
    intro chain
    rw [List.foldl_cons, ih, Certificate.push, List.map_cons, List.append_assoc]
    rfl

variable {u kurl} {s : ChainCache} {call : AddCall}

theorem getServerCertChain_new {chains : Chains} {key : WString}
    (hlookup : chains.lookup key = some (s.newChain call))
    (hsk : call.sk ≠ []) : getServerCertChain chains key = some (call.sk.map Pem.text) := by
  unfold getServerCertChain
  rw [hlookup]
  dsimp only
  have hlength : (s.newChain call).certs.length ≠ 0 := by
    rw [newChain, List.length_map]
    exact mt List.length_eq_zero_iff.mp hsk
  rw [if_neg hlength, newChain, List.map_map]
  congr 1
  exact List.map_congr_left fun x _ => copyText_pem x

theorem step_chains (s : ChainCache) (call : AddCall) : (s.step u kurl call).chains =
    if cMaxChains < (s.inserted u kurl call).keys.length then
      match call.iteration.order (s.inserted u kurl call).entries with
      | [] => s.inserted u kurl call
      | first :: rest => (s.inserted u kurl call).erase (oldest first rest).1
    else s.inserted u kurl call := by
  unfold step addServerCertChain
  dsimp only
  rw [foldl_push]
  rfl

theorem lookup_inserted : (s.inserted u kurl call).lookup (hostPort u kurl call.url) = some (s.newChain call) :=
  AList.lookup_insert _

theorem mem_inserted_new {chain : Chain} (hmem : chain ∈ (s.inserted u kurl call).entries)
    (hkey : chain.1 = hostPort u kurl call.url) : chain.2 = s.newChain call := by
  have hlookup : (s.inserted u kurl call).lookup chain.1 = some chain.2 := AList.mem_lookup_iff.mpr hmem
  rw [hkey, lookup_inserted] at hlookup
  exact (Option.some.inj hlookup).symm

theorem mem_inserted_old {chain : Chain} (hkey : chain.1 ≠ hostPort u kurl call.url) :
    chain ∈ (s.inserted u kurl call).entries ↔ chain ∈ s.chains.entries := by
  have hlookup : (s.inserted u kurl call).lookup chain.1 = s.chains.lookup chain.1 := AList.lookup_insert_ne hkey
  have hin := AList.mem_lookup_iff (s := s.inserted u kurl call) (a := chain.1) (b := chain.2)
  have hin' := AList.mem_lookup_iff (s := s.chains) (a := chain.1) (b := chain.2)
  rw [hlookup] at hin
  exact hin.symm.trans hin'

theorem length_inserted : (s.inserted u kurl call).keys.length =
    if hostPort u kurl call.url ∈ s.chains then s.chains.keys.length else s.chains.keys.length + 1 :=
  length_keys_insert _ _ _

/-! ## the invariant -/

structure Inv (s : ChainCache) : Prop where
  bounded : s.chains.keys.length ≤ cMaxChains
  past : ∀ chain ∈ s.chains.entries, chain.2.time ≤ s.clock

theorem inv_first (clock : Int) : Inv { clock := clock } := ⟨Nat.zero_le _, nofun⟩

theorem Inv.inserted_past (h : s.Inv) {chain : Chain} (hmem : chain ∈ (s.inserted u kurl call).entries) :
    chain.2.time ≤ s.clock + call.elapsed := by
  by_cases hkey : chain.1 = hostPort u kurl call.url
  · rw [mem_inserted_new hmem hkey]
    exact le_rfl
  · have hle := h.past chain ((mem_inserted_old hkey).mp hmem)
    omega

/-- there are too many chains with the new one -/
def Full (u : Unicode) (kurl : Bytes → Authority) (s : ChainCache) (call : AddCall) : Prop :=
  hostPort u kurl call.url ∉ s.chains ∧ cMaxChains ≤ s.chains.keys.length

theorem Inv.length_inserted_le (h : s.Inv) (hroom : ¬Full u kurl s call) :
    (s.inserted u kurl call).keys.length ≤ cMaxChains := by
  have hbounded := h.bounded
  have hlength : (s.inserted u kurl call).keys.length = _ := length_inserted
  rw [hlength]
  split
  · exact hbounded
  · next hnot =>
    have hless := not_le.mp fun hle => hroom ⟨hnot, hle⟩
    omega

theorem step_room (h : s.Inv) (hroom : ¬Full u kurl s call) :
    (s.step u kurl call).chains = s.inserted u kurl call := by
  rw [step_chains, if_neg (not_lt.mpr (h.length_inserted_le hroom))]

theorem step_full (hfull : Full u kurl s call) : ∃ victim ∈ (call.iteration.order
      (s.inserted u kurl call).entries).argmin (fun chain => chain.2.time),
    (s.step u kurl call).chains = (s.inserted u kurl call).erase victim.1 := by
  have hlength : (s.inserted u kurl call).keys.length = s.chains.keys.length + 1 := by
    have hinserted : (s.inserted u kurl call).keys.length = _ := length_inserted
    rw [hinserted, if_neg hfull.1]
  have hover : cMaxChains < (s.inserted u kurl call).keys.length := by
    have hfull' := hfull.2
    omega
  have hperm := call.iteration.perm (s.inserted u kurl call).entries
  have hchains : (s.step u kurl call).chains = _ := s.step_chains call
  rw [if_pos hover] at hchains
  cases horder : call.iteration.order (s.inserted u kurl call).entries with
  | nil =>
    rw [horder] at hperm
    have hnil : (s.inserted u kurl call).entries = [] := hperm.nil_eq.symm
    have hzero : (s.inserted u kurl call).keys.length = 0 := by
      rw [AList.keys, hnil]
      rfl
    omega
  | cons first rest =>
    rw [horder] at hchains
    exact ⟨oldest first rest, oldest_argmin rest first, hchains⟩

theorem argmin_inserted {victim : Chain} (hvictim : victim ∈ (call.iteration.order
      (s.inserted u kurl call).entries).argmin (fun chain => chain.2.time)) :
    victim ∈ (s.inserted u kurl call).entries ∧
      ∀ chain ∈ (s.inserted u kurl call).entries, victim.2.time ≤ chain.2.time := by
  have hperm := call.iteration.perm (s.inserted u kurl call).entries
  obtain ⟨hmem, hle, _⟩ := List.mem_argmin_iff.mp hvictim
  exact ⟨hperm.mem_iff.mp hmem, fun chain hchain => hle chain (hperm.mem_iff.mpr hchain)⟩

theorem Inv.victim_iff (h : s.Inv) (hfull : Full u kurl s call) {victim : Chain}
    (hvictim : victim ∈ (call.iteration.order (s.inserted u kurl call).entries).argmin (fun chain => chain.2.time)) :
    victim.1 ≠ hostPort u kurl call.url ↔ s.Admits u kurl call := by
  have hperm := call.iteration.perm (s.inserted u kurl call).entries
  obtain ⟨hmem, hle⟩ := argmin_inserted hvictim
  obtain ⟨_, _, hindex⟩ := List.mem_argmin_iff.mp hvictim
  have hother : ∀ chain ∈ s.chains.entries, chain ∈ (s.inserted u kurl call).entries := by
    intro chain hchain
    refine (mem_inserted_old fun hkey => hfull.1 ?_).mpr hchain
    rw [← hkey]
    exact AList.mem_keys.mpr (List.mem_map_of_mem hchain)
  constructor
  · intro hne
    refine .inr (.inr ?_)
    by_contra hnone
    rw [not_or, not_exists, not_ne_iff] at hnone
    obtain ⟨hyoung, hfirst⟩ := hnone
    obtain ⟨first, hhead, hkey⟩ := Option.map_eq_some_iff.mp hfirst
    obtain ⟨rest, horder⟩ := List.head?_eq_some_iff.mp hhead
    have hin : first ∈ (s.inserted u kurl call).entries := hperm.mem_iff.mp (horder ▸ List.mem_cons_self)
    have htime : first.2.time = s.clock + call.elapsed := by rw [mem_inserted_new hin hkey]; rfl
    -- the first one is as old as any
    have hvtime : first.2.time ≤ victim.2.time := by
      by_contra hlt
      exact hyoung victim ⟨(mem_inserted_old hne).mp hmem, by omega⟩
    have hindex' := hindex first (hperm.mem_iff.mpr hin) hvtime
    rw [horder] at hindex'
    rw [idxOf_first hindex'] at hne
    exact hne hkey
  · intro hadmits hkey
    have htime : victim.2.time = s.clock + call.elapsed := by rw [mem_inserted_new hmem hkey]; rfl
    rcases hadmits with hin | hless | ⟨chain, hchain, holder⟩ | hfirst
    · exact hfull.1 hin
    · exact absurd hfull.2 (not_le.mpr hless)
    · have hyoung := hle chain (hother chain hchain)
      omega
    · cases horder : call.iteration.order (s.inserted u kurl call).entries with
      | nil =>
        rw [horder] at hperm
        rw [hperm.nil_eq.symm] at hmem
        exact List.not_mem_nil hmem
      | cons first rest =>
        have hin : first ∈ (s.inserted u kurl call).entries := hperm.mem_iff.mp (horder ▸ List.mem_cons_self)
        have hpast := h.inserted_past hin
        have hindex' := hindex first (hperm.mem_iff.mpr hin) (htime ▸ hpast)
        rw [horder] at hindex'
        rw [horder, ← idxOf_first hindex'] at hfirst
        exact hfirst (congrArg some hkey)

theorem Inv.inOrder_room (h : s.Inv) (hroom : ¬Full u kurl s call) : s.InOrder u kurl call := by
  have hchains := step_room h hroom
  refine ⟨?_, ?_, ?_⟩
  · rw [hchains]
    exact h.length_inserted_le hroom
  · intro hsk
    rw [hchains]
    exact getServerCertChain_new lookup_inserted hsk
  · intro chain hmem hgone
    rw [hchains] at hgone
    exact absurd (AList.mem_keys.mpr (List.mem_map_of_mem hmem)) hgone

theorem Inv.inOrder_full (h : s.Inv) (hfull : Full u kurl s call) :
    s.InOrder u kurl call ↔ s.Admits u kurl call := by
  obtain ⟨victim, hvictim, hchains⟩ := step_full hfull
  obtain ⟨hmem, hle⟩ := argmin_inserted hvictim
  have hkeys : victim.1 ∈ s.inserted u kurl call := AList.mem_keys.mpr (List.mem_map_of_mem hmem)
  rw [← h.victim_iff hfull hvictim]
  constructor
  · intro horder
    refine (horder.evicted victim hmem ?_).1
    rw [hchains, AList.mem_erase]
    exact fun hkept => hkept.1 rfl
  · intro hother
    refine ⟨?_, ?_, ?_⟩
    · have hlength : (s.inserted u kurl call).keys.length = _ := length_inserted
      have hbounded := h.bounded
      rw [hchains, length_keys_erase hkeys, hlength, if_neg hfull.1]
      omega
    · intro hsk
      refine getServerCertChain_new (s := s) ?_ hsk
      rw [hchains, AList.lookup_erase_ne hother.symm]
      exact lookup_inserted
    · intro chain hchain hgone
      have hkey : chain.1 = victim.1 := by
        by_contra hne
        rw [hchains, AList.mem_erase] at hgone
        exact hgone ⟨hne, AList.mem_keys.mpr (List.mem_map_of_mem hchain)⟩
      rw [(s.inserted u kurl call).nodupKeys.eq_of_fst_eq hchain hmem hkey]
      exact ⟨hother, fun other hin _ => hle other hin⟩

theorem Inv.inOrder (h : s.Inv) : s.InOrder u kurl call ↔ s.Admits u kurl call := by
  by_cases hfull : Full u kurl s call
  · exact h.inOrder_full hfull
  · refine iff_of_true (h.inOrder_room hfull) ?_
    by_cases hin : hostPort u kurl call.url ∈ s.chains
    · exact .inl hin
    · exact .inr (.inl (not_le.mp fun hle => hfull ⟨hin, hle⟩))

theorem Inv.step (h : s.Inv) (call : AddCall) : (s.step u kurl call).Inv := by
  have hpast : ∀ chain ∈ (s.inserted u kurl call).entries, chain.2.time ≤ s.clock + call.elapsed :=
    fun chain hmem => h.inserted_past hmem
  by_cases hfull : Full u kurl s call
  · obtain ⟨victim, hvictim, hchains⟩ := step_full hfull
    have hkeys : victim.1 ∈ s.inserted u kurl call :=
      AList.mem_keys.mpr (List.mem_map_of_mem (argmin_inserted hvictim).1)
    refine ⟨?_, fun chain hmem => hpast chain ?_⟩
    · have hlength : (s.inserted u kurl call).keys.length = _ := length_inserted
      have hbounded := h.bounded
      rw [hchains, length_keys_erase hkeys, hlength, if_neg hfull.1]
      omega
    · rw [hchains] at hmem
      exact (List.kerase_sublist _ _).subset hmem
  · have hchains := step_room h hfull
    refine ⟨?_, fun chain hmem => hpast chain ?_⟩
    · rw [hchains]
      exact h.length_inserted_le hfull
    · rw [hchains] at hmem
      exact hmem

/-- **The chains of the last servers.**  In a run, every call keeps the bound, leaves the new chain to be read, and
drops one of the oldest of the others, exactly if no call comes to its own chain first while all have its time. -/
theorem chains_kept (u : Unicode) (kurl : Bytes → Authority) (clock : Int) (calls : List AddCall) :
    Runs.Along (ChainCache.step u kurl) (InOrder u kurl) { clock := clock } calls ↔
      Runs.Along (ChainCache.step u kurl) (Admits u kurl) { clock := clock } calls :=
  Runs.along_iff (fun _ call h => h.step call) (fun _ _ h => h.inOrder) (inv_first clock) calls

/-! ## many servers in one second -/

namespace Sample

def pem : Pem where
  text := [0x2D]
  ascii b hb := by
    rw [List.mem_singleton.mp hb]
    decide

def newestFirst : Iteration := ⟨id, fun _ => .rfl⟩

def connected (n : Nat) : AddCall := ⟨[UInt8.ofNat n], [pem], 0, newestFirst⟩

def authority (url : Bytes) : Authority := ⟨fromLatin1 url, none⟩

end Sample

/-- the chain of the last of 33 servers is the one that is dropped -/
theorem chains_lost : ¬Runs.Along (ChainCache.step Unicode.latin Sample.authority)
    (InOrder Unicode.latin Sample.authority) { clock := 0 }
    ((List.range 32).map Sample.connected ++ [Sample.connected 32]) := by
  intro h
  have hlast := h.right.1.added (List.cons_ne_nil _ _)
  have hnone : getServerCertChain (ChainCache.step Unicode.latin Sample.authority
      (Runs.run (ChainCache.step Unicode.latin Sample.authority) { clock := 0 }
        ((List.range 32).map Sample.connected)) (Sample.connected 32)).chains
      (hostPort Unicode.latin Sample.authority [32]) = none := by
    decide +kernel
  cases hnone.symm.trans hlast

end ChainCache
end Ssl
end Wkc
