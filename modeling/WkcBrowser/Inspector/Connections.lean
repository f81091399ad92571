import WkcBrowser.Lib.Runs
import WkcBrowser.Lib.Tables

/-!
# The pages and the connections of `WebInspectorServer`

A page has a client, and at most one connection.  Closing a connection clears its identifier at once, but its socket
is closed by a later timer, and until then the socket's loop goes on handing over what it reads.

* `Server`, `Op`, `step`      the maps, the connections and the calls of the clients;
* `BookKeeping`               what should hold in every state;
* `Delivers`                  the firings of a socket's timer that read no frame without a page;
* `Consistent`                the invariant of every run: the maps and the connections agree;
* `bookkeeping_runs`          the runs whose states are all in order.
-/

namespace Wkc
namespace Inspector

/-! ## connections -/

inductive Mode where
  | HTTP
  | WebSocket
  deriving DecidableEq

/-- the states of the socket handle after `didOpenSocketStream`; it becomes `Closed` when `platformClose` has set
`ERequestClose` and started the timer -/
inductive SocketState where
  | Open
  | Closing
  | Closed
  deriving DecidableEq

/-- `hasSocket`: `m_socket` is not null; `buffered`: `bufferedAmount` is not 0 -/
structure ServerConnection where
  mode : Mode := .HTTP
  identifier : Nat := 0
  hasSocket : Bool := true
  state : SocketState := .Open
  buffered : Bool := false
  deriving DecidableEq

namespace ServerConnection

/-- `SocketStreamHandleBase::close` -/
def close (c : ServerConnection) : ServerConnection :=
  if c.state = .Closed then c
  else if c.buffered then { c with state := .Closing }
  else { c with state := .Closed }

def shutdownNow (c : ServerConnection) : ServerConnection := if c.hasSocket then c.close else c

/-- `m_progressState` is `EReady`: the timer reads from the socket.  It looks at this when it fires, and its loop does
not look again. -/
def ready (c : ServerConnection) : Bool := decide (c.state ≠ .Closed)

end ServerConnection

/-! ## the server -/

inductive FrontendCall where
  | remoteFrontendConnected
  | remoteFrontendDisconnected
  deriving DecidableEq

/-- A call of `didReceiveWebSocketMessage`: the identifier of the connection, and whether there is a client for it.
Without one the client is a null pointer. -/
structure Message where
  identifier : Nat
  client : Bool
  deriving DecidableEq

/-- `clientMap`: whether the page has a client; `calls`: those of the page's client, the oldest first.  A page's
number is not reached again by `m_nextAvailablePageId`. -/
structure Server where
  nextAvailablePageId : Nat := 1
  clientMap : Nat → Bool := fun _ => false
  connectionMap : Nat → Option Nat := fun _ => none
  connections : Nat → Option ServerConnection := fun _ => none
  calls : Nat → List FrontendCall := fun _ => []
  messages : List Message := []

namespace Server

/-- 0 when there is no such connection -/
def identifier (s : Server) (c : Nat) : Nat := ((s.connections c).map (·.identifier)).getD 0

def setConnection (s : Server) (c : Nat) (f : ServerConnection → ServerConnection) : Server :=
  { s with connections := Function.update s.connections c ((s.connections c).map f) }

def call (s : Server) (pageId : Nat) (what : FrontendCall) : Server :=
  { s with calls := Function.update s.calls pageId (s.calls pageId ++ [what]) }

def setMap (s : Server) (pageId : Nat) (connection : Option Nat) : Server :=
  { s with connectionMap := Function.update s.connectionMap pageId connection }

/-- `client`: the client of the connection's page is given -/
def closeConnection (client : Bool) (s : Server) (c : Nat) : Server :=
  let pageId := s.identifier c
  let s := if client then s.call pageId .remoteFrontendDisconnected else s
  (s.setMap pageId none).setConnection c fun connection => { connection with identifier := 0 }.shutdownNow

def registerPage (s : Server) : Server :=
  { s with
    nextAvailablePageId := s.nextAvailablePageId + 1
    clientMap := Function.update s.clientMap s.nextAvailablePageId true }

def unregisterPage (s : Server) (pageId : Nat) : Server :=
  let s := { s with clientMap := Function.update s.clientMap pageId false }
  match s.connectionMap pageId with
  | none => s
  | some connection => s.closeConnection false connection

/-- for a page that has a client -/
def didEstablishWebSocketConnection (s : Server) (c pageId : Nat) : Server :=
  let replaced := match s.connectionMap pageId with
    | none => s
    | some oldConnection => s.closeConnection false oldConnection
  let mapped := (replaced.setConnection c fun connection => { connection with identifier := pageId }).setMap pageId (some c)
  if (s.connectionMap pageId).isSome then mapped else mapped.call pageId .remoteFrontendConnected

/-- `pageId` is the number in the path of the request, or 0 -/
def upgradeToWebSocketServerConnection (s : Server) (c pageId : Nat) : Server :=
  let s := s.setConnection c fun connection => { connection with mode := .WebSocket }
  if pageId ≠ 0 ∧ s.clientMap pageId then s.didEstablishWebSocketConnection c pageId
  else s.setConnection c (·.shutdownNow)

/-- the last callback of a socket; the connection is deleted -/
def didCloseSocketStream (s : Server) (c : Nat) (connection : ServerConnection) : Server :=
  let cleared := s.setConnection c fun connection => { connection with hasSocket := false }
  let closed :=
    if connection.mode = .WebSocket ∧ connection.identifier ≠ 0 then
      cleared.closeConnection (s.clientMap connection.identifier) c
    else cleared
  { closed with connections := Function.update closed.connections c none }

/-! ## steps -/

/-- what may also happen while a message is handled -/
inductive Action where
  | registerPage
  | unregisterPage (pageId : Nat)
  | shutdownNow (c : Nat)
  | buffer (c : Nat) (buffered : Bool)
  deriving DecidableEq

def act (s : Server) : Action → Server
  | .registerPage => s.registerPage
  | .unregisterPage pageId => s.unregisterPage pageId
  | .shutdownNow c => s.setConnection c (·.shutdownNow)
  | .buffer c buffered => s.setConnection c fun connection => { connection with buffered := buffered }

/-- the client's handling of the message is `actions` -/
def didReceiveWebSocketMessage (c : Nat) (s : Server) (actions : List Action) : Server :=
  let pageId := s.identifier c
  let received := { s with messages := s.messages ++ [⟨pageId, s.clientMap pageId⟩] }
  if s.clientMap pageId then actions.foldl act received else received

/-- `accept`: a new connection; `fire`: one firing of the socket's timer, with the request for a page that it reads
before the connection is in WebSocket mode, and the text frames that it reads then, each with its handling (a frame
that is an error calls `shutdownNow`, as an action does); `closed`: the timer after `platformClose` -/
inductive Op where
  | act (action : Action)
  | accept (c : Nat)
  | fire (c : Nat) (request : Option Nat) (frames : List (List Action))
  | closed (c : Nat)

/-- an event that the socket cannot have changes nothing -/
def step (s : Server) : Op → Server
  | .act action => s.act action
  | .accept c =>
    match s.connections c with
    | none => { s with connections := Function.update s.connections c (some {}) }
    | some _ => s
  | .fire c request frames =>
    match s.connections c with
    | none => s
    | some connection =>
      if connection.ready = false then s
      else
        match connection.mode, request with
        | .HTTP, none => s
        | .HTTP, some pageId =>
          frames.foldl (didReceiveWebSocketMessage c) (s.upgradeToWebSocketServerConnection c pageId)
        | .WebSocket, _ => frames.foldl (didReceiveWebSocketMessage c) s
  | .closed c =>
    match s.connections c with
    | none => s
    | some connection => if connection.state = .Closed then s.didCloseSocketStream c connection else s

/-! ## the property -/

/-- the calls alternate and begin with `remoteFrontendConnected` -/
def Alternates : List FrontendCall → Prop
  | [] => True
  | .remoteFrontendDisconnected :: _ => False
  | [.remoteFrontendConnected] => True
  | .remoteFrontendConnected :: .remoteFrontendConnected :: _ => False
  | .remoteFrontendConnected :: .remoteFrontendDisconnected :: rest => Alternates rest

structure BookKeeping (s : Server) : Prop where
  maps : ∀ pageId c, s.connectionMap pageId = some c ↔ pageId ≠ 0 ∧ s.identifier c = pageId
  clients : ∀ pageId c, s.connectionMap pageId = some c → s.clientMap pageId = true
  messages : ∀ message ∈ s.messages, message.identifier ≠ 0 ∧ message.client = true
  calls : ∀ pageId, Alternates (s.calls pageId)

/-- The page of the frames that a firing reads: that of the connection, or of the request that upgrades it, which is
rejected when the page has no client.  Before a request no frame is read. -/
def page (s : Server) (connection : ServerConnection) (request : Option Nat) : Option Nat :=
  match connection.mode with
  | .WebSocket => some connection.identifier
  | .HTTP => request.map fun pageId => if s.clientMap pageId then pageId else 0

/-- A firing of the timer reads no frame without a page: the connection has one or is upgraded to one, and only the
handling of the last frame unregisters it. -/
def Delivers (s : Server) : Op → Prop
  | .fire c request frames =>
    ∀ connection, s.connections c = some connection → connection.ready = true → frames ≠ [] →
      ∀ pageId, s.page connection request = some pageId →
        pageId ≠ 0 ∧ ∀ actions ∈ frames.dropLast, Action.unregisterPage pageId ∉ actions
  | _ => True

/-- The step leaves everything in order, and a connection that takes the place of another one calls nobody. -/
def InOrder (s : Server) (op : Op) : Prop :=
  BookKeeping (s.step op) ∧
    ∀ c pageId frames, op = .fire c (some pageId) frames → (s.connectionMap pageId).isSome →
      (s.step op).calls = s.calls

/-! ## calls -/

theorem Alternates.connect {calls : List FrontendCall} (h : Alternates calls)
    (hlast : calls.getLast? ≠ some .remoteFrontendConnected) : Alternates (calls ++ [.remoteFrontendConnected]) := by
  fun_induction Alternates calls with
  | case1 => trivial
  | case2 => exact h.elim
  | case3 => exact absurd rfl hlast
  | case4 => exact h.elim
  | case5 rest ih =>
    refine ih h fun hrest => hlast ?_
    rw [List.getLast?_cons, List.getLast?_cons, hrest]
    rfl

theorem Alternates.disconnect {calls : List FrontendCall} (h : Alternates calls)
    (hlast : calls.getLast? = some .remoteFrontendConnected) : Alternates (calls ++ [.remoteFrontendDisconnected]) := by
  fun_induction Alternates calls with
  | case1 => cases hlast
  | case2 => exact h.elim
  | case3 => trivial
  | case4 => exact h.elim
  | case5 rest ih =>
    refine ih h ?_
    cases hrest : rest.getLast? with
    | none =>
      rw [List.getLast?_cons, List.getLast?_cons, hrest] at hlast
      cases hlast
    | some last =>
      rw [List.getLast?_cons, List.getLast?_cons, hrest] at hlast
      exact hlast

/-! ## fields -/

section
variable (s : Server) (c pageId : Nat)

theorem identifier_setConnection (f : ServerConnection → ServerConnection) : (s.setConnection c f).identifier =
    Function.update s.identifier c (((s.connections c).map fun connection => (f connection).identifier).getD 0) := by
  funext d
  unfold identifier setConnection
  dsimp only
  rcases eq_or_ne d c with rfl | hd
  · rw [Function.update_self, Function.update_self, Option.map_map]
    rfl
  · rw [Function.update_of_ne hd, Function.update_of_ne hd]

theorem identifier_kept {f : ServerConnection → ServerConnection}
    (hf : ∀ connection, (f connection).identifier = connection.identifier) :
    (s.setConnection c f).identifier = s.identifier := by
  rw [identifier_setConnection]
  simp only [hf]
  exact Function.update_eq_self c s.identifier

theorem shutdownNow_identifier (connection : ServerConnection) :
    connection.shutdownNow.identifier = connection.identifier := by
  unfold ServerConnection.shutdownNow ServerConnection.close
  split_ifs <;> rfl

theorem shutdownNow_mode (connection : ServerConnection) : connection.shutdownNow.mode = connection.mode := by
  unfold ServerConnection.shutdownNow ServerConnection.close
  split_ifs <;> rfl

variable (client : Bool)

theorem closeConnection_identifier : (s.closeConnection client c).identifier = Function.update s.identifier c 0 := by
  have hcleared : ∀ connection : ServerConnection, { connection with identifier := 0 }.shutdownNow.identifier = 0 :=
    fun connection => shutdownNow_identifier { connection with identifier := 0 }
  unfold closeConnection
  dsimp only
  rw [identifier_setConnection]
  simp only [hcleared]
  have hzero : ∀ o : Option ServerConnection, (o.map fun _ => 0).getD 0 = 0 := by
    intro o
    cases o <;> rfl
  rw [hzero]
  cases client <;> rfl

theorem closeConnection_connectionMap :
    (s.closeConnection client c).connectionMap = Function.update s.connectionMap (s.identifier c) none := by
  cases client <;> rfl

theorem closeConnection_calls : (s.closeConnection client c).calls =
    if client then
      Function.update s.calls (s.identifier c) (s.calls (s.identifier c) ++ [.remoteFrontendDisconnected])
    else s.calls := by
  cases client <;> rfl

theorem closeConnection_clientMap : (s.closeConnection client c).clientMap = s.clientMap := by
  cases client <;> rfl

theorem closeConnection_messages : (s.closeConnection client c).messages = s.messages := by
  cases client <;> rfl

theorem closeConnection_connections : (s.closeConnection client c).connections = Function.update s.connections c
    ((s.connections c).map fun connection => { connection with identifier := 0 }.shutdownNow) := by
  cases client <;> rfl

end

/-! ## the invariant -/

/-- a connection has no page before it is upgraded -/
def Upgraded (s : Server) : Prop :=
  ∀ c connection, s.connections c = some connection → connection.mode = .HTTP → connection.identifier = 0

structure Consistent (s : Server) : Prop where
  maps : ∀ pageId c, s.connectionMap pageId = some c ↔ pageId ≠ 0 ∧ s.identifier c = pageId
  clients : ∀ pageId c, s.connectionMap pageId = some c → s.clientMap pageId = true
  calls : ∀ pageId, Alternates (s.calls pageId)
  connected : ∀ pageId, s.clientMap pageId = true →
    ((s.connectionMap pageId).isSome = true ↔ (s.calls pageId).getLast? = some .remoteFrontendConnected)
  pages : ∀ pageId, s.clientMap pageId = true → pageId ≠ 0 ∧ pageId < s.nextAvailablePageId
  fresh : ∀ pageId, s.nextAvailablePageId ≤ pageId → s.calls pageId = []
  first : 0 < s.nextAvailablePageId
  upgraded : s.Upgraded

def Received (s : Server) : Prop := ∀ message ∈ s.messages, message.identifier ≠ 0 ∧ message.client = true

theorem Upgraded.setConnection {s : Server} (h : s.Upgraded) (c : Nat) {f : ServerConnection → ServerConnection}
    (hf : ∀ connection, s.connections c = some connection → (connection.mode = .HTTP → connection.identifier = 0) →
      (f connection).mode = .HTTP → (f connection).identifier = 0) : (s.setConnection c f).Upgraded := by
  intro d connection
  refine Tables.forall_update h fun changed hchanged => ?_
  obtain ⟨before, hbefore, rfl⟩ := Option.map_eq_some_iff.mp hchanged
  exact hf before hbefore (h c before hbefore)

theorem Upgraded.closeConnection {s : Server} (h : s.Upgraded) (client : Bool) (c : Nat) :
    (s.closeConnection client c).Upgraded := by
  unfold Server.closeConnection
  refine Upgraded.setConnection ?_ c fun connection _ _ _ =>
    shutdownNow_identifier { connection with identifier := 0 }
  cases client <;> exact h

namespace Consistent
variable {s s' : Server}

theorem of_eq (h : s.Consistent) (hmap : s'.connectionMap = s.connectionMap) (hid : s'.identifier = s.identifier)
    (hclients : s'.clientMap = s.clientMap) (hcalls : s'.calls = s.calls)
    (hnext : s'.nextAvailablePageId = s.nextAvailablePageId) (hupgraded : s'.Upgraded) : s'.Consistent where
  maps := by rw [hmap, hid]; exact h.maps
  clients := by rw [hmap, hclients]; exact h.clients
  calls := by rw [hcalls]; exact h.calls
  connected := by rw [hmap, hclients, hcalls]; exact h.connected
  pages := by rw [hclients, hnext]; exact h.pages
  fresh := by rw [hcalls, hnext]; exact h.fresh
  first := by rw [hnext]; exact h.first
  upgraded := hupgraded

theorem of_page (h : s.Consistent) (pageId : Nat) (hpage : s.clientMap pageId = true)
    (hnext : s'.nextAvailablePageId = s.nextAvailablePageId)
    (hmap : ∀ q, q ≠ pageId → s'.connectionMap q = s.connectionMap q)
    (hid : ∀ q, q ≠ pageId → q ≠ 0 → ∀ d, s'.identifier d = q ↔ s.identifier d = q)
    (hclient : ∀ q, q ≠ pageId → s'.clientMap q = s.clientMap q)
    (hcall : ∀ q, q ≠ pageId → s'.calls q = s.calls q)
    (hmaps : ∀ d, s'.connectionMap pageId = some d ↔ s'.identifier d = pageId)
    (hclients : ∀ d, s'.connectionMap pageId = some d → s'.clientMap pageId = true)
    (hcalls : Alternates (s'.calls pageId))
    (hconnected : s'.clientMap pageId = true →
      ((s'.connectionMap pageId).isSome = true ↔ (s'.calls pageId).getLast? = some .remoteFrontendConnected))
    (hupgraded : s'.Upgraded) : s'.Consistent := by
  have hp := h.pages pageId hpage
  have hsplit : ∀ {P : Nat → Prop}, P pageId → (∀ q, q ≠ pageId → P q) → ∀ q, P q := by
    intro P hhere helse q
    rcases eq_or_ne q pageId with rfl | hq
    · exact hhere
    · exact helse q hq
  exact {
    maps := by
      refine hsplit (fun d => ?_) fun q hq d => ?_
      · rw [hmaps d]
        exact ⟨fun heq => ⟨hp.1, heq⟩, fun heq => heq.2⟩
      · rw [hmap q hq, h.maps q d]
        exact and_congr_right fun hzero => (hid q hq hzero d).symm
    clients := by
      refine hsplit hclients fun q hq d => ?_
      rw [hmap q hq, hclient q hq]
      exact h.clients q d
    calls := by
      refine hsplit hcalls fun q hq => ?_
      rw [hcall q hq]
      exact h.calls q
    connected := by
      refine hsplit hconnected fun q hq => ?_
      rw [hmap q hq, hclient q hq, hcall q hq]
      exact h.connected q
    pages := by
      rw [hnext]
      refine hsplit (fun _ => hp) fun q hq => ?_
      rw [hclient q hq]
      exact h.pages q
    fresh := by
      rw [hnext]
      refine hsplit (fun hle => absurd hp.2 (Nat.not_lt_of_le hle)) fun q hq => ?_
      rw [hcall q hq]
      exact h.fresh q
    first := by
      rw [hnext]
      exact h.first
    upgraded := hupgraded }

theorem identifier_of_map (h : s.Consistent) {pageId c : Nat} (hmap : s.connectionMap pageId = some c) :
    s.identifier c = pageId := ((h.maps pageId c).mp hmap).2

theorem map_of_identifier (h : s.Consistent) {c : Nat} (hid : s.identifier c ≠ 0) :
    s.connectionMap (s.identifier c) = some c := (h.maps _ c).mpr ⟨hid, rfl⟩

theorem identifier_cleared (h : s.Consistent) {pageId c : Nat} (hmap : s.connectionMap pageId = some c) (d : Nat) :
    Function.update s.identifier c 0 d ≠ pageId := by
  have hp := (h.maps pageId c).mp hmap
  rcases eq_or_ne d c with rfl | hd
  · rw [Function.update_self]
    exact hp.1.symm
  · rw [Function.update_of_ne hd]
    intro hid
    have hother := (h.maps pageId d).mpr ⟨hp.1, hid⟩
    rw [hmap] at hother
    exact hd (Option.some.inj hother).symm

theorem identifier_others (h : s.Consistent) {pageId c : Nat} (hmap : s.connectionMap pageId = some c) {q : Nat}
    (hq : q ≠ pageId) (hzero : q ≠ 0) (d : Nat) : Function.update s.identifier c 0 d = q ↔ s.identifier d = q := by
  rcases eq_or_ne d c with rfl | hd
  · rw [Function.update_self, h.identifier_of_map hmap]
    exact ⟨fun heq => absurd heq.symm hzero, fun heq => absurd heq.symm hq⟩
  · rw [Function.update_of_ne hd]

/-! ## pages -/

protected theorem registerPage (h : s.Consistent) : s.registerPage.Consistent where
  maps := h.maps
  clients pageId c hmap := by
    show Function.update s.clientMap _ true pageId = true
    rcases eq_or_ne pageId s.nextAvailablePageId with rfl | hne
    · rw [Function.update_self]
    · rw [Function.update_of_ne hne]
      exact h.clients pageId c hmap
  calls := h.calls
  connected pageId hclient := by
    rcases eq_or_ne pageId s.nextAvailablePageId with rfl | hne
    · -- the number is new
      have hcalls : s.calls s.nextAvailablePageId = [] := h.fresh _ (Nat.le_refl _)
      have hmap : s.connectionMap s.nextAvailablePageId = none := by
        cases hmap : s.connectionMap s.nextAvailablePageId with
        | none => rfl
        | some c => exact absurd (h.pages _ (h.clients _ c hmap)).2 (Nat.lt_irrefl _)
      show (s.connectionMap _).isSome = true ↔ (s.calls _).getLast? = _
      rw [hcalls, hmap]
      exact ⟨nofun, nofun⟩
    · refine h.connected pageId ?_
      unfold Server.registerPage at hclient
      dsimp only at hclient
      rw [Function.update_of_ne hne] at hclient
      exact hclient
  pages pageId hclient := by
    show pageId ≠ 0 ∧ pageId < s.nextAvailablePageId + 1
    rcases eq_or_ne pageId s.nextAvailablePageId with rfl | hne
    · exact ⟨Nat.ne_of_gt h.first, Nat.lt_succ_self _⟩
    · unfold Server.registerPage at hclient
      dsimp only at hclient
      rw [Function.update_of_ne hne] at hclient
      have hpage := h.pages pageId hclient
      exact ⟨hpage.1, Nat.lt_succ_of_lt hpage.2⟩
  fresh pageId hle := h.fresh pageId (Nat.le_of_succ_le hle)
  first := Nat.succ_pos _
  upgraded := h.upgraded

protected theorem unregisterPage (h : s.Consistent) (pageId : Nat) : (s.unregisterPage pageId).Consistent := by
  unfold Server.unregisterPage
  dsimp only
  cases hmap : s.connectionMap pageId with
  | none =>
    have hclient : ∀ q, Function.update s.clientMap pageId false q = true → q ≠ pageId ∧ s.clientMap q = true := by
      intro q hq
      rcases eq_or_ne q pageId with rfl | hne
      · rw [Function.update_self] at hq
        cases hq
      · rw [Function.update_of_ne hne] at hq
        exact ⟨hne, hq⟩
    exact {
      maps := h.maps
      clients := by
        intro q d hq
        have hne : q ≠ pageId := by
          rintro rfl
          cases hmap.symm.trans hq
        show Function.update s.clientMap pageId false q = true
        rw [Function.update_of_ne hne]
        exact h.clients q d hq
      calls := h.calls
      connected := fun q hq => h.connected q (hclient q hq).2
      pages := fun q hq => h.pages q (hclient q hq).2
      fresh := h.fresh
      first := h.first
      upgraded := h.upgraded }
  | some c =>
    dsimp only
    have hid : Server.identifier { s with clientMap := Function.update s.clientMap pageId false } c = pageId :=
      h.identifier_of_map hmap
    have hidentifier : (Server.closeConnection false
        { s with clientMap := Function.update s.clientMap pageId false } c).identifier =
          Function.update s.identifier c 0 := closeConnection_identifier _ c false
    refine h.of_page pageId (h.clients pageId c hmap) rfl (fun q hq => ?_) (fun q hq hzero d => ?_) (fun q hq => ?_)
      (fun _ _ => rfl) (fun d => ?_) (fun d hd => ?_) (h.calls pageId) (fun hclient => ?_) ?_
    · rw [closeConnection_connectionMap, hid, Function.update_of_ne hq]
    · rw [hidentifier]
      exact h.identifier_others hmap hq hzero d
    · rw [closeConnection_clientMap]
      exact Function.update_of_ne hq _ _
    · rw [closeConnection_connectionMap, hid, Function.update_self, hidentifier]
      exact ⟨nofun, fun heq => absurd heq (h.identifier_cleared hmap d)⟩
    · rw [closeConnection_connectionMap, hid, Function.update_self] at hd
      cases hd
    · rw [closeConnection_clientMap] at hclient
      cases (Function.update_self pageId false s.clientMap).symm.trans hclient
    · exact Upgraded.closeConnection (s := { s with clientMap := Function.update s.clientMap pageId false })
        h.upgraded false c

/-! ## connections -/

theorem placed (h : s.Consistent) {c pageId : Nat} (hpage : s.clientMap pageId = true) (hid : s.identifier c = 0)
    {F : Nat → Nat} (hF : ∀ d, F d ≠ pageId) (hothers : ∀ q, q ≠ pageId → q ≠ 0 → ∀ d, F d = q ↔ s.identifier d = q)
    (hidentifier : s'.identifier = Function.update F c pageId)
    (hmap : s'.connectionMap = Function.update s.connectionMap pageId (some c))
    (hclients : s'.clientMap = s.clientMap)
    (hcalls : s'.calls = if (s.connectionMap pageId).isSome then s.calls
      else Function.update s.calls pageId (s.calls pageId ++ [.remoteFrontendConnected]))
    (hnext : s'.nextAvailablePageId = s.nextAvailablePageId) (hupgraded : s'.Upgraded) : s'.Consistent := by
  have hconnected := h.connected pageId hpage
  refine h.of_page pageId hpage hnext (fun q hq => ?_) (fun q hq hzero d => ?_) (fun q _ => by rw [hclients])
    (fun q hq => ?_) (fun d => ?_) (fun _ _ => by rw [hclients]; exact hpage) ?_ (fun _ => ?_) hupgraded
  · rw [hmap, Function.update_of_ne hq]
  · rw [hidentifier]
    rcases eq_or_ne d c with rfl | hd
    · rw [Function.update_self, hid]
      exact ⟨fun heq => absurd heq.symm hq, fun heq => absurd heq.symm hzero⟩
    · rw [Function.update_of_ne hd]
      exact hothers q hq hzero d
  · rw [hcalls]
    split
    · rfl
    · rw [Function.update_of_ne hq]
  · rw [hmap, hidentifier, Function.update_self]
    rcases eq_or_ne d c with rfl | hd
    · rw [Function.update_self]
      exact ⟨fun _ => rfl, fun _ => rfl⟩
    · rw [Function.update_of_ne hd]
      exact ⟨fun heq => absurd (Option.some.inj heq).symm hd, fun heq => absurd heq (hF d)⟩
  · rw [hcalls]
    split
    · exact h.calls pageId
    · next hnone =>
      rw [Function.update_self]
      exact (h.calls pageId).connect fun hlast => hnone (hconnected.mpr hlast)
  · rw [hmap, hcalls, Function.update_self]
    split
    · next hsome => exact ⟨fun _ => hconnected.mp hsome, fun _ => rfl⟩
    · rw [Function.update_self, List.getLast?_append]
      exact ⟨fun _ => rfl, fun _ => rfl⟩

theorem didEstablishWebSocketConnection (h : s.Consistent) {c pageId : Nat} {connection : ServerConnection}
    (hconnection : s.connections c = some connection) (hmode : connection.mode = .WebSocket)
    (hzero : connection.identifier = 0) (hpage : s.clientMap pageId = true) :
    (s.didEstablishWebSocketConnection c pageId).Consistent := by
  have hid : s.identifier c = 0 := by
    unfold Server.identifier
    rw [hconnection]
    exact hzero
  unfold Server.didEstablishWebSocketConnection
  cases hmap : s.connectionMap pageId with
  | none =>
    refine h.placed hpage hid (F := s.identifier) (fun d hd => ?_) (fun _ _ _ _ => Iff.rfl) ?_ rfl rfl ?_ rfl ?_
    · have hother := (h.maps pageId d).mpr ⟨(h.pages pageId hpage).1, hd⟩
      cases hmap.symm.trans hother
    · refine (identifier_setConnection s c _).trans ?_
      rw [hconnection]
      rfl
    · rw [hmap]
      rfl
    · refine h.upgraded.setConnection c fun before hbefore _ hHTTP => ?_
      obtain rfl := Option.some.inj (hconnection.symm.trans hbefore)
      cases hmode.symm.trans hHTTP
  | some oldConnection =>
    have hne : c ≠ oldConnection := by
      rintro rfl
      rw [h.identifier_of_map hmap] at hid
      exact (h.pages pageId hpage).1 hid
    have hkept : (s.closeConnection false oldConnection).connections c = some connection := by
      rw [closeConnection_connections, Function.update_of_ne hne, hconnection]
    refine h.placed hpage hid (h.identifier_cleared hmap) (fun q hq hq' d => h.identifier_others hmap hq hq' d)
      ?_ ?_ rfl ?_ rfl ?_
    · refine (identifier_setConnection (s.closeConnection false oldConnection) c _).trans ?_
      rw [hkept, closeConnection_identifier]
      rfl
    · show Function.update (s.closeConnection false oldConnection).connectionMap pageId (some c) = _
      rw [closeConnection_connectionMap, h.identifier_of_map hmap, Function.update_idem]
    · rw [hmap]
      rfl
    · refine (h.upgraded.closeConnection false oldConnection).setConnection c fun before hbefore _ hHTTP => ?_
      obtain rfl := Option.some.inj (hkept.symm.trans hbefore)
      cases hmode.symm.trans hHTTP

theorem setConnection (h : s.Consistent) (c : Nat) {f : ServerConnection → ServerConnection}
    (hid : ∀ connection, (f connection).identifier = connection.identifier)
    (hmode : ∀ connection, (f connection).mode = .HTTP → connection.mode = .HTTP) : (s.setConnection c f).Consistent :=
  h.of_eq rfl (identifier_kept s c hid) rfl rfl rfl (h.upgraded.setConnection c fun connection _ hzero hHTTP => by
    rw [hid]
    exact hzero (hmode connection hHTTP))

protected theorem shutdownNow (h : s.Consistent) (c : Nat) : (s.setConnection c (·.shutdownNow)).Consistent :=
  h.setConnection c shutdownNow_identifier fun connection hHTTP => (shutdownNow_mode connection).symm.trans hHTTP

theorem upgradeToWebSocketServerConnection (h : s.Consistent) {c : Nat} {connection : ServerConnection}
    (hconnection : s.connections c = some connection) (hHTTP : connection.mode = .HTTP) (pageId : Nat) :
    (s.upgradeToWebSocketServerConnection c pageId).Consistent := by
  have hmode : (s.setConnection c fun connection => { connection with mode := .WebSocket }).Consistent :=
    h.setConnection c (fun _ => rfl) nofun
  unfold Server.upgradeToWebSocketServerConnection
  dsimp only
  split
  · next hpage =>
    have hupgraded : (s.setConnection c fun connection => { connection with mode := .WebSocket }).connections c =
        some { connection with mode := .WebSocket } := by
      show Function.update s.connections c _ c = _
      rw [Function.update_self, hconnection]
      rfl
    exact hmode.didEstablishWebSocketConnection hupgraded rfl (h.upgraded c connection hconnection hHTTP) hpage.2
  · exact hmode.shutdownNow c

end Consistent

theorem identifier_deleted (s : Server) (c : Nat) :
    Server.identifier { s with connections := Function.update s.connections c none } = Function.update s.identifier c 0 := by
  funext d
  unfold identifier
  dsimp only
  rcases eq_or_ne d c with rfl | hd
  · rw [Function.update_self, Function.update_self]
    rfl
  · rw [Function.update_of_ne hd, Function.update_of_ne hd]

theorem Upgraded.deleted {s : Server} (h : s.Upgraded) (c : Nat) :
    Upgraded { s with connections := Function.update s.connections c none } := by
  intro d connection hd
  exact h d connection (Tables.update_taken hd).2

theorem identifier_of_connection {s : Server} {c : Nat} {connection : ServerConnection}
    (h : s.connections c = some connection) : s.identifier c = connection.identifier := by
  unfold identifier
  rw [h]
  rfl

namespace Consistent
variable {s : Server}

theorem didCloseSocketStream (h : s.Consistent) {c : Nat} {connection : ServerConnection}
    (hconnection : s.connections c = some connection) : (s.didCloseSocketStream c connection).Consistent := by
  have hcleared : (s.setConnection c fun connection => { connection with hasSocket := false }).Consistent :=
    h.setConnection c (fun _ => rfl) fun _ hHTTP => hHTTP
  have hidentifier : (s.setConnection c fun connection => { connection with hasSocket := false }).identifier =
      s.identifier := identifier_kept s c fun _ => rfl
  have hid := identifier_of_connection hconnection
  unfold Server.didCloseSocketStream
  dsimp only
  split
  · -- the remote side has closed the page's connection
    next hpage =>
    have hmap : s.connectionMap connection.identifier = some c := (h.maps _ c).mpr ⟨hpage.2, hid⟩
    have hclient := h.clients _ c hmap
    have hlast := (h.connected _ hclient).mp (by rw [hmap]; rfl)
    rw [hclient]
    refine h.of_page connection.identifier hclient rfl (fun q hq => ?_) (fun q hq hzero d => ?_) (fun _ _ => rfl)
      (fun q hq => ?_) (fun d => ?_) (fun d hd => ?_) ?_ (fun _ => ?_) ?_
    · show (Server.closeConnection true _ c).connectionMap q = _
      rw [closeConnection_connectionMap, hidentifier, hid, Function.update_of_ne hq]
      rfl
    · rw [identifier_deleted, closeConnection_identifier, hidentifier, Function.update_idem]
      exact h.identifier_others hmap hq hzero d
    · show (Server.closeConnection true _ c).calls q = _
      rw [closeConnection_calls, if_pos rfl, hidentifier, hid, Function.update_of_ne hq]
      rfl
    · show (Server.closeConnection true _ c).connectionMap _ = _ ↔ _
      rw [identifier_deleted, closeConnection_identifier, hidentifier, Function.update_idem,
        closeConnection_connectionMap, hidentifier, hid, Function.update_self]
      exact ⟨nofun, fun heq => absurd heq (h.identifier_cleared hmap d)⟩
    · change (Server.closeConnection true _ c).connectionMap _ = _ at hd
      rw [closeConnection_connectionMap, hidentifier, hid, Function.update_self] at hd
      cases hd
    · show Alternates ((Server.closeConnection true _ c).calls _)
      rw [closeConnection_calls, if_pos rfl, hidentifier, hid, Function.update_self]
      exact (h.calls _).disconnect hlast
    · show ((Server.closeConnection true _ c).connectionMap _).isSome = true ↔
        ((Server.closeConnection true _ c).calls _).getLast? = _
      rw [closeConnection_connectionMap, closeConnection_calls, if_pos rfl, hidentifier, hid, Function.update_self,
        Function.update_self, List.getLast?_append]
      exact ⟨nofun, nofun⟩
    · exact (hcleared.upgraded.closeConnection true c).deleted c
  · next hnone =>
    have hzero : s.identifier c = 0 := by
      rw [hid]
      cases hmode : connection.mode with
      | HTTP => exact h.upgraded c connection hconnection hmode
      | WebSocket => exact Classical.byContradiction fun hne => hnone ⟨hmode, hne⟩
    refine h.of_eq rfl ?_ rfl rfl rfl (hcleared.upgraded.deleted c)
    rw [identifier_deleted, hidentifier, ← hzero, Function.update_eq_self]

theorem accept (h : s.Consistent) {c : Nat} (hnone : s.connections c = none) :
    Consistent { s with connections := Function.update s.connections c (some {}) } := by
  refine h.of_eq rfl (funext fun d => ?_) rfl rfl rfl fun _ _ => ?_
  · unfold Server.identifier
    dsimp only
    rcases eq_or_ne d c with rfl | hne
    · rw [Function.update_self, hnone]
      rfl
    · rw [Function.update_of_ne hne]
  · exact Tables.forall_update h.upgraded fun _ hnew => Option.some.inj hnew ▸ fun _ => rfl

theorem act (h : s.Consistent) (action : Action) : (s.act action).Consistent := by
  cases action with
  | registerPage => exact h.registerPage
  | unregisterPage pageId => exact h.unregisterPage pageId
  | shutdownNow c => exact h.shutdownNow c
  | buffer c buffered => exact h.setConnection c (fun _ => rfl) fun _ hHTTP => hHTTP

theorem acts (h : s.Consistent) (actions : List Action) : (actions.foldl Server.act s).Consistent := by
  induction actions generalizing s with
  | nil => exact h
  | cons action actions ih => exact ih (h.act action)

theorem received (h : s.Consistent) (messages : List Message) : Consistent { s with messages := messages } :=
  h.of_eq rfl rfl rfl rfl rfl h.upgraded

theorem didReceiveWebSocketMessage (h : s.Consistent) (c : Nat) (actions : List Action) :
    (s.didReceiveWebSocketMessage c actions).Consistent := by
  unfold Server.didReceiveWebSocketMessage
  dsimp only
  split
  · exact (h.received _).acts actions
  · exact h.received _

theorem reads (h : s.Consistent) (c : Nat) (frames : List (List Action)) :
    (frames.foldl (Server.didReceiveWebSocketMessage c) s).Consistent := by
  induction frames generalizing s with
  | nil => exact h
  | cons actions frames ih => exact ih (h.didReceiveWebSocketMessage c actions)

/-- **One step**, by the event -/
theorem step (h : s.Consistent) (op : Op) : (s.step op).Consistent := by
  cases op with
  | act action => exact h.act action
  | accept c =>
    unfold Server.step
    dsimp only
    split
    · next hnone => exact h.accept hnone
    · exact h
  | fire c request frames =>
    unfold Server.step
    dsimp only
    split
    · exact h
    · next connection hconnection =>
      split
      · exact h
      · split
        · exact h
        · next hHTTP => exact (h.upgradeToWebSocketServerConnection hconnection hHTTP _).reads c frames
        · exact h.reads c frames
  | closed c =>
    unfold Server.step
    dsimp only
    split
    · exact h
    · next hconnection =>
      split
      · exact h.didCloseSocketStream hconnection
      · exact h

end Consistent

/-! ## messages -/

theorem setConnection_messages (s : Server) (c : Nat) (f : ServerConnection → ServerConnection) :
    (s.setConnection c f).messages = s.messages := rfl

theorem unregisterPage_messages (s : Server) (pageId : Nat) : (s.unregisterPage pageId).messages = s.messages := by
  unfold unregisterPage
  dsimp only
  split
  · rfl
  · rw [closeConnection_messages]

theorem act_messages (s : Server) (action : Action) : (s.act action).messages = s.messages := by
  cases action with
  | unregisterPage pageId => exact unregisterPage_messages s pageId
  | _ => rfl

theorem acts_messages (s : Server) (actions : List Action) : (actions.foldl act s).messages = s.messages := by
  induction actions generalizing s with
  | nil => rfl
  | cons action actions ih =>
    rw [List.foldl_cons, ih]
    exact act_messages s action

theorem establish_messages (s : Server) (c pageId : Nat) :
    (s.didEstablishWebSocketConnection c pageId).messages = s.messages := by
  unfold didEstablishWebSocketConnection
  cases s.connectionMap pageId with
  | none => rfl
  | some oldConnection =>
    show (s.closeConnection false oldConnection).messages = _
    rw [closeConnection_messages]

theorem establish_identifier (s : Server) {c : Nat} (hc : (s.connections c).isSome = true) (pageId : Nat) :
    (s.didEstablishWebSocketConnection c pageId).identifier c = pageId := by
  have hset : ∀ s' : Server, (s'.connections c).isSome = true →
      (s'.setConnection c fun connection => { connection with identifier := pageId }).identifier c = pageId := by
    intro s' hc'
    obtain ⟨connection, hconnection⟩ := Option.isSome_iff_exists.mp hc'
    rw [identifier_setConnection, Function.update_self, hconnection]
    rfl
  unfold didEstablishWebSocketConnection
  cases s.connectionMap pageId with
  | none => exact hset s hc
  | some oldConnection =>
    refine hset (s.closeConnection false oldConnection) ?_
    rw [closeConnection_connections]
    rcases eq_or_ne c oldConnection with rfl | hne
    · rw [Function.update_self, Option.isSome_map]
      exact hc
    · rw [Function.update_of_ne hne]
      exact hc

theorem upgrade_messages (s : Server) (c pageId : Nat) :
    (s.upgradeToWebSocketServerConnection c pageId).messages = s.messages := by
  unfold upgradeToWebSocketServerConnection
  dsimp only
  split
  · exact establish_messages _ c pageId
  · rfl

theorem close_messages (s : Server) (c : Nat) (connection : ServerConnection) :
    (s.didCloseSocketStream c connection).messages = s.messages := by
  unfold didCloseSocketStream
  dsimp only
  split
  · rw [closeConnection_messages, setConnection_messages]
  · rfl

theorem didReceive_messages (s : Server) (c : Nat) (actions : List Action) :
    (s.didReceiveWebSocketMessage c actions).messages =
      s.messages ++ [⟨s.identifier c, s.clientMap (s.identifier c)⟩] := by
  unfold didReceiveWebSocketMessage
  dsimp only
  split
  · rw [acts_messages]
  · rfl

theorem Consistent.act_identifier {s : Server} (h : s.Consistent) {c : Nat} (hid : s.identifier c ≠ 0)
    (action : Action) : (s.act action).identifier c =
      if action = .unregisterPage (s.identifier c) then 0 else s.identifier c := by
  cases action with
  | registerPage => rfl
  | shutdownNow d =>
    show (s.setConnection d (·.shutdownNow)).identifier c = _
    rw [identifier_kept s d shutdownNow_identifier]
    rfl
  | buffer d buffered =>
    have hkept : (s.setConnection d fun connection => { connection with buffered := buffered }).identifier =
        s.identifier := identifier_kept s d fun _ => rfl
    show (s.setConnection d fun connection => { connection with buffered := buffered }).identifier c = _
    rw [hkept]
    rfl
  | unregisterPage pageId =>
    have hown := h.map_of_identifier hid
    show (s.unregisterPage pageId).identifier c = _
    unfold unregisterPage
    dsimp only
    cases hmap : s.connectionMap pageId with
    | none =>
      have hne : Action.unregisterPage pageId ≠ .unregisterPage (s.identifier c) := by
        intro heq
        rw [Action.unregisterPage.inj heq, hown] at hmap
        cases hmap
      rw [if_neg hne]
      rfl
    | some d =>
      dsimp only
      rw [closeConnection_identifier]
      show Function.update s.identifier d 0 c = _
      rcases eq_or_ne c d with rfl | hne
      · rw [Function.update_self, if_pos (by rw [h.identifier_of_map hmap])]
      · have hother : Action.unregisterPage pageId ≠ .unregisterPage (s.identifier c) := by
          intro heq
          rw [Action.unregisterPage.inj heq, hown] at hmap
          exact hne (Option.some.inj hmap)
        rw [Function.update_of_ne hne, if_neg hother]

theorem act_identifier_zero (s : Server) {c : Nat} (hid : s.identifier c = 0) (action : Action) :
    (s.act action).identifier c = 0 := by
  cases action with
  | registerPage => exact hid
  | shutdownNow d =>
    show (s.setConnection d (·.shutdownNow)).identifier c = _
    rw [identifier_kept s d shutdownNow_identifier, hid]
  | buffer d buffered =>
    have hkept : (s.setConnection d fun connection => { connection with buffered := buffered }).identifier =
        s.identifier := identifier_kept s d fun _ => rfl
    show (s.setConnection d fun connection => { connection with buffered := buffered }).identifier c = _
    rw [hkept, hid]
  | unregisterPage pageId =>
    show (s.unregisterPage pageId).identifier c = _
    unfold unregisterPage
    dsimp only
    split
    · exact hid
    · next d _ =>
      rw [closeConnection_identifier]
      show Function.update s.identifier d 0 c = 0
      rcases eq_or_ne c d with rfl | hne
      · rw [Function.update_self]
      · rw [Function.update_of_ne hne, hid]

theorem acts_identifier_zero (s : Server) {c : Nat} (hid : s.identifier c = 0) (actions : List Action) :
    (actions.foldl act s).identifier c = 0 := by
  induction actions generalizing s with
  | nil => exact hid
  | cons action actions ih => exact ih _ (act_identifier_zero s hid action)

theorem Consistent.acts_identifier {s : Server} (h : s.Consistent) {c : Nat} (hid : s.identifier c ≠ 0)
    (actions : List Action) : (actions.foldl Server.act s).identifier c =
      if Action.unregisterPage (s.identifier c) ∈ actions then 0 else s.identifier c := by
  induction actions generalizing s with
  | nil => rfl
  | cons action actions ih =>
    have hact := h.act_identifier hid action
    rw [List.foldl_cons]
    rcases eq_or_ne action (.unregisterPage (s.identifier c)) with rfl | hne
    · rw [if_pos rfl] at hact
      rw [acts_identifier_zero _ hact, if_pos List.mem_cons_self]
    · rw [if_neg hne] at hact
      rw [ih (h.act action) (by rw [hact]; exact hid), hact]
      simp only [List.mem_cons, hne.symm, false_or]

theorem Consistent.upgrade_identifier {s : Server} (h : s.Consistent) {c : Nat} {connection : ServerConnection}
    (hconnection : s.connections c = some connection) (hHTTP : connection.mode = .HTTP) {pageId : Nat} :
    (s.upgradeToWebSocketServerConnection c pageId).identifier c = if s.clientMap pageId then pageId else 0 := by
  have hkept : (s.setConnection c fun connection => { connection with mode := .WebSocket }).identifier = s.identifier :=
    identifier_kept s c fun _ => rfl
  unfold Server.upgradeToWebSocketServerConnection
  dsimp only
  split
  · next hpage =>
    have hclient : s.clientMap pageId = true := hpage.2
    rw [if_pos hclient]
    refine establish_identifier _ ?_ pageId
    show (Function.update s.connections c _ c).isSome = true
    rw [Function.update_self, hconnection]
    rfl
  · next hpage =>
    rw [identifier_kept _ c shutdownNow_identifier, hkept, identifier_of_connection hconnection,
      h.upgraded c connection hconnection hHTTP]
    split
    · next hclient => exact absurd ⟨(h.pages pageId hclient).1, hclient⟩ hpage
    · rfl

/-- **The frames of one firing**, by the frames: they all have a page exactly if only the last one loses it. -/
theorem Consistent.reads_received {s : Server} (h : s.Consistent) (c : Nat) (frames : List (List Action)) :
    (frames.foldl (Server.didReceiveWebSocketMessage c) s).Received ↔ s.Received ∧ (frames ≠ [] →
      s.identifier c ≠ 0 ∧ ∀ actions ∈ frames.dropLast, Action.unregisterPage (s.identifier c) ∉ actions) := by
  induction frames generalizing s with
  | nil => exact ⟨fun hreceived => ⟨hreceived, fun hne => absurd rfl hne⟩, And.left⟩
  | cons actions frames ih =>
    have hnext := h.didReceiveWebSocketMessage c actions
    have hmessages := didReceive_messages s c actions
    rw [List.foldl_cons, ih hnext]
    by_cases hid : s.identifier c = 0
    · -- a null client
      constructor
      · rintro ⟨hreceived, _⟩
        have hnull := hreceived ⟨s.identifier c, s.clientMap (s.identifier c)⟩
          (by rw [hmessages]; exact List.mem_append_right _ List.mem_cons_self)
        exact absurd hid hnull.1
      · rintro ⟨_, hfine⟩
        exact absurd hid (hfine (List.cons_ne_nil _ _)).1
    · have hclient := h.clients _ c (h.map_of_identifier hid)
      have hreceived : (s.didReceiveWebSocketMessage c actions).Received ↔ s.Received := by
        unfold Received
        rw [hmessages, hclient]
        simp only [List.mem_append, List.mem_singleton]
        constructor
        · exact fun hall message hmem => hall message (.inl hmem)
        · rintro hall message (hmem | rfl)
          · exact hall message hmem
          · exact ⟨hid, rfl⟩
      have hafter : (s.didReceiveWebSocketMessage c actions).identifier c =
          if Action.unregisterPage (s.identifier c) ∈ actions then 0 else s.identifier c := by
        unfold Server.didReceiveWebSocketMessage
        dsimp only
        rw [if_pos hclient]
        exact (h.received (s.messages ++ [⟨s.identifier c, s.clientMap (s.identifier c)⟩])).acts_identifier hid actions
      rw [hreceived, hafter]
      refine and_congr_right fun _ => ?_
      cases frames with
      | nil =>
        exact ⟨fun _ _ => ⟨hid, nofun⟩, fun _ hne => absurd rfl hne⟩
      | cons actions' frames =>
        rw [List.dropLast_cons_of_ne_nil (List.cons_ne_nil actions' frames)]
        simp only [ne_eq, reduceCtorEq, not_false_eq_true, forall_const, List.forall_mem_cons, hid, true_and]
        split
        · next hgone => exact ⟨fun hfine => absurd rfl hfine.1, fun hfine => absurd hgone hfine.1⟩
        · next hkept => exact ⟨fun hfine => ⟨hkept, hfine.2⟩, fun hfine => ⟨hid, hfine.2⟩⟩

theorem Consistent.step_received {s : Server} (h : s.Consistent) (hreceived : s.Received) (op : Op) :
    (s.step op).Received ↔ s.Delivers op := by
  have hsame : ∀ s' : Server, s'.messages = s.messages → s'.Received := by
    intro s' hmessages
    unfold Received
    rw [hmessages]
    exact hreceived
  cases op with
  | act action => exact iff_of_true (hsame _ (act_messages s action)) trivial
  | accept c =>
    refine iff_of_true (hsame _ ?_) trivial
    unfold Server.step
    dsimp only
    split <;> rfl
  | closed c =>
    refine iff_of_true (hsame _ ?_) trivial
    unfold Server.step
    dsimp only
    split
    · rfl
    · next connection _ =>
      split
      · exact close_messages s c connection
      · rfl
  | fire c request frames =>
    unfold Server.step Delivers
    dsimp only
    cases hconnection : s.connections c with
    | none => exact iff_of_true hreceived fun connection heq => by cases heq
    | some connection =>
      dsimp only
      cases hready : connection.ready with
      | false =>
        refine iff_of_true hreceived fun other heq hother => ?_
        rw [← Option.some.inj heq, hready] at hother
        cases hother
      | true =>
        have hfine : ∀ pageId, s.page connection request = some pageId →
            ((frames ≠ [] → pageId ≠ 0 ∧ ∀ actions ∈ frames.dropLast, Action.unregisterPage pageId ∉ actions) ↔
              ∀ other, some connection = some other → other.ready = true → frames ≠ [] →
                ∀ pageId, s.page other request = some pageId →
                  pageId ≠ 0 ∧ ∀ actions ∈ frames.dropLast, Action.unregisterPage pageId ∉ actions) := by
          intro pageId hpage
          constructor
          · intro hall other heq _ hne p hp
            obtain rfl := Option.some.inj heq
            obtain rfl := Option.some.inj (hpage.symm.trans hp)
            exact hall hne
          · exact fun hall hne => hall connection rfl hready hne pageId hpage
        rw [if_neg (by exact Bool.noConfusion)]
        cases hmode : connection.mode with
        | WebSocket =>
          have hpage : s.page connection request = some connection.identifier := by
            unfold page
            rw [hmode]
          dsimp only
          rw [h.reads_received, identifier_of_connection hconnection, ← hfine _ hpage]
          exact and_iff_right hreceived
        | HTTP =>
          cases request with
          | none =>
            refine iff_of_true hreceived fun other heq _ _ pageId hpage => ?_
            obtain rfl := Option.some.inj heq
            unfold page at hpage
            rw [hmode] at hpage
            cases hpage
          | some pageId =>
            have hpage : s.page connection (some pageId) = some (if s.clientMap pageId then pageId else 0) := by
              unfold page
              rw [hmode]
              rfl
            dsimp only
            rw [(h.upgradeToWebSocketServerConnection hconnection hmode pageId).reads_received,
              h.upgrade_identifier hconnection hmode, ← hfine _ hpage]
            exact and_iff_right (hsame _ (upgrade_messages s c pageId))

/-! ## runs -/

theorem Consistent.bookKeeping {s : Server} (h : s.Consistent) : s.BookKeeping ↔ s.Received :=
  ⟨BookKeeping.messages, fun hreceived => ⟨h.maps, h.clients, hreceived, h.calls⟩⟩

theorem act_calls (s : Server) (action : Action) : (s.act action).calls = s.calls := by
  cases action with
  | unregisterPage pageId =>
    show (s.unregisterPage pageId).calls = _
    unfold unregisterPage
    dsimp only
    split
    · rfl
    · rw [closeConnection_calls]
      rfl
  | _ => rfl

theorem reads_calls (s : Server) (c : Nat) (frames : List (List Action)) :
    (frames.foldl (didReceiveWebSocketMessage c) s).calls = s.calls := by
  have hacts : ∀ (actions : List Action) (s : Server), (actions.foldl act s).calls = s.calls := by
    intro actions
    induction actions with
    | nil => exact fun _ => rfl
    | cons action actions ih => exact fun s => (ih _).trans (act_calls s action)
  induction frames generalizing s with
  | nil => rfl
  | cons actions frames ih =>
    refine (ih _).trans ?_
    unfold didReceiveWebSocketMessage
    dsimp only
    split
    · exact hacts actions _
    · rfl

theorem upgrade_calls (s : Server) (c pageId : Nat) (hmap : (s.connectionMap pageId).isSome) :
    (s.upgradeToWebSocketServerConnection c pageId).calls = s.calls := by
  obtain ⟨oldConnection, hold⟩ := Option.isSome_iff_exists.mp hmap
  unfold upgradeToWebSocketServerConnection
  dsimp only
  split
  · have hmap' : (s.setConnection c fun connection => { connection with mode := .WebSocket }).connectionMap pageId =
        some oldConnection := hold
    unfold didEstablishWebSocketConnection
    rw [hmap']
    show (Server.closeConnection false _ oldConnection).calls = s.calls
    rw [closeConnection_calls]
    rfl
  · rfl

theorem replaced_calls (s : Server) (c pageId : Nat) (frames : List (List Action))
    (hmap : (s.connectionMap pageId).isSome) : (s.step (.fire c (some pageId) frames)).calls = s.calls := by
  unfold Server.step
  dsimp only
  split
  · rfl
  split
  · rfl
  split
  · rfl
  · next heq =>
    cases heq
    rw [reads_calls, upgrade_calls s c pageId hmap]
  · exact reads_calls s c frames

theorem Consistent.inOrder {s : Server} (h : s.Consistent) (hreceived : s.Received) (op : Op) :
    s.InOrder op ↔ s.Delivers op := by
  unfold InOrder
  rw [(h.step op).bookKeeping, h.step_received hreceived]
  refine and_iff_left ?_
  rintro c pageId frames rfl hmap
  exact replaced_calls s c pageId frames hmap

end Server
end Inspector
end Wkc
