import PipelineTunnel.Client.External
import PipelineTunnel.Setup.Agreement

/-!
# Client and server agree on the connections

The tunnel runs. The client asks for a target for each external connection, the server
connects, at once or later, and either side may give up in the meantime. Control messages
travel in order in both directions.

## Implementation notes

`started` lists the connects that were ever in progress and did not succeed. A closed socket
leaves the set that is waited for, but an event of it may be in the batch being handled: its
handler then finds an error. A connect that succeeded has another handler. Open connections
are not closed here: the only `MSG_DISCONNECT` is the answer to a `MSG_CONNECT_OK` for a
request that is no longer there.
-/

namespace PipelineTunnel.Connects

open Protocol StepSystem
open Client (External PendingConn)
open Lifecycle (Core PendingConnect TargetConn)

/-- The two ends and what is under way between them. -/
structure Peers where
  server : Core
  client : External
  toServer : List Packet := []
  toClient : List Packet := []
  started : List PendingConnect := []

inductive Label where
  | accept (fd : Nat)
  | serverTakes
  | clientTakes
  /-- `EPOLLOUT` for a connect in progress, and what `SO_ERROR` says. -/
  | connectOut (pending : PendingConnect) (ok : Bool)
  /-- `EPOLLERR` or `EPOLLHUP` for a connect in progress. -/
  | connectHup (pending : PendingConnect)
  | serverTimeout (reqId : UInt8)
  | clientTimeout
  | closePendingTargets
deriving DecidableEq, Repr

/-- The server acts, and what it sends is under way. -/
def Peers.serverActs (s : Peers) (server : Core) : Peers :=
  { s with
    server := server
    toClient := s.toClient ++ Setup.since s.server.controlSent server.controlSent
    started := s.started ++ server.connecting }

def Peers.clientActs (s : Peers) (act : External × List Packet) : Peers :=
  { s with client := act.1, toServer := s.toServer ++ act.2 }

/-- The second branch of the handler of a connect in progress. -/
def connectHup (core : Core) (pending : PendingConnect) : Core :=
  (Lifecycle.dropConnect core pending.reqId pending.fd).sendControl
    ⟨MSG_CONNECT_FAIL, [pending.connId, pending.reqId]⟩

/-- The first branch. -/
def Peers.connectOut (s : Peers) (pending : PendingConnect) (ok : Bool) : Peers :=
  { s with started := s.started.filter fun p => ¬ (ok ∧ p = pending) }.serverActs
    (Lifecycle.connectDone s.server pending ok)

def closePendingTargets (core : Core) : Core :=
  { core.pendingDisconnectTargets.foldl Lifecycle.closeTarget core with
    pendingDisconnectTargets := [] }

def step (ws : Lifecycle.World) (targetAddr : Bytes) (s : Peers) : Label → Option Peers
  | .accept fd => some (s.clientActs (s.client.onListenerAccept targetAddr fd))
  | .serverTakes =>
      match s.toServer with
      | [] => none
      | pkt :: rest =>
          some ({ s with toServer := rest }.serverActs (Lifecycle.applyControl ws s.server pkt))
  | .clientTakes =>
      match s.toClient with
      | [] => none
      | pkt :: rest => some ({ s with toClient := rest }.clientActs (s.client.applyControl pkt))
  | .connectOut pending ok =>
      if pending ∈ s.server.connecting ∨ pending ∈ s.started ∧ ok = false then
        some (s.connectOut pending ok)
      else none
  | .connectHup pending =>
      if pending ∈ s.started then some (s.serverActs (connectHup s.server pending)) else none
  | .serverTimeout reqId => some (s.serverActs (Lifecycle.connectTimeout s.server reqId))
  | .clientTimeout => s.client.pendingTimeout.map s.clientActs
  | .closePendingTargets => some (s.serverActs (closePendingTargets s.server))

/-- The ids of the connects in progress. -/
def connectingIds (core : Core) : List UInt8 := core.connecting.map PendingConnect.connId

/-- No descriptor is accepted twice, and the id that a request gets is not that of a connect
in progress. -/
def Fresh (ws : Lifecycle.World) (s : Peers) : Label → Prop
  | .accept fd => fd ∉ s.client.accepted
  | .serverTakes => ∀ pkt ∈ s.toServer.head?, pkt.type = MSG_CONNECT_REQ →
      Lifecycle.allocConnId ws s.server ∉ connectingIds s.server
  | _ => True

instance (ws : Lifecycle.World) (s : Peers) : ∀ l, Decidable (Fresh ws s l)
  | .accept fd => inferInstanceAs (Decidable (fd ∉ s.client.accepted))
  | .serverTakes => inferInstanceAs (Decidable (∀ pkt ∈ s.toServer.head?,
      pkt.type = MSG_CONNECT_REQ → Lifecycle.allocConnId ws s.server ∉ connectingIds s.server))
  | .clientTakes | .connectOut .. | .connectHup _ | .serverTimeout _ | .clientTimeout
  | .closePendingTargets => isTrue trivial

/-- A running tunnel without connections. -/
structure Started (s : Peers) : Prop where
  connected : s.server.dataConnections.any fun dc => dc.fd.isSome
  targets : ∀ connId, s.server.targets connId = none
  connecting : s.server.connecting = []
  deferred : s.server.pendingDisconnectTargets = []
  conns : ∀ connId, s.client.conns connId = none
  pendingExt : s.client.pendingExt = []
  accepted : s.client.accepted = []
  closed : s.client.closed = []
  toServer : s.toServer = []
  toClient : s.toClient = []

/-- No message in flight, no pending connect, and no deferred disconnect. -/
structure Settled (s : Peers) : Prop where
  toServer : s.toServer = []
  toClient : s.toClient = []
  pendingExt : s.client.pendingExt = []
  pendingConnects : ∀ reqId, s.server.pendingConnects reqId = none
  deferred : s.server.pendingDisconnectTargets = []

/-! ## Where a connection is accounted for -/

/-- The connection that a `MSG_CONNECT_OK` announces. -/
def okId (pkt : Packet) : Option UInt8 :=
  if pkt.type = MSG_CONNECT_OK then
    match pkt.payload with
    | connId :: _ :: _ => some connId
    | _ => none
  else none

/-- The connection that a `MSG_DISCONNECT` ends. -/
def disconnectId (pkt : Packet) : Option UInt8 :=
  if pkt.type = MSG_DISCONNECT then pkt.payload.head? else none

/-- A target of the server is announced to the client, kept by the client, refused by the
client, or about to be closed: exactly one of these. -/
structure Accounted (s : Peers) : Prop where
  connected : s.server.dataConnections.any fun dc => dc.fd.isSome
  balance : ∀ connId,
    (s.toClient.filterMap okId).count connId + (s.client.conns connId).isSome.toNat +
      (s.toServer.filterMap disconnectId).count connId +
      s.server.pendingDisconnectTargets.count connId =
    (s.server.targets connId).isSome.toNat
  reserved : ∀ connId ∈ connectingIds s.server, s.server.targets connId = none
  distinct : (connectingIds s.server).Nodup
  requests : ∀ pkt ∈ s.toServer,
    pkt.type = MSG_CONNECT_REQ ∨ pkt.type = MSG_CONNECT_CANCEL ∨ pkt.type = MSG_DISCONNECT
  owned : s.client.Owned
  accepted : s.client.accepted.Nodup

variable {s s' : Peers} {core core' : Core} {sent : List Packet}

theorem Started.accounted (h : Started s) : Accounted s := by
  refine ⟨h.connected, fun connId => ?_, ?_, ?_, ?_, fun fd => ?_, ?_⟩
  · simp [h.toClient, h.conns, h.toServer, h.deferred, h.targets]
  · simp [connectingIds, h.connecting]
  · simp [connectingIds, h.connecting]
  · simp [h.toServer]
  · simp [External.holders, External.owners, h.pendingExt, h.closed, h.conns, h.accepted]
  · simp [h.accepted]

/-! ## What the server does -/

/-- A step of the server that sends `sent` and keeps its connections to the client. -/
structure Sends (core core' : Core) (sent : List Packet) : Prop where
  connections : core'.dataConnections = core.dataConnections
  controlSent : core'.controlSent = core.controlSent ++ sent

/-- The deferred disconnects aside, a step of the server leaves the targets alone, begins a
connect, or opens a target and announces it. -/
inductive Effect (core core' : Core) (sent : List Packet) : Prop where
  | quiet (targets : core'.targets = core.targets)
      (connecting : (connectingIds core').Sublist (connectingIds core))
      (silent : sent.filterMap okId = [])
  | begins (connId : UInt8) (targets : core'.targets = core.targets)
      (connecting : connectingIds core' = connectingIds core ++ [connId])
      (free : core.targets connId = none) (new : connId ∉ connectingIds core)
      (silent : sent.filterMap okId = [])
  | opens (connId : UInt8) (target : TargetConn)
      (targets : core'.targets = Function.update core.targets connId (some target))
      (connecting : (connectingIds core').Sublist (connectingIds core))
      (free : core.targets connId = none) (new : connId ∉ connectingIds core')
      (announced : sent.filterMap okId = [connId])

theorem Sends.toClient (h : Sends core core' sent) :
    Setup.since core.controlSent core'.controlSent = sent := by
  rw [Setup.since, h.controlSent, List.drop_left]

theorem Accounted.serverActs (h : Accounted s) (hsends : Sends s.server core' sent)
    (hdeferred : core'.pendingDisconnectTargets = s.server.pendingDisconnectTargets)
    (heffect : Effect s.server core' sent) : Accounted (s.serverActs core') := by
  have hconnected : core'.dataConnections.any fun dc => dc.fd.isSome := by
    rw [hsends.connections]
    exact h.connected
  have hsent := hsends.toClient
  cases heffect with
  | quiet targets connecting silent =>
      refine ⟨hconnected, fun connId => ?_, fun connId hmem => ?_, connecting.nodup h.distinct,
        h.requests, h.owned, h.accepted⟩
      · simp only [Peers.serverActs, hsent, List.filterMap_append, silent, List.append_nil,
          hdeferred, targets]
        exact h.balance connId
      · simp only [Peers.serverActs, targets]
        exact h.reserved connId (connecting.subset hmem)
  | begins connId targets connecting free new silent =>
      refine ⟨hconnected, fun c => ?_, fun c hmem => ?_, ?_, h.requests, h.owned, h.accepted⟩
      · simp only [Peers.serverActs, hsent, List.filterMap_append, silent, List.append_nil,
          hdeferred, targets]
        exact h.balance c
      · simp only [Peers.serverActs, targets]
        rw [Peers.serverActs, connecting] at hmem
        rcases List.mem_append.mp hmem with hold | hnew
        · exact h.reserved c hold
        · rw [List.mem_singleton.mp hnew, free]
      · simp only [Peers.serverActs, connecting]
        exact List.nodup_append.mpr ⟨h.distinct, List.nodup_singleton connId, by
          intro c hc c' hc' heq
          exact new (List.mem_singleton.mp hc' ▸ heq ▸ hc)⟩
  | opens connId target targets connecting free new announced =>
      refine ⟨hconnected, fun c => ?_, fun c hmem => ?_, connecting.nodup h.distinct,
        h.requests, h.owned, h.accepted⟩
      · have hc := h.balance c
        simp only [Peers.serverActs, hsent, List.filterMap_append, announced, hdeferred, targets,
          List.count_append]
        by_cases hcid : c = connId
        · subst hcid
          rw [free] at hc
          simp only [Option.isSome_none, Bool.toNat_false] at hc
          simp only [Function.update_self, Option.isSome_some, Bool.toNat_true,
            List.count_singleton_self]
          omega
        · have hother : [connId].count c = 0 := by simp [Ne.symm hcid]
          rw [Function.update_of_ne hcid, hother]
          omega
      · simp only [Peers.serverActs, targets]
        have hne : c ≠ connId := fun heq => new (heq ▸ hmem)
        rw [Function.update_of_ne hne]
        exact h.reserved c (connecting.subset hmem)

/-- An operation of the server whose effect is one of those above. -/
structure Serves (core core' : Core) : Prop where
  deferred : core'.pendingDisconnectTargets = core.pendingDisconnectTargets
  effect : ∃ sent, Sends core core' sent ∧ Effect core core' sent

theorem Accounted.serves (h : Accounted s) (hserves : Serves s.server core') :
    Accounted (s.serverActs core') := by
  obtain ⟨hdeferred, sent, hsends, heffect⟩ := hserves
  exact h.serverActs hsends hdeferred heffect

/-- The log and the counter of the attempts do not matter. -/
theorem Serves.of_counters (log : List Lifecycle.Trace) (attempts : Nat)
    (h : Serves { core with log := log, attempts := attempts } core') : Serves core core' := by
  obtain ⟨hdeferred, sent, ⟨hconnections, hsent⟩, heffect⟩ := h
  refine ⟨hdeferred, sent, ⟨hconnections, hsent⟩, ?_⟩
  cases heffect with
  | quiet targets connecting silent => exact .quiet targets connecting silent
  | begins connId targets connecting free new silent =>
      exact .begins connId targets connecting free new silent
  | opens connId target targets connecting free new announced =>
      exact .opens connId target targets connecting free new announced

theorem serves_self (core : Core) : Serves core core :=
  ⟨rfl, [], ⟨rfl, (List.append_nil _).symm⟩, .quiet rfl (List.Sublist.refl _) rfl⟩

/-- The connects in progress get fewer. -/
theorem serves_dropConnect (core : Core) (reqId : UInt8) (fd : Nat) :
    Serves core (Lifecycle.dropConnect core reqId fd) :=
  ⟨rfl, [], ⟨rfl, (List.append_nil _).symm⟩, .quiet rfl (List.filter_sublist.map _) rfl⟩

theorem serves_handleConnectCancel (core : Core) (pkt : Packet) :
    Serves core (Lifecycle.handleConnectCancel core pkt) := by
  unfold Lifecycle.handleConnectCancel
  split
  · exact serves_self core
  · split
    · exact serves_self core
    · exact serves_dropConnect core _ _

/-- The id that `alloc_conn_id` returns has no target. -/
theorem targets_allocConnId {w : Lifecycle.World}
    (hsome : Lifecycle.allocConnId w core ≠ Lifecycle.CONN_ID_NONE) :
    core.targets (Lifecycle.allocConnId w core) = none := by
  unfold Lifecycle.allocConnId at hsome ⊢
  dsimp only at hsome ⊢
  split_ifs at hsome ⊢ with hfree
  · simpa using hfree
  · exact absurd rfl hsome

section Connected

variable (hopen : core.dataConnections.any fun dc => dc.fd.isSome)
include hopen

/-- A failure is reported, and the connects in progress can only get fewer. -/
theorem serves_fail (pendingConnects : UInt8 → Option PendingConnect)
    {connecting : List PendingConnect} (hsub : connecting.Sublist core.connecting)
    (connId reqId : UInt8) :
    Serves core (Core.sendControl { core with
      pendingConnects := pendingConnects, connecting := connecting }
        ⟨MSG_CONNECT_FAIL, [connId, reqId]⟩) := by
  rw [Core.sendControl, if_pos hopen]
  exact ⟨rfl, _, ⟨rfl, rfl⟩, .quiet rfl (hsub.map _) rfl⟩

/-- A connect that succeeded opens its target. -/
theorem serves_onTargetConnected {connecting : List PendingConnect} {connId : UInt8}
    (hsub : connecting.Sublist core.connecting) (hfree : core.targets connId = none)
    (hnew : connId ∉ connecting.map PendingConnect.connId) (fd : Nat) (reqId : UInt8)
    (log : List Lifecycle.Trace) :
    Serves core (Lifecycle.onTargetConnected { core with
      connecting := connecting, log := log } fd connId reqId) := by
  rw [Lifecycle.onTargetConnected]
  dsimp only [Lifecycle.openTarget, Core.note]
  rw [Core.sendControl, if_pos hopen]
  exact ⟨rfl, _, ⟨rfl, rfl⟩, .opens connId ⟨fd, []⟩ rfl (hsub.map _) hfree hnew rfl⟩

theorem serves_setupTunnelTargetAsync (w : Lifecycle.World) (addr : Bytes) {connId : UInt8}
    (reqId : UInt8) (hfree : core.targets connId = none) (hnew : connId ∉ connectingIds core) :
    Serves core (Lifecycle.setupTunnelTargetAsync w core addr connId reqId) := by
  rw [Lifecycle.setupTunnelTargetAsync]
  split_ifs
  · split
    · exact serves_fail hopen core.pendingConnects (List.Sublist.refl _) connId reqId
    · exact serves_onTargetConnected hopen (List.Sublist.refl _) hfree hnew _ reqId core.log
    · refine ⟨rfl, [], ⟨rfl, (List.append_nil _).symm⟩, .begins connId rfl ?_ hfree hnew rfl⟩
      simp [connectingIds]
  · exact serves_fail hopen core.pendingConnects (List.Sublist.refl _) connId reqId

theorem serves_handleConnectReq (w : Lifecycle.World) (pkt : Packet)
    (hnew : Lifecycle.allocConnId w core ∉ connectingIds core) :
    Serves core (Lifecycle.handleConnectReq w core pkt) := by
  unfold Lifecycle.handleConnectReq
  split
  · dsimp only
    split_ifs with hshort hid
    · exact serves_self core
    · apply Serves.of_counters core.log (core.attempts + 1)
      apply serves_fail
      · exact hopen
      · exact List.Sublist.refl _
    · apply Serves.of_counters core.log (core.attempts + 1)
      apply serves_setupTunnelTargetAsync
      · exact hopen
      · exact targets_allocConnId hid
      · exact hnew
  · exact serves_self core

theorem serves_connectHup (pending : PendingConnect) : Serves core (connectHup core pending) :=
  serves_fail hopen _ List.filter_sublist pending.connId pending.reqId

theorem serves_connectTimeout (reqId : UInt8) :
    Serves core (Lifecycle.connectTimeout core reqId) := by
  unfold Lifecycle.connectTimeout
  split
  · exact serves_self core
  · exact serves_fail hopen _ List.filter_sublist _ reqId

/-- A connect succeeds only while it is in progress. -/
theorem serves_connectDone (pending : PendingConnect) (ok : Bool)
    (hok : ok → pending ∈ core.connecting)
    (hreserved : ∀ connId ∈ connectingIds core, core.targets connId = none)
    (hdistinct : (connectingIds core).Nodup) :
    Serves core (Lifecycle.connectDone core pending ok) := by
  unfold Lifecycle.connectDone
  dsimp only
  have hsub := List.erase_sublist (a := pending) (l := core.connecting)
  split_ifs with hcase
  · have hmem := hok hcase
    have hid := List.mem_map_of_mem (f := PendingConnect.connId) hmem
    refine serves_onTargetConnected hopen hsub (hreserved _ hid) ?_ _ _ _
    have hperm := (List.perm_cons_erase hmem).map PendingConnect.connId
    exact (List.nodup_cons.mp (hperm.nodup_iff.mp hdistinct)).1
  · exact serves_fail hopen _ (List.filter_sublist.trans hsub) pending.connId pending.reqId

/-- A request or its cancellation. -/
theorem serves_applyControl {ws : Lifecycle.World} {pkt : Packet}
    (htype : pkt.type = MSG_CONNECT_REQ ∨ pkt.type = MSG_CONNECT_CANCEL)
    (hnew : pkt.type = MSG_CONNECT_REQ → Lifecycle.allocConnId ws core ∉ connectingIds core) :
    Serves core (Lifecycle.applyControl ws core pkt) := by
  apply Serves.of_counters (core.log ++ [.control core.state pkt]) core.attempts
  rcases htype with hreq | hcancel
  · have happly : Lifecycle.applyControl ws core pkt =
        Lifecycle.handleConnectReq ws (core.note (.control core.state pkt)) pkt := by
      simp [Lifecycle.applyControl, hreq]
    rw [happly]
    apply serves_handleConnectReq
    · exact hopen
    · exact hnew hreq
  · have happly : Lifecycle.applyControl ws core pkt =
        Lifecycle.handleConnectCancel (core.note (.control core.state pkt)) pkt := by
      simp [Lifecycle.applyControl, hcancel, MSG_CONNECT_REQ, MSG_CONNECT_CANCEL]
    rw [happly]
    exact serves_handleConnectCancel _ pkt

end Connected

/-! ## Deferred disconnects -/

theorem foldl_closeTarget (ids : List UInt8) (core : Core) :
    ids.foldl Lifecycle.closeTarget core =
      { core with targets := fun c => if c ∈ ids then none else core.targets c } := by
  induction ids generalizing core with
  | nil => simp
  | cons connId ids ih =>
      rw [List.foldl_cons, ih, Lifecycle.closeTarget]
      congr 1
      funext c
      by_cases hc : c = connId <;> simp [hc, Function.update_of_ne]

/-- Exactly the targets whose disconnect waits are closed. -/
theorem Accounted.closePendingTargets (h : Accounted s) :
    Accounted (s.serverActs (closePendingTargets s.server)) := by
  have heq : Connects.closePendingTargets s.server =
      { s.server with
        targets := fun c =>
          if c ∈ s.server.pendingDisconnectTargets then none else s.server.targets c
        pendingDisconnectTargets := [] } := by
    rw [Connects.closePendingTargets, foldl_closeTarget]
  have hsends : Sends s.server (Connects.closePendingTargets s.server) [] := by
    rw [heq]
    exact ⟨rfl, (List.append_nil _).symm⟩
  rw [Peers.serverActs, hsends.toClient, List.append_nil, heq]
  refine ⟨h.connected, fun c => ?_, fun c hmem => ?_, h.distinct, h.requests, h.owned, h.accepted⟩
  · have hc := h.balance c
    by_cases hmem : c ∈ s.server.pendingDisconnectTargets
    · have hpos := List.count_pos_iff.mpr hmem
      have hle := Bool.toNat_le (s.server.targets c).isSome
      simp only [if_pos hmem, List.count_nil, Option.isSome_none, Bool.toNat_false]
      omega
    · rw [List.count_eq_zero_of_not_mem hmem] at hc
      simpa only [if_neg hmem, List.count_nil] using hc
  · have hfree := h.reserved c hmem
    simp only [hfree, ite_self]

/-! ## The messages -/

/-- A message that ends no connection leaves the channel. -/
theorem Accounted.drop {pkt : Packet} {rest : List Packet} (h : Accounted s)
    (hpkt : s.toServer = pkt :: rest) (hnone : disconnectId pkt = none) :
    Accounted { s with toServer := rest } := by
  refine ⟨h.connected, fun c => ?_, h.reserved, h.distinct, fun m hm => ?_, h.owned, h.accepted⟩
  · have hc := h.balance c
    rwa [hpkt, List.filterMap_cons_none hnone] at hc
  · exact h.requests m (hpkt ▸ List.mem_cons_of_mem pkt hm)

/-- The close of a target is put off. -/
theorem Accounted.defer {pkt : Packet} {rest : List Packet} {connId : UInt8}
    (h : Accounted s) (hpkt : s.toServer = pkt :: rest) (hid : disconnectId pkt = some connId)
    (log : List Lifecycle.Trace) :
    Accounted { s with
      toServer := rest
      server := { s.server with
        log := log
        pendingDisconnectTargets := s.server.pendingDisconnectTargets ++ [connId] } } := by
  refine ⟨h.connected, fun c => ?_, h.reserved, h.distinct, fun m hm => ?_, h.owned, h.accepted⟩
  · have hc := h.balance c
    rw [hpkt, List.filterMap_cons_some hid, List.count_cons] at hc
    simp only [List.count_append, List.count_singleton]
    omega
  · exact h.requests m (hpkt ▸ List.mem_cons_of_mem pkt hm)

theorem Accounted.serverTakes {ws : Lifecycle.World} {pkt : Packet} {rest : List Packet}
    (h : Accounted s) (hpkt : s.toServer = pkt :: rest)
    (hnew : pkt.type = MSG_CONNECT_REQ →
      Lifecycle.allocConnId ws s.server ∉ connectingIds s.server) :
    Accounted
      ({ s with toServer := rest }.serverActs (Lifecycle.applyControl ws s.server pkt)) := by
  have htype := h.requests pkt (hpkt ▸ List.mem_cons_self)
  by_cases hdisc : pkt.type = MSG_DISCONNECT
  · have happly : Lifecycle.applyControl ws s.server pkt =
        Lifecycle.handleDisconnect (s.server.note (.control s.server.state pkt)) pkt := by
      simp [Lifecycle.applyControl, hdisc, MSG_DISCONNECT, MSG_CONNECT_REQ, MSG_CONNECT_CANCEL]
    rw [happly, Lifecycle.handleDisconnect]
    cases hpayload : pkt.payload with
    | nil =>
        have hnone : disconnectId pkt = none := by simp [disconnectId, hpayload]
        have hserves : Serves s.server (s.server.note (.control s.server.state pkt)) :=
          Serves.of_counters _ s.server.attempts (serves_self _)
        exact (h.drop hpkt hnone).serves hserves
    | cons connId more =>
        have hsome : disconnectId pkt = some connId := by simp [disconnectId, hdisc, hpayload]
        have hdefer := h.defer hpkt hsome (s.server.log ++ [.control s.server.state pkt])
        have hsent : Setup.since s.server.controlSent s.server.controlSent = [] := by
          simp [Setup.since]
        exact ⟨hdefer.connected, fun c => by
          simpa [Peers.serverActs, Core.note, hsent] using hdefer.balance c, hdefer.reserved,
          hdefer.distinct, hdefer.requests, hdefer.owned, hdefer.accepted⟩
  · have hnone : disconnectId pkt = none := by simp [disconnectId, hdisc]
    have hasks : pkt.type = MSG_CONNECT_REQ ∨ pkt.type = MSG_CONNECT_CANCEL := by
      rcases htype with hreq | hcancel | hdisconnect
      · exact .inl hreq
      · exact .inr hcancel
      · exact absurd hdisconnect hdisc
    exact (h.drop hpkt hnone).serves (serves_applyControl h.connected hasks hnew)

/-- A step of the client that keeps its connections and refuses none. -/
theorem Accounted.clientActs {act : External × List Packet} (h : Accounted s)
    (hconns : act.1.conns = s.client.conns) (howned : act.1.Owned)
    (haccepted : act.1.accepted.Nodup)
    (hsent : ∀ pkt ∈ act.2, pkt.type = MSG_CONNECT_REQ ∨ pkt.type = MSG_CONNECT_CANCEL) :
    Accounted (s.clientActs act) := by
  have hnone : act.2.filterMap disconnectId = [] := by
    rw [List.filterMap_eq_nil_iff]
    intro pkt hpkt
    rcases hsent pkt hpkt with htype | htype <;>
      simp [disconnectId, htype, MSG_DISCONNECT, MSG_CONNECT_REQ, MSG_CONNECT_CANCEL]
  refine ⟨h.connected, fun c => ?_, h.reserved, h.distinct, fun pkt hpkt => ?_, howned, haccepted⟩
  · simp only [Peers.clientActs, hconns, List.filterMap_append, hnone, List.append_nil]
    exact h.balance c
  · rcases List.mem_append.mp hpkt with hold | hnew
    · exact h.requests pkt hold
    · rcases hsent pkt hnew with htype | htype
      · exact .inl htype
      · exact .inr (.inl htype)

theorem Accounted.dropAnswer {pkt : Packet} {rest : List Packet} (h : Accounted s)
    (hpkt : s.toClient = pkt :: rest) (hnone : okId pkt = none) :
    Accounted { s with toClient := rest } := by
  refine ⟨h.connected, fun c => ?_, h.reserved, h.distinct, h.requests, h.owned, h.accepted⟩
  have hc := h.balance c
  rwa [hpkt, List.filterMap_cons_none hnone] at hc

/-- An announced connection that nobody waits for is refused. -/
theorem Accounted.refuse {pkt : Packet} {rest : List Packet} {connId : UInt8} (h : Accounted s)
    (hpkt : s.toClient = pkt :: rest) (hid : okId pkt = some connId) :
    Accounted ({ s with toClient := rest }.clientActs
      (s.client, [⟨MSG_DISCONNECT, [connId]⟩])) := by
  refine ⟨h.connected, fun c => ?_, h.reserved, h.distinct, fun m hm => ?_, h.owned, h.accepted⟩
  · have hc := h.balance c
    rw [hpkt, List.filterMap_cons_some hid, List.count_cons] at hc
    simp only [Peers.clientActs, List.filterMap_append, List.count_append]
    have hone : ([⟨MSG_DISCONNECT, [connId]⟩] : List Packet).filterMap disconnectId = [connId] :=
      rfl
    rw [hone, List.count_singleton]
    omega
  · rcases List.mem_append.mp hm with hold | hnew
    · exact h.requests m hold
    · rw [List.mem_singleton.mp hnew]
      exact .inr (.inr rfl)

/-- An announced connection takes the place of its request. -/
theorem Accounted.keep {pkt : Packet} {rest : List Packet} {connId : UInt8} (h : Accounted s)
    (hpkt : s.toClient = pkt :: rest) (hid : okId pkt = some connId)
    {before behind : List PendingConn} {pc : PendingConn}
    (hpending : s.client.pendingExt = before ++ pc :: behind) :
    Accounted ({ s with toClient := rest }.clientActs
      (External.emplace { s.client with pendingExt := before ++ behind } connId pc.fd, [])) := by
  have hfree : s.client.conns connId = none := by
    have hc := h.balance connId
    have hle := Bool.toNat_le (s.server.targets connId).isSome
    rw [hpkt, List.filterMap_cons_some hid, List.count_cons_self] at hc
    cases hconn : s.client.conns connId with
    | none => rfl
    | some fd =>
        simp only [hconn, Option.isSome_some, Bool.toNat_true] at hc
        omega
  have howned := h.owned.emplace hpending hfree
  have hnone : ¬ (s.client.conns connId).isSome := by simp [hfree]
  rw [External.emplace, if_neg hnone] at howned ⊢
  refine ⟨h.connected, fun c => ?_, h.reserved, h.distinct, ?_, howned, h.accepted⟩
  · have hc := h.balance c
    rw [hpkt, List.filterMap_cons_some hid, List.count_cons] at hc
    simp only [Peers.clientActs, List.append_nil]
    by_cases hcid : c = connId
    · subst hcid
      rw [hfree] at hc
      simp only [beq_self_eq_true, if_true, Option.isSome_none, Bool.toNat_false] at hc
      simp only [Function.update_self, Option.isSome_some, Bool.toNat_true]
      omega
    · have hne : (connId == c) = false := by simpa using Ne.symm hcid
      simp only [hne, Bool.false_eq_true, if_false] at hc
      rw [Function.update_of_ne hcid]
      omega
  · simpa only [Peers.clientActs, List.append_nil] using h.requests

/-- A failure closes the descriptor of its request. -/
theorem Accounted.handleConnectFail (h : Accounted s) (pkt : Packet) :
    Accounted (s.clientActs (s.client.handleConnectFail pkt)) := by
  have hidle : Accounted (s.clientActs (s.client, [])) :=
    h.clientActs rfl h.owned h.accepted (by simp)
  unfold External.handleConnectFail
  split
  · split
    · exact hidle
    · rename_i pc rest htake
      obtain ⟨before, behind, hpending, rfl⟩ := Client.takeReq_some htake
      exact h.clientActs rfl (h.owned.close hpending) h.accepted (by simp)
  · exact hidle

theorem Accounted.clientTakes {pkt : Packet} {rest : List Packet} (h : Accounted s)
    (hpkt : s.toClient = pkt :: rest) :
    Accounted ({ s with toClient := rest }.clientActs (s.client.applyControl pkt)) := by
  have hidle (hnone : okId pkt = none) :
      Accounted ({ s with toClient := rest }.clientActs (s.client, [])) :=
    (h.dropAnswer hpkt hnone).clientActs rfl h.owned h.accepted (by simp)
  unfold External.applyControl
  split_ifs with hok hfail
  · unfold External.handleConnectOk
    split
    · rename_i connId reqId more hpayload
      have hid : okId pkt = some connId := by simp [okId, hok, hpayload]
      split
      · exact h.refuse hpkt hid
      · rename_i pc left htake
        obtain ⟨before, behind, hpending, rfl⟩ := Client.takeReq_some htake
        exact h.keep hpkt hid hpending
    · rename_i hshort
      apply hidle
      rw [okId, if_pos hok]
      split
      · rename_i connId reqId more hpayload
        exact absurd hpayload (hshort connId reqId more)
      · rfl
  · exact (h.dropAnswer hpkt (by simp [okId, hok])).handleConnectFail pkt
  · exact hidle (by simp [okId, hok])

theorem Accounted.connectOut (h : Accounted s) {pending : PendingConnect} {ok : Bool}
    (hok : ok → pending ∈ s.server.connecting) : Accounted (s.connectOut pending ok) := by
  have hbefore : Accounted
      { s with started := s.started.filter fun p => ¬ (ok ∧ p = pending) } :=
    ⟨h.connected, h.balance, h.reserved, h.distinct, h.requests, h.owned, h.accepted⟩
  exact hbefore.serves (serves_connectDone h.connected pending ok hok h.reserved h.distinct)

theorem Accounted.accept (h : Accounted s) (targetAddr : Bytes) {fd : Nat}
    (hfresh : fd ∉ s.client.accepted) :
    Accounted (s.clientActs (s.client.onListenerAccept targetAddr fd)) := by
  have howned := h.owned.accept targetAddr fd
  have haccepted : (s.client.accepted ++ [fd]).Nodup := by
    rw [← List.concat_eq_append]
    exact h.accepted.concat hfresh
  unfold External.onListenerAccept at howned ⊢
  dsimp only at howned ⊢
  split_ifs at howned ⊢
  · exact h.clientActs rfl howned haccepted (by simp)
  · exact h.clientActs rfl howned haccepted (by simp)

theorem Accounted.clientTimeout (h : Accounted s) {act : External × List Packet}
    (hact : s.client.pendingTimeout = some act) : Accounted (s.clientActs act) := by
  unfold External.pendingTimeout at hact
  split at hact
  · cases hact
  · rename_i front rest hpending
    obtain rfl := Option.some.inj hact
    have hfront : s.client.pendingExt = [] ++ front :: rest := hpending
    exact h.clientActs rfl (h.owned.close hfront) h.accepted (by simp)

theorem Accounted.step {ws : Lifecycle.World} {targetAddr : Bytes} {l : Label}
    (h : Accounted s) (hfresh : Fresh ws s l) (hstep : step ws targetAddr s l = some s') :
    Accounted s' := by
  cases l with
  | accept fd =>
      obtain rfl := Option.some.inj hstep
      exact h.accept targetAddr hfresh
  | serverTakes =>
      cases hpkt : s.toServer with
      | nil => simp [Connects.step, hpkt] at hstep
      | cons pkt rest =>
          simp only [Connects.step, hpkt] at hstep
          obtain rfl := Option.some.inj hstep
          exact h.serverTakes hpkt (hfresh pkt (by simp [hpkt]))
  | clientTakes =>
      cases hpkt : s.toClient with
      | nil => simp [Connects.step, hpkt] at hstep
      | cons pkt rest =>
          simp only [Connects.step, hpkt] at hstep
          obtain rfl := Option.some.inj hstep
          exact h.clientTakes hpkt
  | connectOut pending ok =>
      simp only [Connects.step] at hstep
      split_ifs at hstep with hevent
      obtain rfl := Option.some.inj hstep
      apply h.connectOut
      intro hok
      rcases hevent with hmem | ⟨-, hfailed⟩
      · exact hmem
      · rw [hfailed] at hok
        cases hok
  | connectHup pending =>
      simp only [Connects.step] at hstep
      split_ifs at hstep
      obtain rfl := Option.some.inj hstep
      exact h.serves (serves_connectHup h.connected pending)
  | serverTimeout reqId =>
      obtain rfl := Option.some.inj hstep
      exact h.serves (serves_connectTimeout h.connected reqId)
  | clientTimeout =>
      obtain ⟨act, hact, rfl⟩ := Option.map_eq_some_iff.mp hstep
      exact h.clientTimeout hact
  | closePendingTargets =>
      obtain rfl := Option.some.inj hstep
      exact h.closePendingTargets

/-! ## Agreement -/

/-- Whatever crosses on the way: when everything under way has arrived, both sides have the
same connections, and an external descriptor is kept once or closed. -/
theorem connects_agree {ws : Lifecycle.World} {targetAddr : Bytes} {ls : List Label}
    (hstart : Started s) (hfresh : Meets (step ws targetAddr) (Fresh ws) s ls)
    (hrun : run (step ws targetAddr) s ls = some s') (hsettled : Settled s') :
    {connId | (s'.server.targets connId).isSome} = {connId | (s'.client.conns connId).isSome} ∧
      ∀ fd ∈ s'.client.accepted,
        Xor (fd ∈ s'.client.closed) (∃! connId, s'.client.conns connId = some fd) := by
  have hstep : ∀ s l s', Accounted s → Fresh ws s l → step ws targetAddr s l = some s' →
      Accounted s' := fun s l s' h hl hs => h.step hl hs
  have h := invariant_of_meets hstep hstart.accounted hfresh hrun
  refine ⟨?_, fun fd hfd => h.owned.settled h.accepted hsettled.pendingExt hfd⟩
  ext connId
  have hbalance := h.balance connId
  rw [hsettled.toClient, hsettled.toServer, hsettled.deferred] at hbalance
  simp only [List.filterMap_nil, List.count_nil, Nat.zero_add, Nat.add_zero] at hbalance
  rw [Set.mem_ofPred_eq, Set.mem_ofPred_eq, ← Bool.toNat_eq_one, ← hbalance, Bool.toNat_eq_one]

/-- The first connect takes its time, the second does not. -/
def crossingWorld : Lifecycle.World where
  sessionId := 0
  password := []
  challenge1 := []
  hexSha256 _ := []
  hasModule _ := true
  extraOutputs _ := 0
  nextConnId := UInt8.ofNat
  connect n _ _ := if n = 1 then .inProgress 20 else .connected 21

def crossingStart : Peers where
  server := { state := .running, chain := true, dataConnections := [{ fd := some 3 }] }
  client := {}

/-- The first request is cancelled while its `MSG_CONNECT_OK` is on the way. -/
def crossingRun : List Label :=
  [.accept 7, .serverTakes, .clientTimeout, .accept 8, .connectOut ⟨20, 0, 0⟩ true,
    .serverTakes, .clientTakes, .serverTakes, .clientTakes, .serverTakes, .closePendingTargets]

def addrAbc : Bytes := [97, 58, 98]

def crossingEnd : Option Peers := run (step crossingWorld addrAbc) crossingStart crossingRun

theorem connects_agree_crossing : ∃ s', crossingEnd = some s' ∧ s'.client.accepted = [7, 8] ∧
    {connId | (s'.server.targets connId).isSome} = {connId | (s'.client.conns connId).isSome} ∧
      ∀ fd ∈ s'.client.accepted,
        Xor (fd ∈ s'.client.closed) (∃! connId, s'.client.conns connId = some fd) := by
  have hstart : Started crossingStart :=
    ⟨by decide, fun _ => rfl, rfl, rfl, fun _ => rfl, rfl, rfl, rfl, rfl, rfl⟩
  have hfresh : Meets (step crossingWorld addrAbc) (Fresh crossingWorld) crossingStart
      crossingRun := by decide
  obtain ⟨s', hs'⟩ := Option.isSome_iff_exists.mp (show crossingEnd.isSome by decide)
  have hsettled : Settled s' := by
    obtain rfl := Option.some.inj hs'
    refine ⟨rfl, rfl, rfl, fun reqId => ?_, rfl⟩
    change Function.update (Function.update (Function.update (fun _ => none)
      (0 : UInt8) (some (⟨20, 0, 0⟩ : PendingConnect))) 0 none) 1 none reqId = none
    rw [Function.update_idem]
    simp [Function.update_apply]
  have haccepted : s'.client.accepted = [7, 8] := by
    have h : crossingEnd.map (fun s => s.client.accepted) = some [7, 8] := by decide
    simpa [hs'] using h
  exact ⟨s', hs', haccepted, connects_agree hstart hfresh hs' hsettled⟩

end PipelineTunnel.Connects
