import PipelineTunnel.Client.Lifecycle
import PipelineTunnel.Lib.StepSystem
import Mathlib.Data.List.Nodup
import Mathlib.Data.List.Perm.Basic

/-!
# Client and server agree on when the tunnel runs

The setup behind the authentication: the module list, the chain, the secondary
connections. Control messages travel in order in both directions; the handshakes of the
secondary connections arrive at the server in any order.

## Implementation notes

A connection has the same descriptor at both ends. A message is applied as it comes off the
channel: the sequence numbers of control frames only restore the order.
-/

namespace PipelineTunnel.Setup

open Protocol StepSystem
open Client (Handshake)
open Lifecycle (DataConnection)

/-- The two ends and what is under way between them. -/
structure Peers where
  client : Client.Core
  server : Lifecycle.Core
  toServer : List Packet
  toClient : List Packet
  handshakes : List Handshake

inductive Label where
  | serverTakes
  | clientTakes
  /-- The nine bytes of a secondary connection arrive. -/
  | arrives (h : Handshake)
deriving DecidableEq, Repr

/-- What a list that only grows got since it was `old`. -/
def since {α : Type*} (old new : List α) : List α := new.drop old.length

/-- `finish_handshake`: the id in the handshake decides which session gets the connection. -/
def attach (ws : Lifecycle.World) (server : Lifecycle.Core) (h : Handshake) : Lifecycle.Core :=
  if h.sessionId = ws.sessionId then
    Lifecycle.addDataConnection ws server h.outputIdx h.fd
  else server

/-- The server acts on what it got, and what it sends is under way. -/
def Peers.serverActs (s : Peers) (server : Lifecycle.Core) : Peers :=
  { s with
    server := server
    toClient := s.toClient ++ since s.server.controlSent server.controlSent }

def Peers.clientActs (s : Peers) (client : Client.Core) : Peers :=
  { s with
    client := client
    toServer := s.toServer ++ since s.client.controlSent client.controlSent
    handshakes := s.handshakes ++ since s.client.handshakes client.handshakes }

def step (ws : Lifecycle.World) (wc : Client.World) (s : Peers) : Label → Option Peers
  | .serverTakes =>
      match s.toServer with
      | [] => none
      | pkt :: rest =>
          some ({ s with toServer := rest }.serverActs (Lifecycle.applyControl ws s.server pkt))
  | .clientTakes =>
      match s.toClient with
      | [] => none
      | pkt :: rest =>
          some ({ s with toClient := rest }.clientActs (Client.applyControl wc s.client pkt))
  | .arrives h =>
      if h ∈ s.handshakes then
        some ({ s with handshakes := s.handshakes.erase h }.serverActs (attach ws s.server h))
      else none

def moduleListReq (wc : Client.World) (mids : Bytes) : Packet :=
  ⟨MSG_MODULE_LIST_REQ, UInt8.ofNat wc.modules.length :: mids⟩

def chainCreate (wc : Client.World) : Packet := ⟨MSG_CHAIN_CREATE, Client.chainConfig wc.modules⟩

/-- Both sides count `n` extra outputs, the server has all modules, and every secondary
connection can be opened. -/
structure Agrees (ws : Lifecycle.World) (wc : Client.World) (n : Nat) : Prop where
  le : n ≤ Lifecycle.MAX_WIRE_CONNECTIONS
  client : wc.extraOutputs = n
  server : ws.extraOutputs (Server.readModules (UInt8.ofNat wc.modules.length).toNat
    (Client.chainConfig wc.modules).tail) = n
  known : ∀ m ∈ wc.modules, ∀ mid, wc.findModule m.1 = some mid → ws.hasModule mid.bytes
  opens : ∀ i ∈ List.range' 1 n, (wc.openSecondary i).isSome

/-- A client with a chain and its first connection, in a state before the secondary ones. -/
structure ClientWaits (ws : Lifecycle.World) (st : Client.State) (client : Client.Core) : Prop where
  state : client.state = st
  chain : client.chain
  sessionId : client.sessionId = ws.sessionId
  connected : client.dataConnections.any Option.isSome
  noSecondaries : client.secondaryConnsEstablished = false

/-- A server with its first connection, before the chain. -/
structure ServerWaits (server : Lifecycle.Core) : Prop where
  state : server.state = .awaitChainCreate
  connected : ∃ dc, server.dataConnections = [dc] ∧ dc.fd.isSome
  pending : server.pendingDataConns = []
  targets : server.pendingReconnectTargets = []

/-- The authentication is complete and `MSG_MODULE_LIST_REQ` is under way. -/
structure Started (ws : Lifecycle.World) (wc : Client.World) (s : Peers) : Prop where
  client : ClientWaits ws .awaitModuleListRes s.client
  server : ServerWaits s.server
  toServer : ∃ mids, Client.moduleIds wc wc.modules = some mids ∧
    s.toServer = [moduleListReq wc mids]
  toClient : s.toClient = []
  handshakes : s.handshakes = []

/-- The server runs with all `1 + n` data connections attached. -/
structure ServerReady (n : Nat) (server : Lifecycle.Core) : Prop where
  running : server.state = .running
  size : server.dataConnections.length = 1 + n
  attached : ∀ dc ∈ server.dataConnections, dc.fd.isSome

/-- Neither a message nor a handshake is under way. -/
structure Quiet (s : Peers) : Prop where
  toServer : s.toServer = []
  toClient : s.toClient = []
  handshakes : s.handshakes = []

/-- The handlers that end the authentication leave both sides where the setup starts, when
no byte of it is left in their buffers. -/
theorem started_of_authentication {ws : Lifecycle.World} {wc : Client.World} {mids : Bytes}
    {c : Client.Session} {s : Lifecycle.Session} {pkt : Packet}
    (hextra : wc.extraOutputs ≤ Lifecycle.MAX_WIRE_CONNECTIONS)
    (hmids : Client.moduleIds wc wc.modules = some mids)
    (hc : c.recvBuf = [] ∧ c.core.sessionId = ws.sessionId ∧ c.core.controlSent = [] ∧
      c.core.secondaryConnsEstablished = false)
    (hs : s.recvBuf = [] ∧ s.clientFd.isSome ∧ s.core.dataConnections = [] ∧
      s.core.pendingDataConns = [] ∧ s.core.pendingReconnectTargets = [])
    (hpkt : pkt.payload.head? = some 1) :
    Started ws wc
      { client := (Client.startChain wc c).core
        server := (Lifecycle.handleAuth2Response ws s pkt).core
        toServer := (Client.startChain wc c).core.controlSent
        toClient := []
        handshakes := [] } := by
  obtain ⟨hcbuf, hid, hsent, hsec⟩ := hc
  obtain ⟨hsbuf, hfd, hdcs, hpending, htargets⟩ := hs
  have hclient : (Client.startChain wc c).core =
      ({ c.core with
        chain := true
        log := c.core.log ++ [Client.Trace.chainCreated]
        dataConnections := [some wc.tcpFd]
        controlSent := [moduleListReq wc mids] }.become .awaitModuleListRes) := by
    rw [Client.startChain, if_neg (by omega), hmids]
    simp [Client.processWireBuffer, hcbuf, Lifecycle.leftoverPackets, Lifecycle.wirePackets,
      Client.Session.become, Client.Session.setCore, Client.Session.sendPacket,
      Client.Core.sendControl, hsent, moduleListReq]
  have hserver : (Lifecycle.handleAuth2Response ws s pkt).core =
      ({ s.core with dataConnections := [{ fd := s.clientFd }] }.note (.switched [])).become
        .awaitChainCreate := by
    rw [Lifecycle.handleAuth2Response, if_pos hpkt]
    simp [Lifecycle.processWireBuffer, hsbuf, Lifecycle.leftoverPackets, Lifecycle.wirePackets,
      Lifecycle.Session.setCore, hdcs, Lifecycle.growConnections, Lifecycle.switchToWire]
  rw [hclient, hserver]
  exact ⟨⟨rfl, rfl, hid, rfl, hsec⟩, ⟨rfl, ⟨_, rfl, hfd⟩, hpending, htargets⟩,
    ⟨mids, hmids, rfl⟩, rfl, rfl⟩

/-! ## The module list -/

/-- The ids of the modules lie one behind the other. -/
theorem moduleIds_block {wc : Client.World} {ms : List (Bytes × Bytes)} {mids : Bytes}
    (h : Client.moduleIds wc ms = some mids) :
    mids.length = 32 * ms.length ∧ ∀ i < ms.length,
      ∃ m ∈ ms, ∃ mid, wc.findModule m.1 = some mid ∧ (mids.drop (32 * i)).take 32 = mid.bytes := by
  induction ms generalizing mids with
  | nil =>
      obtain rfl : [] = mids := by simpa [Client.moduleIds] using h
      simp
  | cons m ms ih =>
      simp only [Client.moduleIds] at h
      cases hfind : wc.findModule m.1 with
      | none => simp [hfind] at h
      | some mid =>
          cases hrest : Client.moduleIds wc ms with
          | none => simp [hfind, hrest] at h
          | some rest =>
              obtain rfl : mid.bytes ++ rest = mids := by simpa [hfind, hrest] using h
              obtain ⟨hlen, hblock⟩ := ih hrest
              refine ⟨by simp [mid.size, hlen]; omega, fun i hi => ?_⟩
              cases i with
              | zero => exact ⟨m, List.mem_cons_self, mid, hfind, by simp [← mid.size]⟩
              | succ i =>
                  obtain ⟨m', hm', mid', hfind', htake⟩ := hblock i (by simpa using hi)
                  refine ⟨m', List.mem_cons_of_mem m hm', mid', hfind', ?_⟩
                  have hdrop : (mid.bytes ++ rest).drop (32 * (i + 1)) = rest.drop (32 * i) := by
                    rw [show 32 * (i + 1) = mid.bytes.length + 32 * i by rw [mid.size]; ring,
                      List.drop_length_add_append]
                  rw [hdrop, htake]

/-- A server that has all the modules finds none missing. -/
theorem missingModules_eq_nil {ws : Lifecycle.World} {wc : Client.World} {n : Nat} {mids : Bytes}
    (hagrees : Agrees ws wc n) (hmids : Client.moduleIds wc wc.modules = some mids) :
    let count := (UInt8.ofNat wc.modules.length).toNat
    count * 32 ≤ mids.length ∧ Lifecycle.missingModules ws count mids = [] := by
  intro count
  obtain ⟨hlen, hblock⟩ := moduleIds_block hmids
  have hcount : count ≤ wc.modules.length := by
    simp only [count, UInt8.toNat_ofNat']
    exact Nat.mod_le _ _
  refine ⟨by omega, ?_⟩
  rw [Lifecycle.missingModules, List.filter_eq_nil_iff]
  intro mid hmid
  obtain ⟨i, hi, rfl⟩ := List.mem_map.mp hmid
  obtain ⟨m, hm, mid, hfind, htake⟩ := hblock i (lt_of_lt_of_le (List.mem_range.mp hi) hcount)
  rw [htake]
  simp [hagrees.known m hm mid hfind]

/-! ## The server's side -/

@[simp] theorem since_append {α : Type*} (old new : List α) : since old (old ++ new) = new := by
  simp [since]

@[simp] theorem since_self {α : Type*} (old : List α) : since old old = [] := by
  simp [since]

section Server

variable {ws : Lifecycle.World} {core : Lifecycle.Core}

def transmitReadyMsg : Packet := ⟨MSG_TRANSMIT_READY, []⟩

/-- Without saved targets, `MSG_TRANSMIT_READY` is all that happens. -/
theorem transmitReady_eq (htargets : core.pendingReconnectTargets = []) :
    Lifecycle.transmitReady ws core = core.sendControl transmitReadyMsg := by
  have heq : Lifecycle.processPendingReconnectTargets ws core = core := by
    rw [Lifecycle.processPendingReconnectTargets, htargets]
    exact congrArg (fun ts => { core with pendingReconnectTargets := ts }) htargets.symm
  rw [Lifecycle.transmitReady, heq]
  rfl

theorem ServerWaits.sendControl (h : ServerWaits core) (pkt : Packet) :
    ServerWaits (core.sendControl pkt) ∧
      (core.sendControl pkt).controlSent = core.controlSent ++ [pkt] := by
  obtain ⟨dc, hdcs, hopen⟩ := h.connected
  refine ⟨⟨by simp [h.state], ⟨dc, by simp [hdcs], hopen⟩, by simp [h.pending],
    by simp [h.targets]⟩, core.sendControl_sent pkt ?_⟩
  simp [hdcs, hopen]

/-- The server answers the module list and goes on waiting. -/
theorem applyControl_moduleListReq {wc : Client.World} {n : Nat} {mids : Bytes}
    (hagrees : Agrees ws wc n) (hmids : Client.moduleIds wc wc.modules = some mids)
    (h : ServerWaits core) :
    let core' := Lifecycle.applyControl ws core (moduleListReq wc mids)
    ServerWaits core' ∧
      core'.controlSent = core.controlSent ++ [⟨MSG_MODULE_LIST_RES, [1]⟩] := by
  intro core'
  obtain ⟨hlen, hmissing⟩ := missingModules_eq_nil hagrees hmids
  let noted := core.note (.control core.state (moduleListReq wc mids))
  have hcore : core' = noted.sendControl ⟨MSG_MODULE_LIST_RES, [1]⟩ := by
    change Lifecycle.handleModuleListReq ws noted (moduleListReq wc mids) = _
    simp only [Lifecycle.handleModuleListReq, moduleListReq]
    rw [if_neg (by omega), if_pos hmissing]
  have hnoted : ServerWaits noted := ⟨h.state, h.connected, h.pending, h.targets⟩
  rw [hcore]
  exact hnoted.sendControl _

/-- What `handle_chain_create` sends: with no extra outputs everything is ready at once, and
`MSG_TRANSMIT_READY` goes out before and after `MSG_CHAIN_READY`. -/
def chainReadyMsgs (ws : Lifecycle.World) (n : Nat) : List Packet :=
  if n = 0 then [transmitReadyMsg, Lifecycle.chainReady ws, transmitReadyMsg]
  else [Lifecycle.chainReady ws]

theorem checkReady_of_not_ready (hready : core.allReady = false) :
    Lifecycle.checkReady ws core = core := by
  simp [Lifecycle.checkReady, hready]

theorem checkReady_of_ready (hready : core.allReady = true) (hst : core.state = .running)
    (htargets : core.pendingReconnectTargets = []) :
    Lifecycle.checkReady ws core = core.sendControl transmitReadyMsg := by
  rw [Lifecycle.checkReady, if_pos ⟨hready, hst⟩, transmitReady_eq htargets]

theorem processPendingDataConns_nil (hpending : core.pendingDataConns = []) :
    Lifecycle.processPendingDataConns ws core = Lifecycle.checkReady ws core := by
  rw [Lifecycle.processPendingDataConns, hpending]
  exact congrArg (fun ps => Lifecycle.checkReady ws { core with pendingDataConns := ps })
    hpending.symm

/-- The server when it has announced its chain, with only its first connection attached. -/
structure Announced (n : Nat) (dc : DataConnection) (core : Lifecycle.Core) : Prop where
  state : core.state = .running
  connections : core.dataConnections = dc :: List.replicate n { fd := none }
  pending : core.pendingDataConns = []
  targets : core.pendingReconnectTargets = []

theorem Announced.sendControl {n : Nat} {dc : DataConnection} (h : Announced n dc core)
    (pkt : Packet) : Announced n dc (core.sendControl pkt) :=
  ⟨by simp [h.state], by simp [h.connections], by simp [h.pending], by simp [h.targets]⟩

theorem Announced.open {n : Nat} {dc : DataConnection} (h : Announced n dc core)
    (hopen : dc.fd.isSome) : core.dataConnections.any fun dc => dc.fd.isSome := by
  simp [h.connections, hopen]

theorem announceChain_zero {dc : DataConnection} (h : Announced 0 dc core)
    (hopen : dc.fd.isSome) :
    Lifecycle.announceChain ws core 0 =
      ((core.sendControl transmitReadyMsg).sendControl (Lifecycle.chainReady ws)).sendControl
        transmitReadyMsg := by
  have hready : core.allReady = true := by simp [Lifecycle.Core.allReady, h.connections, hopen]
  have hfirst : Lifecycle.processPendingDataConns ws core = core.sendControl transmitReadyMsg := by
    rw [processPendingDataConns_nil h.pending, checkReady_of_ready hready h.state h.targets]
  rw [Lifecycle.announceChain, hfirst, if_neg (lt_irrefl 0), if_pos rfl]
  exact transmitReady_eq ((h.sendControl _).sendControl _).targets

theorem announceChain_pos {n : Nat} {dc : DataConnection} (h : Announced n dc core)
    (hn : n > 0) :
    Lifecycle.announceChain ws core n = core.sendControl (Lifecycle.chainReady ws) := by
  have hready : core.allReady = false := by
    rw [Lifecycle.Core.allReady, h.connections]
    simp [hn.ne']
  have hcheck : Lifecycle.checkReady ws core = core := checkReady_of_not_ready hready
  rw [Lifecycle.announceChain, processPendingDataConns_nil h.pending, if_pos hn, hcheck, hcheck,
    if_neg hn.ne']

theorem announced_announceChain {n : Nat} {dc : DataConnection} (h : Announced n dc core)
    (hopen : dc.fd.isSome) :
    Announced n dc (Lifecycle.announceChain ws core n) ∧
      (Lifecycle.announceChain ws core n).controlSent =
        core.controlSent ++ chainReadyMsgs ws n := by
  rcases Nat.eq_zero_or_pos n with rfl | hn
  · have h₁ := h.sendControl transmitReadyMsg
    have h₂ := h₁.sendControl (Lifecycle.chainReady ws)
    rw [announceChain_zero h hopen]
    refine ⟨h₂.sendControl transmitReadyMsg, ?_⟩
    rw [Lifecycle.Core.sendControl_sent _ _ (h₂.open hopen),
      Lifecycle.Core.sendControl_sent _ _ (h₁.open hopen),
      Lifecycle.Core.sendControl_sent _ _ (h.open hopen)]
    simp [chainReadyMsgs]
  · rw [announceChain_pos h hn]
    refine ⟨h.sendControl _, ?_⟩
    rw [Lifecycle.Core.sendControl_sent _ _ (h.open hopen), chainReadyMsgs, if_neg hn.ne']

/-- What the server does with the chain of the client. -/
theorem applyControl_chainCreate {wc : Client.World} {n : Nat} {dc : DataConnection}
    (hagrees : Agrees ws wc n) (hdcs : core.dataConnections = [dc]) (hopen : dc.fd.isSome)
    (hpending : core.pendingDataConns = []) (htargets : core.pendingReconnectTargets = []) :
    let core' := Lifecycle.applyControl ws core (chainCreate wc)
    Announced n dc core' ∧ core'.controlSent = core.controlSent ++ chainReadyMsgs ws n := by
  intro core'
  have hcreate : core' = Lifecycle.startChain ws
      ({ core.note (.control core.state (chainCreate wc)) with chain := true }.note
        .chainCreated) n := by
    change Lifecycle.handleChainCreate ws _ (chainCreate wc) = _
    simp only [Lifecycle.handleChainCreate, chainCreate, Client.chainConfig]
    have hextra := hagrees.server
    simp only [Client.chainConfig, List.tail_cons] at hextra
    rw [hextra, if_neg (by have := hagrees.le; omega)]
  rw [hcreate, Lifecycle.startChain]
  refine announced_announceChain ⟨rfl, ?_, hpending, htargets⟩ hopen
  simp [Lifecycle.growConnections, hdcs]

/-! ### The table of data connections -/

def slot (h : Handshake) : Nat := h.outputIdx.toNat

/-- The closed slots of the table are the ones whose handshake is under way. -/
structure Slots (n : Nat) (dcs : List DataConnection) (hs : List Handshake) : Prop where
  size : dcs.length = 1 + n
  closed : ∀ i dc, dcs[i]? = some dc → (dc.fd = none ↔ i ∈ hs.map slot)
  bound : ∀ h ∈ hs, slot h < 1 + n
  nodup : (hs.map slot).Nodup

namespace Slots

variable {n : Nat} {dcs : List DataConnection} {hs : List Handshake}

/-- Everything is attached when no handshake is under way, and only then. -/
theorem all_open_iff (h : Slots n dcs hs) : (∀ dc ∈ dcs, dc.fd.isSome) ↔ hs = [] := by
  constructor
  · intro hopen
    by_contra hne
    obtain ⟨hd, hmem⟩ := List.exists_mem_of_ne_nil hs hne
    have hlt : slot hd < dcs.length := by rw [h.size]; exact h.bound hd hmem
    have hsome := List.getElem?_eq_getElem hlt
    have hclosed := (h.closed _ _ hsome).mpr (List.mem_map_of_mem hmem)
    have := hopen _ (List.getElem_mem hlt)
    simp [hclosed] at this
  · rintro rfl dc hdc
    obtain ⟨i, hi⟩ := List.getElem?_of_mem hdc
    have := h.closed i dc hi
    cases hfd : dc.fd with
    | none => simp [hfd] at this
    | some fd => rfl

theorem erase (h : Slots n dcs hs) {hd : Handshake} (hmem : hd ∈ hs) :
    Slots n (dcs.modify (slot hd) fun dc => dc.attach hd.fd) (hs.erase hd) := by
  have hperm : (hs.map slot).Perm (slot hd :: (hs.erase hd).map slot) :=
    (List.perm_cons_erase hmem).map slot
  have hnodup := List.nodup_cons.mp (hperm.nodup_iff.mp h.nodup)
  constructor
  · simpa using h.size
  · intro i dc hdc
    rw [List.getElem?_modify] at hdc
    obtain ⟨old, hold, rfl⟩ := Option.map_eq_some_iff.mp hdc
    have hclosed := h.closed i old hold
    rw [hperm.mem_iff, List.mem_cons] at hclosed
    by_cases hi : slot hd = i
    · subst hi
      have hopen : (old.attach hd.fd).fd = some hd.fd := by
        unfold Lifecycle.DataConnection.attach
        split_ifs <;> rfl
      simp [hopen, hnodup.1]
    · simpa [hi, Ne.symm hi] using hclosed
  · exact fun h' hh' => h.bound h' (List.mem_of_mem_erase hh')
  · exact hnodup.2

end Slots

/-- A running server with no targets to reopen. -/
structure Running (n : Nat) (core : Lifecycle.Core) (hs : List Handshake) : Prop where
  state : core.state = .running
  targets : core.pendingReconnectTargets = []
  slots : Slots n core.dataConnections hs

theorem Running.ready {n : Nat} (h : Running n core []) : ServerReady n core :=
  ⟨h.state, h.slots.size, h.slots.all_open_iff.mpr rfl⟩

theorem Running.allReady {n : Nat} {hs : List Handshake} (h : Running n core hs) :
    core.allReady = true ↔ hs = [] := by
  rw [← h.slots.all_open_iff]
  simp [Lifecycle.Core.allReady]

theorem Running.open {n : Nat} (h : Running n core []) :
    core.dataConnections.any fun dc => dc.fd.isSome := by
  have hne : core.dataConnections ≠ [] := by
    intro heq
    have := h.slots.size
    simp [heq] at this
    omega
  obtain ⟨dc, hdc⟩ := List.exists_mem_of_ne_nil _ hne
  exact List.any_eq_true.mpr ⟨dc, hdc, h.ready.attached dc hdc⟩

/-- The test after a connection was attached announces the last one. -/
theorem Running.checkReady {n : Nat} {hs : List Handshake} (h : Running n core hs) :
    Running n (Lifecycle.checkReady ws core) hs ∧
      (Lifecycle.checkReady ws core).controlSent =
        core.controlSent ++ if hs = [] then [transmitReadyMsg] else [] := by
  by_cases hnil : hs = []
  · subst hnil
    rw [checkReady_of_ready (h.allReady.mpr rfl) h.state h.targets]
    refine ⟨⟨by simp [h.state], by simp [h.targets], by simpa using h.slots⟩, ?_⟩
    rw [Lifecycle.Core.sendControl_sent _ _ h.open, if_pos rfl]
  · have hready : core.allReady = false :=
      Bool.eq_false_of_not_eq_true fun hall => hnil (h.allReady.mp hall)
    rw [checkReady_of_not_ready hready]
    exact ⟨h, by simp [hnil]⟩

theorem Running.attach {n : Nat} {hs : List Handshake} {hd : Handshake} (h : Running n core hs)
    (hmem : hd ∈ hs) (hid : hd.sessionId = ws.sessionId) :
    Running n (attach ws core hd) (hs.erase hd) ∧
      (Setup.attach ws core hd).controlSent =
        core.controlSent ++ if hs.erase hd = [] then [transmitReadyMsg] else [] := by
  let core₁ : Lifecycle.Core := { core with
    dataConnections := core.dataConnections.modify (slot hd) fun dc => dc.attach hd.fd }
  have hattach : Setup.attach ws core hd = Lifecycle.checkReady ws core₁ := by
    have hlt : ¬ core.dataConnections.length ≤ hd.outputIdx.toNat := by
      rw [h.slots.size, Nat.not_le]
      exact h.slots.bound hd hmem
    rw [Setup.attach, if_pos hid, Lifecycle.addDataConnection, if_neg hlt]
    rfl
  have hrunning : Running n core₁ (hs.erase hd) := ⟨h.state, h.targets, h.slots.erase hmem⟩
  rw [hattach]
  exact hrunning.checkReady

end Server

/-! ## The client's side -/

section Client

variable {wc : Client.World} {core : Client.Core}

theorem clientSendControl_sent (hopen : core.dataConnections.any Option.isSome) (pkt : Packet) :
    core.sendControl pkt = { core with controlSent := core.controlSent ++ [pkt] } := by
  rw [Client.Core.sendControl, if_pos hopen]

/-- The handshakes of the secondary connections in `is`. -/
def secondaries (wc : Client.World) (sessionId : UInt64) (is : List Nat) : List Handshake :=
  is.filterMap fun i => (wc.openSecondary i).map fun fd => ⟨sessionId, UInt8.ofNat i, fd⟩

theorem openSecondaryConnection_fold (is : List Nat) (core : Client.Core) :
    let core' := is.foldl (Client.openSecondaryConnection wc) core
    core'.state = core.state ∧ core'.controlSent = core.controlSent ∧
      core'.sessionId = core.sessionId ∧
      core'.handshakes = core.handshakes ++ secondaries wc core.sessionId is := by
  induction is generalizing core with
  | nil => simp [secondaries]
  | cons i is ih =>
      obtain ⟨hstate, hsent, hid, hhs⟩ := ih (Client.openSecondaryConnection wc core i)
      simp only [List.foldl_cons, hstate, hsent, hid, hhs]
      unfold Client.openSecondaryConnection
      cases hopen : wc.openSecondary i with
      | none => simp [secondaries, hopen]
      | some fd => simp [secondaries, hopen]

theorem secondaries_slot (sessionId : UInt64) {is : List Nat}
    (his : ∀ i ∈ is, (wc.openSecondary i).isSome ∧ i < 256) :
    (secondaries wc sessionId is).map slot = is := by
  induction is with
  | nil => rfl
  | cons i is ih =>
      obtain ⟨hopen, hlt⟩ := his i List.mem_cons_self
      obtain ⟨fd, hfd⟩ := Option.isSome_iff_exists.mp hopen
      have hrest := ih fun j hj => his j (List.mem_cons_of_mem i hj)
      have hslot : slot ⟨sessionId, UInt8.ofNat i, fd⟩ = i := by
        simp [slot, Nat.mod_eq_of_lt hlt]
      rw [secondaries, List.filterMap_cons, hfd]
      simp only [Option.map_some, List.map_cons, hslot]
      exact congrArg (i :: ·) hrest

theorem secondaries_sessionId {sessionId : UInt64} {is : List Nat} {h : Handshake}
    (hmem : h ∈ secondaries wc sessionId is) : h.sessionId = sessionId := by
  obtain ⟨i, -, hi⟩ := List.mem_filterMap.mp hmem
  obtain ⟨fd, -, rfl⟩ := Option.map_eq_some_iff.mp hi
  rfl

/-- When the client has opened its secondary connections, exactly their slots are closed. -/
theorem slots_secondaries {ws : Lifecycle.World} {n : Nat} {dc : DataConnection}
    (hagrees : Agrees ws wc n) (hopen : dc.fd.isSome) (sessionId : UInt64) :
    Slots n (dc :: List.replicate n { fd := none })
      (secondaries wc sessionId (List.range' 1 n)) := by
  have hslots : (secondaries wc sessionId (List.range' 1 n)).map slot = List.range' 1 n := by
    apply secondaries_slot
    intro i hi
    have hle := hagrees.le
    have hmem := List.mem_range'_1.mp hi
    exact ⟨hagrees.opens i hi, by simp only [Lifecycle.MAX_WIRE_CONNECTIONS] at hle; omega⟩
  constructor
  · simp; omega
  · intro i dc' hdc
    rw [hslots, List.mem_range'_1]
    cases i with
    | zero =>
        obtain rfl : dc = dc' := by simpa using hdc
        simp [Option.isSome_iff_ne_none.mp hopen]
    | succ i =>
        simp only [List.getElem?_cons_succ, List.getElem?_replicate] at hdc
        split_ifs at hdc with hi
        obtain rfl := Option.some.inj hdc
        simp
        omega
  · intro h hh
    have hmem : slot h ∈ List.range' 1 n := hslots ▸ List.mem_map_of_mem hh
    exact (List.mem_range'_1.mp hmem).2
  · rw [hslots]
    exact List.nodup_range'

theorem applyControl_moduleListRes (hopen : core.dataConnections.any Option.isSome) :
    Client.applyControl wc core ⟨MSG_MODULE_LIST_RES, [1]⟩ =
      { core with controlSent := core.controlSent ++ [chainCreate wc] }.become
        .awaitChainReady := by
  change (core.sendControl (chainCreate wc)).become .awaitChainReady = _
  rw [clientSendControl_sent hopen]

theorem applyControl_transmitReady (hst : core.state ≠ .awaitTransmitReady) :
    Client.applyControl wc core transmitReadyMsg = core := by
  change Client.handleTransmitReady wc core = core
  simp [Client.handleTransmitReady, hst]

/-- `MSG_CHAIN_READY` with extra outputs. -/
theorem applyControl_chainReady {ws : Lifecycle.World} {n : Nat} (hagrees : Agrees ws wc n)
    (h : ClientWaits ws .awaitChainReady core) (hn : n > 0) :
    let core' := Client.applyControl wc core (Lifecycle.chainReady ws)
    core'.state = .awaitTransmitReady ∧ core'.controlSent = core.controlSent ∧
      core'.handshakes = core.handshakes ++ secondaries wc ws.sessionId (List.range' 1 n) := by
  intro core'
  let core₁ : Client.Core := { { core with totalExtraOutputs := n }.become .awaitTransmitReady with
    secondaryConnsEstablished := true }
  have hcore : core' =
      (List.range' 1 n).foldl (Client.openSecondaryConnection wc) core₁ := by
    change Client.handleChainReady wc core = _
    rw [Client.handleChainReady, if_neg (not_not.mpr h.state), if_pos h.chain, hagrees.client,
      Client.openOutputs, if_pos hn, Client.openSecondaryConnections]
    rw [if_neg (by simp [Client.Core.become, h.noSecondaries])]
    rfl
  obtain ⟨hstate, hsent, -, hhs⟩ := openSecondaryConnection_fold (List.range' 1 n) core₁
  rw [hcore]
  refine ⟨hstate, hsent, hhs.trans ?_⟩
  rw [show core₁.sessionId = ws.sessionId from h.sessionId]
  rfl

/-- `MSG_CHAIN_READY` without extra outputs. -/
theorem applyControl_chainReady_zero {ws : Lifecycle.World} (hagrees : Agrees ws wc 0)
    (h : ClientWaits ws .awaitChainReady core) :
    let core' := Client.applyControl wc core (Lifecycle.chainReady ws)
    core'.state = .running ∧ core'.controlSent = core.controlSent ∧
      core'.handshakes = core.handshakes := by
  intro core'
  have hcore : core' = Client.startRunning wc { core with totalExtraOutputs := 0 } := by
    change Client.handleChainReady wc core = _
    rw [Client.handleChainReady, if_neg (not_not.mpr h.state), if_pos h.chain, hagrees.client,
      Client.openOutputs, if_neg (lt_irrefl 0)]
  rw [hcore]
  exact ⟨rfl, rfl, rfl⟩

end Client

/-! ## The phases of the setup -/

/-- How far the setup is, and what is under way in each case. -/
inductive Phase (ws : Lifecycle.World) (wc : Client.World) (n : Nat) (s : Peers) : Prop where
  | requested (started : Started ws wc s)
  | verified (client : ClientWaits ws .awaitModuleListRes s.client) (server : ServerWaits s.server)
      (toServer : s.toServer = []) (toClient : s.toClient = [⟨MSG_MODULE_LIST_RES, [1]⟩])
      (handshakes : s.handshakes = [])
  | creating (client : ClientWaits ws .awaitChainReady s.client) (server : ServerWaits s.server)
      (toServer : s.toServer = [chainCreate wc]) (toClient : s.toClient = [])
      (handshakes : s.handshakes = [])
  /-- With no extra outputs an early `MSG_TRANSMIT_READY` is ignored. -/
  | announced (dc : DataConnection) (client : ClientWaits ws .awaitChainReady s.client)
      (server : Announced n dc s.server) (connected : dc.fd.isSome) (toServer : s.toServer = [])
      (toClient : s.toClient = chainReadyMsgs ws n ∨
        n = 0 ∧ s.toClient = [Lifecycle.chainReady ws, transmitReadyMsg])
      (handshakes : s.handshakes = [])
  | connecting (client : s.client.state = .awaitTransmitReady)
      (server : Running n s.server s.handshakes)
      (ids : ∀ h ∈ s.handshakes, h.sessionId = ws.sessionId) (toServer : s.toServer = [])
      (toClient : s.toClient = if s.handshakes = [] then [transmitReadyMsg] else [])
  | running (client : s.client.state = .running) (server : ServerReady n s.server)
      (toServer : s.toServer = [])
      (toClient : s.toClient = [] ∨ s.toClient = [transmitReadyMsg])
      (handshakes : s.handshakes = [])

section Phases

variable {ws : Lifecycle.World} {wc : Client.World} {n : Nat} {s s' : Peers}

/-- The first connection is the only one, so with no extra outputs all are attached. -/
theorem Announced.ready {dc : DataConnection} {core : Lifecycle.Core} (h : Announced 0 dc core)
    (hopen : dc.fd.isSome) : ServerReady 0 core :=
  ⟨h.state, by simp [h.connections], by simpa [h.connections] using hopen⟩

theorem phase_serverTakes (hagrees : Agrees ws wc n) (h : Phase ws wc n s)
    (hstep : step ws wc s .serverTakes = some s') : Phase ws wc n s' := by
  cases h with
  | requested started =>
      obtain ⟨mids, hmids, hto⟩ := started.toServer
      simp only [step, hto, Option.some.injEq] at hstep
      subst hstep
      obtain ⟨hwaits, hsent⟩ := applyControl_moduleListReq hagrees hmids started.server
      refine .verified started.client hwaits rfl ?_ started.handshakes
      simp only [Peers.serverActs, started.toClient, List.nil_append]
      rw [hsent, since_append]
  | creating client server toServer toClient handshakes =>
      obtain ⟨dc, hdcs, hopen⟩ := server.connected
      simp only [step, toServer, Option.some.injEq] at hstep
      subst hstep
      obtain ⟨hannounced, hsent⟩ := applyControl_chainCreate hagrees hdcs hopen server.pending
        server.targets
      refine .announced dc client hannounced hopen rfl (Or.inl ?_) handshakes
      simp only [Peers.serverActs, toClient, List.nil_append]
      rw [hsent, since_append]
  | verified _ _ toServer | announced _ _ _ _ toServer | connecting _ _ _ toServer
  | running _ _ toServer => simp [step, toServer] at hstep

theorem phase_announced_takes (hagrees : Agrees ws wc n) {dc : DataConnection}
    (client : ClientWaits ws .awaitChainReady s.client) (server : Announced n dc s.server)
    (connected : dc.fd.isSome) (toServer : s.toServer = []) (handshakes : s.handshakes = [])
    {rest : List Packet} (hrest : rest = if n = 0 then [transmitReadyMsg] else []) :
    Phase ws wc n ({ s with toClient := rest }.clientActs
      (Client.applyControl wc s.client (Lifecycle.chainReady ws))) := by
  rcases Nat.eq_zero_or_pos n with rfl | hn
  · obtain ⟨hstate, hsent, hhs⟩ := applyControl_chainReady_zero hagrees client
    refine .running hstate (server.ready connected) ?_ (Or.inr ?_) ?_
    · simp [Peers.clientActs, toServer, hsent]
    · simpa [Peers.clientActs] using hrest
    · simp [Peers.clientActs, handshakes, hhs]
  · obtain ⟨hstate, hsent, hhs⟩ := applyControl_chainReady hagrees client hn
    have hslots := slots_secondaries hagrees connected ws.sessionId
    have hne : secondaries wc ws.sessionId (List.range' 1 n) ≠ [] := by
      intro heq
      have := hslots.all_open_iff.mpr heq { fd := none } (by simp [hn.ne'])
      simp at this
    let s' := { s with toClient := rest }.clientActs
      (Client.applyControl wc s.client (Lifecycle.chainReady ws))
    have hunder : s'.handshakes = secondaries wc ws.sessionId (List.range' 1 n) := by
      simp [s', Peers.clientActs, handshakes, hhs]
    have hrunning : Running n s'.server s'.handshakes := by
      refine ⟨server.state, server.targets, ?_⟩
      rw [hunder]
      exact server.connections ▸ hslots
    refine .connecting hstate hrunning ?_ ?_ ?_
    · exact fun h hh => secondaries_sessionId (hunder ▸ hh)
    · simp [Peers.clientActs, toServer, hsent]
    · rw [hunder, if_neg hne]
      simpa [hn.ne', Peers.clientActs] using hrest

theorem phase_clientTakes (hagrees : Agrees ws wc n) (h : Phase ws wc n s)
    (hstep : step ws wc s .clientTakes = some s') : Phase ws wc n s' := by
  cases h with
  | verified client server toServer toClient handshakes =>
      simp only [step, toClient, Option.some.injEq] at hstep
      subst hstep
      rw [applyControl_moduleListRes client.connected]
      refine .creating ⟨rfl, client.chain, client.sessionId, client.connected,
        client.noSecondaries⟩ server ?_ rfl ?_
      · simp [Peers.clientActs, Client.Core.become, toServer]
      · simp [Peers.clientActs, Client.Core.become, handshakes]
  | announced dc client server connected toServer toClient handshakes =>
      rcases toClient with toClient | ⟨rfl, toClient⟩
      · by_cases hn : n = 0
        · subst hn
          simp only [step, toClient, chainReadyMsgs, if_true, Option.some.injEq] at hstep
          subst hstep
          rw [applyControl_transmitReady (by simp [client.state])]
          refine .announced dc client server connected ?_ (Or.inr ⟨rfl, rfl⟩) ?_
          · simp [Peers.clientActs, toServer]
          · simp [Peers.clientActs, handshakes]
        · simp only [step, toClient, chainReadyMsgs, if_neg hn, Option.some.injEq] at hstep
          subst hstep
          exact phase_announced_takes hagrees client server connected toServer handshakes
            (if_neg hn).symm
      · simp only [step, toClient, Option.some.injEq] at hstep
        subst hstep
        exact phase_announced_takes hagrees client server connected toServer handshakes
          (if_pos rfl).symm
  | connecting client server ids toServer toClient =>
      by_cases hnil : s.handshakes = []
      · rw [if_pos hnil] at toClient
        simp only [step, toClient, Option.some.injEq] at hstep
        subst hstep
        have hrun : Client.applyControl wc s.client transmitReadyMsg =
            Client.startRunning wc s.client := by
          change Client.handleTransmitReady wc s.client = _
          rw [Client.handleTransmitReady, if_pos client]
        rw [hrun]
        refine .running rfl (Running.ready (hnil ▸ server)) ?_ (Or.inl rfl) ?_
        · simp [Peers.clientActs, Client.startRunning, Client.Core.become, toServer]
        · simp [Peers.clientActs, Client.startRunning, Client.Core.become, hnil]
      · simp [step, toClient, hnil] at hstep
  | running client server toServer toClient handshakes =>
      rcases toClient with toClient | toClient
      · simp [step, toClient] at hstep
      · simp only [step, toClient, Option.some.injEq] at hstep
        subst hstep
        rw [applyControl_transmitReady (by simp [client])]
        refine .running client server ?_ (Or.inl rfl) ?_
        · simp [Peers.clientActs, toServer]
        · simp [Peers.clientActs, handshakes]
  | requested started => simp [step, started.toClient] at hstep
  | creating _ _ _ toClient => simp [step, toClient] at hstep

theorem phase_arrives {hd : Handshake} (h : Phase ws wc n s)
    (hstep : step ws wc s (.arrives hd) = some s') : Phase ws wc n s' := by
  simp only [step] at hstep
  split_ifs at hstep with hmem
  obtain rfl := Option.some.inj hstep
  cases h with
  | connecting client server ids toServer toClient =>
      obtain ⟨hrunning, hsent⟩ := server.attach hmem (ids hd hmem)
      refine .connecting client hrunning ?_ toServer ?_
      · exact fun h hh => ids h (List.mem_of_mem_erase hh)
      · have hne : s.handshakes ≠ [] := List.ne_nil_of_mem hmem
        simp only [Peers.serverActs, toClient, if_neg hne, List.nil_append]
        rw [hsent, since_append]
  | requested started => simp [started.handshakes] at hmem
  | verified _ _ _ _ handshakes | creating _ _ _ _ handshakes
  | announced _ _ _ _ _ _ handshakes | running _ _ _ _ handshakes => simp [handshakes] at hmem

theorem phase_step (hagrees : Agrees ws wc n) {l : Label} (h : Phase ws wc n s)
    (hstep : step ws wc s l = some s') : Phase ws wc n s' := by
  cases l with
  | serverTakes => exact phase_serverTakes hagrees h hstep
  | clientTakes => exact phase_clientTakes hagrees h hstep
  | arrives hd => exact phase_arrives h hstep

/-- A client that runs finds a server that is ready. -/
theorem Phase.safe (h : Phase ws wc n s) (hclient : s.client.state = .running) :
    ServerReady n s.server := by
  cases h with
  | running _ server => exact server
  | requested started => simp [started.client.state] at hclient
  | verified client | creating client | announced _ client => simp [client.state] at hclient
  | connecting client => simp [client] at hclient

/-- Nothing is under way only when the client runs. -/
theorem Phase.live (h : Phase ws wc n s) (hquiet : Quiet s) : s.client.state = .running := by
  cases h with
  | running client => exact client
  | requested started =>
      obtain ⟨mids, -, hto⟩ := started.toServer
      simp [hquiet.toServer] at hto
  | verified _ _ _ toClient => simp [hquiet.toClient] at toClient
  | creating _ _ toServer => simp [hquiet.toServer] at toServer
  | announced _ _ _ _ _ toClient =>
      rcases toClient with toClient | ⟨-, toClient⟩
      · unfold chainReadyMsgs at toClient
        split_ifs at toClient <;> simp [hquiet.toClient] at toClient
      · simp [hquiet.toClient] at toClient
  | connecting _ _ _ _ toClient => simp [hquiet.toClient, hquiet.handshakes] at toClient

end Phases

/-- For every number of extra outputs and every order of messages and handshakes, the client
runs only over a server that runs with all connections attached, and the setup never stops
before both run. -/
theorem setup_agreement (ws : Lifecycle.World) (wc : Client.World) (n : Nat)
    (hagrees : Agrees ws wc n) (start : Peers) (hstart : Started ws wc start)
    (labels : List Label) (s : Peers) (hrun : run (step ws wc) start labels = some s) :
    (s.client.state = .running → ServerReady n s.server) ∧
    (Quiet s → s.client.state = .running ∧ ServerReady n s.server) := by
  have hphase : Phase ws wc n s :=
    invariant_of_run (fun _ _ _ h hstep => phase_step hagrees h hstep) (.requested hstart) hrun
  exact ⟨hphase.safe, fun hquiet => ⟨hphase.live hquiet, hphase.safe (hphase.live hquiet)⟩⟩

/-- Two extra outputs whose handshakes arrive in the wrong order. -/
theorem setup_agreement_two_outputs :
    let ws : Lifecycle.World := ⟨7, [], [], id, fun _ => true, fun _ => 2, fun _ => 0,
      fun _ _ _ => .fails⟩
    let wc : Client.World := ⟨[], id, 3, 0, [], fun _ => none, 2, fun i => some (10 + i)⟩
    let start : Peers :=
      { client :=
          { state := .awaitModuleListRes
            sessionId := 7
            chain := true
            dataConnections := [some 3] }
        server := { state := .awaitChainCreate, dataConnections := [{ fd := some 3 }] }
        toServer := [moduleListReq wc []]
        toClient := []
        handshakes := [] }
    let labels : List Label :=
      [.serverTakes, .clientTakes, .serverTakes, .clientTakes, .arrives ⟨7, 2, 12⟩,
        .arrives ⟨7, 1, 11⟩, .clientTakes]
    ∃ s, run (step ws wc) start labels = some s ∧ Quiet s ∧ s.client.state = .running ∧
      ServerReady 2 s.server := by
  intro ws wc start labels
  have hagrees : Agrees ws wc 2 :=
    ⟨by decide, rfl, rfl, fun _ hm => absurd hm List.not_mem_nil, fun _ _ => rfl⟩
  have hstart : Started ws wc start :=
    ⟨⟨rfl, rfl, rfl, rfl, rfl⟩, ⟨rfl, ⟨_, rfl, rfl⟩, rfl, rfl⟩, ⟨[], rfl, rfl⟩, rfl, rfl⟩
  have hsome : (run (step ws wc) start labels).isSome := by decide +kernel
  have hend : (run (step ws wc) start labels).all fun s =>
      s.toServer = [] ∧ s.toClient = [] ∧ s.handshakes = [] := by decide +kernel
  obtain ⟨s, hrun⟩ := Option.isSome_iff_exists.mp hsome
  rw [hrun, Option.all_some, decide_eq_true_eq] at hend
  have hquiet : Quiet s := ⟨hend.1, hend.2.1, hend.2.2⟩
  exact ⟨s, hrun, hquiet, (setup_agreement ws wc 2 hagrees start hstart labels s hrun).2 hquiet⟩

end PipelineTunnel.Setup
