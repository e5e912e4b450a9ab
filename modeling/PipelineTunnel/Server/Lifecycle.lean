import PipelineTunnel.Core.PacketLoop
import PipelineTunnel.Wire.Reader

/-!
# The life of a server session

`server/session.cpp` from the first byte of the authentication to the last connection:
every handler that assigns `state_`, creates a chain, opens a target or installs a
descriptor in `data_connections_`, and the three dispatchers that call them (`on_data`,
`process_wire_buffer` and `apply_control`).

## Implementation notes

A descriptor is a number; `none` is `-1`. What stays the same during the life of a session
and what the system calls answer is in `World`; the counter of `alloc_conn_id` belongs to
the process, so its value at the `n`-th call of this session is given too. Writers, the
pause flags of targets, the module chain and the packets it carries are left out. When a
socket becomes ready and when a timer runs out is decided by the event. `log` keeps, in
order, what happened to the session; no handler reads it. `none` as the result of a step
is an event that cannot occur, or an access outside a buffer.
-/

namespace PipelineTunnel.Lifecycle

open Protocol Control
open Server (State readModules wireVarint WIRE_CONTROL MAX_PACKET_SIZE)
open Wire (Reader ReadResult)

def MAX_WIRE_CONNECTIONS : Nat := 200
def CONN_ID_NONE : UInt8 := 255

/-- The value of an enumerator: `DISCONNECTED` is the largest. -/
def stateValue : State → Nat
  | .awaitAuth1ChallengeResp => 0
  | .awaitAuth1Ok => 1
  | .awaitAuth2Response => 2
  | .authDone => 3
  | .awaitConnectReq => 4
  | .awaitChainCreate => 5
  | .running => 6
  | .disconnected => 7

/-- `getaddrinfo`, `socket` and `connect` for the addresses of a name, up to the first that
does not fail at once. -/
inductive Connect where
  | fails
  | connected (fd : Nat)
  | inProgress (fd : Nat)
deriving DecidableEq, Repr

/-- What a session is constructed with, the loaded modules, the chain's
`total_extra_outputs` for a module list, and the system calls. -/
structure World where
  sessionId : UInt64
  password : Bytes
  challenge1 : Bytes
  hexSha256 : Bytes → Bytes
  hasModule : Bytes → Bool
  extraOutputs : List (Bytes × Bytes) → Nat
  nextConnId : Nat → UInt8
  connect : Nat → Bytes → Bytes → Connect

/-- The answer to the challenge of this session. -/
def World.expected (w : World) : Bytes := w.hexSha256 (w.challenge1 ++ w.password)

/-- What happened to a session. -/
inductive Trace where
  | became (state : State)
  | chainCreated
  | targetOpened (connId : UInt8)
  /-- A control message was dispatched in this state. -/
  | control (state : State) (pkt : Packet)
  /-- The wire protocol took over, with these messages already in the buffer. -/
  | switched (leftover : List Packet)
  /-- A `connect` in progress succeeded in this state. -/
  | completed (state : State)
deriving DecidableEq, Repr

structure DataConnection where
  fd : Option Nat := none
  reader : Reader := {}
deriving DecidableEq, Repr

structure TargetConn where
  fd : Nat
  addr : Bytes
deriving DecidableEq, Repr

structure PendingConnect where
  fd : Nat
  connId : UInt8
  reqId : UInt8
deriving DecidableEq, Repr

/-- What control messages act on. `connecting` lists the handlers of sockets with a
`connect` in progress, `attempts` counts the calls that ask the system for a target. -/
structure Core where
  state : State := .awaitAuth1ChallengeResp
  chain : Bool := false
  totalExtraOutputs : Nat := 0
  dataConnections : List DataConnection := []
  pendingDataConns : List (UInt8 × Nat) := []
  targets : UInt8 → Option TargetConn := fun _ => none
  pendingConnects : UInt8 → Option PendingConnect := fun _ => none
  connecting : List PendingConnect := []
  attempts : Nat := 0
  pendingReconnectTargets : List (UInt8 × Bytes) := []
  pendingDisconnectTargets : List UInt8 := []
  controlSent : List Packet := []
  log : List Trace := []

namespace Core

def note (core : Core) (t : Trace) : Core := { core with log := core.log ++ [t] }

/-- An assignment to `state_`. -/
def become (core : Core) (st : State) : Core := { core with state := st }.note (.became st)

/-- All data connections are open. -/
def allReady (core : Core) : Bool := core.dataConnections.all fun dc => dc.fd.isSome

/-- `send_control` drops the message when no data connection is open. -/
def sendControl (core : Core) (pkt : Packet) : Core :=
  if core.dataConnections.any fun dc => dc.fd.isSome then
    { core with controlSent := core.controlSent ++ [pkt] }
  else core

end Core

/-! ## Targets -/

def COLON : UInt8 := 58

def host (addr : Bytes) : Bytes := addr.takeWhile (· ≠ COLON)
def port (addr : Bytes) : Bytes := (addr.dropWhile (· ≠ COLON)).drop 1

/-- The loop of `alloc_conn_id` tests the same number 256 times. -/
def allocConnId (w : World) (core : Core) : UInt8 :=
  let next := w.nextConnId core.attempts
  if (core.targets next).isNone then next else CONN_ID_NONE

def openTarget (core : Core) (connId : UInt8) (target : TargetConn) : Core :=
  { core with targets := Function.update core.targets connId (some target) }.note
    (.targetOpened connId)

/-- The address of the target is not kept. -/
def onTargetConnected (core : Core) (fd : Nat) (connId reqId : UInt8) : Core :=
  let core := { core with pendingConnects := Function.update core.pendingConnects reqId none }
  let core := openTarget core connId ⟨fd, []⟩
  core.sendControl ⟨MSG_CONNECT_OK, [connId, reqId]⟩

def setupTunnelTargetAsync (w : World) (core : Core) (addr : Bytes) (connId reqId : UInt8) :
    Core :=
  if COLON ∉ addr then core.sendControl ⟨MSG_CONNECT_FAIL, [connId, reqId]⟩
  else
    match w.connect core.attempts (host addr) (port addr) with
    | .fails => core.sendControl ⟨MSG_CONNECT_FAIL, [connId, reqId]⟩
    | .connected fd => onTargetConnected core fd connId reqId
    | .inProgress fd =>
        let pending : PendingConnect := ⟨fd, connId, reqId⟩
        { core with
          pendingConnects := Function.update core.pendingConnects reqId (some pending)
          connecting := core.connecting ++ [pending] }

def handleConnectReq (w : World) (core : Core) (pkt : Packet) : Core :=
  match pkt.payload with
  | reqId :: addrLen :: rest =>
      if rest.length < addrLen.toNat then core
      else
        let connId := allocConnId w core
        let core := { core with attempts := core.attempts + 1 }
        if connId = CONN_ID_NONE then core.sendControl ⟨MSG_CONNECT_FAIL, [0, reqId]⟩
        else setupTunnelTargetAsync w core (rest.take addrLen.toNat) connId reqId
  | _ => core

/-- The socket of a pending connect is closed. -/
def dropConnect (core : Core) (reqId : UInt8) (fd : Nat) : Core :=
  { core with
    pendingConnects := Function.update core.pendingConnects reqId none
    connecting := core.connecting.filter fun p => p.fd ≠ fd }

def handleConnectCancel (core : Core) (pkt : Packet) : Core :=
  match pkt.payload with
  | [] => core
  | reqId :: _ =>
      match core.pendingConnects reqId with
      | none => core
      | some pending => dropConnect core reqId pending.fd

/-- The close is left to `process_pending_io`. -/
def handleDisconnect (core : Core) (pkt : Packet) : Core :=
  match pkt.payload with
  | [] => core
  | connId :: _ =>
      { core with pendingDisconnectTargets := core.pendingDisconnectTargets ++ [connId] }

def closeTarget (core : Core) (connId : UInt8) : Core :=
  { core with targets := Function.update core.targets connId none }

/-- `setup_tunnel_target`, with a blocking `connect`. -/
def setupTunnelTarget (w : World) (core : Core) (addr : Bytes) (connId : UInt8) : Core :=
  if COLON ∉ addr then core
  else
    match w.connect core.attempts (host addr) (port addr) with
    | .connected fd =>
        openTarget { core with attempts := core.attempts + 1 } connId ⟨fd, addr⟩
    | _ => { core with attempts := core.attempts + 1 }

def reconnectTarget (w : World) (core : Core) (saved : UInt8 × Bytes) : Core :=
  if (core.targets saved.1).isSome then core else setupTunnelTarget w core saved.2 saved.1

def processPendingReconnectTargets (w : World) (core : Core) : Core :=
  core.pendingReconnectTargets.foldl (reconnectTarget w)
    { core with pendingReconnectTargets := [] }

/-! ## Data connections -/

/-- All data connections are there: the saved targets first, then `MSG_TRANSMIT_READY`. -/
def transmitReady (w : World) (core : Core) : Core :=
  (processPendingReconnectTargets w core).sendControl ⟨MSG_TRANSMIT_READY, []⟩

/-- The test after a connection was attached. -/
def checkReady (w : World) (core : Core) : Core :=
  if core.allReady ∧ core.state = .running then transmitReady w core else core

/-- An open connection is replaced by a fresh one that keeps the sequence number; a closed
one keeps its buffer. -/
def DataConnection.attach (dc : DataConnection) (fd : Nat) : DataConnection :=
  if dc.fd.isSome then { fd := some fd, reader := { recvSeq := dc.reader.recvSeq } }
  else { dc with fd := some fd }

def addDataConnection (w : World) (core : Core) (outputIdx : UInt8) (fd : Nat) : Core :=
  if core.dataConnections.length ≤ outputIdx.toNat then
    { core with pendingDataConns := core.pendingDataConns ++ [(outputIdx, fd)] }
  else
    checkReady w
      { core with
        dataConnections := core.dataConnections.modify outputIdx.toNat fun dc => dc.attach fd }

/-- A pending connection takes its slot only when the slot is closed. -/
def attachPending (dcs : List DataConnection) (pending : UInt8 × Nat) : List DataConnection :=
  dcs.modify pending.1.toNat fun dc =>
    if dc.fd.isSome then dc else { dc with fd := some pending.2 }

def processPendingDataConns (w : World) (core : Core) : Core :=
  checkReady w
    { core with
      dataConnections := core.pendingDataConns.foldl attachPending core.dataConnections
      pendingDataConns := [] }

/-! ## The chain -/

def hexDigit (n : Nat) : UInt8 := UInt8.ofNat (if n < 10 then 48 + n else 87 + n)

/-- `%02x` for every byte. -/
def hex (bytes : Bytes) : Bytes :=
  bytes.flatMap fun b => [hexDigit (b.toNat / 16), hexDigit (b.toNat % 16)]

/-- The ids of a module list that no loaded module has. -/
def missingModules (w : World) (count : Nat) (mids : Bytes) : List Bytes :=
  ((List.range count).map fun i => (mids.drop (32 * i)).take 32).filter fun mid =>
    !w.hasModule mid

def moduleListFail (missing : List Bytes) : Packet :=
  ⟨MSG_MODULE_LIST_RES, 0 :: UInt8.ofNat missing.length ::
    (missing.map hex).flatMap fun m => UInt8.ofNat m.length :: m⟩

def handleModuleListReq (w : World) (core : Core) (pkt : Packet) : Core :=
  match pkt.payload with
  | [] => core
  | count :: mids =>
      if mids.length < count.toNat * 32 then core
      else
        let missing := missingModules w count.toNat mids
        if missing = [] then core.sendControl ⟨MSG_MODULE_LIST_RES, [1]⟩
        else (core.sendControl (moduleListFail missing)).become .disconnected

/-- The bytes of a `uint64_t` in memory, and back. -/
def u64Bytes (v : UInt64) : Bytes :=
  (List.range 8).map fun i => (v >>> UInt64.ofNat (8 * i)).toUInt8

def readU64 (bytes : Bytes) : UInt64 :=
  (bytes.take 8).foldr (fun b v => (v <<< 8) ||| b.toUInt64) 0

def chainReady (w : World) : Packet := ⟨MSG_CHAIN_READY, 1 :: u64Bytes w.sessionId⟩

/-- The table grows to one slot for each output and never shrinks. -/
def growConnections (dcs : List DataConnection) (size : Nat) : List DataConnection :=
  dcs ++ List.replicate (size - dcs.length) { fd := none }

/-- The end of `handle_chain_create`: the connections that came early, and the messages. -/
def announceChain (w : World) (core : Core) (extra : Nat) : Core :=
  let core := processPendingDataConns w core
  let core := if extra > 0 then checkReady w core else core
  let core := core.sendControl (chainReady w)
  if extra = 0 then transmitReady w core else core

/-- `handle_chain_create` from the assignment of `RUNNING` on. -/
def startChain (w : World) (core : Core) (extra : Nat) : Core :=
  announceChain w { core.become .running with
    totalExtraOutputs := extra
    dataConnections := growConnections core.dataConnections (1 + extra) } extra

def handleChainCreate (w : World) (core : Core) (pkt : Packet) : Core :=
  match pkt.payload with
  | [] => core
  | count :: rest =>
      let core := { core with chain := true }.note .chainCreated
      let extra := w.extraOutputs (readModules count.toNat rest)
      if extra > MAX_WIRE_CONNECTIONS then core.become .disconnected
      else startChain w core extra

/-! ## Control messages -/

/-- The switch of `apply_control`, repeated in `process_wire_buffer`. The messages left out
change the pause flags of targets only. -/
def applyControl (w : World) (core : Core) (pkt : Packet) : Core :=
  let core := core.note (.control core.state pkt)
  if pkt.type = MSG_CONNECT_REQ then handleConnectReq w core pkt
  else if pkt.type = MSG_CONNECT_CANCEL then handleConnectCancel core pkt
  else if pkt.type = MSG_DISCONNECT then handleDisconnect core pkt
  else if pkt.type = MSG_MODULE_LIST_REQ then handleModuleListReq w core pkt
  else if pkt.type = MSG_CHAIN_CREATE then handleChainCreate w core pkt
  else core

/-- The packet of a frame of `process_wire_buffer`, behind its length. -/
def framePacket : Bytes → Option Packet
  | type :: _ :: proto =>
      if type = WIRE_CONTROL then
        match tryParse proto with
        | none => none
        | some (consumed, pkt) => if consumed > 0 then some pkt else none
      else none
  | _ => none

/-- The packets `process_wire_buffer` finds, in at most `n` frames. -/
def wirePackets : Nat → Bytes → List Packet
  | 0, _ => []
  | n + 1, data =>
      if data = [] then []
      else
        let (pos, val, shift) := wireVarint data
        if pos ≥ 10 ∨ shift ≥ 56 then []
        else if pos + val > data.length ∨ val < 1 then []
        else
          (framePacket ((data.drop pos).take val)).toList ++
            wirePackets n (data.drop (pos + val))

/-- The packets that a buffer still holds when the wire protocol takes over. -/
def leftoverPackets (data : Bytes) : List Packet := wirePackets data.length data

def processWireBuffer (w : World) (core : Core) (data : Bytes) : Core :=
  (leftoverPackets data).foldl (applyControl w) core

/-! ## The session -/

/-- `handedTo` is the session that `handle_reconnect` gave the client's descriptor to. -/
structure Session where
  clientFd : Option Nat
  recvBuf : Bytes := []
  paused : Bool := false
  savedTargets : List (UInt8 × Bytes) := []
  packetsSent : List Packet := []
  handedTo : Option UInt64 := none
  control : Receiver Core := { app := {} }

namespace Session

abbrev core (s : Session) : Core := s.control.app

def setCore (s : Session) (core : Core) : Session :=
  { s with control := { s.control with app := core } }

def become (s : Session) (st : State) : Session := s.setCore (s.core.become st)

def sendPacket (s : Session) (pkt : Packet) : Session :=
  { s with packetsSent := s.packetsSent ++ [pkt] }

end Session

def authFail : Packet := ⟨MSG_AUTH_OK, [0]⟩

def handleAuthChallengeResponse (w : World) (s : Session) (pkt : Packet) : Session :=
  if pkt.payload ≠ w.expected then (s.sendPacket authFail).become .disconnected
  else (s.sendPacket ⟨MSG_AUTH_OK, 1 :: u64Bytes w.sessionId⟩).become .awaitAuth1Ok

def handleAuth2Challenge (w : World) (s : Session) (pkt : Packet) : Session :=
  (s.sendPacket ⟨MSG_AUTH_RESPONSE, w.hexSha256 (pkt.payload ++ w.password)⟩).become
    .awaitAuth2Response

/-- The client's connection becomes data connection 0. -/
def switchToWire (s : Session) : Core :=
  let dcs := (growConnections (s.core.dataConnections.take 1) 1).map fun dc =>
    { dc with fd := s.clientFd }
  { s.core with dataConnections := dcs }.note (.switched (leftoverPackets s.recvBuf))

/-- The bytes behind the packet are wire frames already. The state is assigned last, whatever
they led to. -/
def handleAuth2Response (w : World) (s : Session) (pkt : Packet) : Session :=
  if pkt.payload.head? = some 1 then
    let core := processWireBuffer w (switchToWire s) s.recvBuf
    { s.setCore (core.become .awaitChainCreate) with recvBuf := [] }
  else s.become .disconnected

/-- `reconnects` tells which ids name a session whose `reconnect` returns true. -/
def handleReconnect (w : World) (reconnects : UInt64 → Bool) (s : Session) (pkt : Packet) :
    Session :=
  if pkt.payload.length ≠ 72 then s.sendPacket authFail
  else if pkt.payload.drop 8 ≠ w.expected then (s.sendPacket authFail).become .disconnected
  else if reconnects (readU64 pkt.payload) then
    { (s.sendPacket ⟨MSG_AUTH_OK, [1]⟩).become .disconnected with
      clientFd := none
      handedTo := some (readU64 pkt.payload) }
  else s.sendPacket authFail

/-! ## `on_data` -/

/-- The switch of the authentication phase. -/
def onAuthPacket (w : World) (reconnects : UInt64 → Bool) (s : Session) (pkt : Packet) :
    Session :=
  let st := s.core.state
  if pkt.type = MSG_AUTH_RESPONSE then
    if st = .awaitAuth1ChallengeResp then handleAuthChallengeResponse w s pkt
    else if st = .awaitAuth2Response then handleAuth2Response w s pkt
    else s
  else if pkt.type = MSG_AUTH_OK then
    if st = .awaitAuth2Response then handleAuth2Response w s pkt else s
  else if pkt.type = MSG_AUTH_CHALLENGE then
    if st = .awaitAuth1Ok then handleAuth2Challenge w s pkt else s
  else if pkt.type = MSG_RECONNECT then
    if st = .awaitAuth1ChallengeResp ∨ st = .awaitConnectReq ∨ st = .awaitChainCreate then
      handleReconnect w reconnects s pkt
    else s
  else s

/-- The switch after the authentication. -/
def onWirePacket (w : World) (reconnects : UInt64 → Bool) (s : Session) (pkt : Packet) :
    Session :=
  let st := s.core.state
  if pkt.type = MSG_AUTH_RESPONSE ∨ pkt.type = MSG_AUTH_OK then
    if st = .awaitAuth2Response then handleAuth2Response w s pkt else s
  else if pkt.type = MSG_AUTH_CHALLENGE then
    if st = .awaitAuth1Ok then handleAuth2Challenge w s pkt else s
  else if pkt.type = MSG_RECONNECT then
    if st = .awaitConnectReq ∨ st = .awaitChainCreate then handleReconnect w reconnects s pkt
    else s
  else if pkt.type = MSG_CONNECT_REQ then
    if st = .awaitChainCreate ∨ st = .running then s.setCore (handleConnectReq w s.core pkt)
    else s
  else if pkt.type = MSG_CHAIN_CREATE then
    if st = .awaitChainCreate then s.setCore (handleChainCreate w s.core pkt) else s
  else if pkt.type = MSG_DISCONNECT then
    if st = .running ∨ st = .awaitChainCreate then s.setCore (handleDisconnect s.core pkt)
    else s
  else if pkt.type = MSG_CONNECT_CANCEL then
    if st = .running ∨ st = .awaitChainCreate then s.setCore (handleConnectCancel s.core pkt)
    else s
  else s

/-- The two loops of `on_data`; the first ends when the authentication does. -/
def authLoop (w : World) (reconnects : UInt64 → Bool) : PacketLoop Session where
  recvBuf := Session.recvBuf
  setRecvBuf s buf := { s with recvBuf := buf }
  handle := onAuthPacket w reconnects
  done s := decide (stateValue .authDone ≤ stateValue s.core.state)

def wireLoop (w : World) (reconnects : UInt64 → Bool) : PacketLoop Session where
  recvBuf := Session.recvBuf
  setRecvBuf s buf := { s with recvBuf := buf }
  handle := onWirePacket w reconnects
  done _ := false

def onData (w : World) (reconnects : UInt64 → Bool) (s : Session) (data : Bytes) : Session :=
  if stateValue s.core.state < stateValue .authDone then (authLoop w reconnects).receive s data
  else if s.clientFd.isNone then s
  else (wireLoop w reconnects).receive s data

/-! ## Losing and regaining the client -/

/-- The targets of a session, in the order of their ids. -/
def targetList (core : Core) : List (UInt8 × Bytes) :=
  (List.range 256).filterMap fun i =>
    (core.targets (UInt8.ofNat i)).map fun t => (UInt8.ofNat i, t.addr)

/-- The read buffer is cleared, the offset into it is not. -/
def DataConnection.close (dc : DataConnection) : DataConnection :=
  if dc.fd.isSome then { fd := none, reader := { dc.reader with readBuf := [] } } else dc

/-- Only a running session is paused. -/
def onDisconnect (s : Session) : Session :=
  if s.paused ∨ s.core.state ≠ .running then s
  else
    { s.setCore { s.core with
        targets := fun _ => none
        dataConnections := s.core.dataConnections.map DataConnection.close } with
      paused := true
      savedTargets := targetList s.core }

/-- `reconnect`; a session that is not paused refuses. -/
def reconnect (w : World) (s : Session) (fd : Nat) : Session :=
  if s.paused then
    let dcs := s.core.dataConnections.modify 0 fun dc =>
      { fd := some fd, reader := { dc.reader with readBuf := [], readOffset := 0 } }
    let core := { s.core with dataConnections := dcs, pendingReconnectTargets := s.savedTargets }
    { s.setCore (processPendingReconnectTargets w core) with
      clientFd := some fd
      savedTargets := []
      paused := false }
  else s

/-! ## The events -/

/-- The control messages among what a read handed out. -/
def deliverHandled (w : World) (c : Receiver Core) : List Wire.Handled → Receiver Core
  | [] => c
  | .control seq pkt :: rest => deliverHandled w (deliverControl (applyControl w) c seq pkt) rest
  | _ :: rest => deliverHandled w c rest

/-- The handler of `register_data_connection_reader`. No control message touches the buffer
that is being read, so the loop over the frames comes first here. -/
def dataRead (w : World) (s : Session) (idx : Nat) (res : ReadResult) : Option Session :=
  match s.core.dataConnections[idx]? with
  | none => none
  | some dc =>
      if dc.fd.isNone ∨ dc.reader.readBuf.length < dc.reader.readOffset then none
      else
        match dc.reader.serverRead res with
        | none => none
        | some reader =>
            let put (dc : DataConnection) := s.setCore
              { s.core with dataConnections := s.core.dataConnections.set idx dc }
            match res with
            | .bytes _ =>
                let s := put { dc with reader := reader }
                let new := reader.handled.drop dc.reader.handled.length
                some { s with control := deliverHandled w s.control new }
            | .again => some (put { dc with reader := reader })
            | .eof | .error => some (onDisconnect (put { fd := none, reader := reader }))

/-- The handler of a socket whose `connect` was in progress. -/
def connectDone (core : Core) (pending : PendingConnect) (ok : Bool) : Core :=
  let core := { core with connecting := core.connecting.erase pending }
  if ok then
    onTargetConnected (core.note (.completed core.state)) pending.fd pending.connId pending.reqId
  else
    (dropConnect core pending.reqId pending.fd).sendControl
      ⟨MSG_CONNECT_FAIL, [pending.connId, pending.reqId]⟩

/-- A pending connect that `check_pending_connect_timeout` finds too old. -/
def connectTimeout (core : Core) (reqId : UInt8) : Core :=
  match core.pendingConnects reqId with
  | none => core
  | some pending =>
      (dropConnect core reqId pending.fd).sendControl
        ⟨MSG_CONNECT_FAIL, [pending.connId, reqId]⟩

/-- `shutdownWrSent` is the flag of the target: its end is acknowledged by a frame of its
own. With a chain the notice travels through it. -/
def sendDisconnectNow (core : Core) (connId : UInt8) (shutdownWrSent : Bool) : Core :=
  if (core.targets connId).isNone then core
  else if shutdownWrSent ∨ core.chain then closeTarget core connId
  else (closeTarget core connId).sendControl ⟨MSG_DISCONNECT, [connId]⟩

def checkHeartbeat (core : Core) (timeout : Bool) : Core :=
  if core.state = .running ∧ timeout then core.become .disconnected else core

inductive Event where
  | onData (reconnects : UInt64 → Bool) (data : Bytes)
  | dataRead (idx : Nat) (res : ReadResult)
  | addDataConnection (outputIdx : UInt8) (fd : Nat)
  | reconnect (fd : Nat)
  /-- The end of the first connection, seen by the handler that `finish_handshake` installs. -/
  | onDisconnect
  | connectDone (pending : PendingConnect) (ok : Bool)
  | connectTimeout (reqId : UInt8)
  | sendDisconnectNow (connId : UInt8) (shutdownWrSent : Bool)
  /-- The end of `process_pending_io`, when the chain is drained. -/
  | closePendingTargets
  /-- A hard error of `wire_write`, handled by `process_pending_io`. -/
  | wireWriteFailed (idx : Nat)
  /-- An error of a target's socket while it waits for `EPOLLOUT`. -/
  | targetError (connId : UInt8)
  | checkHeartbeat (timeout : Bool)

def Session.step (w : World) (s : Session) : Event → Option Session
  | .onData reconnects data => some (Lifecycle.onData w reconnects s data)
  | .dataRead idx res => Lifecycle.dataRead w s idx res
  | .addDataConnection outputIdx fd =>
      some (s.setCore (Lifecycle.addDataConnection w s.core outputIdx fd))
  | .reconnect fd => some (Lifecycle.reconnect w s fd)
  | .onDisconnect => some (Lifecycle.onDisconnect s)
  | .connectDone pending ok =>
      if pending ∈ s.core.connecting then
        some (s.setCore (Lifecycle.connectDone s.core pending ok))
      else none
  | .connectTimeout reqId => some (s.setCore (Lifecycle.connectTimeout s.core reqId))
  | .sendDisconnectNow connId sent =>
      some (s.setCore (Lifecycle.sendDisconnectNow s.core connId sent))
  | .closePendingTargets =>
      some (s.setCore { s.core.pendingDisconnectTargets.foldl closeTarget s.core with
        pendingDisconnectTargets := [] })
  | .wireWriteFailed idx =>
      some (s.setCore { s.core with
        dataConnections := s.core.dataConnections.modify idx fun dc => { dc with fd := none } })
  | .targetError connId => some (s.setCore (closeTarget s.core connId))
  | .checkHeartbeat timeout => some (s.setCore (Lifecycle.checkHeartbeat s.core timeout))

/-- A session as its constructor leaves it. -/
def Session.init (fd : Nat) : Session := { clientFd := some fd }

/-! ## What the small operations leave alone -/

namespace Core

@[simp] theorem note_state (core : Core) (t : Trace) : (core.note t).state = core.state := rfl

@[simp] theorem note_log (core : Core) (t : Trace) : (core.note t).log = core.log ++ [t] := rfl

@[simp] theorem note_dataConnections (core : Core) (t : Trace) :
    (core.note t).dataConnections = core.dataConnections := rfl

@[simp] theorem become_state (core : Core) (st : State) : (core.become st).state = st := rfl

@[simp] theorem become_log (core : Core) (st : State) :
    (core.become st).log = core.log ++ [.became st] := rfl

@[simp] theorem become_dataConnections (core : Core) (st : State) :
    (core.become st).dataConnections = core.dataConnections := rfl

variable (core : Core) (pkt : Packet)

/-- Sending changes the list of what was sent and nothing else. -/
theorem sendControl_eq : ∃ sent, core.sendControl pkt = { core with controlSent := sent } := by
  unfold sendControl
  split_ifs
  · exact ⟨_, rfl⟩
  · exact ⟨core.controlSent, rfl⟩

@[simp] theorem sendControl_state : (core.sendControl pkt).state = core.state := by
  obtain ⟨sent, h⟩ := core.sendControl_eq pkt
  rw [h]

@[simp] theorem sendControl_log : (core.sendControl pkt).log = core.log := by
  obtain ⟨sent, h⟩ := core.sendControl_eq pkt
  rw [h]

@[simp] theorem sendControl_dataConnections :
    (core.sendControl pkt).dataConnections = core.dataConnections := by
  obtain ⟨sent, h⟩ := core.sendControl_eq pkt
  rw [h]

@[simp] theorem sendControl_pendingDataConns :
    (core.sendControl pkt).pendingDataConns = core.pendingDataConns := by
  obtain ⟨sent, h⟩ := core.sendControl_eq pkt
  rw [h]

@[simp] theorem sendControl_pendingReconnectTargets :
    (core.sendControl pkt).pendingReconnectTargets = core.pendingReconnectTargets := by
  obtain ⟨sent, h⟩ := core.sendControl_eq pkt
  rw [h]

@[simp] theorem sendControl_targets : (core.sendControl pkt).targets = core.targets := by
  obtain ⟨sent, h⟩ := core.sendControl_eq pkt
  rw [h]

@[simp] theorem sendControl_connecting :
    (core.sendControl pkt).connecting = core.connecting := by
  obtain ⟨sent, h⟩ := core.sendControl_eq pkt
  rw [h]

theorem sendControl_sent (hopen : core.dataConnections.any fun dc => dc.fd.isSome) :
    (core.sendControl pkt).controlSent = core.controlSent ++ [pkt] := by
  rw [sendControl, if_pos hopen]

end Core

/-- A data connection is put back into its slot. -/
def Session.putConnection (s : Session) (idx : Nat) (dc : DataConnection) : Session :=
  s.setCore { s.core with dataConnections := s.core.dataConnections.set idx dc }

/-- What a read can do: hand out frames, wait, or lose the connection. -/
theorem dataRead_cases {w : World} {s s' : Session} {idx : Nat} {res : ReadResult}
    (hread : dataRead w s idx res = some s') :
    ∃ dc reader, s.core.dataConnections[idx]? = some dc ∧
      ((∃ handled, s' =
          { s.putConnection idx { dc with reader := reader } with
            control := deliverHandled w
              (s.putConnection idx { dc with reader := reader }).control handled }) ∨
        s' = s.putConnection idx { dc with reader := reader } ∨
        s' = onDisconnect (s.putConnection idx { fd := none, reader := reader })) := by
  unfold dataRead at hread
  split at hread
  · contradiction
  · rename_i dc hdc
    split_ifs at hread
    split at hread
    · contradiction
    · rename_i reader hreader
      refine ⟨dc, reader, hdc, ?_⟩
      cases res with
      | bytes data => exact Or.inl ⟨_, (Option.some.inj hread).symm⟩
      | again => exact Or.inr (Or.inl (Option.some.inj hread).symm)
      | eof => exact Or.inr (Or.inr (Option.some.inj hread).symm)
      | error => exact Or.inr (Or.inr (Option.some.inj hread).symm)

/-- What the two switches can make of a packet: the handler of its type runs in a state that
lets it through, or nothing happens. -/
inductive Dispatched (w : World) (reconnects : UInt64 → Bool) (s : Session) (pkt : Packet) :
    Session → Prop
  | ignored : Dispatched w reconnects s pkt s
  | authChallengeResponse (hst : s.core.state = .awaitAuth1ChallengeResp) :
      Dispatched w reconnects s pkt (handleAuthChallengeResponse w s pkt)
  | auth2Response (hst : s.core.state = .awaitAuth2Response) :
      Dispatched w reconnects s pkt (handleAuth2Response w s pkt)
  | auth2Challenge (hst : s.core.state = .awaitAuth1Ok) :
      Dispatched w reconnects s pkt (handleAuth2Challenge w s pkt)
  | reconnect (hst : s.core.state = .awaitAuth1ChallengeResp ∨ s.core.state = .awaitConnectReq ∨
      s.core.state = .awaitChainCreate) :
      Dispatched w reconnects s pkt (handleReconnect w reconnects s pkt)
  | connectReq (htype : pkt.type = MSG_CONNECT_REQ)
      (hst : s.core.state = .awaitChainCreate ∨ s.core.state = .running) :
      Dispatched w reconnects s pkt (s.setCore (handleConnectReq w s.core pkt))
  | chainCreate (htype : pkt.type = MSG_CHAIN_CREATE) (hst : s.core.state = .awaitChainCreate) :
      Dispatched w reconnects s pkt (s.setCore (handleChainCreate w s.core pkt))
  | disconnect (hst : s.core.state = .running ∨ s.core.state = .awaitChainCreate) :
      Dispatched w reconnects s pkt (s.setCore (handleDisconnect s.core pkt))
  | connectCancel (hst : s.core.state = .running ∨ s.core.state = .awaitChainCreate) :
      Dispatched w reconnects s pkt (s.setCore (handleConnectCancel s.core pkt))

section Dispatched

variable {w : World} {reconnects : UInt64 → Bool} {s s' : Session} {pkt : Packet} {P : Prop}
  [Decidable P]

/-- A case of a switch with the test of its state. -/
theorem Dispatched.guard (h : P → Dispatched w reconnects s pkt s') :
    Dispatched w reconnects s pkt (if P then s' else s) := by
  apply iteInduction
  · exact h
  · exact fun _ => .ignored

theorem dispatched_onAuthPacket (w : World) (reconnects : UInt64 → Bool) (s : Session)
    (pkt : Packet) : Dispatched w reconnects s pkt (onAuthPacket w reconnects s pkt) := by
  apply iteInduction
  · intro _
    apply iteInduction
    · exact .authChallengeResponse
    · exact fun _ => .guard .auth2Response
  intro _
  apply iteInduction
  · exact fun _ => .guard .auth2Response
  intro _
  apply iteInduction
  · exact fun _ => .guard .auth2Challenge
  intro _
  apply iteInduction
  · exact fun _ => .guard .reconnect
  · exact fun _ => .ignored

theorem dispatched_onWirePacket (w : World) (reconnects : UInt64 → Bool) (s : Session)
    (pkt : Packet) : Dispatched w reconnects s pkt (onWirePacket w reconnects s pkt) := by
  apply iteInduction
  · exact fun _ => .guard .auth2Response
  intro _
  apply iteInduction
  · exact fun _ => .guard .auth2Challenge
  intro _
  apply iteInduction
  · exact fun _ => .guard fun hst => .reconnect (Or.inr hst)
  intro _
  apply iteInduction
  · exact fun htype => .guard (.connectReq htype)
  intro _
  apply iteInduction
  · exact fun htype => .guard (.chainCreate htype)
  intro _
  apply iteInduction
  · exact fun _ => .guard .disconnect
  intro _
  apply iteInduction
  · exact fun _ => .guard .connectCancel
  · exact fun _ => .ignored

end Dispatched

end PipelineTunnel.Lifecycle
