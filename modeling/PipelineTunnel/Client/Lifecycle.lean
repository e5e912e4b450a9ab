import PipelineTunnel.Server.Lifecycle

/-!
# The client from its first connection to a running tunnel

`client/client.cpp`: the authentication in `on_server_data`, and the messages that take the
client from the module list over the chain and its secondary connections to `RUNNING`.

## Implementation notes

External connections, the data that waits for `RUNNING` and the module chain are left out;
the messages about them change no state. `none` is the descriptor `-1`. What the client is
started with and what the system calls answer is in `World`; the challenge that `rand` and
`time` give is in the event. `Kernel::request_stop` ends the program, so it is not followed
further.
-/

namespace PipelineTunnel.Client

open Protocol Control
open Lifecycle (u64Bytes readU64 leftoverPackets MAX_WIRE_CONNECTIONS)

inductive State where
  | disconnected
  | awaitAuth1Challenge
  | awaitAuth1Ok
  | awaitAuth2Ok
  | awaitModuleListRes
  | awaitChainReady
  | awaitTransmitReady
  | running
deriving DecidableEq, Repr

/-- The id of a module: the 32 bytes behind the 64 hexadecimal digits of `mid`. -/
structure Mid where
  bytes : Bytes
  size : bytes.length = 32
deriving DecidableEq, Repr

/-- The names and parameters of the modules, the loaded modules by name, the chain's
`total_extra_outputs`, and for every secondary connection the descriptor it gets when
`socket`, `connect` and the write of the handshake succeed. -/
structure World where
  password : Bytes
  hexSha256 : Bytes → Bytes
  tcpFd : Nat
  listenPort : Nat
  modules : List (Bytes × Bytes)
  findModule : Bytes → Option Mid
  extraOutputs : Nat
  openSecondary : Nat → Option Nat

inductive Trace where
  | became (state : State)
  | chainCreated
deriving DecidableEq, Repr

/-- The nine bytes that open a secondary connection, and its descriptor. -/
structure Handshake where
  sessionId : UInt64
  outputIdx : UInt8
  fd : Nat
deriving DecidableEq, Repr

/-- What control messages act on. -/
structure Core where
  state : State := .awaitAuth1Challenge
  sessionId : UInt64 := 0
  chain : Bool := false
  totalExtraOutputs : Nat := 0
  secondaryConnsEstablished : Bool := false
  setupOk : Bool := false
  listening : Bool := false
  dataConnections : List (Option Nat) := []
  handshakes : List Handshake := []
  controlSent : List Packet := []
  log : List Trace := []
deriving DecidableEq, Repr

namespace Core

def become (core : Core) (st : State) : Core :=
  { core with state := st, log := core.log ++ [.became st] }

/-- `send_control` drops the message when no data connection is open. -/
def sendControl (core : Core) (pkt : Packet) : Core :=
  if core.dataConnections.any Option.isSome then
    { core with controlSent := core.controlSent ++ [pkt] }
  else core

end Core

/-! ## Setting up the chain -/

/-- The module list of `MSG_CHAIN_CREATE`, with lengths cut to one and two bytes. -/
def chainConfig (modules : List (Bytes × Bytes)) : Bytes :=
  UInt8.ofNat modules.length :: modules.flatMap fun m =>
    UInt8.ofNat m.1.length :: (m.1 ++
      (UInt8.ofNat m.2.length :: UInt8.ofNat (m.2.length / 256) :: m.2))

def handleModuleListRes (w : World) (core : Core) (pkt : Packet) : Core :=
  match pkt.payload with
  | [] => core
  | status :: _ =>
      if status = 1 then
        (core.sendControl ⟨MSG_CHAIN_CREATE, chainConfig w.modules⟩).become .awaitChainReady
      else core.become .disconnected

/-- Slot `i` of the table, which grows when it is too short. -/
def setConnection (dcs : List (Option Nat)) (i fd : Nat) : List (Option Nat) :=
  (dcs ++ List.replicate (i + 1 - dcs.length) none).set i (some fd)

/-- Secondary connection `i`; one that fails is skipped. -/
def openSecondaryConnection (w : World) (core : Core) (i : Nat) : Core :=
  match w.openSecondary i with
  | none => core
  | some fd =>
      { core with
        dataConnections := setConnection core.dataConnections i fd
        handshakes := core.handshakes ++ [⟨core.sessionId, UInt8.ofNat i, fd⟩] }

def openSecondaryConnections (w : World) (core : Core) : Core :=
  if core.secondaryConnsEstablished then core
  else
    (List.range' 1 core.totalExtraOutputs).foldl (openSecondaryConnection w)
      { core with secondaryConnsEstablished := true }

/-- `RUNNING`, and the listener when there is a port for it. -/
def startRunning (w : World) (core : Core) : Core :=
  { core.become .running with
    setupOk := true
    listening := core.listening || decide (w.listenPort > 0) }

/-- A chain with extra outputs waits for their connections. -/
def openOutputs (w : World) (core : Core) (extra : Nat) : Core :=
  let core := { core with totalExtraOutputs := extra }
  if extra > 0 then openSecondaryConnections w (core.become .awaitTransmitReady)
  else startRunning w core

def handleChainReady (w : World) (core : Core) : Core :=
  if core.state ≠ .awaitChainReady then core
  else openOutputs w core (if core.chain then w.extraOutputs else 0)

def handleTransmitReady (w : World) (core : Core) : Core :=
  if core.state = .awaitTransmitReady then startRunning w core else core

/-- The switch of `apply_control`, repeated in `process_wire_buffer`. -/
def applyControl (w : World) (core : Core) (pkt : Packet) : Core :=
  if pkt.type = MSG_MODULE_LIST_RES then handleModuleListRes w core pkt
  else if pkt.type = MSG_CHAIN_READY then handleChainReady w core
  else if pkt.type = MSG_TRANSMIT_READY then handleTransmitReady w core
  else core

def processWireBuffer (w : World) (core : Core) (data : Bytes) : Core :=
  (leftoverPackets data).foldl (applyControl w) core

/-! ## The authentication -/

structure Session where
  recvBuf : Bytes := []
  challenge1 : Bytes := []
  clientChallenge : Bytes := []
  packetsSent : List Packet := []
  control : Receiver Core := { app := {} }

namespace Session

abbrev core (s : Session) : Core := s.control.app

def setCore (s : Session) (core : Core) : Session :=
  { s with control := { s.control with app := core } }

def become (s : Session) (st : State) : Session := s.setCore (s.core.become st)

def sendPacket (s : Session) (pkt : Packet) : Session :=
  { s with packetsSent := s.packetsSent ++ [pkt] }

end Session

def handleAuth1Challenge (w : World) (s : Session) (pkt : Packet) : Session :=
  let s := { s with challenge1 := pkt.payload }
  (s.sendPacket ⟨MSG_AUTH_RESPONSE, w.hexSha256 (s.challenge1 ++ w.password)⟩).become
    .awaitAuth1Ok

/-- `challenge` is the text of two numbers, from `rand` and `time`. -/
def handleAuth1Ok (challenge : Bytes) (s : Session) (pkt : Packet) : Session :=
  if pkt.payload.head? ≠ some 1 then s.become .disconnected
  else
    let s := if pkt.payload.length ≥ 9 then
        s.setCore { s.core with sessionId := readU64 (pkt.payload.drop 1) }
      else s
    let s := { s with clientChallenge := challenge }
    (s.sendPacket ⟨MSG_AUTH_CHALLENGE, s.clientChallenge⟩).become .awaitAuth2Ok

/-- The ids of the modules, up to the first module that is not loaded. -/
def moduleIds (w : World) : List (Bytes × Bytes) → Option Bytes
  | [] => some []
  | m :: ms =>
      match w.findModule m.1, moduleIds w ms with
      | some mid, some mids => some (mid.bytes ++ mids)
      | _, _ => none

/-- `handle_auth2_challenge` behind the test of the answer. The state is assigned last,
whatever the bytes behind the answer led to. -/
def startChain (w : World) (s : Session) : Session :=
  let s := s.setCore { s.core with chain := true, log := s.core.log ++ [.chainCreated] }
  if w.extraOutputs > MAX_WIRE_CONNECTIONS then s.become .disconnected
  else
    let s := s.sendPacket ⟨MSG_AUTH_OK, [1]⟩
    let core := { s.core with dataConnections := [some w.tcpFd] }
    let core := processWireBuffer w core s.recvBuf
    let s := { s.setCore core with recvBuf := [] }
    match moduleIds w w.modules with
    | none => s.become .disconnected
    | some mids =>
        let req : Packet := ⟨MSG_MODULE_LIST_REQ, UInt8.ofNat w.modules.length :: mids⟩
        (s.setCore (s.core.sendControl req)).become .awaitModuleListRes

/-- The answer of the server to the client's own challenge. -/
def handleAuth2Challenge (w : World) (s : Session) (pkt : Packet) : Session :=
  if pkt.payload ≠ w.hexSha256 (s.clientChallenge ++ w.password) then s.become .disconnected
  else startChain w s

/-- The switch of `on_server_data`; the messages left out concern external connections. -/
def onServerPacket (w : World) (challenge : Bytes) (s : Session) (pkt : Packet) : Session :=
  let st := s.core.state
  if pkt.type = MSG_AUTH_CHALLENGE then
    if st = .awaitAuth1Challenge then handleAuth1Challenge w s pkt else s
  else if pkt.type = MSG_AUTH_OK then
    if st = .awaitAuth1Ok then handleAuth1Ok challenge s pkt else s
  else if pkt.type = MSG_AUTH_RESPONSE then
    if st = .awaitAuth2Ok then handleAuth2Challenge w s pkt else s
  else s

/-- The loop of `on_server_data` ends when there is a chain. -/
def serverLoop (w : World) (challenge : Bytes) : PacketLoop Session where
  recvBuf := Session.recvBuf
  setRecvBuf s buf := { s with recvBuf := buf }
  handle := onServerPacket w challenge
  done s := s.core.chain

def onServerData (w : World) (challenge : Bytes) (s : Session) (data : Bytes) : Session :=
  (serverLoop w challenge).receive s data

inductive Event where
  | onServerData (challenge : Bytes) (data : Bytes)
  /-- The end of the connection, or an error of it, before the chain exists. -/
  | serverClosed
  /-- A control frame that the reader of a data connection took off its buffer. -/
  | deliver (seq : UInt8) (pkt : Packet)

def Session.step (w : World) (s : Session) : Event → Option Session
  | .onServerData challenge data => some (Client.onServerData w challenge s data)
  | .serverClosed => some (s.become .disconnected)
  | .deliver seq pkt =>
      if s.core.dataConnections.any Option.isSome then
        some { s with control := deliverControl (applyControl w) s.control seq pkt }
      else none

/-- The client when `start` has connected it. -/
def Session.init : Session := {}

end PipelineTunnel.Client
