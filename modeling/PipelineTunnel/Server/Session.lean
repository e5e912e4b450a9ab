import PipelineTunnel.Control.Delivery

/-!
# The server session from authentication to the wire protocol

`server/session.cpp`: the bytes of the client's first connection are control packets
until `MSG_AUTH_OK` arrives and wire frames from then on. What is left of the read that
completed `MSG_AUTH_OK` goes through `process_wire_buffer`; everything later goes through
the reader that `register_data_connection_reader` installs.

## Implementation notes

Only `handle_module_list_req` and `handle_chain_create` touch `state_`. The modules that
are loaded and the outputs a chain requests are in `Env`. Targets, the writer and the
trace output are left out, as is whatever a session does after a failed authentication.
The consumed bytes below `read_offset` are not kept. `none` is an access outside the
read buffer.
-/

namespace PipelineTunnel.Server

open Protocol Control

def WIRE_DATA : UInt8 := 0
def WIRE_HEARTBEAT_PING : UInt8 := 1
def WIRE_HEARTBEAT_PONG : UInt8 := 2
def WIRE_SHUTDOWN_WR : UInt8 := 3
def WIRE_SHUTDOWN_WR_ACK : UInt8 := 4
def WIRE_CONTROL : UInt8 := 5
def WIRE_DATA_ACK : UInt8 := 6

def MAX_PACKET_SIZE : Nat := 131072
def MAX_WIRE_CONNECTIONS : Int := 200

inductive State where
  | awaitAuth1ChallengeResp
  | awaitAuth1Ok
  | awaitAuth2Response
  | authDone
  | awaitConnectReq
  | awaitChainCreate
  | running
  | disconnected
deriving DecidableEq, Repr

/-- What the handlers find outside the session: whether a module with a given id is
loaded, and `total_extra_outputs` of the chain for a module list. -/
structure Env where
  hasModule : Bytes → Bool
  extraOutputs : List (Bytes × Bytes) → Int

/-- What control messages and data act on, with the calls of `apply_control`, of
`dispatch_data_conn_packet` and of the chain's `push_packet` so far. -/
structure App where
  state : State
  chain : Bool := false
  applied : List Packet := []
  dispatched : List Bytes := []
  pushed : List Bytes := []
deriving DecidableEq, Repr

/-! ## Control messages -/

def handleModuleListReq (env : Env) (app : App) (pkt : Packet) : App :=
  match pkt.payload with
  | [] => app
  | count :: mids =>
      if mids.length < count.toNat * 32 then app
      else if ∀ i < count.toNat, env.hasModule ((mids.drop (32 * i)).take 32) then app
      else { app with state := .disconnected }

/-- The module list of `MSG_CHAIN_CREATE`, up to the first entry that is cut off. -/
def readModules : Nat → Bytes → List (Bytes × Bytes)
  | 0, _ => []
  | _ + 1, [] => []
  | n + 1, nameLen :: rest =>
      if rest.length < nameLen.toNat then []
      else
        match rest.drop nameLen.toNat with
        | lo :: hi :: params =>
            let plen := lo.toNat ||| (hi.toNat <<< 8)
            if params.length < plen then []
            else (rest.take nameLen.toNat, params.take plen) :: readModules n (params.drop plen)
        | _ => []

def handleChainCreate (env : Env) (app : App) (pkt : Packet) : App :=
  match pkt.payload with
  | [] => app
  | count :: rest =>
      let app := { app with chain := true }
      if env.extraOutputs (readModules count.toNat rest) > MAX_WIRE_CONNECTIONS then
        { app with state := .disconnected }
      else { app with state := .running }

/-- `apply_control`. -/
def applyControl (env : Env) (app : App) (pkt : Packet) : App :=
  let app := { app with applied := app.applied ++ [pkt] }
  if pkt.type = MSG_MODULE_LIST_REQ then handleModuleListReq env app pkt
  else if pkt.type = MSG_CHAIN_CREATE then handleChainCreate env app pkt
  else app

/-- `dispatch_data_conn_packet`. -/
def dispatchDataConnPacket (app : App) (payload : Bytes) : App :=
  let app := { app with dispatched := app.dispatched ++ [payload] }
  if payload.length < 1 then app
  else if app.chain ∧ app.state = .running then { app with pushed := app.pushed ++ [payload] }
  else app

/-! ## The session -/

/-- `readBuf` and `recvSeq` belong to `data_connections_[0]`; `switched` tells that its
reader is installed. -/
structure Session where
  recvBuf : Bytes := []
  switched : Bool := false
  readBuf : Bytes := []
  recvSeq : UInt16 := 0
  control : Receiver App

def Session.setApp (s : Session) (app : App) : Session :=
  { s with control := { s.control with app := app } }

/-- The loop that reads the length of a wire frame: the bytes taken, the value and the
shift it ends with. -/
def wireVarintLoop (pos shift val : Nat) : Bytes → Nat × Nat × Nat
  | [] => (pos, val, shift)
  | b :: bs =>
      if shift < 56 then
        let val := val ||| ((b.toNat &&& 0x7F) <<< shift)
        if b.toNat &&& 0x80 = 0 then (pos + 1, val, shift)
        else wireVarintLoop (pos + 1) (shift + 7) val bs
      else (pos, val, shift)

def wireVarint (buf : Bytes) : Nat × Nat × Nat := wireVarintLoop 0 0 0 buf

/-- One frame of `process_wire_buffer` behind its length. -/
def processWireFrame (env : Env) (s : Session) (frame : Bytes) : Session :=
  match frame with
  | [] => s
  | type :: body =>
      if type = WIRE_CONTROL then
        match body with
        | [] => s
        | _ :: proto =>
            match tryParse proto with
            | none => s
            | some (consumed, pkt) =>
                if consumed > 0 then s.setApp (applyControl env s.control.app pkt) else s
      else if type = WIRE_DATA then s.setApp (dispatchDataConnPacket s.control.app body)
      else s

/-- `process_wire_buffer`. A round takes at least two bytes. -/
def processWireBuffer (env : Env) : Nat → Session → Bytes → Session
  | 0, s, _ => s
  | fuel + 1, s, data =>
      if data = [] then s
      else
        let (pos, val, shift) := wireVarint data
        if pos ≥ 10 ∨ shift ≥ 56 then s
        else if pos + val > data.length ∨ val < 1 then s
        else
          processWireBuffer env fuel (processWireFrame env s ((data.drop pos).take val))
            (data.drop (pos + val))

/-- `handle_auth2_response`: the new data connection, then the leftover bytes, then the
state. -/
def handleAuth2Response (env : Env) (s : Session) (pkt : Packet) : Session :=
  if pkt.payload.head? = some 1 then
    let s := { s with switched := true, readBuf := [], recvSeq := 0 }
    let s := processWireBuffer env s.recvBuf.length s s.recvBuf
    let s := { s with recvBuf := [] }
    s.setApp { s.control.app with state := .awaitChainCreate }
  else s.setApp { s.control.app with state := .disconnected }

/-- The loop of `on_data` in `AWAIT_AUTH2_RESPONSE`. -/
def authLoop (env : Env) : Nat → Session → Session
  | 0, s => s
  | fuel + 1, s =>
      match tryParse s.recvBuf with
      | none => s
      | some (consumed, pkt) =>
          if consumed = 0 then s
          else
            let s := { s with recvBuf := s.recvBuf.drop consumed }
            if pkt.type = MSG_AUTH_RESPONSE ∨ pkt.type = MSG_AUTH_OK then
              handleAuth2Response env s pkt
            else authLoop env fuel s

def onData (env : Env) (s : Session) (data : Bytes) : Session :=
  let s := { s with recvBuf := s.recvBuf ++ data }
  authLoop env s.recvBuf.length s

/-! ## The reader of a data connection -/

/-- A data frame with its sequence number. -/
def acceptData (s : Session) (seq : UInt16) (payload : Bytes) : Session :=
  if seq = s.recvSeq then
    { s with recvSeq := s.recvSeq + 1 }.setApp (dispatchDataConnPacket s.control.app payload)
  else s

/-- A round of the reader's loop: the session, and whether the loop goes on. -/
def readFrame (env : Env) (s : Session) : Option (Session × Bool) :=
  let ptr := s.readBuf
  if ptr = [] then some (s, false)
  else
    let (pos, val, shift) := wireVarint ptr
    let cleared := { s with readBuf := [] }
    if pos ≥ 10 ∨ shift ≥ 56 then some (cleared, false)
    else if pos > ptr.length ∨ pos + val > ptr.length ∨ val < 1 then some (s, false)
    else
      let next := { s with readBuf := ptr.drop (pos + val) }
      match ptr[pos]? with
      | none => none
      | some type =>
          if type = WIRE_HEARTBEAT_PING ∨ type = WIRE_HEARTBEAT_PONG then some (next, true)
          else if type = WIRE_SHUTDOWN_WR then
            if val < 2 then some (cleared, false) else some (next, true)
          else if type = WIRE_SHUTDOWN_WR_ACK then some (next, true)
          else if type = WIRE_CONTROL then
            -- The length is not checked here: `val - 2` wraps around for a frame of one byte.
            if val < 2 then none
            else
              match ptr[pos + 1]? with
              | none => none
              | some recvSeq =>
                  match tryParse ((ptr.drop (pos + 2)).take (val - 2)) with
                  | none => some (next, true)
                  | some (consumed, pkt) =>
                      if consumed > 0 then
                        some ({ next with
                          control := deliverControl (applyControl env) next.control recvSeq pkt },
                          true)
                      else some (next, true)
          else if type = WIRE_DATA_ACK then
            match ptr[pos + 1]?, ptr[pos + 2]? with
            | some _, some _ => some (next, true)
            | _, _ => none
          else if type > WIRE_DATA_ACK then some (cleared, false)
          else if val < 3 then some (next, true)
          else
            match ptr[pos + 1]?, ptr[pos + 2]? with
            | some lo, some hi =>
                let seq := lo.toUInt16 ||| (hi.toUInt16 <<< 8)
                some (acceptData next seq ((ptr.drop (pos + 3)).take (val - 3)), true)
            | _, _ => none

/-- The reader's loop. Every round that goes on takes at least two bytes. -/
def readLoop (env : Env) : Nat → Session → Option Session
  | 0, s => some s
  | fuel + 1, s =>
      match readFrame env s with
      | none => none
      | some (s, false) => some s
      | some (s, true) => readLoop env fuel s

/-- One `read` of the connection: `on_data` before the switch, the reader after it. -/
def Session.read (env : Env) (s : Session) (chunk : Bytes) : Option Session :=
  if s.switched then
    let s := { s with readBuf := s.readBuf ++ chunk }
    readLoop env s.readBuf.length s
  else if s.control.app.state = .awaitAuth2Response then some (onData env s chunk)
  else some s

/-- The reads of a connection, one after the other. -/
def Session.readAll (env : Env) (s : Session) : List Bytes → Option Session
  | [] => some s
  | chunk :: chunks =>
      match s.read env chunk with
      | none => none
      | some s => s.readAll env chunks

/-! ## The client's side -/

/-- What the client puts on the connection. -/
inductive Frame where
  | control (pkt : Packet)
  | data (payload : Bytes)
deriving DecidableEq, Repr

namespace Frame

/-- The frame behind its length, as `send_control` and `wire_write` build it. -/
def body (cseq : UInt8) (dseq : UInt16) : Frame → Bytes
  | control pkt => WIRE_CONTROL :: cseq :: serialize pkt
  | data payload => WIRE_DATA :: dseq.toUInt8 :: (dseq >>> 8).toUInt8 :: payload

def encode (cseq : UInt8) (dseq : UInt16) (f : Frame) : Bytes :=
  let body := f.body cseq dseq
  writeVarint body.length ++ body

/-- The control number and the data number after a frame. -/
def nextControl (cseq : UInt8) : Frame → UInt8
  | control _ => cseq + 1
  | data _ => cseq

def nextData (dseq : UInt16) : Frame → UInt16
  | control _ => dseq
  | data _ => dseq + 1

/-- The frame is smaller than any length the eight bytes of the prefix can hold. -/
def Fits (f : Frame) : Prop := (f.body 0 0).length < 2 ^ 56

end Frame

/-- Frames with consecutive numbers, as the client sends them. -/
def encodeAll (cseq : UInt8) (dseq : UInt16) : List Frame → Bytes
  | [] => []
  | f :: fs => f.encode cseq dseq ++ encodeAll (f.nextControl cseq) (f.nextData dseq) fs

/-- The packet that ends the authentication. -/
def authOk : Bytes := serialize ⟨MSG_AUTH_OK, [1]⟩

/-- A way to cut a stream into reads. -/
structure IsCut (stream : Bytes) (cut : List Bytes) : Prop where
  flatten : cut.flatten = stream
  size : ∀ chunk ∈ cut, chunk ≠ [] ∧ chunk.length ≤ MAX_PACKET_SIZE

end PipelineTunnel.Server
