import PipelineTunnel.Server.Segmentation

/-!
# The reader of a data connection

`register_data_connection_reader` of `server/session.cpp` and `client/client.cpp`: a read
appends to `read_buf`, a loop takes the complete frames from `read_offset` on, and the
consumed front is erased from time to time. The two loops differ in which of the two
shutdown messages they act on and in what they do when `read` fails.

## Implementation notes

What the handlers do elsewhere is not part of the reader: `handled` lists what the loop
hands to them, and `consumed` is every byte it has passed over or thrown away since the
connection was opened. `none` is an access outside `read_buf`.
-/

namespace PipelineTunnel.Wire

open Protocol
open Server (wireVarint WIRE_DATA WIRE_HEARTBEAT_PING WIRE_HEARTBEAT_PONG WIRE_SHUTDOWN_WR
  WIRE_SHUTDOWN_WR_ACK WIRE_CONTROL WIRE_DATA_ACK MAX_PACKET_SIZE)

/-- The end that reads. -/
inductive Role where
  | client
  | server
deriving DecidableEq, Repr

/-- The shutdown message that a role acts on. -/
def Role.shutdownType : Role → UInt8
  | .client => WIRE_SHUTDOWN_WR_ACK
  | .server => WIRE_SHUTDOWN_WR

/-- The shutdown message that it skips. -/
def Role.skippedType : Role → UInt8
  | .client => WIRE_SHUTDOWN_WR
  | .server => WIRE_SHUTDOWN_WR_ACK

/-- What a round of the loop does with a frame, or why it clears the buffer. -/
inductive Handled where
  | ping
  | pong
  | shutdown (cid : UInt8)
  | skippedShutdown
  | control (seq : UInt8) (pkt : Packet)
  /-- A control frame whose packet does not parse. -/
  | unparsed (seq : UInt8)
  | dataAck (seq : UInt16)
  /-- Passed to `dispatch_data_conn_packet`. -/
  | data (seq : UInt16) (payload : Bytes)
  /-- Another number than the expected one: acknowledged only. -/
  | duplicate (seq : UInt16)
  | shortData
  | shortShutdown
  | violation (type : UInt8)
  | overflow
deriving DecidableEq, Repr

structure Reader where
  readBuf : Bytes := []
  readOffset : Nat := 0
  recvSeq : UInt16 := 0
  handled : List Handled := []
  consumed : Bytes := []
deriving DecidableEq, Repr

namespace Reader

/-- The bytes the loop has not passed. -/
def unread (r : Reader) : Bytes := r.readBuf.drop r.readOffset

/-- `off += n` after a frame was handled. -/
def pass (r : Reader) (n : Nat) (h : Handled) : Reader :=
  { r with
    readOffset := r.readOffset + n
    handled := r.handled ++ [h]
    consumed := r.consumed ++ r.unread.take n }

/-- `buf.clear(); off = 0`. -/
def clear (r : Reader) (h : Handled) : Reader :=
  { r with
    readBuf := []
    readOffset := 0
    handled := r.handled ++ [h]
    consumed := r.consumed ++ r.unread }

/-- The data branch behind the check of the length. -/
def acceptData (r : Reader) (n : Nat) (seq : UInt16) (payload : Bytes) : Reader :=
  if seq = r.recvSeq then
    { r with recvSeq := r.recvSeq + 1 }.pass n (.data seq payload)
  else r.pass n (.duplicate seq)

/-- The frame of `val` bytes at position `pos`, complete in the buffer: the reader and
whether the loop goes on. -/
def handle (role : Role) (r : Reader) (pos val : Nat) : Option (Reader × Bool) :=
  let ptr := r.unread
  let n := pos + val
  match ptr[pos]? with
  | none => none
  | some type =>
      if type = WIRE_HEARTBEAT_PING then some (r.pass n .ping, true)
      else if type = WIRE_HEARTBEAT_PONG then some (r.pass n .pong, true)
      else if type = role.shutdownType then
        if val < 2 then some (r.clear .shortShutdown, false)
        else (ptr[pos + 1]?).map fun cid => (r.pass n (.shutdown cid), true)
      else if type = role.skippedType then some (r.pass n .skippedShutdown, true)
      else if type = WIRE_CONTROL then
        -- The length is not checked here: `val - 2` wraps around for a frame of one byte.
        if val < 2 then none
        else
          match ptr[pos + 1]? with
          | none => none
          | some seq =>
              match tryParse ((ptr.drop (pos + 2)).take (val - 2)) with
              | none => some (r.pass n (.unparsed seq), true)
              | some (size, pkt) =>
                  if size > 0 then some (r.pass n (.control seq pkt), true)
                  else some (r.pass n (.unparsed seq), true)
      else if type = WIRE_DATA_ACK then
        match ptr[pos + 1]?, ptr[pos + 2]? with
        | some lo, some hi =>
            some (r.pass n (.dataAck (lo.toUInt16 ||| (hi.toUInt16 <<< 8))), true)
        | _, _ => none
      else if type > WIRE_DATA_ACK then some (r.clear (.violation type), false)
      else if val < 3 then some (r.pass n .shortData, true)
      else
        match ptr[pos + 1]?, ptr[pos + 2]? with
        | some lo, some hi =>
            some (r.acceptData n (lo.toUInt16 ||| (hi.toUInt16 <<< 8))
              ((ptr.drop (pos + 3)).take (val - 3)), true)
        | _, _ => none

/-- A round of the loop. -/
def round (role : Role) (r : Reader) : Option (Reader × Bool) :=
  let ptr := r.unread
  if ptr.length < 1 then some (r, false)
  else
    let (pos, val, shift) := wireVarint ptr
    if pos ≥ 10 ∨ shift ≥ 56 then some (r.clear .overflow, false)
    else if pos > ptr.length ∨ pos + val > ptr.length ∨ val < 1 then some (r, false)
    else r.handle role pos val

/-- The loop; a round that goes on takes at least two bytes. -/
def loop (role : Role) : Nat → Reader → Option Reader
  | 0, _ => none
  | fuel + 1, r =>
      match r.round role with
      | none => none
      | some (r, false) => some r
      | some (r, true) => loop role fuel r

/-- The consumed bytes are erased when there are many of them. -/
def compact (r : Reader) : Reader :=
  if r.readOffset > MAX_PACKET_SIZE then
    { r with readBuf := r.readBuf.drop r.readOffset, readOffset := 0 }
  else r

/-- A read of `chunk`. -/
def receive (role : Role) (r : Reader) (chunk : Bytes) : Option Reader :=
  let r := { r with readBuf := r.readBuf ++ chunk }
  (loop role (r.unread.length + 1) r).map compact

end Reader

/-- The outcome of `read`: some bytes, end of file, no data, another error. -/
inductive ReadResult where
  | bytes (chunk : Bytes)
  | eof
  | again
  | error
deriving DecidableEq, Repr

/-- The reader of the server. -/
def Reader.serverRead (r : Reader) : ReadResult → Option Reader
  | .bytes chunk => r.receive .server chunk
  | .eof => some { r with readBuf := [], readOffset := 0, consumed := r.consumed ++ r.unread }
  | .again => some r
  | .error =>
      -- `resize(old)` comes after `clear()`.
      some { r with
        readBuf := List.replicate r.readBuf.length 0
        readOffset := 0
        consumed := r.consumed ++ r.unread }

/-- The reads of a connection of the server, one after the other. -/
def Reader.serverReadAll (r : Reader) : List ReadResult → Option Reader
  | [] => some r
  | res :: rest =>
      match r.serverRead res with
      | none => none
      | some r => r.serverReadAll rest

/-! ## The frames of the client -/

inductive WireFrame where
  /-- `wire_write`. -/
  | data (seq : UInt16) (payload : Bytes)
  /-- `send_control`. -/
  | control (seq : UInt8) (pkt : Packet)
  | dataAck (seq : UInt16)
  | ping
  | pong
  | shutdownWr (cid : UInt8)
deriving DecidableEq, Repr

namespace WireFrame

/-- A frame behind its length. -/
def body : WireFrame → Bytes
  | data seq payload => WIRE_DATA :: seq.toUInt8 :: (seq >>> 8).toUInt8 :: payload
  | control seq pkt => WIRE_CONTROL :: seq :: serialize pkt
  | dataAck seq => [WIRE_DATA_ACK, seq.toUInt8, (seq >>> 8).toUInt8]
  | ping => [WIRE_HEARTBEAT_PING]
  | pong => [WIRE_HEARTBEAT_PONG]
  | shutdownWr cid => [WIRE_SHUTDOWN_WR, cid]

def encode (f : WireFrame) : Bytes := writeVarint f.body.length ++ f.body

example : ping.encode = [1, 1] ∧ pong.encode = [1, 2] ∧ (shutdownWr 7).encode = [2, 3, 7] := by
  decide

def Fits (f : WireFrame) : Prop := f.encode.length < 2 ^ 56

instance (f : WireFrame) : Decidable f.Fits := inferInstanceAs (Decidable (_ < _))

/-- What the server's loop does with a frame. -/
def handled : WireFrame → Handled
  | data seq payload => .data seq payload
  | control seq pkt => .control seq pkt
  | dataAck seq => .dataAck seq
  | ping => .ping
  | pong => .pong
  | shutdownWr cid => .shutdown cid

/-- The number of the next data frame. -/
def nextSeq (seq : UInt16) : WireFrame → UInt16
  | data _ _ => seq + 1
  | _ => seq

/-- The data frames have consecutive numbers from `seq` on. -/
def Consecutive : UInt16 → List WireFrame → Prop
  | _, [] => True
  | seq, f :: fs => (∀ s payload, f = data s payload → s = seq) ∧ Consecutive (f.nextSeq seq) fs

end WireFrame

end PipelineTunnel.Wire
