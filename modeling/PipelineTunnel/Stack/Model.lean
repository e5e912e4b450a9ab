import PipelineTunnel.Common.WriteBuffer
import PipelineTunnel.Link.Progress
import PipelineTunnel.Pipeline.Fidelity
import PipelineTunnel.Server.Session

/-!
# One direction of a running tunnel

The handler of an external connection puts the id of the connection in front of what it reads
and pushes the packet into the chain of its side. What the chain passes to `wire_write` crosses
one of the data connections; what arrives there in sequence is pushed into the chain of the other
side, and `wire_write` with `dst = 0` hands the packets of that chain to the writers of the
connections. The client and the server do the same, up to the control packet with which they
announce the end of a connection.

## Implementation notes

Both chains have one worker, and the packets of the other direction are left out. Both sides are
running, so the data connections exist and nothing that arrives is buffered or dropped. The
second half of `wire_write`, which keeps the frame, is the step `keep`: the worker goes on behind
it, while the event loops move freely. The connections of the receiving side stay from the start
on; what it does behind the end of one, which no packet of the connection follows, is in
`Flow.EndOfStream`. `log` is history.
-/

namespace PipelineTunnel.Stack

open Pipeline (Pool ModuleContext Transformer Tunnel tunnelProcess)
open Link (DataLink Role)
open Common (Channel Socket)
open Server (MAX_PACKET_SIZE)

def CHAIN_CTRL_DISCONNECT : UInt8 := 0x51
def CHAIN_CTRL_SHUTDOWN_WR : UInt8 := 0x52

/-- What an event loop pushes into its chain. -/
inductive Item where
  | data (connId : UInt8) (chunk : Bytes)
  | control (connId : UInt8)
deriving DecidableEq, Repr

/-- The type of the control packets that a side sends. -/
def controlType : Role → UInt8
  | .client => CHAIN_CTRL_SHUTDOWN_WR
  | .server => CHAIN_CTRL_DISCONNECT

def Item.packet (role : Role) : Item → Bytes
  | .data connId chunk => connId :: chunk
  | .control connId => [255, controlType role, connId]

/-- The packets of `wire_write` with `dst = 0`; `none` is one that it ignores. -/
def parsePacket (role : Role) : Bytes → Option Item
  | [] => none
  | connId :: rest =>
      if connId = 255 then
        match rest with
        | type :: connId :: _ => if type = controlType role then some (.control connId) else none
        | _ => none
      else some (.data connId rest)

/-- The bytes of one connection. -/
def bytesOf (connId : UInt8) (items : List Item) : Bytes :=
  items.flatMap fun
    | .data c chunk => if c = connId then chunk else []
    | .control _ => []

/-- A connection of the receiving side, and whether its control packet has come. -/
structure Sink where
  writer : Channel := {}
  ended : Bool := false
deriving DecidableEq, Repr

structure System where
  a : Pool ModuleContext
  b : Pool ModuleContext
  links : Int → DataLink := fun _ => {}
  /-- The data connection of a `wire_write` that has still to keep its frame. -/
  calling : Option Int := none
  conns : UInt8 → Option Sink
  /-- What has been pushed into chain A. -/
  log : List Item := []

inductive Label where
  | read (connId : UInt8) (chunk : Bytes)
  | eof (connId : UInt8)
  | workA (act : Pipeline.Action)
  | keep
  | link (port : Int) (l : Link.Step)
  | workB (act : Pipeline.Action)
  | flush (connId : UInt8)

namespace System

/-- Two new chains with one worker each; `known` are the connections of the receiving side. -/
def start (ca cb : Pipeline.Chain ModuleContext) (known : UInt8 → Bool) : System :=
  { a := Pool.start ca 1, b := Pool.start cb 1
    conns := fun connId => if known connId then some {} else none }

/-- The chains of the two sides. -/
def tunnel (s : System) : Tunnel := ⟨s.a, s.b⟩

/-- What connection `connId` has sent so far. -/
def sentBy (s : System) (connId : UInt8) : Bytes := bytesOf connId s.log

/-- Chain A after a step that may have called `wire_write`. -/
def emit (role : Role) (s : System) (a : Pool ModuleContext) : Option System :=
  match a.wire.drop s.a.wire.length with
  | [] => some { s with a := a }
  | (port, data) :: _ =>
      (Link.step role (s.links port) (.send data)).map fun link =>
        { s with
          a := a
          links := Function.update s.links port link
          calling := if link.sending.isSome then some port else none }

def push (role : Role) (s : System) (item : Item) : Option System :=
  (s.a.push ⟨0, .encode, item.packet role⟩).bind fun a =>
    ({ s with log := s.log ++ [item] }).emit role a

/-- `dispatch_data_conn_packet`. -/
def dispatch (s : System) (port : Int) (payload : Bytes) : Option System :=
  if payload.length < 1 then some s
  else (s.b.push ⟨port, .decode, payload⟩).map fun b => { s with b := b }

/-- A step of a data connection, which dispatches at most one frame. -/
def advance (s : System) (port : Int) (link : Link.DataLink) : Option System :=
  let s' : System := { s with links := Function.update s.links port link }
  match link.dispatched.drop (s.links port).dispatched.length with
  | [] => some s'
  | frame :: _ => s'.dispatch port frame.payload

variable (sock : UInt8 → Socket)

/-- `wire_write` with `dst = 0`. -/
def handle (s : System) : Option Item → Option System
  | none => some s
  | some (.data connId payload) =>
      match s.conns connId with
      | none => some s
      | some sink =>
          (Common.write (sock connId) sink.writer payload).map fun r =>
            { s with conns := Function.update s.conns connId (some { sink with writer := r.1 }) }
  | some (.control connId) =>
      match s.conns connId with
      | none => some s
      | some sink =>
          some { s with conns := Function.update s.conns connId (some { sink with ended := true }) }

/-- Chain B after a step that may have called `wire_write`. -/
def absorb (role : Role) (s : System) (b : Pool ModuleContext) : Option System :=
  match b.wire.drop s.b.wire.length with
  | [] => some { s with b := b }
  | (_, data) :: _ => ({ s with b := b }).handle sock (parsePacket role data)

def step (role : Role) (s : System) : Label → Option System
  | .read connId chunk =>
      if connId ≠ 255 ∧ 0 < chunk.length ∧ chunk.length ≤ MAX_PACKET_SIZE - 1 ∧
          .control connId ∉ s.log then
        s.push role (.data connId chunk)
      else none
  | .eof connId => s.push role (.control connId)
  | .workA act =>
      if act.isPush ∨ s.calling.isSome then none
      else (s.a.step tunnelProcess act).bind (s.emit role)
  | .keep =>
      s.calling.bind fun port =>
        (Link.step role (s.links port) .keep).map fun link =>
          { s with links := Function.update s.links port link, calling := none }
  | .link port l =>
      match l with
      | .send _ | .keep => none
      | l => (Link.step role (s.links port) l).bind (s.advance port)
  | .workB act =>
      if act.isPush then none
      else (s.b.step tunnelProcess act).bind (s.absorb sock role)
  | .flush connId =>
      match s.conns connId with
      | none => none
      | some sink =>
          (Common.flush (sock connId) sink.writer).map fun r =>
            { s with conns := Function.update s.conns connId (some { sink with writer := r.1 }) }

/-- Nothing is on its way. -/
def Quiet (s : System) : Prop :=
  s.a.Drained ∧ s.b.Drained ∧
    ∀ w ∈ s.a.wire, (s.links w.1).dispatched.length = (s.links w.1).accepted.length

instance (s : System) : Decidable s.Quiet :=
  inferInstanceAs (Decidable (s.a.Drained ∧ s.b.Drained ∧ ∀ w ∈ s.a.wire, _))

variable (transformers : String → Option (String → Transformer)) (cfg : List Pipeline.ModuleSpec)

/-- A pushed packet is within the limits of the tunnel, nothing is written to a data connection
that is down, and no sender gets a round of sequence numbers ahead of its receiver. -/
def Admissible (role : Role) (s : System) : Label → Prop
  | .read connId chunk =>
      s.tunnel.Admissible transformers cfg (.push 0 ((Item.data connId chunk).packet role))
  | .eof connId =>
      s.tunnel.Admissible transformers cfg (.push 0 ((Item.control connId).packet role))
  | .workA act => ∀ a ∈ s.a.step tunnelProcess act, ∀ w ∈ a.wire.drop s.a.wire.length,
      (s.links w.1).isOpen = true
  | .link port l => Link.WithinRound (s.links port) l
  | .keep | .workB _ | .flush _ => True

instance (role : Role) (s : System) : ∀ l, Decidable (s.Admissible transformers cfg role l)
  | .read connId chunk => inferInstanceAs (Decidable (s.tunnel.Admissible transformers cfg
      (.push 0 ((Item.data connId chunk).packet role))))
  | .eof connId => inferInstanceAs (Decidable (s.tunnel.Admissible transformers cfg
      (.push 0 ((Item.control connId).packet role))))
  | .workA act => inferInstanceAs (Decidable (∀ a ∈ s.a.step tunnelProcess act,
      ∀ w ∈ a.wire.drop s.a.wire.length, (s.links w.1).isOpen = true))
  | .link port l => inferInstanceAs (Decidable (Link.WithinRound (s.links port) l))
  | .keep | .workB _ | .flush _ => isTrue trivial

end System

end PipelineTunnel.Stack
