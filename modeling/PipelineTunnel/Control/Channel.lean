import PipelineTunnel.Control.Delivery
import PipelineTunnel.Lib.StepSystem
import PipelineTunnel.Link.Model

/-!
# The control channel between client and server

`send_control` of both classes numbers a message, then looks for an open data connection
in round-robin order and queues the frame there. A frame waits in the writer, travels in
the socket and ends in `deliver_control` of the peer. Connections are closed, opened again
on a new socket and cleared independently of what they carry.

The steps are those of either end's event loop and of the network. Without the condition
`Careful` they lose messages: `sendControl` with all connections closed uses up a number,
and so does a frame in a writer that is cleared. With it every numbered message is
applied, parked or under way in every state of every run.

## Implementation notes

Only control frames are kept in writers and sockets, whole frames at a time. `ord` and
`sent` are history. `rrCounter` does not reach the limit of `int`. The primary connection
of the client is never opened again: losing it ends the client.
-/

namespace PipelineTunnel.Control

open Link (Role)
open StepSystem

/-- A control frame; `ord` counts the messages numbered before it. -/
structure Message where
  ord : Nat
  seq : UInt8
  pkt : Packet
deriving DecidableEq, Repr

/-- One end of a data connection. `flight` is what this end has written to its socket and
the peer has not read. -/
structure Conn where
  /-- `fd >= 0`. -/
  isOpen : Bool := false
  sock : Nat := 0
  writer : List Message := []
  flight : List Message := []
deriving DecidableEq, Repr

structure Endpoint where
  conns : List Conn := []
  controlSeq : UInt8 := 0
  rrCounter : Nat := 0
  receiver : Receiver (List Packet) := { app := [] }
  sent : List Packet := []

structure Pair where
  ends : Role → Endpoint := fun _ => {}
  /-- The number of sockets opened so far. -/
  socks : Nat := 0

def peer : Role → Role
  | .client => .server
  | .server => .client

/-- The first open connection from `start` on. -/
def pick (conns : List Conn) (start : Nat) : Option Nat :=
  ((List.range conns.length).map fun i => (start + i) % conns.length).find? fun idx =>
    conns[idx]?.any Conn.isOpen

namespace Endpoint

def modifyConn (e : Endpoint) (i : Nat) (f : Conn → Conn) : Endpoint :=
  { e with conns := e.conns.modify i f }

/-- `send_control`. -/
def sendControl (e : Endpoint) (pkt : Packet) : Endpoint :=
  let m : Message := ⟨e.sent.length, e.controlSeq, pkt⟩
  let e := { e with controlSeq := e.controlSeq + 1, sent := e.sent ++ [pkt] }
  if e.conns = [] then e
  else
    let start := e.rrCounter % e.conns.length
    let e := { e with rrCounter := e.rrCounter + 1 }
    match pick e.conns start with
    | none => e
    | some idx => e.modifyConn idx fun c => { c with writer := c.writer ++ [m] }

end Endpoint

def Pair.set (p : Pair) (r : Role) (e : Endpoint) : Pair :=
  { p with ends := Function.update p.ends r e }

inductive Action where
  /-- `data_connections_.resize`. -/
  | grow (r : Role)
  /-- The client connects or reconnects: a new socket and `writer.clear()`. -/
  | connect (i : Nat)
  /-- The server's `add_data_connection` for that socket. -/
  | attach (i : Nat)
  | send (r : Role) (pkt : Packet)
  /-- A frame goes from the writer to the socket. -/
  | flush (r : Role) (i : Nat)
  /-- The peer reads a frame that `r` has sent. -/
  | deliver (r : Role) (i : Nat)
  /-- `writer.clear()` of the handler for `EPOLLERR` and `EPOLLHUP`. -/
  | clear (r : Role) (i : Nat)
  /-- The network drops what is in the sockets. -/
  | lose (i : Nat)
  /-- The end closes the connection and keeps its writer. -/
  | close (r : Role) (i : Nat)
  /-- `on_disconnect` of the server. -/
  | onDisconnect
deriving DecidableEq, Repr

def step (p : Pair) : Action → Option Pair
  | .grow r =>
      let e := p.ends r
      some (p.set r { e with conns := e.conns ++ [{}] })
  | .connect i =>
      match (p.ends .client).conns[i]? with
      | none => none
      | some _ =>
          some { p.set .client ((p.ends .client).modifyConn i fun _ =>
            { isOpen := true, sock := p.socks + 1 }) with socks := p.socks + 1 }
  | .attach i =>
      match (p.ends .client).conns[i]?, (p.ends .server).conns[i]? with
      | some cc, some sc =>
          if cc.isOpen then
            some (p.set .server ((p.ends .server).modifyConn i fun c =>
              { isOpen := true, sock := cc.sock, writer := if sc.isOpen then [] else c.writer }))
          else none
      | _, _ => none
  | .send r pkt => some (p.set r ((p.ends r).sendControl pkt))
  | .flush r i =>
      match (p.ends r).conns[i]? with
      | some ⟨true, _, m :: _, _⟩ =>
          some (p.set r ((p.ends r).modifyConn i fun c =>
            { c with writer := c.writer.tail, flight := c.flight ++ [m] }))
      | _ => none
  | .deliver r i =>
      match (p.ends r).conns[i]?, (p.ends (peer r)).conns[i]? with
      | some ⟨_, sock, _, m :: _⟩, some c =>
          if c.isOpen ∧ c.sock = sock then
            let e := p.ends (peer r)
            some ((p.set (peer r) { e with
                receiver := deliverControl record e.receiver m.seq m.pkt }).set r
              ((p.ends r).modifyConn i fun c => { c with flight := c.flight.tail }))
          else none
      | _, _ => none
  | .clear r i => some (p.set r ((p.ends r).modifyConn i fun c => { c with writer := [] }))
  | .lose i =>
      some { p with ends := fun r => (p.ends r).modifyConn i fun c => { c with flight := [] } }
  | .close r i => some (p.set r ((p.ends r).modifyConn i fun c => { c with isOpen := false }))
  | .onDisconnect =>
      let e := p.ends .server
      some (p.set .server { e with
        conns := e.conns.map fun c =>
          if c.isOpen then { c with isOpen := false, writer := [] } else c })

/-- The end has nothing under way on connection `i`. -/
def Idle (e : Endpoint) (i : Nat) : Prop :=
  ∀ c ∈ e.conns[i]?, c.writer = [] ∧ c.flight = []

/-- The step does not drop or strand a control frame: a message is sent only over an open
connection and with fewer than 256 outstanding ones, and a connection is closed, cleared,
lost or replaced only when that affects no frame. -/
def Careful (p : Pair) : Action → Prop
  | .send r _ =>
      (∃ c ∈ (p.ends r).conns, c.isOpen = true) ∧
        (p.ends r).sent.length < (p.ends (peer r)).receiver.app.length + 256
  | .connect i => Idle (p.ends .client) i
  | .attach i => ∀ c ∈ (p.ends .server).conns[i]?, c.flight = [] ∧ (c.isOpen → c.writer = [])
  | .clear r i => ∀ c ∈ (p.ends r).conns[i]?, c.writer = []
  | .lose i =>
      (∀ c ∈ (p.ends .client).conns[i]?, c.flight = []) ∧
        ∀ c ∈ (p.ends .server).conns[i]?, c.flight = []
  | .close r i => Idle (p.ends r) i
  | .onDisconnect => ∀ c ∈ (p.ends .server).conns, c.isOpen → c.writer = [] ∧ c.flight = []
  | .grow _ | .flush .. | .deliver .. => True

instance (e : Endpoint) (i : Nat) : Decidable (Idle e i) :=
  inferInstanceAs (Decidable (∀ c ∈ e.conns[i]?, c.writer = [] ∧ c.flight = []))

instance (p : Pair) : ∀ a, Decidable (Careful p a)
  | .send r _ => inferInstanceAs (Decidable
      ((∃ c ∈ (p.ends r).conns, c.isOpen = true) ∧
        (p.ends r).sent.length < (p.ends (peer r)).receiver.app.length + 256))
  | .connect i => inferInstanceAs (Decidable (Idle (p.ends .client) i))
  | .attach i => inferInstanceAs (Decidable
      (∀ c ∈ (p.ends .server).conns[i]?, c.flight = [] ∧ (c.isOpen → c.writer = [])))
  | .clear r i => inferInstanceAs (Decidable (∀ c ∈ (p.ends r).conns[i]?, c.writer = []))
  | .lose i => inferInstanceAs (Decidable
      ((∀ c ∈ (p.ends .client).conns[i]?, c.flight = []) ∧
        ∀ c ∈ (p.ends .server).conns[i]?, c.flight = []))
  | .close r i => inferInstanceAs (Decidable (Idle (p.ends r) i))
  | .onDisconnect => inferInstanceAs (Decidable
      (∀ c ∈ (p.ends .server).conns, c.isOpen → c.writer = [] ∧ c.flight = []))
  | .grow _ | .flush .. | .deliver .. => isTrue trivial

end PipelineTunnel.Control
