import PipelineTunnel.Common.Merge
import PipelineTunnel.Wire.Reading
import PipelineTunnel.Link.Model

/-!
# A data connection, byte by byte

Both ends of one data connection while it is open: the write buffer that workers and the event loop
share, the bytes that the socket took, the reader that finds the frames in them again, and what its
branches do: data frames are acknowledged, ACKs shorten `unacked`, and pings are answered.

## Implementation notes

Each socket takes what it likes of a write, and a read gets any part of what is in flight. The loop
of the reader hands its frames to `todo`, and a step `handle` executes the branch of the next one,
so that workers may come in between. `passed`, `normal` and `priority` are history; what dispatching
does elsewhere is not part of the connection.
-/

namespace PipelineTunnel.Conn

open Protocol
open Common (Socket Usage)
open Server (MAX_PACKET_SIZE)
open Wire (Handled Reader Role WireFrame)

structure End where
  sendSeq : UInt16 := 0
  /-- The numbers and the payloads of the frames. -/
  unacked : List (UInt16 × Bytes) := []
  /-- The frame of a `wire_write` that has not entered `unacked` yet. -/
  sending : Option (UInt16 × Bytes) := none
  writer : Usage := {}
  reader : Reader := {}
  /-- The frames of the last reads whose branches come next. -/
  todo : List Handled := []
  /-- The payloads passed to `wire_write`. -/
  passed : List Bytes := []
  /-- The frames handed to `write`. -/
  normal : List WireFrame := []
  /-- The frames handed to `write_priority`. -/
  priority : List WireFrame := []
deriving DecidableEq, Repr

namespace End

def frames (e : End) : Common.Class → List WireFrame
  | .normal => e.normal
  | .priority => e.priority

/-- The bytes that the socket took. -/
def sent (e : End) : Bytes := (Common.stream e.writer.channel.taken).map Prod.snd

/-- The bytes that were read. -/
def got (e : End) : Bytes := e.reader.consumed ++ e.reader.unread

/-- `writer.write`. -/
def write (sock : Socket) (e : End) (f : WireFrame) : Option End :=
  (e.writer.step sock (.write f.encode)).map fun w => { e with writer := w, normal := e.normal ++ [f] }

/-- `writer.write_priority`. -/
def writePriority (sock : Socket) (e : End) (f : WireFrame) : Option End :=
  (e.writer.step sock (.writePriority f.encode)).map fun w =>
    { e with writer := w, priority := e.priority ++ [f] }

/-- The second half of `wire_write`: the oldest frame makes room at the limit. -/
def keep (e : End) (kept : UInt16 × Bytes) : End :=
  { e with
    unacked :=
      (if e.unacked.length ≥ WIRE_MAX_UNACKED then e.unacked.drop 1 else e.unacked) ++ [kept]
    sending := none }

/-- The branch of the reader for a frame. -/
def handle (sock : Socket) (e : End) : Handled → Option End
  | .data seq _ | .duplicate seq => e.writePriority sock (.dataAck seq)
  | .dataAck seq => some { e with unacked := e.unacked.dropWhile fun f => f.1 ≤ seq }
  | .ping => e.write sock .pong
  | .pong | .shutdown _ | .skippedShutdown | .control _ _ | .unparsed _ | .shortData
  | .shortShutdown | .violation _ | .overflow => some e

end End

structure State where
  client : End := {}
  server : End := {}
deriving DecidableEq, Repr

inductive Step where
  /-- The first half of `wire_write`. -/
  | send (side : Role) (payload : Bytes)
  | keep (side : Role)
  /-- The timer of `process_pending_io` finds the oldest frame. -/
  | timer (side : Role)
  /-- `check_heartbeat`. -/
  | ping (side : Role)
  /-- `send_control`. -/
  | control (side : Role) (seq : UInt8) (pkt : Packet)
  /-- `EPOLLOUT`. -/
  | flush (side : Role)
  /-- `EPOLLIN` with a read of `n` bytes. -/
  | read (side : Role) (n : Nat)
  | handle (side : Role)
deriving DecidableEq, Repr

def Step.side : Step → Role
  | send side _ | keep side | timer side | ping side | control side _ _ | flush side | read side _
  | handle side => side

namespace State

/-- The end of a side. -/
def near (s : State) : Role → End
  | .client => s.client
  | .server => s.server

/-- The other end. -/
def far (s : State) : Role → End
  | .client => s.server
  | .server => s.client

def put (s : State) (side : Role) (e : End) : State :=
  match side with
  | .client => { s with client := e }
  | .server => { s with server := e }

end State

/-- A read of `n` bytes of those that the other end has sent. -/
def End.read (side : Role) (e other : End) (n : Nat) : Option End :=
  let inFlight := other.sent.drop e.got.length
  if 1 ≤ n ∧ n ≤ inFlight.length ∧ n ≤ MAX_PACKET_SIZE then
    (e.reader.receive side (inFlight.take n)).map fun r =>
      { e with reader := r, todo := e.todo ++ r.handled.drop e.reader.handled.length }
  else none

/-- A step of an end, whose side tells its socket. -/
def End.step (sock : Role → Socket) (e other : End) : Step → Option End
  | .send side payload =>
      if e.sending.isSome then none
      else
        (e.write (sock side) (.data e.sendSeq payload)).map fun e' =>
          { e' with
            sendSeq := e.sendSeq + 1
            sending := some (e.sendSeq, payload)
            passed := e.passed ++ [payload] }
  | .keep _ => e.sending.map e.keep
  | .timer side =>
      match e.unacked with
      | [] => none
      | f :: _ => e.write (sock side) (.data f.1 f.2)
  | .ping side => e.write (sock side) .ping
  | .control side seq pkt => e.writePriority (sock side) (.control seq pkt)
  | .flush side => (e.writer.step (sock side) .flush).map fun w => { e with writer := w }
  | .read side n => e.read side other n
  | .handle side =>
      match e.todo with
      | [] => none
      | h :: todo => { e with todo := todo }.handle (sock side) h

def step (sock : Role → Socket) (s : State) (l : Step) : Option State :=
  ((s.near l.side).step sock (s.far l.side) l).map (s.put l.side)

/-! ## Clean steps -/

/-- The frame of a call of `write`. -/
def End.normalFrame (e : End) : Step → Option WireFrame
  | .send _ payload => some (.data e.sendSeq payload)
  | .timer _ => e.unacked.head?.map fun f => .data f.1 f.2
  | .ping _ => some .ping
  | .handle _ => if e.todo.head? = some .ping then some .pong else none
  | .keep _ | .control _ _ _ | .flush _ | .read _ _ => none

/-- New frames are below the limit of the length. -/
def End.Fits (e : End) : Step → Prop
  | .send _ payload => (WireFrame.data e.sendSeq payload).Fits
  | .control _ seq pkt => (WireFrame.control seq pkt).Fits
  | _ => True

instance (e : End) : ∀ l, Decidable (e.Fits l)
  | .send _ payload => inferInstanceAs (Decidable (WireFrame.data e.sendSeq payload).Fits)
  | .control _ seq pkt => inferInstanceAs (Decidable (WireFrame.control seq pkt).Fits)
  | .keep _ | .timer _ | .ping _ | .flush _ | .read _ _ | .handle _ => isTrue trivial

/-- No normal data is sent while a priority frame is under way. -/
def End.Clear (sock : Socket) (e : End) (l : Step) : Prop :=
  (∀ f ∈ e.normalFrame l, Common.Op.Clean sock e.writer.channel (.write f.encode)) ∧
    (l = .flush l.side → Common.Op.Clean sock e.writer.channel .flush)

instance (sock : Socket) (e : End) (l : Step) : Decidable (e.Clear sock l) :=
  inferInstanceAs (Decidable (_ ∧ _))

def Clean (sock : Role → Socket) (s : State) (l : Step) : Prop :=
  (s.near l.side).Fits l ∧ (s.near l.side).Clear (sock l.side) l

instance (sock : Role → Socket) (s : State) (l : Step) : Decidable (Clean sock s l) :=
  inferInstanceAs (Decidable (_ ∧ _))

end PipelineTunnel.Conn
