import PipelineTunnel.Core.Protocol

/-!
# One direction of a data connection

`wire_write`, the data and ACK branches of the data-connection reader, the timer of
`process_pending_io`, the reconnect of the client and `add_data_connection` of the
server, for the frames that one end sends to the other over one data connection.

The state is the sender's `DataConnection`, the receiver's `recv_seq` and what is in
flight between them. Workers call `wire_write` while the event loop runs the other
steps, and they meet at `data_mtx_`: the second half of `wire_write`, which keeps the
frame for retransmission, waits while the client retransmits. The terminal module of
a port holds its direction lock during `wire_write`, so calls for one connection do
not overlap.

## Implementation notes

A lost connection drops everything in the writer and in flight, whole frames at a
time. `ord`, `passed`, `accepted`, `dispatched` and `acked` are history: no other field
depends on them.
-/

namespace PipelineTunnel.Link

open Protocol

/-- A data frame; `ord` counts the frames numbered before it. -/
structure Frame where
  seq : UInt16
  payload : Bytes
  ord : Nat
deriving DecidableEq, Repr

/-- The end that sends. -/
inductive Role where
  | client
  | server
deriving DecidableEq, Repr

/-- Where the event loop of the sender is in the reconnect of `process_pending_io`. -/
inductive Phase where
  | idle
  /-- `dc.fd` is set, `dc.writer.clear()` comes next. -/
  | opened
  /-- In the loop over `dc.unacked`, holding `data_mtx_`. -/
  | retransmitting (rest : List Frame)
deriving DecidableEq, Repr

structure DataLink where
  /-- `dc.fd >= 0`. -/
  isOpen : Bool := true
  sendSeq : UInt16 := 0
  writer : List Frame := []
  unacked : List Frame := []
  /-- The frame of a `wire_write` that has not entered `unacked` yet. -/
  sending : Option Frame := none
  phase : Phase := .idle
  wire : List Frame := []
  acks : List UInt16 := []
  recvSeq : UInt16 := 0
  /-- The payloads passed to `wire_write`. -/
  passed : List Bytes := []
  /-- Those that were given a number. -/
  accepted : List Bytes := []
  /-- The frames passed to `dispatch_data_conn_packet`. -/
  dispatched : List Frame := []
  /-- The frames an ACK removed from `unacked`. -/
  acked : List Frame := []
deriving DecidableEq, Repr

namespace DataLink

/-- `writer.write`. -/
def write (s : DataLink) (f : Frame) : DataLink := { s with writer := s.writer ++ [f] }

/-- The first half of `wire_write`: without a connection the payload is dropped. -/
def wireWrite (s : DataLink) (payload : Bytes) : DataLink :=
  if s.isOpen then
    let f : Frame := ⟨s.sendSeq, payload, s.accepted.length⟩
    { s.write f with
      sendSeq := s.sendSeq + 1
      sending := some f
      passed := s.passed ++ [payload]
      accepted := s.accepted ++ [payload] }
  else { s with passed := s.passed ++ [payload] }

/-- The second half of `wire_write`: the oldest frame makes room at the limit. -/
def keepUnacked (s : DataLink) (f : Frame) : DataLink :=
  { s with
    unacked := (if s.unacked.length ≥ WIRE_MAX_UNACKED then s.unacked.drop 1 else s.unacked) ++ [f]
    sending := none }

/-- The data branch of the reader: a frame with the expected number is dispatched,
and every frame is acknowledged. -/
def receiveData (s : DataLink) (f : Frame) : DataLink :=
  let s' := if f.seq = s.recvSeq then
      { s with recvSeq := s.recvSeq + 1, dispatched := s.dispatched ++ [f] }
    else s
  { s' with acks := s'.acks ++ [f.seq] }

/-- The ACK branch of the reader. -/
def receiveAck (s : DataLink) (ackSeq : UInt16) : DataLink :=
  { s with
    unacked := s.unacked.dropWhile fun f => f.seq ≤ ackSeq
    acked := s.acked ++ s.unacked.takeWhile fun f => f.seq ≤ ackSeq }

/-- The connection is lost with everything on its way. -/
def lose (s : DataLink) : DataLink :=
  { s with isOpen := false, writer := [], wire := [], acks := [] }

/-- A new socket: the client is then in the middle of its reconnect, the server's
`add_data_connection` starts with an empty writer and is done. -/
def reopen (role : Role) (s : DataLink) : DataLink :=
  match role with
  | .client => { s with isOpen := true, phase := .opened }
  | .server => { s with isOpen := true, writer := [] }

end DataLink

/-- The atomic steps of the two ends and of the network. -/
inductive Step where
  | send (payload : Bytes)
  | keep
  | flush
  | deliver
  | ack
  | timer
  | lose
  | reopen
  | clear
  | resend
deriving DecidableEq, Repr

open DataLink in
/-- One step. The steps of the sender's event loop other than the reconnect itself
happen outside it. -/
def step (role : Role) (s : DataLink) : Step → Option DataLink
  | .send payload => if s.sending.isSome then none else some (s.wireWrite payload)
  | .keep =>
      match s.sending, s.phase with
      | some _, .retransmitting _ => none
      | some f, _ => some (s.keepUnacked f)
      | none, _ => none
  | .flush =>
      match s.writer with
      | [] => none
      | f :: fs => some { s with writer := fs, wire := s.wire ++ [f] }
  | .deliver =>
      match s.wire with
      | [] => none
      | f :: fs => some (receiveData { s with wire := fs } f)
  | .ack =>
      match s.phase, s.acks with
      | .idle, a :: rest => some (receiveAck { s with acks := rest } a)
      | _, _ => none
  | .timer =>
      match s.phase, s.unacked with
      | .idle, f :: _ => if s.isOpen then some (s.write f) else none
      | _, _ => none
  | .lose =>
      match s.phase with
      | .idle => if s.isOpen then some s.lose else none
      | _ => none
  | .reopen =>
      match s.phase with
      | .idle => if s.isOpen then none else some (s.reopen role)
      | _ => none
  | .clear =>
      match s.phase with
      | .opened => some { s with writer := [], phase := .retransmitting s.unacked }
      | _ => none
  | .resend =>
      match s.phase with
      | .retransmitting [] => some { s with phase := .idle }
      | .retransmitting (f :: rest) => some { s.write f with phase := .retransmitting rest }
      | _ => none

variable {role : Role} {s s' : DataLink} {l : Step}

/-- Everything a step can do, with the conditions under which it does it. -/
inductive Moves (role : Role) (s : DataLink) : Step → DataLink → Prop where
  | send (payload : Bytes) : s.sending = none →
      Moves role s (.send payload) (s.wireWrite payload)
  | keep {f : Frame} : s.sending = some f → (∀ rest, s.phase ≠ .retransmitting rest) →
      Moves role s .keep (s.keepUnacked f)
  | flush {f : Frame} {fs : List Frame} : s.writer = f :: fs →
      Moves role s .flush { s with writer := fs, wire := s.wire ++ [f] }
  | deliver {f : Frame} {fs : List Frame} : s.wire = f :: fs →
      Moves role s .deliver (DataLink.receiveData { s with wire := fs } f)
  | ack {a : UInt16} {rest : List UInt16} : s.phase = .idle → s.acks = a :: rest →
      Moves role s .ack (DataLink.receiveAck { s with acks := rest } a)
  | timer {f : Frame} : f ∈ s.unacked → Moves role s .timer (s.write f)
  | lose : Moves role s .lose s.lose
  | reopen : s.phase = .idle → Moves role s .reopen (s.reopen role)
  | clear : Moves role s .clear { s with writer := [], phase := .retransmitting s.unacked }
  | resent : Moves role s .resend { s with phase := .idle }
  | resend {f : Frame} {rest : List Frame} : s.phase = .retransmitting (f :: rest) →
      Moves role s .resend { s.write f with phase := .retransmitting rest }

theorem step_moves (h : step role s l = some s') : Moves role s l s' := by
  cases l with
  | send payload =>
      simp only [step] at h
      split at h
      · cases h
      · rename_i hnone
        cases h
        exact .send payload (by simpa using hnone)
  | keep =>
      simp only [step] at h
      split at h
      · cases h
      · rename_i f hsending hphase
        cases h
        exact .keep hsending hphase
      · cases h
  | flush =>
      simp only [step] at h
      split at h
      · cases h
      · rename_i f fs hwriter
        cases h
        exact .flush hwriter
  | deliver =>
      simp only [step] at h
      split at h
      · cases h
      · rename_i f fs hwire
        cases h
        exact .deliver hwire
  | ack =>
      simp only [step] at h
      split at h
      · rename_i a rest hphase hacks
        cases h
        exact .ack hphase hacks
      · cases h
  | timer =>
      simp only [step] at h
      split at h
      · rename_i f fs _ hun
        split at h
        · cases h
          exact .timer (hun ▸ List.mem_cons_self)
        · cases h
      · cases h
  | lose =>
      simp only [step] at h
      split at h
      · split at h
        · cases h
          exact .lose
        · cases h
      · cases h
  | reopen =>
      simp only [step] at h
      split at h
      · rename_i hphase
        split at h
        · cases h
        · cases h
          exact .reopen hphase
      · cases h
  | clear =>
      simp only [step] at h
      split at h
      · cases h
        exact .clear
      · cases h
  | resend =>
      simp only [step] at h
      split at h
      · cases h
        exact .resent
      · rename_i f rest hphase
        cases h
        exact .resend hphase
      · cases h

end PipelineTunnel.Link
