import PipelineTunnel.Client.Requests
import PipelineTunnel.Core.Interest
import PipelineTunnel.Lib.Deferral
import PipelineTunnel.Lib.StepSystem

/-!
# Deferred disconnects

`client/client.cpp` does not close a connection at once when the server ends it: the id goes
into `pending_disconnect_ids_`, for a disconnect inside the chain by way of `pending_io_`, and a
tick closes the entry of `conns_` under that id once the chain is drained. Meanwhile other
handlers may remove the entry, and the server, for which the id is free, may give it to the next
connection.

## Implementation notes

The bytes that a writer still holds after a write or a flush are chosen by an event. An event of a
descriptor may come at any time for the handlers that are registered then. `stop_listener`, which
ends the client, the flow control and the maps of `chain_ref_` are left out. The fields `born`,
`since`, `created`, `cleaned` and `answered` are only recorded: a disconnect knows how many
entries there were when it was queued.
-/

namespace PipelineTunnel.Deferred

open Protocol StepSystem Deferral
open Client (PendingConn takeReq MAX_PENDING_EXT External RequestStep requestStep)
open Interest (EPOLLIN EPOLLOUT)

structure ExternalConn where
  fd : Nat
  writer : Nat := 0
  registered : Bool := false
  disconnecting : Bool := false
  shuttingDownWr : Bool := false
  born : Nat
deriving DecidableEq, Repr

/-- An entry of `pending_disconnect_ids_`. -/
structure Disconnect where
  connId : UInt8
  since : Nat
deriving DecidableEq, Repr

/-- The functions in `pending_io_` that deal with external connections. -/
inductive PendingIo where
  | disconnect (d : Disconnect)
  | registerEpollout (connId : UInt8) (fd : Nat)
deriving DecidableEq, Repr

/-- The handlers of an external descriptor: the one of `handle_connect_ok`, the one of
`register_external_epollout` and the one of the cleanup. -/
inductive Callback where
  | input (connId : UInt8)
  | output (connId : UInt8)
  | drain (connId : UInt8)
deriving DecidableEq, Repr

/-- An entry that the cleanup closed. -/
structure Cleaned where
  connId : UInt8
  fd : Nat
  born : Nat
  since : Nat
deriving DecidableEq, Repr

/-- A request that `MSG_CONNECT_OK` has answered, and the descriptor under its id afterwards. -/
structure Answered where
  connId : UInt8
  fd : Nat
  found : Option Nat
deriving DecidableEq, Repr

structure State where
  pendingExt : List PendingConn := []
  nextReqId : UInt8 := 0
  accepted : List Nat := []
  closed : List Nat := []
  conns : UInt8 → Option ExternalConn := fun _ => none
  kernel : Interest.State Callback := {}
  pendingIo : List PendingIo := []
  pendingDisconnectIds : List Disconnect := []
  sent : List Packet := []
  created : Nat := 0
  cleaned : List Cleaned := []
  answered : List Answered := []

/-- A flush leaves at most what there was. -/
def ExternalConn.flush (c : ExternalConn) (left : Nat) : ExternalConn :=
  { c with writer := min left c.writer }

namespace State

def sendControl (s : State) (pkt : Packet) : State := { s with sent := s.sent ++ [pkt] }

def put (s : State) (connId : UInt8) (c : ExternalConn) : State :=
  { s with conns := Function.update s.conns connId (some c) }

def erase (s : State) (connId : UInt8) : State :=
  { s with conns := Function.update s.conns connId none }

/-- `del_fd` and `close`. -/
def closeFd (s : State) (fd : Nat) : State :=
  { s with kernel := s.kernel.delFd fd, closed := s.closed ++ [fd] }

/-! ## Requests -/

def onListenerAccept (targetAddr : Bytes) (s : State) (cfd : Nat) : State :=
  let s := { s with accepted := s.accepted ++ [cfd] }
  if s.pendingExt.length ≥ MAX_PENDING_EXT then { s with closed := s.closed ++ [cfd] }
  else
    let s' : State :=
      { s with
        pendingExt := s.pendingExt ++ [⟨cfd, s.nextReqId⟩]
        nextReqId := s.nextReqId + 1 }
    s'.sendControl ⟨MSG_CONNECT_REQ, s.nextReqId :: UInt8.ofNat targetAddr.length :: targetAddr⟩

/-- `emplace` leaves an entry that is there already. -/
def emplace (s : State) (connId : UInt8) (fd : Nat) : State :=
  if (s.conns connId).isSome then s
  else { s.put connId { fd := fd, born := s.created } with created := s.created + 1 }

def handleConnectOk (s : State) (pkt : Packet) : State :=
  match pkt.payload with
  | connId :: reqId :: _ =>
      match takeReq reqId s.pendingExt with
      | none => s.sendControl ⟨MSG_DISCONNECT, [connId]⟩
      | some (pc, rest) =>
          let s := State.emplace { s with pendingExt := rest } connId pc.fd
          { s with
            kernel := s.kernel.addFdHandler pc.fd (.input connId) EPOLLIN
            answered := s.answered ++ [⟨connId, pc.fd, (s.conns connId).map ExternalConn.fd⟩] }
  | _ => s

def handleConnectFail (s : State) (pkt : Packet) : State :=
  match pkt.payload with
  | _ :: reqId :: _ =>
      match takeReq reqId s.pendingExt with
      | none => s
      | some (pc, rest) => { s with pendingExt := rest, closed := s.closed ++ [pc.fd] }
  | _ => s

def handleDisconnect (s : State) (pkt : Packet) : State :=
  match pkt.payload with
  | connId :: _ =>
      match s.conns connId with
      | none => s
      | some c =>
          let s := s.put connId { c with disconnecting := true }
          { s with pendingDisconnectIds := s.pendingDisconnectIds ++ [⟨connId, s.created⟩] }
  | [] => s

/-- The control messages about external connections. -/
def applyControl (s : State) (pkt : Packet) : State :=
  if pkt.type = MSG_CONNECT_OK then s.handleConnectOk pkt
  else if pkt.type = MSG_CONNECT_FAIL then s.handleConnectFail pkt
  else if pkt.type = MSG_DISCONNECT then s.handleDisconnect pkt
  else s

/-- The first request of `process_pending_io`, found too old. -/
def pendingTimeout (s : State) : Option State :=
  match s.pendingExt with
  | [] => none
  | front :: rest =>
      some (sendControl { s with pendingExt := rest, closed := s.closed ++ [front.fd] }
        ⟨MSG_CONNECT_CANCEL, [front.reqId]⟩)

/-! ## Handlers -/

def registerExternalEpollout (s : State) (connId : UInt8) (fd : Nat) : State :=
  match s.conns connId with
  | none => s
  | some c =>
      if c.registered then s
      else
        { s.put connId { c with registered := true } with
          kernel := s.kernel.addFdHandler fd (.output connId) EPOLLOUT }

def onExternalDisconnect (s : State) (connId : UInt8) : State :=
  match s.conns connId with
  | none => s
  | some c => ((s.erase connId).closeFd c.fd).sendControl ⟨MSG_DISCONNECT, [connId]⟩

/-- The end of the input of an external descriptor, or `WIRE_SHUTDOWN_WR_ACK`. -/
def shutDownWr (s : State) (connId : UInt8) : State :=
  match s.conns connId with
  | none => s
  | some c => s.put connId { c with shuttingDownWr := true }

def shutdownWrAck (s : State) (connId : UInt8) : State :=
  let s := s.shutDownWr connId
  match s.conns connId with
  | none => s
  | some c => if c.writer ≠ 0 ∧ ¬ c.registered then s.registerExternalEpollout connId c.fd else s

/-- A handler for `EPOLLOUT`. -/
def flushOutput (s : State) (left : Nat) : Callback → State
  | .input _ => s
  | .output connId =>
      match s.conns connId with
      | none => s
      | some c =>
          let c := c.flush left
          if c.writer = 0 then
            let s := { s with kernel := s.kernel.modFdEvents c.fd 0 EPOLLOUT }
            if c.disconnecting then (s.erase connId).closeFd c.fd
            else s.put connId { c with registered := false }
          else s.put connId c
  | .drain connId =>
      match s.conns connId with
      | none => s
      | some c =>
          let c := c.flush left
          if c.writer = 0 then
            { s.put connId { c with registered := false } with
              kernel := s.kernel.modFdEvents c.fd 0 EPOLLOUT }
          else s.put connId c

/-- A handler for `EPOLLHUP`. -/
def hangup (s : State) : Callback → State
  | .input connId =>
      match s.conns connId with
      | none => s.onExternalDisconnect connId
      | some c =>
          if c.shuttingDownWr then (s.closeFd c.fd).erase connId else s.onExternalDisconnect connId
  | .output connId | .drain connId => s.erase connId

/-- The part of `event_loop` for `EPOLLIN`, where `read` finds the end of the input. -/
def onEndOfInput (s : State) (fd : Nat) : State :=
  match (s.kernel.fdToHandler fd).bind Interest.FdState.inCb with
  | some (.input connId) => s.shutDownWr connId
  | _ => s

/-- The part for `EPOLLOUT`. -/
def onOutput (s : State) (fd left : Nat) : State :=
  match (s.kernel.fdToHandler fd).bind Interest.FdState.outCb with
  | some callback => s.flushOutput left callback
  | none => s

/-- The part for `EPOLLHUP`, which ends with `del_fd`. -/
def onHangup (s : State) (fd : Nat) : State :=
  let s :=
    match s.kernel.fdToHandler fd with
    | none => s
    | some handler =>
        match handler.inCb, handler.outCb with
        | some callback, _ => s.hangup callback
        | none, some callback => s.hangup callback
        | none, none => s
  { s with kernel := s.kernel.delFd fd }

/-! ## The chain -/

/-- `wire_write` of a packet that ends a connection. -/
def wireDisconnect (s : State) (connId : UInt8) : State :=
  { s with pendingIo := s.pendingIo ++ [.disconnect ⟨connId, s.created⟩] }

/-- `wire_write` of `len` bytes for an external connection. -/
def wireData (s : State) (connId : UInt8) (len left : Nat) : State :=
  match s.conns connId with
  | none => s
  | some c =>
      if c.disconnecting then s
      else
        let writer := min left (c.writer + len)
        let s := s.put connId { c with writer := writer }
        if writer = 0 then s
        else { s with pendingIo := s.pendingIo ++ [.registerEpollout connId c.fd] }

/-! ## The tick -/

def runPendingIo (s : State) : PendingIo → State
  | .disconnect d =>
      match s.conns d.connId with
      | none => s
      | some c =>
          let s := s.put d.connId { c with disconnecting := true }
          { s with pendingDisconnectIds := s.pendingDisconnectIds ++ [d] }
  | .registerEpollout connId fd => s.registerExternalEpollout connId fd

/-- `conns_.erase` of the cleanup, with the record of what was closed. -/
def clean (s : State) (d : Disconnect) (c : ExternalConn) : State :=
  let s := (s.erase d.connId).closeFd c.fd
  { s with cleaned := s.cleaned ++ [⟨d.connId, c.fd, c.born, d.since⟩] }

/-- The loop over `pending_disconnect_ids_`: the ids that stay, and the state. `left` gives what
each flush leaves. -/
def cleanup (left : Nat → Nat) : List Disconnect → State → List Disconnect × State
  | [], s => ([], s)
  | d :: ds, s =>
      match s.conns d.connId with
      | none => cleanup (fun i => left (i + 1)) ds s
      | some c =>
          let c := c.flush (left 0)
          if c.writer = 0 then cleanup (fun i => left (i + 1)) ds (s.clean d c)
          else
            let s :=
              if c.registered then s.put d.connId c
              else
                { s.put d.connId { c with registered := true } with
                  kernel := s.kernel.addFdHandler c.fd (.drain d.connId) EPOLLOUT }
            let next := cleanup (fun i => left (i + 1)) ds s
            (d :: next.1, next.2)

/-- `process_pending_io`: the functions of `pending_io_`, and the cleanup when the chain is
drained. -/
def processPendingIo (s : State) (drained : Bool) (left : Nat → Nat) : State :=
  let s := s.pendingIo.foldl runPendingIo { s with pendingIo := [] }
  if drained then
    let next := cleanup left s.pendingDisconnectIds s
    { next.2 with pendingDisconnectIds := next.1 }
  else s

end State

inductive Label where
  | accept (cfd : Nat)
  | control (pkt : Packet)
  | timeout
  | shutdownWrAck (connId : UInt8)
  | endOfInput (fd : Nat)
  | output (fd left : Nat)
  | hangup (fd : Nat)
  | wireDisconnect (connId : UInt8)
  | wireData (connId : UInt8) (len left : Nat)
  | tick (drained : Bool) (left : Nat → Nat)

def step (targetAddr : Bytes) (s : State) : Label → Option State
  | .accept cfd => some (s.onListenerAccept targetAddr cfd)
  | .control pkt => some (s.applyControl pkt)
  | .timeout => s.pendingTimeout
  | .shutdownWrAck connId => some (s.shutdownWrAck connId)
  | .endOfInput fd => some (s.onEndOfInput fd)
  | .output fd left => some (s.onOutput fd left)
  | .hangup fd => some (s.onHangup fd)
  | .wireDisconnect connId => some (s.wireDisconnect connId)
  | .wireData connId len left => some (s.wireData connId len left)
  | .tick drained left => some (s.processPendingIo drained left)

/-! ## What is promised -/

def PendingIo.disconnect? : PendingIo → Option Disconnect
  | .disconnect d => some d
  | .registerEpollout _ _ => none

/-- The disconnects that wait for the cleanup, those in `pending_io_` included. -/
def State.deferred (s : State) : List Disconnect :=
  s.pendingDisconnectIds ++ s.pendingIo.filterMap PendingIo.disconnect?

/-- The cleanup has only closed entries that were there when their disconnect was queued, and each
answered request has its descriptor under its id. -/
structure Selective (s : State) : Prop where
  cleaned : ∀ e ∈ s.cleaned, e.born < e.since
  answered : ∀ a ∈ s.answered, a.found = some a.fd

/-- An id that answers a waiting request has no entry, and no disconnect waits for it. -/
def IdFree (s : State) : Label → Prop
  | .control pkt =>
      match pkt.payload with
      | connId :: reqId :: _ =>
          pkt.type = MSG_CONNECT_OK → (takeReq reqId s.pendingExt).isSome →
            s.conns connId = none ∧ ∀ d ∈ s.deferred, d.connId ≠ connId
      | _ => True
  | _ => True

instance (s : State) : ∀ l, Decidable (IdFree s l)
  | .control ⟨_, connId :: reqId :: _⟩ =>
      inferInstanceAs (Decidable (_ → (takeReq reqId s.pendingExt).isSome →
        s.conns connId = none ∧ ∀ d ∈ s.deferred, d.connId ≠ connId))
  | .control ⟨_, []⟩ | .control ⟨_, [_]⟩ => isTrue trivial
  | .accept _ | .timeout | .shutdownWrAck _ | .endOfInput _ | .output _ _ | .hangup _
  | .wireDisconnect _ | .wireData _ _ _ | .tick _ _ => isTrue trivial

/-! ## The requests are those of `External` -/

namespace State

/-- What `Client.External` knows of the connections. -/
def external (s : State) : External where
  pendingExt := s.pendingExt
  conns connId := (s.conns connId).map ExternalConn.fd
  nextReqId := s.nextReqId
  accepted := s.accepted
  closed := s.closed

theorem external_onListenerAccept (targetAddr : Bytes) (s : State) (cfd : Nat) :
    (s.onListenerAccept targetAddr cfd).external =
        (s.external.onListenerAccept targetAddr cfd).1 ∧
      (s.onListenerAccept targetAddr cfd).sent =
        s.sent ++ (s.external.onListenerAccept targetAddr cfd).2 := by
  have hpending : s.external.pendingExt = s.pendingExt := rfl
  simp only [onListenerAccept, External.onListenerAccept, hpending]
  by_cases hfull : s.pendingExt.length ≥ MAX_PENDING_EXT
  · simp only [if_pos hfull]
    exact ⟨rfl, (List.append_nil _).symm⟩
  · simp only [if_neg hfull]
    exact ⟨rfl, rfl⟩

theorem external_emplace (s : State) (connId : UInt8) (fd : Nat) :
    (s.emplace connId fd).external = s.external.emplace connId fd := by
  have hisSome : (s.external.conns connId).isSome = (s.conns connId).isSome := Option.isSome_map
  rw [emplace, External.emplace, hisSome]
  by_cases hsome : (s.conns connId).isSome = true
  · rw [if_pos hsome, if_pos hsome]
  · rw [if_neg hsome, if_neg hsome]
    simp only [external, put, External.mk.injEq, true_and, and_true]
    funext k
    by_cases hk : k = connId
    · subst hk
      simp
    · simp [hk]

theorem external_handleConnectOk (s : State) (pkt : Packet) :
    (s.handleConnectOk pkt).external = (s.external.handleConnectOk pkt).1 ∧
      (s.handleConnectOk pkt).sent = s.sent ++ (s.external.handleConnectOk pkt).2 := by
  obtain ⟨type, payload⟩ := pkt
  rcases payload with _ | ⟨connId, _ | ⟨reqId, rest⟩⟩
  · exact ⟨rfl, (List.append_nil _).symm⟩
  · exact ⟨rfl, (List.append_nil _).symm⟩
  · have hpending : s.external.pendingExt = s.pendingExt := rfl
    simp only [handleConnectOk, External.handleConnectOk, hpending]
    cases takeReq reqId s.pendingExt with
    | none => exact ⟨rfl, rfl⟩
    | some found =>
        obtain ⟨pc, rest⟩ := found
        constructor
        · exact external_emplace { s with pendingExt := rest } connId pc.fd
        · rw [List.append_nil]
          dsimp only
          rw [emplace]
          split_ifs <;> rfl

theorem external_handleConnectFail (s : State) (pkt : Packet) :
    (s.handleConnectFail pkt).external = (s.external.handleConnectFail pkt).1 := by
  obtain ⟨type, payload⟩ := pkt
  rcases payload with _ | ⟨connId, _ | ⟨reqId, rest⟩⟩
  · rfl
  · rfl
  · have hpending : s.external.pendingExt = s.pendingExt := rfl
    simp only [handleConnectFail, External.handleConnectFail, hpending]
    cases takeReq reqId s.pendingExt <;> rfl

theorem external_pendingTimeout (s : State) :
    s.pendingTimeout.map external = s.external.pendingTimeout.map Prod.fst := by
  have hpending : s.external.pendingExt = s.pendingExt := rfl
  simp only [pendingTimeout, External.pendingTimeout, hpending]
  cases s.pendingExt <;> rfl

theorem external_put {s : State} {connId : UInt8} {c c' : ExternalConn}
    (hc : s.conns connId = some c) (hfd : c'.fd = c.fd) :
    (s.put connId c').external = s.external := by
  simp only [external, put, External.mk.injEq, true_and, and_true]
  funext k
  by_cases hk : k = connId
  · subst hk
    simp [hc, hfd]
  · simp [hk]

/-- A disconnect only marks its entry. -/
theorem external_handleDisconnect (s : State) (pkt : Packet) :
    (s.handleDisconnect pkt).external = s.external := by
  obtain ⟨type, payload⟩ := pkt
  cases payload with
  | nil => rfl
  | cons connId rest =>
      simp only [handleDisconnect]
      cases hc : s.conns connId with
      | none => rfl
      | some c =>
          have hput : (s.put connId { c with disconnecting := true }).external = s.external :=
            external_put hc rfl
          exact hput

theorem external_applyControl (s : State) (pkt : Packet) :
    (s.applyControl pkt).external = (s.external.applyControl pkt).1 := by
  rw [applyControl, External.applyControl]
  by_cases hok : pkt.type = MSG_CONNECT_OK
  · rw [if_pos hok, if_pos hok]
    exact (external_handleConnectOk s pkt).1
  · rw [if_neg hok, if_neg hok]
    by_cases hfail : pkt.type = MSG_CONNECT_FAIL
    · rw [if_pos hfail, if_pos hfail]
      exact external_handleConnectFail s pkt
    · rw [if_neg hfail, if_neg hfail]
      split_ifs
      · exact external_handleDisconnect s pkt
      · rfl

end State

/-- The steps that deal with requests. -/
def Label.request? : Label → Option RequestStep
  | .accept cfd => some (.accept cfd)
  | .control pkt => some (.control pkt)
  | .timeout => some .timeout
  | _ => none

/-- They take the same steps on the queue of requests. -/
theorem external_step (targetAddr : Bytes) (s : State) {l : Label} {r : RequestStep}
    (hl : l.request? = some r) :
    (step targetAddr s l).map State.external = requestStep targetAddr s.external r := by
  cases l with
  | accept cfd =>
      obtain rfl := Option.some.inj hl
      exact congrArg some (s.external_onListenerAccept targetAddr cfd).1
  | control pkt =>
      obtain rfl := Option.some.inj hl
      exact congrArg some (s.external_applyControl pkt)
  | timeout =>
      obtain rfl := Option.some.inj hl
      exact s.external_pendingTimeout
  | shutdownWrAck connId => cases hl
  | endOfInput fd => cases hl
  | output fd left => cases hl
  | hangup fd => cases hl
  | wireDisconnect connId => cases hl
  | wireData connId len left => cases hl
  | tick drained left => cases hl

/-! ## What a function adds

Only an answer creates an entry, and only the two ways to queue a disconnect queue one. -/

/-- Every entry was there before. -/
structure Keeps (s s' : State) : Prop where
  births : ∀ k c', s'.conns k = some c' → ∃ c, s.conns k = some c ∧ c.born = c'.born
  created : s'.created = s.created
  pendingIo : s'.pendingIo = s.pendingIo
  answered : s'.answered = s.answered

/-- No disconnect moves either. -/
structure Retains (s s' : State) : Prop extends Keeps s s' where
  pendingDisconnectIds : s'.pendingDisconnectIds = s.pendingDisconnectIds
  cleaned : s'.cleaned = s.cleaned

theorem Keeps.trans {s s' s'' : State} (h : Keeps s s') (h' : Keeps s' s'') : Keeps s s'' where
  births k c'' hc'' := by
    obtain ⟨c', hc', hborn'⟩ := h'.births k c'' hc''
    obtain ⟨c, hc, hborn⟩ := h.births k c' hc'
    exact ⟨c, hc, hborn.trans hborn'⟩
  created := h'.created.trans h.created
  pendingIo := h'.pendingIo.trans h.pendingIo
  answered := h'.answered.trans h.answered

namespace Retains

variable {s s' s'' : State}

theorem trans (h : Retains s s') (h' : Retains s' s'') : Retains s s'' where
  toKeeps := h.toKeeps.trans h'.toKeeps
  pendingDisconnectIds := h'.pendingDisconnectIds.trans h.pendingDisconnectIds
  cleaned := h'.cleaned.trans h.cleaned

/-- The other fields do not matter. -/
theorem of_fields (hconns : s'.conns = s.conns) (hcreated : s'.created = s.created)
    (hio : s'.pendingIo = s.pendingIo) (hids : s'.pendingDisconnectIds = s.pendingDisconnectIds)
    (hcleaned : s'.cleaned = s.cleaned) (hanswered : s'.answered = s.answered) : Retains s s' where
  births _ c' hc' := ⟨c', hconns ▸ hc', rfl⟩
  created := hcreated
  pendingIo := hio
  answered := hanswered
  pendingDisconnectIds := hids
  cleaned := hcleaned

theorem refl (s : State) : Retains s s := of_fields rfl rfl rfl rfl rfl rfl

theorem put {connId : UInt8} {c c' : ExternalConn} (hc : s.conns connId = some c)
    (hborn : c'.born = c.born) : Retains s (s.put connId c') where
  births k d hd := by
    by_cases hk : k = connId
    · subst hk
      simp only [State.put, Function.update_self, Option.some.injEq] at hd
      exact ⟨c, hc, hd ▸ hborn.symm⟩
    · simp only [State.put, Function.update_of_ne hk] at hd
      exact ⟨d, hd, rfl⟩
  created := rfl
  pendingIo := rfl
  answered := rfl
  pendingDisconnectIds := rfl
  cleaned := rfl

theorem erase (s : State) (connId : UInt8) : Retains s (s.erase connId) where
  births k d hd := by
    by_cases hk : k = connId
    · subst hk
      simp [State.erase] at hd
    · simp only [State.erase, Function.update_of_ne hk] at hd
      exact ⟨d, hd, rfl⟩
  created := rfl
  pendingIo := rfl
  answered := rfl
  pendingDisconnectIds := rfl
  cleaned := rfl

theorem kernel (s : State) (k : Interest.State Callback) : Retains s { s with kernel := k } :=
  of_fields rfl rfl rfl rfl rfl rfl

theorem closeFd (s : State) (fd : Nat) : Retains s (s.closeFd fd) :=
  of_fields rfl rfl rfl rfl rfl rfl

theorem sendControl (s : State) (pkt : Packet) : Retains s (s.sendControl pkt) :=
  of_fields rfl rfl rfl rfl rfl rfl

theorem onListenerAccept (targetAddr : Bytes) (s : State) (cfd : Nat) :
    Retains s (s.onListenerAccept targetAddr cfd) := by
  rw [State.onListenerAccept]
  dsimp only
  split_ifs <;> exact of_fields rfl rfl rfl rfl rfl rfl

theorem handleConnectFail (s : State) (pkt : Packet) : Retains s (s.handleConnectFail pkt) := by
  obtain ⟨type, payload⟩ := pkt
  rcases payload with _ | ⟨connId, _ | ⟨reqId, rest⟩⟩
  · exact refl s
  · exact refl s
  · simp only [State.handleConnectFail]
    cases takeReq reqId s.pendingExt with
    | none => exact refl s
    | some found => exact of_fields rfl rfl rfl rfl rfl rfl

theorem pendingTimeout (h : s.pendingTimeout = some s') : Retains s s' := by
  rw [State.pendingTimeout] at h
  cases hpending : s.pendingExt with
  | nil =>
      rw [hpending] at h
      cases h
  | cons front rest =>
      rw [hpending] at h
      obtain rfl := Option.some.inj h
      exact of_fields rfl rfl rfl rfl rfl rfl

theorem registerExternalEpollout (s : State) (connId : UInt8) (fd : Nat) :
    Retains s (s.registerExternalEpollout connId fd) := by
  rw [State.registerExternalEpollout]
  cases hc : s.conns connId with
  | none => exact refl s
  | some c =>
      dsimp only
      by_cases hregistered : c.registered = true
      · rw [if_pos hregistered]
        exact refl s
      · rw [if_neg hregistered]
        refine Retains.trans ?_ (kernel _ _)
        exact put hc rfl

theorem onExternalDisconnect (s : State) (connId : UInt8) :
    Retains s (s.onExternalDisconnect connId) := by
  rw [State.onExternalDisconnect]
  cases s.conns connId with
  | none => exact refl s
  | some c => exact ((erase s connId).trans (closeFd _ _)).trans (sendControl _ _)

theorem shutDownWr (s : State) (connId : UInt8) : Retains s (s.shutDownWr connId) := by
  rw [State.shutDownWr]
  cases hc : s.conns connId with
  | none => exact refl s
  | some c => exact put hc rfl

theorem shutdownWrAck (s : State) (connId : UInt8) : Retains s (s.shutdownWrAck connId) := by
  have hshut := shutDownWr s connId
  rw [State.shutdownWrAck]
  cases (s.shutDownWr connId).conns connId with
  | none => exact hshut
  | some c =>
      dsimp only
      split_ifs
      · exact hshut.trans (registerExternalEpollout _ _ _)
      · exact hshut

theorem flushOutput (s : State) (left : Nat) (callback : Callback) :
    Retains s (s.flushOutput left callback) := by
  cases callback with
  | input connId => exact refl s
  | output connId =>
      rw [State.flushOutput]
      cases hc : s.conns connId with
      | none => exact refl s
      | some c =>
          dsimp only
          split_ifs
          · exact ((kernel s _).trans (erase _ connId)).trans (closeFd _ _)
          · exact (kernel s _).trans (put hc rfl)
          · exact put hc rfl
  | drain connId =>
      rw [State.flushOutput]
      cases hc : s.conns connId with
      | none => exact refl s
      | some c =>
          dsimp only
          split_ifs
          · refine Retains.trans ?_ (kernel _ _)
            exact put hc rfl
          · exact put hc rfl

theorem hangup (s : State) (callback : Callback) : Retains s (s.hangup callback) := by
  cases callback with
  | input connId =>
      rw [State.hangup]
      cases s.conns connId with
      | none => exact onExternalDisconnect s connId
      | some c =>
          dsimp only
          split_ifs
          · exact (closeFd s c.fd).trans (erase _ connId)
          · exact onExternalDisconnect s connId
  | output connId => exact erase s connId
  | drain connId => exact erase s connId

theorem onEndOfInput (s : State) (fd : Nat) : Retains s (s.onEndOfInput fd) := by
  rw [State.onEndOfInput]
  cases (s.kernel.fdToHandler fd).bind Interest.FdState.inCb with
  | none => exact refl s
  | some callback =>
      cases callback with
      | input connId => exact shutDownWr s connId
      | output connId => exact refl s
      | drain connId => exact refl s

theorem onOutput (s : State) (fd left : Nat) : Retains s (s.onOutput fd left) := by
  rw [State.onOutput]
  cases (s.kernel.fdToHandler fd).bind Interest.FdState.outCb with
  | none => exact refl s
  | some callback => exact flushOutput s left callback

theorem onHangup (s : State) (fd : Nat) : Retains s (s.onHangup fd) := by
  rw [State.onHangup]
  refine Retains.trans ?_ (kernel _ _)
  cases s.kernel.fdToHandler fd with
  | none => exact refl s
  | some handler =>
      obtain ⟨inCb, outCb, events⟩ := handler
      cases inCb with
      | some callback => exact hangup s callback
      | none =>
          cases outCb with
          | some callback => exact hangup s callback
          | none => exact refl s

end Retains

/-! ## The book of entries and disconnects -/

/-- Disconnects as work that is put off under an id. -/
def queue (ds : List Disconnect) : List (UInt8 × Nat) := ds.map fun d => (d.connId, d.since)

/-- The entries with the disconnects `ds`. -/
def State.bookWith (s : State) (ds : List Disconnect) : Book UInt8 where
  births connId := (s.conns connId).map ExternalConn.born
  created := s.created
  queued := queue ds

def State.book (s : State) : Book UInt8 := s.bookWith s.deferred

/-- The invariant: every disconnect that waits is younger than the entry under its id. -/
structure Inv (s : State) : Prop where
  sound : s.book.Sound
  selective : Selective s

theorem queue_subset {ds ds' : List Disconnect} (h : ds' ⊆ ds) : queue ds' ⊆ queue ds :=
  List.map_subset _ h

theorem Keeps.births_book {s s' : State} (h : Keeps s s') {connId : UInt8} {n : Nat}
    (hn : (s'.conns connId).map ExternalConn.born = some n) :
    (s.conns connId).map ExternalConn.born = some n := by
  obtain ⟨c', hc', rfl⟩ := Option.map_eq_some_iff.mp hn
  obtain ⟨c, hc, hborn⟩ := h.births connId c' hc'
  rw [hc, Option.map_some, hborn]

theorem Keeps.sound {s s' : State} (h : Keeps s s') {ds ds' : List Disconnect}
    (hsound : (s.bookWith ds).Sound) (hsub : ds' ⊆ ds) : (s'.bookWith ds').Sound :=
  hsound.shrink (fun _ _ => h.births_book) h.created (queue_subset hsub)

theorem Inv.retains {s s' : State} (h : Inv s) (hr : Retains s s') : Inv s' where
  sound := by
    have hdeferred : s'.deferred = s.deferred := by
      rw [State.deferred, State.deferred, hr.pendingDisconnectIds, hr.pendingIo]
    rw [State.book, hdeferred]
    exact hr.toKeeps.sound h.sound (List.Subset.refl _)
  selective := by
    constructor
    · rw [hr.cleaned]
      exact h.selective.cleaned
    · rw [hr.answered]
      exact h.selective.answered

/-! ## Queueing a disconnect -/

theorem Inv.handleDisconnect {s : State} (h : Inv s) (pkt : Packet) :
    Inv (s.handleDisconnect pkt) := by
  obtain ⟨type, payload⟩ := pkt
  cases payload with
  | nil => exact h
  | cons connId rest =>
      simp only [State.handleDisconnect]
      cases hc : s.conns connId with
      | none => exact h
      | some c =>
          have hput : Retains s (s.put connId { c with disconnecting := true }) :=
            Retains.put hc rfl
          have hnext := h.retains hput
          dsimp only
          refine ⟨?_, hnext.selective.cleaned, hnext.selective.answered⟩
          refine (hnext.sound.putOff connId).shrink (fun _ _ hn => hn) rfl ?_
          intro e he
          simp only [State.book, State.bookWith, State.deferred, queue, Book.putOff,
            List.map_append, List.mem_append, List.map_cons, List.map_nil] at he ⊢
          rcases he with (he | he) | he
          · exact Or.inl (Or.inl he)
          · exact Or.inr he
          · exact Or.inl (Or.inr he)

theorem Inv.wireDisconnect {s : State} (h : Inv s) (connId : UInt8) :
    Inv (s.wireDisconnect connId) := by
  refine ⟨?_, h.selective.cleaned, h.selective.answered⟩
  refine (h.sound.putOff connId).shrink (fun _ _ hn => hn) rfl ?_
  intro e he
  simp only [State.book, State.bookWith, State.deferred, State.wireDisconnect, queue, Book.putOff,
    List.filterMap_append, List.map_append, List.mem_append] at he ⊢
  rcases he with he | he | he
  · exact Or.inl (Or.inl he)
  · exact Or.inl (Or.inr he)
  · exact Or.inr he

theorem Inv.wireData {s : State} (h : Inv s) (connId : UInt8) (len left : Nat) :
    Inv (s.wireData connId len left) := by
  rw [State.wireData]
  cases hc : s.conns connId with
  | none => exact h
  | some c =>
      dsimp only
      by_cases hdisconnecting : c.disconnecting = true
      · rw [if_pos hdisconnecting]
        exact h
      · rw [if_neg hdisconnecting]
        have hput : Retains s (s.put connId { c with writer := min left (c.writer + len) }) :=
          Retains.put hc rfl
        have hnext := h.retains hput
        split_ifs
        · exact hnext
        · refine ⟨?_, hnext.selective.cleaned, hnext.selective.answered⟩
          refine hnext.sound.shrink (fun _ _ hn => hn) rfl ?_
          apply queue_subset
          intro d hd
          simpa [State.deferred, PendingIo.disconnect?] using hd

/-! ## An answer -/

theorem Inv.handleConnectOk {s : State} (h : Inv s) {pkt : Packet}
    (htype : pkt.type = MSG_CONNECT_OK) (hfree : IdFree s (.control pkt)) :
    Inv (s.handleConnectOk pkt) := by
  obtain ⟨type, payload⟩ := pkt
  rcases payload with _ | ⟨connId, _ | ⟨reqId, rest⟩⟩
  · exact h
  · exact h
  · simp only [State.handleConnectOk]
    cases htake : takeReq reqId s.pendingExt with
    | none => exact h.retains (Retains.sendControl s _)
    | some found =>
        obtain ⟨pc, rest⟩ := found
        obtain ⟨hnone, hidle⟩ := hfree htype (by rw [htake]; rfl)
        have hemplace : State.emplace { s with pendingExt := rest } connId pc.fd =
            { State.put { s with pendingExt := rest } connId { fd := pc.fd, born := s.created } with
              created := s.created + 1 } :=
          if_neg (by simp [hnone])
        have hidle' : s.book.Idle connId := by
          intro e he
          obtain ⟨d, hd, rfl⟩ := List.mem_map.mp he
          exact hidle d hd
        dsimp only
        rw [hemplace]
        constructor
        · refine (h.sound.create hidle').shrink (fun k n hn => ?_) rfl (List.Subset.refl _)
          by_cases hk : k = connId
          · subst hk
            simpa [State.book, State.bookWith, State.put, Book.create] using hn
          · simpa [State.book, State.bookWith, State.put, Book.create, hk] using hn
        · refine ⟨h.selective.cleaned, fun a ha => ?_⟩
          rcases List.mem_append.mp ha with ha | ha
          · exact h.selective.answered a ha
          · rw [List.mem_singleton.mp ha]
            simp [State.put]

/-! ## A tick -/

/-- A function of `pending_io_` queues its own disconnect at most. -/
theorem runPendingIo_keeps (s : State) (io : PendingIo) :
    Keeps s (s.runPendingIo io) ∧ (s.runPendingIo io).cleaned = s.cleaned ∧
      (s.runPendingIo io).pendingDisconnectIds ⊆
        s.pendingDisconnectIds ++ io.disconnect?.toList := by
  cases io with
  | disconnect d =>
      rw [State.runPendingIo]
      cases hc : s.conns d.connId with
      | none => exact ⟨(Retains.refl s).toKeeps, rfl, List.subset_append_left _ _⟩
      | some c =>
          have hput : Retains s (s.put d.connId { c with disconnecting := true }) :=
            Retains.put hc rfl
          exact ⟨⟨hput.births, rfl, rfl, rfl⟩, rfl, List.Subset.refl _⟩
  | registerEpollout connId fd =>
      have hretains := Retains.registerExternalEpollout s connId fd
      refine ⟨hretains.toKeeps, hretains.cleaned, ?_⟩
      rw [State.runPendingIo, hretains.pendingDisconnectIds]
      exact List.subset_append_left _ _

theorem foldl_runPendingIo (ios : List PendingIo) (s : State) :
    Keeps s (ios.foldl State.runPendingIo s) ∧
      (ios.foldl State.runPendingIo s).cleaned = s.cleaned ∧
      (ios.foldl State.runPendingIo s).pendingDisconnectIds ⊆
        s.pendingDisconnectIds ++ ios.filterMap PendingIo.disconnect? := by
  induction ios generalizing s with
  | nil => exact ⟨(Retains.refl s).toKeeps, rfl, List.subset_append_left _ _⟩
  | cons io ios ih =>
      obtain ⟨hkeeps, hcleaned, hids⟩ := runPendingIo_keeps s io
      obtain ⟨hkeeps', hcleaned', hids'⟩ := ih (s.runPendingIo io)
      rw [List.foldl_cons]
      refine ⟨hkeeps.trans hkeeps', hcleaned'.trans hcleaned, fun d hd => ?_⟩
      have hcons : (io :: ios).filterMap PendingIo.disconnect? =
          io.disconnect?.toList ++ ios.filterMap PendingIo.disconnect? := by
        cases io <;> rfl
      rw [hcons, ← List.append_assoc]
      rcases List.mem_append.mp (hids' hd) with hd | hd
      · exact List.mem_append_left _ (hids hd)
      · exact List.mem_append_right _ hd

/-- An entry that is closed is older than its disconnect. -/
theorem clean_selective {s : State} {d : Disconnect} {c : ExternalConn} (h : Selective s)
    (hborn : c.born < d.since) : Keeps s (s.clean d c) ∧ Selective (s.clean d c) := by
  have hretains := (Retains.erase s d.connId).trans (Retains.closeFd _ c.fd)
  refine ⟨⟨hretains.births, rfl, rfl, rfl⟩, fun e he => ?_, h.answered⟩
  rcases List.mem_append.mp he with he | he
  · exact h.cleaned e he
  · rw [List.mem_singleton.mp he]
    exact hborn

/-- The loop of the cleanup, over disconnects that are younger than the entries. -/
theorem cleanup_selective (left : Nat → Nat) (ds : List Disconnect) {s : State}
    (hsound : (s.bookWith ds).Sound) (hselective : Selective s) :
    Keeps s (State.cleanup left ds s).2 ∧ (State.cleanup left ds s).1 ⊆ ds ∧
      Selective (State.cleanup left ds s).2 := by
  induction ds generalizing left s with
  | nil => exact ⟨(Retains.refl s).toKeeps, List.Subset.refl _, hselective⟩
  | cons d ds ih =>
      have htail : ds ⊆ d :: ds := List.subset_cons_self d ds
      rw [State.cleanup]
      cases hc : s.conns d.connId with
      | none =>
          have hrest := (Retains.refl s).toKeeps.sound hsound htail
          obtain ⟨hkeeps, hsub, hselective'⟩ := ih _ hrest hselective
          exact ⟨hkeeps, List.Subset.trans hsub htail, hselective'⟩
      | some c =>
          dsimp only
          have hborn : c.born < d.since := by
            apply hsound.older d.connId d.since List.mem_cons_self
            show (s.conns d.connId).map ExternalConn.born = some c.born
            rw [hc]
            rfl
          by_cases hempty : (c.flush (left 0)).writer = 0
          · obtain ⟨hclean, hselective'⟩ := clean_selective (c := c.flush (left 0)) hselective hborn
            rw [if_pos hempty]
            obtain ⟨hkeeps, hsub, hselective''⟩ := ih _ (hclean.sound hsound htail) hselective'
            exact ⟨hclean.trans hkeeps, List.Subset.trans hsub htail, hselective''⟩
          · rw [if_neg hempty]
            -- The entry stays, with a handler for the bytes that are left.
            generalize hnext : (if (c.flush (left 0)).registered then
                s.put d.connId (c.flush (left 0))
              else
                { s.put d.connId { c.flush (left 0) with registered := true } with
                  kernel := s.kernel.addFdHandler (c.flush (left 0)).fd (.drain d.connId)
                    EPOLLOUT }) = t
            have hretains : Retains s t := by
              rw [← hnext]
              split_ifs
              · exact Retains.put hc rfl
              · refine Retains.trans ?_ (Retains.kernel _ _)
                exact Retains.put hc rfl
            have hselective' : Selective t :=
              ⟨hretains.cleaned ▸ hselective.cleaned, hretains.answered ▸ hselective.answered⟩
            obtain ⟨hkeeps, hsub, hselective''⟩ :=
              ih _ (hretains.toKeeps.sound hsound htail) hselective'
            exact ⟨hretains.toKeeps.trans hkeeps, List.cons_subset_cons d hsub, hselective''⟩

/-- The functions of `pending_io_` leave nothing there. -/
theorem Inv.batch {s : State} (h : Inv s) {t : State}
    (ht : s.pendingIo.foldl State.runPendingIo { s with pendingIo := [] } = t) :
    Inv t ∧ t.pendingIo = [] := by
  obtain ⟨hkeeps, hcleaned, hids⟩ := foldl_runPendingIo s.pendingIo { s with pendingIo := [] }
  rw [ht] at hkeeps hcleaned hids
  have hsound : (t.bookWith t.pendingDisconnectIds).Sound :=
    hkeeps.sound (s := { s with pendingIo := [] }) h.sound hids
  refine ⟨⟨?_, ?_⟩, hkeeps.pendingIo⟩
  · refine hsound.shrink (fun _ _ hn => hn) rfl ?_
    apply queue_subset
    intro d hd
    simpa [State.deferred, hkeeps.pendingIo] using hd
  · exact ⟨hcleaned ▸ h.selective.cleaned, hkeeps.answered ▸ h.selective.answered⟩

theorem Inv.processPendingIo {s : State} (h : Inv s) (drained : Bool) (left : Nat → Nat) :
    Inv (s.processPendingIo drained left) := by
  rw [State.processPendingIo]
  generalize ht : s.pendingIo.foldl State.runPendingIo { s with pendingIo := [] } = t
  obtain ⟨hinv, hio⟩ := h.batch ht
  cases drained with
  | false => exact hinv
  | true =>
      have hids : t.pendingDisconnectIds ⊆ t.deferred := List.subset_append_left _ _
      have hsound := (Retains.refl t).toKeeps.sound hinv.sound hids
      obtain ⟨hkeeps, hsub, hselective⟩ :=
        cleanup_selective left t.pendingDisconnectIds hsound hinv.selective
      refine ⟨?_, hselective.cleaned, hselective.answered⟩
      refine (hkeeps.sound hsound hsub).shrink (fun _ _ hn => hn) rfl ?_
      apply queue_subset
      intro d hd
      simpa [State.deferred, hkeeps.pendingIo, hio] using hd

/-! ## Runs -/

theorem Inv.start : Inv {} where
  sound := ⟨fun _ _ hn => (by cases hn), fun _ _ hmem => (by cases hmem)⟩
  selective := ⟨fun _ he => (by cases he), fun _ ha => (by cases ha)⟩

theorem Inv.step {targetAddr : Bytes} {s s' : State} {l : Label} (h : Inv s) (hfree : IdFree s l)
    (hstep : step targetAddr s l = some s') : Inv s' := by
  cases l with
  | accept cfd =>
      obtain rfl := Option.some.inj hstep
      exact h.retains (Retains.onListenerAccept targetAddr s cfd)
  | control pkt =>
      obtain rfl := Option.some.inj hstep
      rw [State.applyControl]
      by_cases hok : pkt.type = MSG_CONNECT_OK
      · rw [if_pos hok]
        exact h.handleConnectOk hok hfree
      · rw [if_neg hok]
        split_ifs
        · exact h.retains (Retains.handleConnectFail s pkt)
        · exact h.handleDisconnect pkt
        · exact h
  | timeout => exact h.retains (Retains.pendingTimeout hstep)
  | shutdownWrAck connId =>
      obtain rfl := Option.some.inj hstep
      exact h.retains (Retains.shutdownWrAck s connId)
  | endOfInput fd =>
      obtain rfl := Option.some.inj hstep
      exact h.retains (Retains.onEndOfInput s fd)
  | output fd left =>
      obtain rfl := Option.some.inj hstep
      exact h.retains (Retains.onOutput s fd left)
  | hangup fd =>
      obtain rfl := Option.some.inj hstep
      exact h.retains (Retains.onHangup s fd)
  | wireDisconnect connId =>
      obtain rfl := Option.some.inj hstep
      exact h.wireDisconnect connId
  | wireData connId len left =>
      obtain rfl := Option.some.inj hstep
      exact h.wireData connId len left
  | tick drained left =>
      obtain rfl := Option.some.inj hstep
      exact h.processPendingIo drained left

/-- Every run in which an id comes back only when nothing is left under it closes by a disconnect
only the connection it was for, and installs every connection. -/
theorem deferred_selective (targetAddr : Bytes) (labels : List Label) (s : State)
    (hrun : run (step targetAddr) {} labels = some s)
    (hfree : Meets (step targetAddr) IdFree {} labels) : Selective s := by
  have hinv : Inv s := invariant_of_meets (fun _ _ _ h hok hstep => h.step hok hstep) Inv.start
    hfree hrun
  exact hinv.selective

/-- The id 5 comes back when the cleanup is done with it. -/
theorem deferred_selective_reused :
    let labels : List Label :=
      [.accept 7, .control ⟨MSG_CONNECT_OK, [5, 0]⟩, .wireDisconnect 5, .tick false fun _ => 0,
        .tick true fun _ => 0, .accept 8, .control ⟨MSG_CONNECT_OK, [5, 1]⟩]
    ∃ s, run (step []) {} labels = some s ∧ s.cleaned = [⟨5, 7, 0, 1⟩] ∧
      s.answered = [⟨5, 7, some 7⟩, ⟨5, 8, some 8⟩] ∧ Selective s := by
  intro labels
  have hsome : (run (step []) {} labels).isSome := by decide +kernel
  have hend : (run (step []) {} labels).all fun s =>
      decide (s.cleaned = [⟨5, 7, 0, 1⟩] ∧ s.answered = [⟨5, 7, some 7⟩, ⟨5, 8, some 8⟩]) := by
    decide +kernel
  obtain ⟨s, hrun⟩ := Option.isSome_iff_exists.mp hsome
  rw [hrun, Option.all_some, decide_eq_true_eq] at hend
  exact ⟨s, hrun, hend.1, hend.2, deferred_selective [] labels s hrun (by decide +kernel)⟩

/-- While the chain is not drained the connection hangs up and its id 5 goes to the next one, which
the cleanup closes. -/
theorem deferred_closes_next :
    ¬ ∀ (targetAddr : Bytes) (labels : List Label) (s : State),
      run (step targetAddr) {} labels = some s → Selective s := by
  intro hall
  let labels : List Label :=
    [.accept 7, .control ⟨MSG_CONNECT_OK, [5, 0]⟩, .accept 8, .wireDisconnect 5,
      .tick false fun _ => 0, .hangup 7, .control ⟨MSG_CONNECT_OK, [5, 1]⟩, .tick true fun _ => 0]
  have hsome : (run (step []) {} labels).isSome := by decide +kernel
  have hend : (run (step []) {} labels).all fun s => decide (s.cleaned = [⟨5, 8, 1, 1⟩]) := by
    decide +kernel
  obtain ⟨s, hrun⟩ := Option.isSome_iff_exists.mp hsome
  rw [hrun, Option.all_some, decide_eq_true_eq] at hend
  have hselective := (hall [] labels s hrun).cleaned ⟨5, 8, 1, 1⟩
  rw [hend] at hselective
  exact absurd (hselective List.mem_cons_self) (by decide)

end PipelineTunnel.Deferred
