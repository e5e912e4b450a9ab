import PipelineTunnel.Core.Protocol
import Mathlib.Data.List.Nodup
import Mathlib.Data.Finset.Card
import Mathlib.Data.FinEnum

/-!
# External connections at the client

`client/client.cpp`: a connection that the listener accepts waits in `pending_ext_` until
the server has answered its request, and is then kept in `conns_` under the id that the
server chose. A request that takes too long is cancelled.

## Implementation notes

`accepted` and `closed` log the descriptors that came from `accept` and went to `close`.
A function returns what it leaves and the control messages it sends; the clock decides by
an event which request is too old. The writer, the pause flags and the handler of a
connection are left out.
-/

namespace PipelineTunnel.Client

open Protocol

def MAX_PENDING_EXT : Nat := 256

structure PendingConn where
  fd : Nat
  reqId : UInt8
deriving DecidableEq, Repr

structure External where
  pendingExt : List PendingConn := []
  conns : UInt8 → Option Nat := fun _ => none
  nextReqId : UInt8 := 0
  accepted : List Nat := []
  closed : List Nat := []

/-- `std::find_if` on the id of the request, and `erase`. -/
def takeReq (reqId : UInt8) : List PendingConn → Option (PendingConn × List PendingConn)
  | [] => none
  | pc :: rest =>
      if pc.reqId = reqId then some (pc, rest)
      else (takeReq reqId rest).map fun found => (found.1, pc :: found.2)

namespace External

def onListenerAccept (targetAddr : Bytes) (e : External) (cfd : Nat) : External × List Packet :=
  let e := { e with accepted := e.accepted ++ [cfd] }
  if e.pendingExt.length ≥ MAX_PENDING_EXT then ({ e with closed := e.closed ++ [cfd] }, [])
  else
    ({ e with
        pendingExt := e.pendingExt ++ [⟨cfd, e.nextReqId⟩]
        nextReqId := e.nextReqId + 1 },
      [⟨MSG_CONNECT_REQ, e.nextReqId :: UInt8.ofNat targetAddr.length :: targetAddr⟩])

/-- `emplace` leaves an entry that is there already. -/
def emplace (e : External) (connId : UInt8) (fd : Nat) : External :=
  if (e.conns connId).isSome then e
  else { e with conns := Function.update e.conns connId (some fd) }

def handleConnectOk (e : External) (pkt : Packet) : External × List Packet :=
  match pkt.payload with
  | connId :: reqId :: _ =>
      match takeReq reqId e.pendingExt with
      | none => (e, [⟨MSG_DISCONNECT, [connId]⟩])
      | some (pc, rest) => ({ e with pendingExt := rest }.emplace connId pc.fd, [])
  | _ => (e, [])

def handleConnectFail (e : External) (pkt : Packet) : External × List Packet :=
  match pkt.payload with
  | _ :: reqId :: _ =>
      match takeReq reqId e.pendingExt with
      | none => (e, [])
      | some (pc, rest) => ({ e with pendingExt := rest, closed := e.closed ++ [pc.fd] }, [])
  | _ => (e, [])

/-- The first request of `process_pending_io`, found too old. -/
def pendingTimeout (e : External) : Option (External × List Packet) :=
  match e.pendingExt with
  | [] => none
  | front :: rest =>
      some ({ e with pendingExt := rest, closed := e.closed ++ [front.fd] },
        [⟨MSG_CONNECT_CANCEL, [front.reqId]⟩])

/-- The answers to requests among the control messages. -/
def applyControl (e : External) (pkt : Packet) : External × List Packet :=
  if pkt.type = MSG_CONNECT_OK then handleConnectOk e pkt
  else if pkt.type = MSG_CONNECT_FAIL then handleConnectFail e pkt
  else (e, [])

end External

theorem takeReq_some {reqId : UInt8} {l l' : List PendingConn} {pc : PendingConn}
    (h : takeReq reqId l = some (pc, l')) :
    ∃ before behind, l = before ++ pc :: behind ∧ l' = before ++ behind := by
  induction l generalizing l' with
  | nil => cases h
  | cons first rest ih =>
      rw [takeReq] at h
      split_ifs at h with hreq
      · obtain ⟨rfl, rfl⟩ := Prod.mk.inj (Option.some.inj h)
        exact ⟨[], rest, rfl, rfl⟩
      · obtain ⟨⟨pc', rest'⟩, hfound, heq⟩ := Option.map_eq_some_iff.mp h
        obtain ⟨rfl, rfl⟩ := Prod.mk.inj heq
        obtain ⟨before, behind, rfl, rfl⟩ := ih hfound
        exact ⟨first :: before, behind, rfl, rfl⟩

/-! ## Who owns a descriptor -/

namespace External

/-- The ids under which a descriptor is kept. -/
def owners (e : External) (fd : Nat) : Finset UInt8 :=
  Finset.univ.filter fun connId => e.conns connId = some fd

/-- How often a descriptor waits, was closed or is kept. -/
def holders (e : External) (fd : Nat) : Nat :=
  (e.pendingExt.map PendingConn.fd).count fd + e.closed.count fd + (e.owners fd).card

/-- A descriptor is held as often as it was accepted. -/
def Owned (e : External) : Prop := ∀ fd, e.holders fd = e.accepted.count fd

variable {e : External}

theorem count_fd_middle (before behind : List PendingConn) (pc : PendingConn) (fd : Nat) :
    ((before ++ pc :: behind).map PendingConn.fd).count fd =
      ((before ++ behind).map PendingConn.fd).count fd + [pc.fd].count fd := by
  simp only [List.map_append, List.map_cons, List.count_append, List.count_cons, List.count_nil]
  omega

theorem Owned.accept (h : e.Owned) (targetAddr : Bytes) (cfd : Nat) :
    (e.onListenerAccept targetAddr cfd).1.Owned := by
  intro fd
  have hfd := h fd
  rw [onListenerAccept]
  dsimp only
  split_ifs
  · simp only [holders, owners, List.count_append] at hfd ⊢
    omega
  · simp only [holders, owners, List.map_append, List.map_cons, List.map_nil,
      List.count_append] at hfd ⊢
    omega

/-- A waiting descriptor is closed. -/
theorem Owned.close (h : e.Owned) {before behind : List PendingConn} {pc : PendingConn}
    (hpending : e.pendingExt = before ++ pc :: behind) :
    Owned { e with pendingExt := before ++ behind, closed := e.closed ++ [pc.fd] } := by
  intro fd
  have hfd := h fd
  simp only [holders, owners, hpending, count_fd_middle, List.count_append] at hfd ⊢
  omega

theorem card_owners_update {connId : UInt8} (hfree : e.conns connId = none) (fd fd' : Nat) :
    (owners { e with conns := Function.update e.conns connId (some fd) } fd').card =
      (e.owners fd').card + [fd].count fd' := by
  by_cases hfd : fd = fd'
  · subst hfd
    have hset : owners { e with conns := Function.update e.conns connId (some fd) } fd =
        insert connId (e.owners fd) := by
      ext c
      by_cases hc : c = connId <;> simp [owners, Function.update_apply, hc]
    have hnew : connId ∉ e.owners fd := by simp [owners, hfree]
    rw [hset, Finset.card_insert_of_notMem hnew]
    simp
  · have hset : owners { e with conns := Function.update e.conns connId (some fd) } fd' =
        e.owners fd' := by
      ext c
      by_cases hc : c = connId
      · simp [owners, hc, hfd, hfree]
      · simp [owners, Function.update_apply, hc]
    rw [hset]
    simp [hfd]

/-- A waiting descriptor gets an entry of its own. -/
theorem Owned.emplace (h : e.Owned) {before behind : List PendingConn} {pc : PendingConn}
    (hpending : e.pendingExt = before ++ pc :: behind) {connId : UInt8}
    (hfree : e.conns connId = none) :
    (External.emplace { e with pendingExt := before ++ behind } connId pc.fd).Owned := by
  have hnone : ¬ (e.conns connId).isSome := by simp [hfree]
  intro fd
  have hfd := h fd
  have hcard := card_owners_update (e := { e with pendingExt := before ++ behind }) hfree pc.fd fd
  rw [External.emplace, if_neg hnone]
  simp only [holders, hpending, count_fd_middle] at hfd ⊢
  rw [hcard]
  simp only [owners] at hfd ⊢
  omega

theorem mem_owners {fd : Nat} {connId : UInt8} :
    connId ∈ e.owners fd ↔ e.conns connId = some fd := by
  simp [owners]

/-- When nothing waits, an accepted descriptor is closed or kept under exactly one id. -/
theorem Owned.settled (h : e.Owned) (hnodup : e.accepted.Nodup) (hnone : e.pendingExt = [])
    {fd : Nat} (hfd : fd ∈ e.accepted) :
    Xor (fd ∈ e.closed) (∃! connId, e.conns connId = some fd) := by
  have hone := List.count_eq_one_of_mem hnodup hfd
  have hheld := h fd
  rw [holders, hnone, List.map_nil, List.count_nil, hone] at hheld
  by_cases hclosed : fd ∈ e.closed
  · refine .inl ⟨hclosed, ?_⟩
    rintro ⟨connId, hkept, -⟩
    have hpos := List.count_pos_iff.mpr hclosed
    have hcard := Finset.card_pos.mpr ⟨connId, mem_owners.mpr hkept⟩
    omega
  · rw [List.count_eq_zero_of_not_mem hclosed] at hheld
    obtain ⟨connId, hsingle⟩ := Finset.card_eq_one.mp (show (e.owners fd).card = 1 by omega)
    have hmem : ∀ c, e.conns c = some fd ↔ c = connId := by
      intro c
      rw [← mem_owners, hsingle, Finset.mem_singleton]
    exact .inr ⟨⟨connId, (hmem connId).mpr rfl, fun c hc => (hmem c).mp hc⟩, hclosed⟩

end External

end PipelineTunnel.Client
