import PipelineTunnel.Server.Lifecycle

/-!
# What the handlers of targets leave alone

Opening, closing and announcing targets assigns no state and touches neither the table of
data connections nor the connections that wait for a slot.
-/

namespace PipelineTunnel.Lifecycle

open Protocol

/-- The core got neither a new state nor another table of connections. -/
structure Keeps (core core' : Core) : Prop where
  state : core'.state = core.state
  connections : core'.dataConnections = core.dataConnections
  reached : ∀ st, .became st ∈ core'.log → .became st ∈ core.log

/-- Nor did a connection come that waits for its slot, or stop waiting. -/
structure Frames (core core' : Core) : Prop extends Keeps core core' where
  waiting : core'.pendingDataConns = core.pendingDataConns

theorem Frames.refl (core : Core) : Frames core core := ⟨⟨rfl, rfl, fun _ => id⟩, rfl⟩

theorem Frames.trans {a b c : Core} (h : Frames a b) (h' : Frames b c) : Frames a c where
  state := h'.state.trans h.state
  connections := h'.connections.trans h.connections
  reached st hst := h.reached st (h'.reached st hst)
  waiting := h'.waiting.trans h.waiting

theorem frames_sendControl (core : Core) (pkt : Packet) : Frames core (core.sendControl pkt) :=
  ⟨⟨by simp, by simp, by simp⟩, by simp⟩

/-! ## Targets that close -/

theorem frames_closeTarget (core : Core) (connId : UInt8) : Frames core (closeTarget core connId) :=
  ⟨⟨rfl, rfl, fun _ => id⟩, rfl⟩

theorem frames_closeTargets (ids : List UInt8) (core : Core) :
    Frames core (ids.foldl closeTarget core) := by
  induction ids generalizing core with
  | nil => exact Frames.refl core
  | cons id ids ih => exact (frames_closeTarget core id).trans (ih _)

theorem frames_sendDisconnectNow (core : Core) (connId : UInt8) (sent : Bool) :
    Frames core (sendDisconnectNow core connId sent) := by
  unfold sendDisconnectNow
  split_ifs
  · exact Frames.refl core
  · exact frames_closeTarget core connId
  · exact (frames_closeTarget core connId).trans (frames_sendControl _ _)

theorem frames_handleDisconnect (core : Core) (pkt : Packet) :
    Frames core (handleDisconnect core pkt) := by
  unfold handleDisconnect
  split
  · exact Frames.refl core
  · exact ⟨⟨rfl, rfl, fun _ => id⟩, rfl⟩

/-! ## Targets that open -/

theorem frames_openTarget (core : Core) (connId : UInt8) (target : TargetConn) :
    Frames core (openTarget core connId target) :=
  ⟨⟨rfl, rfl, by simp [openTarget]⟩, rfl⟩

theorem frames_onTargetConnected (core : Core) (fd : Nat) (connId reqId : UInt8) :
    Frames core (onTargetConnected core fd connId reqId) := by
  refine Frames.trans ?_ (frames_sendControl _ _)
  refine Frames.trans ?_ (frames_openTarget _ _ _)
  exact ⟨⟨rfl, rfl, fun _ => id⟩, rfl⟩

theorem frames_setupTunnelTargetAsync (w : World) (core : Core) (addr : Bytes)
    (connId reqId : UInt8) : Frames core (setupTunnelTargetAsync w core addr connId reqId) := by
  unfold setupTunnelTargetAsync
  split_ifs
  · split
    · exact frames_sendControl core _
    · exact frames_onTargetConnected core _ connId reqId
    · exact ⟨⟨rfl, rfl, fun _ => id⟩, rfl⟩
  · exact frames_sendControl core _

theorem frames_handleConnectReq (w : World) (core : Core) (pkt : Packet) :
    Frames core (handleConnectReq w core pkt) := by
  have hcount : Frames core { core with attempts := core.attempts + 1 } :=
    ⟨⟨rfl, rfl, fun _ => id⟩, rfl⟩
  unfold handleConnectReq
  split
  · dsimp only
    split_ifs
    · exact Frames.refl core
    · exact hcount.trans (frames_sendControl _ _)
    · exact hcount.trans (frames_setupTunnelTargetAsync w _ _ _ _)
  · exact Frames.refl core

theorem frames_setupTunnelTarget (w : World) (core : Core) (addr : Bytes) (connId : UInt8) :
    Frames core (setupTunnelTarget w core addr connId) := by
  have hcount : Frames core { core with attempts := core.attempts + 1 } :=
    ⟨⟨rfl, rfl, fun _ => id⟩, rfl⟩
  unfold setupTunnelTarget
  split_ifs
  · split
    · exact hcount.trans (frames_openTarget _ _ _)
    · exact hcount
  · exact Frames.refl core

theorem frames_processPendingReconnectTargets (w : World) (core : Core) :
    Frames core (processPendingReconnectTargets w core) := by
  have hfold : ∀ (saved : List (UInt8 × Bytes)) (core : Core),
      Frames core (saved.foldl (reconnectTarget w) core) := by
    intro saved
    induction saved with
    | nil => exact Frames.refl
    | cons p saved ih =>
        intro core
        refine Frames.trans ?_ (ih _)
        unfold reconnectTarget
        split_ifs
        · exact Frames.refl core
        · exact frames_setupTunnelTarget w core p.2 p.1
  refine Frames.trans ?_ (hfold core.pendingReconnectTargets _)
  exact ⟨⟨rfl, rfl, fun _ => id⟩, rfl⟩

theorem frames_transmitReady (w : World) (core : Core) : Frames core (transmitReady w core) :=
  (frames_processPendingReconnectTargets w core).trans (frames_sendControl _ _)

theorem frames_checkReady (w : World) (core : Core) : Frames core (checkReady w core) := by
  unfold checkReady
  split_ifs
  · exact frames_transmitReady w core
  · exact Frames.refl core

/-! ## Targets under way -/

theorem frames_dropConnect (core : Core) (reqId : UInt8) (fd : Nat) :
    Frames core (dropConnect core reqId fd) :=
  ⟨⟨rfl, rfl, fun _ => id⟩, rfl⟩

theorem frames_handleConnectCancel (core : Core) (pkt : Packet) :
    Frames core (handleConnectCancel core pkt) := by
  unfold handleConnectCancel
  split
  · exact Frames.refl core
  · split
    · exact Frames.refl core
    · exact frames_dropConnect core _ _

theorem frames_connectDone (core : Core) (pending : PendingConnect) (ok : Bool) :
    Frames core (connectDone core pending ok) := by
  unfold connectDone
  cases ok with
  | true =>
      refine Frames.trans ?_ (frames_onTargetConnected _ _ _ _)
      exact ⟨⟨rfl, rfl, by simp⟩, rfl⟩
  | false =>
      refine Frames.trans ?_ (frames_sendControl _ _)
      exact ⟨⟨rfl, rfl, fun _ => id⟩, rfl⟩

theorem frames_connectTimeout (core : Core) (reqId : UInt8) :
    Frames core (connectTimeout core reqId) := by
  unfold connectTimeout
  cases core.pendingConnects reqId with
  | none => exact Frames.refl core
  | some pending => exact (frames_dropConnect core reqId pending.fd).trans (frames_sendControl _ _)

end PipelineTunnel.Lifecycle
