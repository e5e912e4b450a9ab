import PipelineTunnel.Lib.StepSystem
import PipelineTunnel.Server.AuthGate

/-!
# When a disconnected session stays disconnected

`on_data` tests `state_` before it calls a handler, `apply_control` and
`process_wire_buffer` do not. A session that became `DISCONNECTED` stays so, without a new
chain or target, as long as nothing reaches these two that only the test would stop.
-/

namespace PipelineTunnel.Lifecycle

open Protocol Control StepSystem
open Server (State readModules)

/-- Bringing a session back to life: a state it left, a chain or a target. -/
def Trace.Revives : Trace → Prop
  | .became st => st = .running ∨ st = .awaitChainCreate
  | .chainCreated => True
  | .targetOpened _ => True
  | _ => False

instance (t : Trace) : Decidable t.Revives := by
  cases t <;> unfold Trace.Revives <;> infer_instance

/-- Nothing after an assignment of `DISCONNECTED` revives the session. -/
def Final (log : List Trace) : Prop :=
  log.Pairwise fun a b => a = .became .disconnected → ¬ b.Revives

instance (log : List Trace) : Decidable (Final log) :=
  inferInstanceAs (Decidable (log.Pairwise _))

/-! ## What has to stay away -/

/-- `MSG_CHAIN_CREATE` with at least its count. -/
def CreatesChain (pkt : Packet) : Prop := pkt.type = MSG_CHAIN_CREATE ∧ pkt.payload ≠ []

/-- `MSG_CONNECT_REQ` that is long enough and names a host and a port. -/
def RequestsTarget (pkt : Packet) : Prop :=
  pkt.type = MSG_CONNECT_REQ ∧
    match pkt.payload with
    | _ :: addrLen :: rest => addrLen.toNat ≤ rest.length ∧ COLON ∈ rest.take addrLen.toNat
    | _ => False

/-- A message that a handler answers with `DISCONNECTED`. -/
def Rejected (w : World) (pkt : Packet) : Prop :=
  match pkt.payload with
  | count :: rest =>
      pkt.type = MSG_MODULE_LIST_REQ ∧ count.toNat * 32 ≤ rest.length ∧
          missingModules w count.toNat rest ≠ [] ∨
        pkt.type = MSG_CHAIN_CREATE ∧
          MAX_WIRE_CONNECTIONS < w.extraOutputs (readModules count.toNat rest)
  | [] => False

/-- No message is dispatched and no connect succeeds that a test of `state_` would have
stopped, and nothing behind the packet that ends the authentication is rejected. -/
structure Gated (w : World) (log : List Trace) : Prop where
  control : ∀ pkt, .control .disconnected pkt ∈ log → ¬ CreatesChain pkt ∧ ¬ RequestsTarget pkt
  completed : .completed .disconnected ∉ log
  switched : ∀ pkts, .switched pkts ∈ log → ∀ pkt ∈ pkts, ¬ Rejected w pkt

theorem Gated.of_append {w : World} {log seg : List Trace} (h : Gated w (log ++ seg)) :
    Gated w log where
  control pkt hpkt := h.control pkt (List.mem_append_left seg hpkt)
  completed hmem := h.completed (List.mem_append_left seg hmem)
  switched pkts hpkts := h.switched pkts (List.mem_append_left seg hpkts)

/-! ## What a step adds to the log -/

/-- A segment of the log from state `st` to state `st'`. -/
structure Kept (st st' : State) (seg : List Trace) : Prop where
  final : Final seg
  stays : st = .disconnected ∨ .became .disconnected ∈ seg → st' = .disconnected
  gated : st = .disconnected → ∀ t ∈ seg, ¬ t.Revives

theorem final_of_forall {seg : List Trace} (h : ∀ t ∈ seg, ¬ t.Revives) : Final seg :=
  List.pairwise_of_forall_mem_list fun _ _ b hb _ => h b hb

theorem final_of_not_mem {seg : List Trace} (h : .became .disconnected ∉ seg) : Final seg := by
  refine List.pairwise_of_forall_mem_list fun a ha b _ heq => ?_
  exact absurd (heq ▸ ha) h

theorem Kept.trans {st₁ st₂ st₃ : State} {seg₁ seg₂ : List Trace} (h₁ : Kept st₁ st₂ seg₁)
    (h₂ : Kept st₂ st₃ seg₂) : Kept st₁ st₃ (seg₁ ++ seg₂) where
  final := by
    refine List.pairwise_append.mpr ⟨h₁.final, h₂.final, fun a ha b hb heq => ?_⟩
    exact h₂.gated (h₁.stays (Or.inr (heq ▸ ha))) b hb
  stays h := by
    rcases h with h | h
    · exact h₂.stays (Or.inl (h₁.stays (Or.inl h)))
    · rcases List.mem_append.mp h with h | h
      · exact h₂.stays (Or.inl (h₁.stays (Or.inr h)))
      · exact h₂.stays (Or.inr h)
  gated h t ht := by
    rcases List.mem_append.mp ht with ht | ht
    · exact h₁.gated h t ht
    · exact h₂.gated (h₁.stays (Or.inl h)) t ht

/-- A segment that neither disconnects nor revives. -/
theorem Kept.inert {st : State} {seg : List Trace}
    (h : ∀ t ∈ seg, t ≠ .became .disconnected ∧ ¬ t.Revives) : Kept st st seg where
  final := final_of_forall fun t ht => (h t ht).2
  stays hst := hst.elim id fun hmem => absurd rfl (h _ hmem).1
  gated _ t ht := (h t ht).2

/-- A segment of a session that is not disconnected and does not become so. -/
theorem Kept.alive {st st' : State} {seg : List Trace} (hst : st ≠ .disconnected)
    (hseg : .became .disconnected ∉ seg) : Kept st st' seg where
  final := final_of_not_mem hseg
  stays h := absurd h (not_or.mpr ⟨hst, hseg⟩)
  gated h := absurd h hst

/-! ## Targets are never reopened -/

/-- An address without a port: `setup_tunnel_target` refuses it. -/
def Unusable (saved : List (UInt8 × Bytes)) : Prop := ∀ p ∈ saved, COLON ∉ p.2

/-- `on_target_connected` keeps no address, so no target has one that could be used again. -/
structure Plain (core : Core) : Prop where
  targets : ∀ c t, core.targets c = some t → COLON ∉ t.addr
  pending : Unusable core.pendingReconnectTargets

theorem Plain.init : Plain {} :=
  ⟨by simp, by simp [Unusable]⟩

theorem Plain.openTarget {core : Core} (h : Plain core) (connId : UInt8) (fd : Nat) :
    Plain (openTarget core connId ⟨fd, []⟩) := by
  refine ⟨fun c t ht => ?_, h.pending⟩
  by_cases hc : c = connId
  · subst hc
    have heq : (⟨fd, []⟩ : TargetConn) = t := by
      simpa [Lifecycle.openTarget, Core.note] using ht
    simp [← heq]
  · apply h.targets c t
    simpa [Lifecycle.openTarget, Core.note, Function.update_of_ne hc] using ht

theorem Plain.closeTarget {core : Core} (h : Plain core) (connId : UInt8) :
    Plain (closeTarget core connId) := by
  refine ⟨fun c t ht => ?_, h.pending⟩
  by_cases hc : c = connId
  · subst hc
    simp [Lifecycle.closeTarget] at ht
  · apply h.targets c t
    simpa [Lifecycle.closeTarget, Function.update_of_ne hc] using ht

theorem Plain.targetList {core : Core} (h : Plain core) : Unusable (targetList core) := by
  intro p hp
  obtain ⟨i, -, hi⟩ := List.mem_filterMap.mp hp
  obtain ⟨t, ht, rfl⟩ := Option.map_eq_some_iff.mp hi
  exact h.targets _ t ht

theorem processPendingReconnectTargets_of_unusable (w : World) {core : Core}
    (h : Unusable core.pendingReconnectTargets) :
    processPendingReconnectTargets w core = { core with pendingReconnectTargets := [] } := by
  have hfold : ∀ (saved : List (UInt8 × Bytes)) (core : Core), Unusable saved →
      saved.foldl (reconnectTarget w) core = core := by
    intro saved
    induction saved with
    | nil => exact fun _ _ => rfl
    | cons p saved ih =>
        intro core hsaved
        have hp : reconnectTarget w core p = core := by
          simp [reconnectTarget, setupTunnelTarget, hsaved p List.mem_cons_self]
        rw [List.foldl_cons, hp]
        exact ih core fun q hq => hsaved q (List.mem_cons_of_mem p hq)
  exact hfold _ _ h

/-! ## Handlers that change neither the state nor the log -/

structure Inert (core core' : Core) : Prop where
  plain : Plain core'
  log : core'.log = core.log
  state : core'.state = core.state

section Inert

variable {w : World} {core core' : Core}

theorem Inert.trans {core'' : Core} (h : Inert core core') (h' : Inert core' core'') :
    Inert core core'' :=
  ⟨h'.plain, h'.log.trans h.log, h'.state.trans h.state⟩

theorem Inert.refl (hplain : Plain core) : Inert core core := ⟨hplain, rfl, rfl⟩

theorem inert_sendControl (hplain : Plain core) (pkt : Packet) :
    Inert core (core.sendControl pkt) := by
  obtain ⟨sent, h⟩ := core.sendControl_eq pkt
  rw [h]
  exact ⟨⟨hplain.targets, hplain.pending⟩, rfl, rfl⟩

theorem inert_processPendingReconnectTargets (w : World) (hplain : Plain core) :
    Inert core (processPendingReconnectTargets w core) := by
  rw [processPendingReconnectTargets_of_unusable w hplain.pending]
  exact ⟨⟨hplain.targets, by simp [Unusable]⟩, rfl, rfl⟩

theorem inert_transmitReady (w : World) (hplain : Plain core) :
    Inert core (transmitReady w core) := by
  have h := inert_processPendingReconnectTargets w hplain
  exact h.trans (inert_sendControl h.plain _)

theorem inert_checkReady (w : World) (hplain : Plain core) : Inert core (checkReady w core) := by
  unfold checkReady
  split_ifs
  · exact inert_transmitReady w hplain
  · exact .refl hplain

theorem inert_processPendingDataConns (w : World) (hplain : Plain core) :
    Inert core (processPendingDataConns w core) := by
  have h : Inert core
      { core with
        dataConnections := core.pendingDataConns.foldl attachPending core.dataConnections
        pendingDataConns := [] } :=
    ⟨⟨hplain.targets, hplain.pending⟩, rfl, rfl⟩
  exact h.trans (inert_checkReady w h.plain)

theorem inert_addDataConnection (w : World) (hplain : Plain core) (outputIdx : UInt8)
    (fd : Nat) : Inert core (addDataConnection w core outputIdx fd) := by
  unfold addDataConnection
  split_ifs
  · exact ⟨⟨hplain.targets, hplain.pending⟩, rfl, rfl⟩
  · have h : Inert core
        { core with
          dataConnections := core.dataConnections.modify outputIdx.toNat fun dc =>
            dc.attach fd } :=
      ⟨⟨hplain.targets, hplain.pending⟩, rfl, rfl⟩
    exact h.trans (inert_checkReady w h.plain)

theorem inert_announceChain (w : World) (hplain : Plain core) (extra : Nat) :
    Inert core (announceChain w core extra) := by
  have h₁ := inert_processPendingDataConns w hplain
  by_cases hzero : extra = 0
  · subst hzero
    have h₂ := h₁.trans (inert_sendControl h₁.plain (chainReady w))
    rw [announceChain, if_neg (lt_irrefl 0), if_pos rfl]
    exact h₂.trans (inert_transmitReady w h₂.plain)
  · have h₂ := h₁.trans (inert_checkReady w h₁.plain)
    rw [announceChain, if_pos (Nat.pos_of_ne_zero hzero), if_neg hzero]
    exact h₂.trans (inert_sendControl h₂.plain (chainReady w))

theorem inert_dropConnect (hplain : Plain core) (reqId : UInt8) (fd : Nat) :
    Inert core (dropConnect core reqId fd) :=
  ⟨⟨hplain.targets, hplain.pending⟩, rfl, rfl⟩

theorem inert_handleConnectCancel (hplain : Plain core) (pkt : Packet) :
    Inert core (handleConnectCancel core pkt) := by
  unfold handleConnectCancel
  split
  · exact .refl hplain
  · split
    · exact .refl hplain
    · exact inert_dropConnect hplain _ _

theorem inert_handleDisconnect (hplain : Plain core) (pkt : Packet) :
    Inert core (handleDisconnect core pkt) := by
  unfold handleDisconnect
  split
  · exact .refl hplain
  · exact ⟨⟨hplain.targets, hplain.pending⟩, rfl, rfl⟩

theorem inert_connectTimeout (hplain : Plain core) (reqId : UInt8) :
    Inert core (connectTimeout core reqId) := by
  unfold connectTimeout
  split
  · exact .refl hplain
  · rename_i pending _
    have h := inert_dropConnect hplain reqId pending.fd
    exact h.trans (inert_sendControl h.plain _)

theorem inert_closeTarget (hplain : Plain core) (connId : UInt8) :
    Inert core (closeTarget core connId) :=
  ⟨hplain.closeTarget connId, rfl, rfl⟩

theorem inert_sendDisconnectNow (hplain : Plain core) (connId : UInt8) (sent : Bool) :
    Inert core (sendDisconnectNow core connId sent) := by
  have h := inert_closeTarget hplain connId
  unfold sendDisconnectNow
  split_ifs
  · exact .refl hplain
  · exact h
  · exact h.trans (inert_sendControl h.plain _)

theorem inert_closeTargets (hplain : Plain core) (ids : List UInt8) :
    Inert core (ids.foldl closeTarget core) := by
  induction ids generalizing core with
  | nil => exact .refl hplain
  | cons id ids ih =>
      have h := inert_closeTarget hplain id
      exact h.trans (ih h.plain)

end Inert

/-! ## What a message can do -/

/-- The outcomes of a handler; the log is the one before it. -/
inductive Outcome (w : World) (core : Core) (pkt : Packet) (core' : Core) : Prop where
  | inert (log : core'.log = core.log) (state : core'.state = core.state)
  | opened (request : RequestsTarget pkt) (connId : UInt8)
      (log : core'.log = core.log ++ [.targetOpened connId]) (state : core'.state = core.state)
  | rejected (rejected : Rejected w pkt) (log : core'.log = core.log ++ [.became .disconnected])
      (state : core'.state = .disconnected)
  | chainRejected (rejected : Rejected w pkt) (creates : CreatesChain pkt)
      (log : core'.log = core.log ++ [.chainCreated, .became .disconnected])
      (state : core'.state = .disconnected)
  | started (creates : CreatesChain pkt)
      (log : core'.log = core.log ++ [.chainCreated, .became .running])
      (state : core'.state = .running)

theorem Inert.outcome {w : World} {core core' : Core} {pkt : Packet} (h : Inert core core') :
    Plain core' ∧ Outcome w core pkt core' :=
  ⟨h.plain, .inert h.log h.state⟩

section Outcomes

variable {w : World} {core : Core} {pkt : Packet}

theorem onTargetConnected_effect (hplain : Plain core) (fd : Nat) (connId reqId : UInt8) :
    Plain (onTargetConnected core fd connId reqId) ∧
      (onTargetConnected core fd connId reqId).log = core.log ++ [.targetOpened connId] ∧
      (onTargetConnected core fd connId reqId).state = core.state := by
  have h : Plain
      { core with pendingConnects := Function.update core.pendingConnects reqId none } :=
    ⟨hplain.targets, hplain.pending⟩
  have hsend := inert_sendControl (h.openTarget connId fd) ⟨MSG_CONNECT_OK, [connId, reqId]⟩
  exact ⟨hsend.plain, hsend.log, hsend.state⟩

theorem setupTunnelTargetAsync_effect (hplain : Plain core) (addr : Bytes) (connId reqId : UInt8) :
    Plain (setupTunnelTargetAsync w core addr connId reqId) ∧
      (setupTunnelTargetAsync w core addr connId reqId).state = core.state ∧
      ((setupTunnelTargetAsync w core addr connId reqId).log = core.log ∨
        COLON ∈ addr ∧
          (setupTunnelTargetAsync w core addr connId reqId).log =
            core.log ++ [.targetOpened connId]) := by
  have hfail := inert_sendControl hplain ⟨MSG_CONNECT_FAIL, [connId, reqId]⟩
  unfold setupTunnelTargetAsync
  by_cases hcolon : COLON ∈ addr
  · rw [if_neg (not_not.mpr hcolon)]
    split
    · exact ⟨hfail.plain, hfail.state, Or.inl hfail.log⟩
    · obtain ⟨h, hlog, hst⟩ := onTargetConnected_effect hplain _ connId reqId
      exact ⟨h, hst, Or.inr ⟨hcolon, hlog⟩⟩
    · exact ⟨⟨hplain.targets, hplain.pending⟩, rfl, Or.inl rfl⟩
  · rw [if_pos hcolon]
    exact ⟨hfail.plain, hfail.state, Or.inl hfail.log⟩

theorem handleConnectReq_outcome (hplain : Plain core) (htype : pkt.type = MSG_CONNECT_REQ) :
    Plain (handleConnectReq w core pkt) ∧ Outcome w core pkt (handleConnectReq w core pkt) := by
  unfold handleConnectReq
  split
  · rename_i reqId addrLen rest hpayload
    dsimp only
    split_ifs with hlen hnone
    · exact (Inert.refl hplain).outcome
    · have h : Inert core { core with attempts := core.attempts + 1 } :=
        ⟨⟨hplain.targets, hplain.pending⟩, rfl, rfl⟩
      exact (h.trans (inert_sendControl h.plain _)).outcome
    · have h : Plain { core with attempts := core.attempts + 1 } :=
        ⟨hplain.targets, hplain.pending⟩
      obtain ⟨hplain', hst, hlog | ⟨hcolon, hlog⟩⟩ :=
        setupTunnelTargetAsync_effect (w := w) h (rest.take addrLen.toNat) (allocConnId w core) reqId
      · exact ⟨hplain', .inert hlog hst⟩
      · refine ⟨hplain', .opened ⟨htype, ?_⟩ _ hlog hst⟩
        rw [hpayload]
        exact ⟨Nat.not_lt.mp hlen, hcolon⟩
  · exact (Inert.refl hplain).outcome

theorem handleModuleListReq_outcome (hplain : Plain core)
    (htype : pkt.type = MSG_MODULE_LIST_REQ) :
    Plain (handleModuleListReq w core pkt) ∧
      Outcome w core pkt (handleModuleListReq w core pkt) := by
  unfold handleModuleListReq
  split
  · exact (Inert.refl hplain).outcome
  · rename_i count mids hpayload
    dsimp only
    split_ifs with hlen hmissing
    · exact (Inert.refl hplain).outcome
    · exact (inert_sendControl hplain _).outcome
    · have h := inert_sendControl hplain (moduleListFail (missingModules w count.toNat mids))
      refine ⟨⟨h.plain.targets, h.plain.pending⟩, .rejected ?_ (by simp) rfl⟩
      rw [Rejected, hpayload]
      exact Or.inl ⟨htype, Nat.not_lt.mp hlen, hmissing⟩

theorem startChain_effect (hplain : Plain core) (extra : Nat) :
    Plain (startChain w core extra) ∧
      (startChain w core extra).log = core.log ++ [.became .running] ∧
      (startChain w core extra).state = .running := by
  let core₁ : Core := { core.become .running with
    totalExtraOutputs := extra
    dataConnections := growConnections core.dataConnections (1 + extra) }
  have h₁ : Plain core₁ := ⟨hplain.targets, hplain.pending⟩
  have h := inert_announceChain w h₁ extra
  exact ⟨h.plain, h.log, h.state⟩

theorem handleChainCreate_outcome (hplain : Plain core) (htype : pkt.type = MSG_CHAIN_CREATE) :
    Plain (handleChainCreate w core pkt) ∧ Outcome w core pkt (handleChainCreate w core pkt) := by
  unfold handleChainCreate
  split
  · exact (Inert.refl hplain).outcome
  · rename_i count rest hpayload
    have hcreates : CreatesChain pkt := ⟨htype, by simp [hpayload]⟩
    dsimp only
    split_ifs with hmax
    · refine ⟨⟨hplain.targets, hplain.pending⟩, .chainRejected ?_ hcreates (by simp) rfl⟩
      rw [Rejected, hpayload]
      exact Or.inr ⟨htype, hmax⟩
    · obtain ⟨h, hlog, hst⟩ := startChain_effect (w := w)
        (⟨hplain.targets, hplain.pending⟩ : Plain ({ core with chain := true }.note .chainCreated))
        (w.extraOutputs (readModules count.toNat rest))
      exact ⟨h, .started hcreates (hlog.trans (by simp)) hst⟩

/-- One message through `apply_control` or `process_wire_buffer`. -/
theorem applyControl_outcome (hplain : Plain core) :
    Plain (applyControl w core pkt) ∧
      Outcome w (core.note (.control core.state pkt)) pkt (applyControl w core pkt) := by
  have h : Plain (core.note (.control core.state pkt)) := ⟨hplain.targets, hplain.pending⟩
  unfold applyControl
  dsimp only
  split_ifs with hreq hcancel hdisc hlist hcreate
  · exact handleConnectReq_outcome h hreq
  · exact (inert_handleConnectCancel h pkt).outcome
  · exact (inert_handleDisconnect h pkt).outcome
  · exact handleModuleListReq_outcome h hlist
  · exact handleChainCreate_outcome h hcreate
  · exact (Inert.refl h).outcome

end Outcomes

/-! ## From one core to a later one -/

/-- The log has grown by a segment that, if the log is gated, keeps the session disconnected
once it is. -/
structure Follows (w : World) (core core' : Core) : Prop where
  plain : Plain core'
  grows : ∃ seg, core'.log = core.log ++ seg ∧
    (Gated w core'.log → Kept core.state core'.state seg)

section Follows

variable {w : World} {core core' : Core}

theorem Follows.trans {core'' : Core} (h : Follows w core core') (h' : Follows w core' core'') :
    Follows w core core'' := by
  obtain ⟨seg, hlog, hkept⟩ := h.grows
  obtain ⟨seg', hlog', hkept'⟩ := h'.grows
  refine ⟨h'.plain, seg ++ seg', by rw [hlog', hlog, List.append_assoc], fun hgated => ?_⟩
  have hbefore : Gated w core'.log := by
    rw [hlog'] at hgated
    exact hgated.of_append
  exact (hkept hbefore).trans (hkept' hgated)

theorem Inert.follows (h : Inert core core') : Follows w core core' := by
  refine ⟨h.plain, [], by simpa using h.log, fun _ => ?_⟩
  rw [h.state]
  exact Kept.inert (by simp)

theorem Follows.refl (hplain : Plain core) : Follows w core core := (Inert.refl hplain).follows

theorem follows_note (hplain : Plain core) {t : Trace}
    (ht : t ≠ .became .disconnected ∧ ¬ t.Revives) : Follows w core (core.note t) :=
  ⟨⟨hplain.targets, hplain.pending⟩, [t], rfl, fun _ => Kept.inert (by simpa using ht)⟩

theorem follows_become (hplain : Plain core) {st : State}
    (hst : core.state = .disconnected → st = .disconnected) :
    Follows w core (core.become st) := by
  refine ⟨⟨hplain.targets, hplain.pending⟩, [.became st], rfl, fun _ => ⟨?_, ?_, ?_⟩⟩
  · exact List.pairwise_singleton _ _
  · rintro (h | h)
    · exact hst h
    · simpa [eq_comm] using h
  · intro h t ht
    obtain rfl := List.mem_singleton.mp ht
    rw [hst h]
    simp [Trace.Revives]

/-- A handler that is called in no state it would revive the session from. -/
theorem Outcome.follows {pkt : Packet} (h : Plain core' ∧ Outcome w core pkt core')
    (hgate : Gated w core'.log → core.state = .disconnected →
      ¬ CreatesChain pkt ∧ ¬ RequestsTarget pkt) : Follows w core core' := by
  obtain ⟨hplain, hout⟩ := h
  cases hout with
  | inert log state => exact (Inert.mk hplain log state).follows
  | opened request connId log state =>
      refine ⟨hplain, _, log, fun hgated => ?_⟩
      have hst : core.state ≠ .disconnected := fun hst => (hgate hgated hst).2 request
      exact Kept.alive hst (by simp)
  | rejected _ log state =>
      refine ⟨hplain, _, log, fun _ => ⟨?_, fun _ => state, ?_⟩⟩
      · exact List.pairwise_singleton _ _
      · simp [Trace.Revives]
  | chainRejected _ creates log state =>
      refine ⟨hplain, _, log, fun hgated => ?_⟩
      have hst : core.state ≠ .disconnected := fun hst => (hgate hgated hst).1 creates
      exact ⟨by decide, fun _ => state, fun h => absurd h hst⟩
  | started creates log state =>
      refine ⟨hplain, _, log, fun hgated => ?_⟩
      have hst : core.state ≠ .disconnected := fun hst => (hgate hgated hst).1 creates
      exact Kept.alive hst (by simp)

theorem Outcome.grows {pkt : Packet} (h : Outcome w core pkt core') :
    ∃ seg, core'.log = core.log ++ seg := by
  cases h with
  | inert log => exact ⟨[], by simpa using log⟩
  | opened _ _ log | rejected _ log | chainRejected _ _ log | started _ log => exact ⟨_, log⟩

theorem follows_applyControl (hplain : Plain core) (pkt : Packet) :
    Follows w core (applyControl w core pkt) := by
  have hnote : Follows w core (core.note (.control core.state pkt)) :=
    follows_note hplain ⟨by simp, by simp [Trace.Revives]⟩
  have hout : Plain (applyControl w core pkt) ∧
      Outcome w (core.note (.control core.state pkt)) pkt (applyControl w core pkt) :=
    applyControl_outcome hplain
  refine hnote.trans (Outcome.follows hout fun hgated hst => hgated.control pkt ?_)
  obtain ⟨seg, hlog⟩ := hout.2.grows
  have hst' : core.state = .disconnected := hst
  rw [hlog]
  simp [hst']

theorem follows_processWireBuffer (hplain : Plain core) (data : Bytes) :
    Follows w core (processWireBuffer w core data) := by
  unfold processWireBuffer
  generalize leftoverPackets data = pkts
  induction pkts generalizing core with
  | nil => exact .refl hplain
  | cons pkt pkts ih =>
      have h := follows_applyControl (w := w) hplain pkt
      exact h.trans (ih h.plain)

/-- A session that is not disconnected and has not become so on the way. -/
structure Lives (core core' : Core) : Prop where
  plain : Plain core'
  state : core'.state ≠ .disconnected
  grows : ∃ seg, core'.log = core.log ++ seg ∧ .became .disconnected ∉ seg

theorem Lives.trans {core'' : Core} (h : Lives core core') (h' : Lives core' core'') :
    Lives core core'' := by
  obtain ⟨seg, hlog, hseg⟩ := h.grows
  obtain ⟨seg', hlog', hseg'⟩ := h'.grows
  refine ⟨h'.plain, h'.state, seg ++ seg', by rw [hlog', hlog, List.append_assoc], ?_⟩
  simp [hseg, hseg']

/-- Only a rejected message disconnects. -/
theorem lives_applyControl (hplain : Plain core) (hst : core.state ≠ .disconnected)
    {pkt : Packet} (hpkt : ¬ Rejected w pkt) : Lives core (applyControl w core pkt) := by
  have hout : Plain (applyControl w core pkt) ∧
      Outcome w (core.note (.control core.state pkt)) pkt (applyControl w core pkt) :=
    applyControl_outcome hplain
  obtain ⟨hplain', hout⟩ := hout
  cases hout with
  | inert log state =>
      exact ⟨hplain', fun h => hst (state.symm.trans h), [.control core.state pkt], log, by simp⟩
  | opened _ connId log state =>
      exact ⟨hplain', fun h => hst (state.symm.trans h),
        [.control core.state pkt, .targetOpened connId], by simpa using log, by simp⟩
  | rejected hrej => exact absurd hrej hpkt
  | chainRejected hrej => exact absurd hrej hpkt
  | started _ log state =>
      exact ⟨hplain', by simp [state],
        [.control core.state pkt, .chainCreated, .became .running], by simpa using log, by simp⟩

theorem lives_foldl (hplain : Plain core) (hst : core.state ≠ .disconnected)
    {pkts : List Packet} (hpkts : ∀ pkt ∈ pkts, ¬ Rejected w pkt) :
    Lives core (pkts.foldl (applyControl w) core) := by
  induction pkts generalizing core with
  | nil => exact ⟨hplain, hst, [], by simp, by simp⟩
  | cons pkt pkts ih =>
      have h := lives_applyControl hplain hst (hpkts pkt List.mem_cons_self)
      exact h.trans (ih h.plain h.state fun p hp => hpkts p (List.mem_cons_of_mem pkt hp))

theorem follows_connectDone (hplain : Plain core) (pending : PendingConnect) (ok : Bool) :
    Follows w core (connectDone core pending ok) := by
  have hplain₁ : Plain { core with connecting := core.connecting.erase pending } :=
    ⟨hplain.targets, hplain.pending⟩
  unfold connectDone
  dsimp only
  split_ifs
  · have hnoted : Plain ({ core with connecting := core.connecting.erase pending }.note
        (.completed core.state)) := ⟨hplain.targets, hplain.pending⟩
    obtain ⟨h, hlog, hst⟩ :=
      onTargetConnected_effect hnoted pending.fd pending.connId pending.reqId
    refine ⟨h, [.completed core.state, .targetOpened pending.connId], by simpa using hlog,
      fun hgated => ?_⟩
    have hne : core.state ≠ .disconnected := by
      intro hdisc
      apply hgated.completed
      rw [hlog]
      simp [hdisc]
    exact Kept.alive hne (by simp)
  · have hdrop : Inert core { core with connecting := core.connecting.erase pending } :=
      ⟨hplain₁, rfl, rfl⟩
    have h := hdrop.trans (inert_dropConnect hdrop.plain pending.reqId pending.fd)
    exact (h.trans (inert_sendControl h.plain _)).follows

end Follows

/-! ## The session -/

/-- From one session to a later one. -/
structure Moves (w : World) (s s' : Session) : Prop where
  core : Follows w s.core s'.core
  saved : Unusable s'.savedTargets

section Moves

variable {w : World} {reconnects : UInt64 → Bool} {s s' : Session}

theorem Moves.trans {s'' : Session} (h : Moves w s s') (h' : Moves w s' s'') : Moves w s s'' :=
  ⟨h.core.trans h'.core, h'.saved⟩

theorem Moves.refl (hplain : Plain s.core) (hsaved : Unusable s.savedTargets) : Moves w s s :=
  ⟨.refl hplain, hsaved⟩

theorem switchToWire_log (s : Session) :
    (switchToWire s).log = s.core.log ++ [.switched (leftoverPackets s.recvBuf)] := rfl

/-- The packet that ends the authentication. The state is assigned last, so a session that a
message behind the packet disconnected would come back. -/
theorem follows_handleAuth2Response (hplain : Plain s.core)
    (hst : s.core.state = .awaitAuth2Response) (pkt : Packet) :
    Follows w s.core (handleAuth2Response w s pkt).core := by
  unfold handleAuth2Response
  split_ifs
  · have hplain₁ : Plain (switchToWire s) := ⟨hplain.targets, hplain.pending⟩
    have hwire := follows_processWireBuffer (w := w) hplain₁ s.recvBuf
    obtain ⟨seg, hlog, -⟩ := hwire.grows
    refine ⟨⟨hwire.plain.targets, hwire.plain.pending⟩,
      [.switched (leftoverPackets s.recvBuf)] ++ seg ++ [.became .awaitChainCreate], ?_, ?_⟩
    · change (processWireBuffer w (switchToWire s) s.recvBuf).log ++ _ = _
      simp [hlog, switchToWire_log]
    · intro hgated
      have hmem : .switched (leftoverPackets s.recvBuf) ∈
          ((processWireBuffer w (switchToWire s) s.recvBuf).become .awaitChainCreate).log := by
        simp [hlog, switchToWire_log]
      have hlives : Lives (switchToWire s) (processWireBuffer w (switchToWire s) s.recvBuf) :=
        lives_foldl hplain₁ (by simp [switchToWire, hst]) (hgated.switched _ hmem)
      obtain ⟨seg', hlog', hseg'⟩ := hlives.grows
      obtain rfl : seg = seg' := List.append_cancel_left (hlog.symm.trans hlog')
      exact Kept.alive (by simp [hst]) (by simp [hseg'])
  · exact follows_become hplain (by simp)

/-- `MSG_RECONNECT` leaves the session as it is or disconnects it. -/
theorem moves_handleReconnect (hplain : Plain s.core) (hsaved : Unusable s.savedTargets)
    (pkt : Packet) : Moves w s (handleReconnect w reconnects s pkt) := by
  unfold handleReconnect
  split_ifs
  · exact ⟨.refl hplain, hsaved⟩
  · exact ⟨follows_become hplain fun _ => rfl, hsaved⟩
  · exact ⟨follows_become hplain fun _ => rfl, hsaved⟩
  · exact ⟨.refl hplain, hsaved⟩

/-- A handler of a state that is not `DISCONNECTED`. -/
theorem moves_become (hplain : Plain s.core) (hsaved : Unusable s.savedTargets) {st : State}
    (hst : s.core.state ≠ .disconnected) (pkt : Packet) :
    Moves w s ((s.sendPacket pkt).become st) :=
  ⟨follows_become hplain fun h => absurd h hst, hsaved⟩

theorem moves_handleAuth2Response (hplain : Plain s.core) (hsaved : Unusable s.savedTargets)
    (hst : s.core.state = .awaitAuth2Response) (pkt : Packet) :
    Moves w s (handleAuth2Response w s pkt) := by
  refine ⟨follows_handleAuth2Response hplain hst pkt, ?_⟩
  unfold handleAuth2Response
  split_ifs
  · exact hsaved
  · exact hsaved

theorem Dispatched.moves (h : Dispatched w reconnects s pkt s') (hplain : Plain s.core)
    (hsaved : Unusable s.savedTargets) : Moves w s s' := by
  have halive : ∀ {core : Core}, s.core.state ≠ .disconnected →
      Plain core ∧ Outcome w s.core pkt core → Moves w s (s.setCore core) := by
    intro core hst hout
    exact ⟨Outcome.follows hout fun _ h => absurd h hst, hsaved⟩
  cases h with
  | ignored => exact .refl hplain hsaved
  | authChallengeResponse hst =>
      unfold handleAuthChallengeResponse
      split_ifs
      · exact moves_become hplain hsaved (by simp [hst]) _
      · exact moves_become hplain hsaved (by simp [hst]) _
  | auth2Response hst => exact moves_handleAuth2Response hplain hsaved hst pkt
  | auth2Challenge hst => exact moves_become hplain hsaved (by simp [hst]) _
  | reconnect hst => exact moves_handleReconnect hplain hsaved pkt
  | connectReq htype hst =>
      exact halive (by rcases hst with h | h <;> simp [h]) (handleConnectReq_outcome hplain htype)
  | chainCreate htype hst =>
      exact halive (by simp [hst]) (handleChainCreate_outcome hplain htype)
  | disconnect hst => exact ⟨(inert_handleDisconnect hplain pkt).follows, hsaved⟩
  | connectCancel hst => exact ⟨(inert_handleConnectCancel hplain pkt).follows, hsaved⟩

theorem Moves.setRecvBuf (h : Moves w s s') (buf : Bytes) :
    Moves w s { s' with recvBuf := buf } :=
  ⟨h.core, h.saved⟩

theorem moves_onData (hplain : Plain s.core) (hsaved : Unusable s.savedTargets) (data : Bytes) :
    Moves w s (onData w reconnects s data) := by
  have hstart : Moves w s s := .refl hplain hsaved
  unfold onData
  split_ifs
  · refine (authLoop w reconnects).receive_invariant (I := Moves w s)
      (fun _ buf h => h.setRecvBuf buf) (fun s₁ pkt h => ?_) hstart data
    exact h.trans ((dispatched_onAuthPacket w reconnects s₁ pkt).moves h.core.plain h.saved)
  · exact hstart
  · refine (wireLoop w reconnects).receive_invariant (I := Moves w s)
      (fun _ buf h => h.setRecvBuf buf) (fun s₁ pkt h => ?_) hstart data
    exact h.trans ((dispatched_onWirePacket w reconnects s₁ pkt).moves h.core.plain h.saved)

theorem moves_onDisconnect (hplain : Plain s.core) (hsaved : Unusable s.savedTargets) :
    Moves w s (onDisconnect s) := by
  unfold onDisconnect
  split_ifs
  · exact .refl hplain hsaved
  · have h : Inert s.core { s.core with
        targets := fun _ => none
        dataConnections := s.core.dataConnections.map DataConnection.close } :=
      ⟨⟨by simp, hplain.pending⟩, rfl, rfl⟩
    exact ⟨h.follows, hplain.targetList⟩

theorem moves_reconnect (hplain : Plain s.core) (hsaved : Unusable s.savedTargets) (fd : Nat) :
    Moves w s (reconnect w s fd) := by
  unfold reconnect
  split_ifs
  · let core₁ : Core := { s.core with
      dataConnections := s.core.dataConnections.modify 0 fun dc =>
        { fd := some fd, reader := { dc.reader with readBuf := [], readOffset := 0 } }
      pendingReconnectTargets := s.savedTargets }
    have h₁ : Inert s.core core₁ := ⟨⟨hplain.targets, hsaved⟩, rfl, rfl⟩
    have h := h₁.trans (inert_processPendingReconnectTargets w h₁.plain)
    exact ⟨h.follows, by simp [Unusable]⟩
  · exact .refl hplain hsaved

theorem follows_deliverHandled {core₀ : Core} (c : Receiver Core) (hs : List Wire.Handled)
    (h : Follows w core₀ c.app) : Follows w core₀ (deliverHandled w c hs).app := by
  induction hs generalizing c with
  | nil => exact h
  | cons handled hs ih =>
      cases handled with
      | control seq pkt =>
          refine ih _ (deliverControl_invariant (applyControl w) ?_ seq pkt h)
          exact fun core pkt hcore => hcore.trans (follows_applyControl hcore.plain pkt)
      | _ => exact ih c h

theorem inert_putConnection (hplain : Plain s.core) (idx : Nat) (dc : DataConnection) :
    Inert s.core (s.putConnection idx dc).core :=
  ⟨⟨hplain.targets, hplain.pending⟩, rfl, rfl⟩

theorem moves_dataRead (hplain : Plain s.core) (hsaved : Unusable s.savedTargets) {idx : Nat}
    {res : Wire.ReadResult} (hread : dataRead w s idx res = some s') : Moves w s s' := by
  obtain ⟨dc, reader, -, ⟨handled, rfl⟩ | rfl | rfl⟩ := dataRead_cases hread
  · have h := inert_putConnection hplain idx { dc with reader := reader }
    exact ⟨follows_deliverHandled _ handled h.follows, hsaved⟩
  · exact ⟨(inert_putConnection hplain idx _).follows, hsaved⟩
  · have h := inert_putConnection hplain idx { fd := none, reader := reader }
    exact Moves.trans ⟨h.follows, hsaved⟩ (moves_onDisconnect h.plain hsaved)

theorem moves_step (hplain : Plain s.core) (hsaved : Unusable s.savedTargets) {e : Event}
    (hstep : s.step w e = some s') : Moves w s s' := by
  cases e with
  | onData reconnects data =>
      obtain rfl := Option.some.inj hstep
      exact moves_onData hplain hsaved data
  | dataRead idx res => exact moves_dataRead hplain hsaved hstep
  | addDataConnection outputIdx fd =>
      obtain rfl := Option.some.inj hstep
      exact ⟨(inert_addDataConnection w hplain outputIdx fd).follows, hsaved⟩
  | reconnect fd =>
      obtain rfl := Option.some.inj hstep
      exact moves_reconnect hplain hsaved fd
  | onDisconnect =>
      obtain rfl := Option.some.inj hstep
      exact moves_onDisconnect hplain hsaved
  | connectDone pending ok =>
      simp only [Session.step] at hstep
      split_ifs at hstep
      obtain rfl := Option.some.inj hstep
      exact ⟨follows_connectDone hplain pending ok, hsaved⟩
  | connectTimeout reqId =>
      obtain rfl := Option.some.inj hstep
      exact ⟨(inert_connectTimeout hplain reqId).follows, hsaved⟩
  | sendDisconnectNow connId sent =>
      obtain rfl := Option.some.inj hstep
      exact ⟨(inert_sendDisconnectNow hplain connId sent).follows, hsaved⟩
  | closePendingTargets =>
      obtain rfl := Option.some.inj hstep
      have h := inert_closeTargets hplain s.core.pendingDisconnectTargets
      have h' : Inert s.core { s.core.pendingDisconnectTargets.foldl closeTarget s.core with
          pendingDisconnectTargets := [] } :=
        ⟨⟨h.plain.targets, h.plain.pending⟩, h.log, h.state⟩
      exact ⟨h'.follows, hsaved⟩
  | wireWriteFailed idx =>
      obtain rfl := Option.some.inj hstep
      have h : Inert s.core { s.core with
          dataConnections := s.core.dataConnections.modify idx fun dc => { dc with fd := none } } :=
        ⟨⟨hplain.targets, hplain.pending⟩, rfl, rfl⟩
      exact ⟨h.follows, hsaved⟩
  | targetError connId =>
      obtain rfl := Option.some.inj hstep
      exact ⟨(inert_closeTarget hplain connId).follows, hsaved⟩
  | checkHeartbeat timeout =>
      obtain rfl := Option.some.inj hstep
      refine ⟨?_, hsaved⟩
      change Follows w s.core (checkHeartbeat s.core timeout)
      unfold checkHeartbeat
      split_ifs
      · exact follows_become hplain fun _ => rfl
      · exact .refl hplain

end Moves

/-- In every run, a session that became `DISCONNECTED` stays so, creates no chain and opens no
target, as long as the log is gated. -/
theorem disconnected_final (w : World) (fd : Nat) (events : List Event) (s : Session)
    (hrun : run (Session.step w) (Session.init fd) events = some s)
    (hgated : Gated w s.core.log) : Final s.core.log := by
  have hmoves : Moves w (Session.init fd) s := by
    refine invariant_of_run (I := fun t => Moves w (Session.init fd) t) ?_
      (.refl Plain.init (by simp [Unusable, Session.init])) hrun
    intro t e t' h hstep
    exact h.trans (moves_step h.core.plain h.saved hstep)
  obtain ⟨seg, hlog, hkept⟩ := hmoves.core.grows
  rw [hlog]
  exact (hkept hgated).final

/-- A module list is refused; a `MSG_CHAIN_CREATE` without its count and a tick follow. -/
theorem disconnected_final_module_list :
    let w : World := ⟨7, [], [], fun _ => List.replicate 64 97, fun _ => false, fun _ => 0,
      fun _ => 0, fun _ _ _ => .fails⟩
    let modules : Packet := ⟨MSG_MODULE_LIST_REQ, 1 :: List.replicate 32 0⟩
    let events : List Event :=
      [.onData (fun _ => false) (authBytes (List.replicate 64 97)),
        .dataRead 0 (.bytes (Wire.WireFrame.control 0 modules).encode),
        .dataRead 0 (.bytes (Wire.WireFrame.control 1 ⟨MSG_CHAIN_CREATE, []⟩).encode),
        .checkHeartbeat true]
    ∃ s, run (Session.step w) (Session.init 3) events = some s ∧
      s.core.state = .disconnected ∧ Gated w s.core.log ∧ Final s.core.log := by
  intro w modules events
  have hsome : (run (Session.step w) (Session.init 3) events).isSome := by decide +kernel
  have hend : (run (Session.step w) (Session.init 3) events).all fun s =>
      s.core.state = .disconnected ∧ s.core.log =
        [.became .awaitAuth1Ok, .became .awaitAuth2Response, .switched [],
          .became .awaitChainCreate, .control .awaitChainCreate modules, .became .disconnected,
          .control .disconnected ⟨MSG_CHAIN_CREATE, []⟩] := by decide +kernel
  obtain ⟨s, hrun⟩ := Option.isSome_iff_exists.mp hsome
  rw [hrun, Option.all_some, decide_eq_true_eq] at hend
  obtain ⟨hst, hlog⟩ := hend
  have hgated : Gated w s.core.log := by
    rw [hlog]
    constructor
    · simp [CreatesChain, RequestsTarget]
    · simp
    · simp
  exact ⟨s, hrun, hst, hgated, disconnected_final w 3 events s hrun hgated⟩

/-- With its count the message creates a chain and the session runs again. -/
theorem disconnected_session_runs :
    let w : World := ⟨7, [], [], fun _ => List.replicate 64 97, fun _ => false, fun _ => 0,
      fun _ => 0, fun _ _ _ => .fails⟩
    let modules : Packet := ⟨MSG_MODULE_LIST_REQ, 1 :: List.replicate 32 0⟩
    let events : List Event :=
      [.onData (fun _ => false) (authBytes (List.replicate 64 97)),
        .dataRead 0 (.bytes (Wire.WireFrame.control 0 modules).encode),
        .dataRead 0 (.bytes (Wire.WireFrame.control 1 ⟨MSG_CHAIN_CREATE, [0]⟩).encode)]
    ∃ s, run (Session.step w) (Session.init 3) events = some s ∧
      Reached s .disconnected ∧ s.core.state = .running ∧ ¬ Final s.core.log := by
  intro w modules events
  have hsome : (run (Session.step w) (Session.init 3) events).isSome := by decide +kernel
  have hend : (run (Session.step w) (Session.init 3) events).all fun s =>
      Reached s .disconnected ∧ s.core.state = .running ∧ ¬ Final s.core.log := by
    decide +kernel
  obtain ⟨s, hrun⟩ := Option.isSome_iff_exists.mp hsome
  rw [hrun, Option.all_some, decide_eq_true_eq] at hend
  exact ⟨s, hrun, hend⟩

end PipelineTunnel.Lifecycle
