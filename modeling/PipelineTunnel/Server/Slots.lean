import PipelineTunnel.Server.Frame

/-!
# Who gets into the table of data connections

Control messages fill closed slots with the connections that wait for them; they never
replace the primary connection of a session. Behind `on_data` a session gets its primary
connection once, at the end of the authentication.
-/

namespace PipelineTunnel.Lifecycle

open Protocol Control
open Server (State)

/-- The descriptor in slot 0. -/
def Core.primary (core : Core) : Option Nat := core.dataConnections[0]?.bind DataConnection.fd

/-- All descriptors of the table, and those that wait for a slot, satisfy `P`. -/
structure Core.Owned (P : Nat → Prop) (core : Core) : Prop where
  slots : ∀ dc ∈ core.dataConnections, ∀ x ∈ dc.fd, P x
  waiting : ∀ q ∈ core.pendingDataConns, P q.2

/-- The states that `on_data` never leaves. -/
def Settled (st : State) : Prop := st = .running ∨ st = .disconnected

/-- The authentication is over. -/
def Late (st : State) : Prop := stateValue .authDone ≤ stateValue st

theorem Settled.late {st : State} (h : Settled st) : Late st := by
  unfold Late
  rcases h with rfl | rfl <;> decide

theorem late_disconnected : Late .disconnected := Settled.late (Or.inr rfl)

theorem late_awaitChainCreate : Late .awaitChainCreate := by unfold Late; decide

/-! ## Control messages -/

/-- The primary connection stays, no descriptor comes in from outside, and the state stays or
becomes a settled one. -/
structure Tame (core core' : Core) : Prop where
  primary : ∀ y, core.primary = some y → core'.primary = some y
  owned : ∀ P, core.Owned P → core'.Owned P
  state : core'.state = core.state ∨ Settled core'.state

section Tame

variable {core core' : Core}

theorem Tame.trans {core'' : Core} (h : Tame core core') (h' : Tame core' core'') :
    Tame core core'' where
  primary y hy := h'.primary y (h.primary y hy)
  owned P hP := h'.owned P (h.owned P hP)
  state := by
    rcases h'.state with heq | hst
    · rw [heq]
      exact h.state
    · exact Or.inr hst

theorem Frames.tame (h : Frames core core') : Tame core core' where
  primary y hy := by
    rw [Core.primary, h.connections]
    exact hy
  owned P hP := by
    constructor
    · rw [h.connections]
      exact hP.slots
    · rw [h.waiting]
      exact hP.waiting
  state := Or.inl h.state

theorem Tame.refl (core : Core) : Tame core core := (Frames.refl core).tame

theorem Tame.settled (h : Tame core core') (hst : Settled core.state) : Settled core'.state := by
  rcases h.state with heq | hst'
  · rwa [heq]
  · exact hst'

theorem Tame.late (h : Tame core core') (hst : Late core.state) : Late core'.state := by
  rcases h.state with heq | hst'
  · rwa [heq]
  · exact hst'.late

theorem tame_become (core : Core) {st : State} (hst : Settled st) : Tame core (core.become st) :=
  ⟨fun _ => id, fun _ hP => ⟨hP.slots, hP.waiting⟩, Or.inr hst⟩

/-- A connection that waits gets its slot. -/
theorem tame_attachPending (core : Core) (p : UInt8 × Nat) (rest : List (UInt8 × Nat))
    (hrest : core.pendingDataConns = p :: rest) :
    Tame core { core with
      dataConnections := attachPending core.dataConnections p, pendingDataConns := rest } where
  primary y hy := by
    obtain ⟨dc, hdc, hfd⟩ := Option.bind_eq_some_iff.mp hy
    by_cases hp : p.1.toNat = 0
    · simp [Core.primary, attachPending, hp, hdc, hfd]
    · simp [Core.primary, attachPending, hp, hdc, hfd]
  owned P hP := by
    have hwaiting := hP.waiting
    rw [hrest] at hwaiting
    refine ⟨fun dc hdc x hx => ?_, fun q hq => hwaiting q (List.mem_cons_of_mem p hq)⟩
    obtain ⟨i, hi⟩ := List.mem_iff_getElem?.mp hdc
    simp only [attachPending, List.getElem?_modify] at hi
    obtain ⟨dc₀, hdc₀, rfl⟩ := Option.map_eq_some_iff.mp hi
    have hslot := hP.slots dc₀ (List.mem_of_getElem? hdc₀)
    split_ifs at hx with h₁ h₂
    · exact hslot x hx
    · obtain rfl := Option.some.inj hx
      exact hwaiting p List.mem_cons_self
    · exact hslot x hx
  state := Or.inl rfl

theorem tame_attachAll (pending : List (UInt8 × Nat)) (core : Core)
    (hpending : core.pendingDataConns = pending) :
    Tame core { core with
      dataConnections := pending.foldl attachPending core.dataConnections
      pendingDataConns := [] } := by
  induction pending generalizing core with
  | nil =>
      refine ⟨fun _ => id, fun P hP => ⟨hP.slots, by simp⟩, Or.inl rfl⟩
  | cons p rest ih => exact (tame_attachPending core p rest hpending).trans (ih _ rfl)

theorem tame_processPendingDataConns (w : World) (core : Core) :
    Tame core (processPendingDataConns w core) :=
  (tame_attachAll core.pendingDataConns core rfl).trans (frames_checkReady w _).tame

theorem tame_announceChain (w : World) (core : Core) (extra : Nat) :
    Tame core (announceChain w core extra) := by
  have h₁ := tame_processPendingDataConns w core
  by_cases hzero : extra = 0
  · subst hzero
    rw [announceChain, if_neg (lt_irrefl 0), if_pos rfl]
    exact (h₁.trans (frames_sendControl _ _).tame).trans (frames_transmitReady w _).tame
  · rw [announceChain, if_pos (Nat.pos_of_ne_zero hzero), if_neg hzero]
    exact (h₁.trans (frames_checkReady w _).tame).trans (frames_sendControl _ _).tame

theorem tame_growConnections (core : Core) (size extra : Nat) :
    Tame core { core.become .running with
      totalExtraOutputs := extra
      dataConnections := growConnections core.dataConnections size } where
  primary y hy := by
    obtain ⟨dc, hdc, hfd⟩ := Option.bind_eq_some_iff.mp hy
    have hget : (growConnections core.dataConnections size)[0]? = some dc := by
      rw [growConnections, List.getElem?_append_left (List.getElem?_eq_some_iff.mp hdc).1, hdc]
    simp [Core.primary, hget, hfd]
  owned P hP := by
    refine ⟨fun dc hdc x hx => ?_, hP.waiting⟩
    rcases List.mem_append.mp hdc with hdc | hdc
    · exact hP.slots dc hdc x hx
    · obtain rfl := List.eq_of_mem_replicate hdc
      simp at hx
  state := Or.inr (Or.inl rfl)

theorem tame_handleChainCreate (w : World) (core : Core) (pkt : Packet) :
    Tame core (handleChainCreate w core pkt) := by
  unfold handleChainCreate
  split
  · exact Tame.refl core
  · have h : Tame core ({ core with chain := true }.note .chainCreated) :=
      ⟨fun _ => id, fun _ hP => ⟨hP.slots, hP.waiting⟩, Or.inl rfl⟩
    dsimp only
    split_ifs
    · exact h.trans (tame_become _ (Or.inr rfl))
    · exact (h.trans (tame_growConnections _ _ _)).trans (tame_announceChain w _ _)

theorem tame_handleModuleListReq (w : World) (core : Core) (pkt : Packet) :
    Tame core (handleModuleListReq w core pkt) := by
  unfold handleModuleListReq
  split
  · exact Tame.refl core
  · dsimp only
    split_ifs
    · exact Tame.refl core
    · exact (frames_sendControl core _).tame
    · exact (frames_sendControl core _).tame.trans (tame_become _ (Or.inr rfl))

theorem tame_applyControl (w : World) (core : Core) (pkt : Packet) :
    Tame core (applyControl w core pkt) := by
  have hnote : Tame core (core.note (.control core.state pkt)) :=
    ⟨fun _ => id, fun _ hP => ⟨hP.slots, hP.waiting⟩, Or.inl rfl⟩
  unfold applyControl
  dsimp only
  split_ifs
  · exact hnote.trans (frames_handleConnectReq w _ pkt).tame
  · exact hnote.trans (frames_handleConnectCancel _ pkt).tame
  · exact hnote.trans (frames_handleDisconnect _ pkt).tame
  · exact hnote.trans (tame_handleModuleListReq w _ pkt)
  · exact hnote.trans (tame_handleChainCreate w _ pkt)
  · exact hnote

theorem tame_processWireBuffer (w : World) (core : Core) (data : Bytes) :
    Tame core (processWireBuffer w core data) := by
  unfold processWireBuffer
  generalize leftoverPackets data = pkts
  induction pkts generalizing core with
  | nil => exact Tame.refl core
  | cons pkt pkts ih => exact (tame_applyControl w core pkt).trans (ih _)

theorem tame_deliverHandled {w : World} {core₀ : Core} (c : Receiver Core)
    (hs : List Wire.Handled) (h : Tame core₀ c.app) : Tame core₀ (deliverHandled w c hs).app := by
  induction hs generalizing c with
  | nil => exact h
  | cons handled hs ih =>
      cases handled with
      | control seq pkt =>
          refine ih _ (deliverControl_invariant (applyControl w) ?_ seq pkt h)
          exact fun core pkt hcore => hcore.trans (tame_applyControl w core pkt)
      | _ => exact ih c h

end Tame

/-! ## `on_data` -/

/-- Before the end of the authentication there is no data connection. -/
def Session.Early (s : Session) : Prop := ¬ Late s.core.state → s.core.dataConnections = []

structure Session.Owned (P : Nat → Prop) (s : Session) : Prop where
  core : s.core.Owned P
  client : ∀ x ∈ s.clientFd, P x

/-- What the packets of `on_data` can do: a settled session stays settled and keeps its
client, and only `handle_reconnect` gives the client away. -/
structure Walk (s s' : Session) : Prop where
  primary : ∀ y, s.core.primary = some y → s'.core.primary = some y
  owned : ∀ P, s.Owned P → s'.Owned P
  early : s'.Early
  paused : s'.paused = s.paused
  settled : Settled s.core.state → Settled s'.core.state ∧ s'.clientFd = s.clientFd
  client : s'.clientFd = s.clientFd ∧ s'.handedTo = s.handedTo ∨
    s'.clientFd = none ∧ s'.handedTo.isSome

section Walk

variable {w : World} {reconnects : UInt64 → Bool} {s s' : Session}

theorem Walk.refl (hearly : s.Early) : Walk s s :=
  ⟨fun _ => id, fun _ => id, hearly, rfl, fun h => ⟨h, rfl⟩, Or.inl ⟨rfl, rfl⟩⟩

theorem Walk.trans {s'' : Session} (h : Walk s s') (h' : Walk s' s'') : Walk s s'' where
  primary y hy := h'.primary y (h.primary y hy)
  owned P hP := h'.owned P (h.owned P hP)
  early := h'.early
  paused := h'.paused.trans h.paused
  settled hst := by
    obtain ⟨hst', hfd⟩ := h.settled hst
    obtain ⟨hst'', hfd'⟩ := h'.settled hst'
    exact ⟨hst'', hfd'.trans hfd⟩
  client := by
    rcases h'.client with ⟨hfd', hto'⟩ | h'
    · rw [hfd', hto']
      exact h.client
    · exact Or.inr h'

/-- What touches neither the core nor the client. -/
theorem walk_of_same (hearly : s.Early) (hcore : s'.core = s.core)
    (hclient : s'.clientFd = s.clientFd) (hto : s'.handedTo = s.handedTo)
    (hpaused : s'.paused = s.paused) : Walk s s' where
  primary _ hy := hcore ▸ hy
  owned P hP := ⟨hcore ▸ hP.core, hclient ▸ hP.client⟩
  early := by
    unfold Session.Early
    rwa [hcore]
  paused := hpaused
  settled hst := ⟨hcore ▸ hst, hclient⟩
  client := Or.inl ⟨hclient, hto⟩

theorem walk_sendPacket (hearly : s.Early) (pkt : Packet) : Walk s (s.sendPacket pkt) :=
  walk_of_same hearly rfl rfl rfl rfl

theorem walk_setRecvBuf (hearly : s.Early) (buf : Bytes) : Walk s { s with recvBuf := buf } :=
  walk_of_same hearly rfl rfl rfl rfl

theorem walk_setCore {core : Core} (h : Tame s.core core) (hlate : Late s.core.state) :
    Walk s (s.setCore core) where
  primary := h.primary
  owned P hP := ⟨h.owned P hP.core, hP.client⟩
  early hst := absurd (h.late hlate) hst
  paused := rfl
  settled hst := ⟨h.settled hst, rfl⟩
  client := Or.inl ⟨rfl, rfl⟩

/-- A step of the authentication, or its failure. -/
theorem walk_become (hst : ¬ Settled s.core.state) (pkt : Packet) {st : State}
    (hearly : ¬ Late st → s.core.dataConnections = []) :
    Walk s ((s.sendPacket pkt).become st) where
  primary _ := id
  owned _ hP := ⟨⟨hP.core.slots, hP.core.waiting⟩, hP.client⟩
  early := hearly
  paused := rfl
  settled h := absurd h hst
  client := Or.inl ⟨rfl, rfl⟩

theorem walk_disconnect (hst : ¬ Settled s.core.state) (pkt : Packet) :
    Walk s ((s.sendPacket pkt).become .disconnected) :=
  walk_become hst pkt fun h => absurd late_disconnected h

theorem walk_handleReconnect (hearly : s.Early) (hst : ¬ Settled s.core.state) (pkt : Packet) :
    Walk s (handleReconnect w reconnects s pkt) := by
  unfold handleReconnect
  split_ifs
  · exact walk_sendPacket hearly authFail
  · exact walk_disconnect hst authFail
  · have h := walk_disconnect hst ⟨MSG_AUTH_OK, [1]⟩
    exact ⟨h.primary, fun P hP => ⟨(h.owned P hP).core, by simp⟩, h.early, rfl,
      fun h => absurd h hst, Or.inr ⟨rfl, rfl⟩⟩
  · exact walk_sendPacket hearly authFail

/-- The client's connection takes the first slot of an empty table. -/
theorem walk_handleAuth2Response (hearly : s.Early) (hst : s.core.state = .awaitAuth2Response)
    (pkt : Packet) : Walk s (handleAuth2Response w s pkt) := by
  have hnot : ¬ Settled s.core.state := by simp [hst, Settled]
  have hnil : s.core.dataConnections = [] := hearly (by rw [hst]; unfold Late; decide)
  unfold handleAuth2Response
  split_ifs
  · have htame := tame_processWireBuffer w (switchToWire s) s.recvBuf
    refine ⟨?_, fun P hP => ⟨?_, hP.client⟩, ?_, rfl, fun h => absurd h hnot, Or.inl ⟨rfl, rfl⟩⟩
    · simp [Core.primary, hnil]
    · have hswitch : (switchToWire s).Owned P := by
        refine ⟨fun dc hdc x hx => ?_, hP.core.waiting⟩
        have heq : dc = { fd := s.clientFd } := by
          simpa [switchToWire, hnil, growConnections] using hdc
        exact hP.client x (by simpa [heq] using hx)
      have h := htame.owned P hswitch
      exact ⟨h.slots, h.waiting⟩
    · exact fun h => absurd late_awaitChainCreate h
  · exact ⟨fun _ => id, fun P hP => ⟨⟨hP.core.slots, hP.core.waiting⟩, hP.client⟩,
      fun h => absurd late_disconnected h, rfl, fun h => absurd h hnot, Or.inl ⟨rfl, rfl⟩⟩

theorem walk_handleAuth2Challenge (hearly : s.Early) (hst : s.core.state = .awaitAuth1Ok)
    (pkt : Packet) : Walk s (handleAuth2Challenge w s pkt) := by
  have hnil : s.core.dataConnections = [] := hearly (by rw [hst]; unfold Late; decide)
  exact walk_become (by simp [hst, Settled]) _ fun _ => hnil

theorem Dispatched.walk {pkt : Packet} (h : Dispatched w reconnects s pkt s') (hearly : s.Early) :
    Walk s s' := by
  have hrunning : Late .running := Settled.late (Or.inl rfl)
  have hcreate : Late .awaitChainCreate := late_awaitChainCreate
  cases h with
  | ignored => exact .refl hearly
  | authChallengeResponse hst =>
      have hnot : ¬ Settled s.core.state := by simp [hst, Settled]
      have hnil : s.core.dataConnections = [] := hearly (by rw [hst]; unfold Late; decide)
      unfold handleAuthChallengeResponse
      split_ifs
      · exact walk_disconnect hnot authFail
      · exact walk_become hnot _ fun _ => hnil
  | auth2Response hst => exact walk_handleAuth2Response hearly hst pkt
  | auth2Challenge hst => exact walk_handleAuth2Challenge hearly hst pkt
  | reconnect hst =>
      exact walk_handleReconnect hearly (by rcases hst with h | h | h <;> simp [h, Settled]) pkt
  | connectReq htype hst =>
      exact walk_setCore (frames_handleConnectReq w s.core pkt).tame
        (by rcases hst with h | h <;> rwa [h])
  | chainCreate htype hst => exact walk_setCore (tame_handleChainCreate w s.core pkt) (by rwa [hst])
  | disconnect hst =>
      exact walk_setCore (frames_handleDisconnect s.core pkt).tame
        (by rcases hst with h | h <;> rwa [h])
  | connectCancel hst =>
      exact walk_setCore (frames_handleConnectCancel s.core pkt).tame
        (by rcases hst with h | h <;> rwa [h])

theorem walk_onData (hearly : s.Early) (data : Bytes) : Walk s (onData w reconnects s data) := by
  have hstart : Walk s s := .refl hearly
  unfold onData
  split_ifs
  · refine (authLoop w reconnects).receive_invariant (I := Walk s)
      (fun _ buf h => h.trans (walk_setRecvBuf h.early buf)) (fun s₁ pkt h => ?_) hstart data
    exact h.trans ((dispatched_onAuthPacket w reconnects s₁ pkt).walk h.early)
  · exact hstart
  · refine (wireLoop w reconnects).receive_invariant (I := Walk s)
      (fun _ buf h => h.trans (walk_setRecvBuf h.early buf)) (fun s₁ pkt h => ?_) hstart data
    exact h.trans ((dispatched_onWirePacket w reconnects s₁ pkt).walk h.early)

end Walk

/-! ## The other events -/

/-- What holds of every session that the server has. -/
structure Session.Orderly (s : Session) : Prop where
  early : s.Early
  paused : s.paused → Settled s.core.state

/-- What a session does without the server: the primary connection stays or is lost. -/
structure Drift (s s' : Session) : Prop where
  primary : ∀ x y, s.core.primary = some y → s'.core.primary = some x → x = y
  owned : ∀ P, s.Owned P → s'.Owned P
  orderly : s'.Orderly
  settled : Settled s.core.state → Settled s'.core.state
  client : s'.clientFd = s.clientFd

section Drift

variable {w : World} {s s' : Session}

theorem drift_refl (h : s.Orderly) : Drift s s :=
  ⟨fun _ _ hy hx => Option.some.inj (hx.symm.trans hy), fun _ => id, h, id, rfl⟩

theorem drift_of_frames (h : s.Orderly) {core : Core} (hframes : Frames s.core core) :
    Drift s (s.setCore core) where
  primary x y hy hx := Option.some.inj (hx.symm.trans (hframes.tame.primary y hy))
  owned P hP := ⟨hframes.tame.owned P hP.core, hP.client⟩
  orderly := by
    refine ⟨fun hst => ?_, fun hp => hframes.tame.settled (h.paused hp)⟩
    change core.dataConnections = []
    rw [hframes.connections]
    exact h.early (hframes.state ▸ hst)
  settled := hframes.tame.settled
  client := rfl

/-- A session with a data connection is late. -/
theorem Session.Early.late (h : s.Early) {idx : Nat} {dc : DataConnection}
    (hdc : s.core.dataConnections[idx]? = some dc) : Late s.core.state := by
  by_contra hst
  simp [h hst] at hdc

theorem putConnection_primary {idx : Nat} {dc : DataConnection}
    (hdc : s.core.dataConnections[idx]? = some dc) (dc' : DataConnection) (hfd : dc'.fd = dc.fd) :
    (s.putConnection idx dc').core.primary = s.core.primary := by
  cases idx with
  | zero =>
      obtain ⟨hlt, heq⟩ := List.getElem?_eq_some_iff.mp hdc
      simp [Session.putConnection, Core.primary, Session.setCore, hlt, hfd, heq]
  | succ idx => simp [Session.putConnection, Core.primary, Session.setCore]

/-- A slot whose descriptor stays or is lost. -/
theorem drift_putConnection (h : s.Orderly) {idx : Nat} {dc dc' : DataConnection}
    (hdc : s.core.dataConnections[idx]? = some dc) (hfd : dc'.fd = dc.fd ∨ dc'.fd = none) :
    Drift s (s.putConnection idx dc') where
  primary x y hy hx := by
    rcases hfd with hfd | hfd
    · rw [putConnection_primary hdc dc' hfd, hy] at hx
      exact (Option.some.inj hx).symm
    · cases idx with
      | zero =>
          have hlt := (List.getElem?_eq_some_iff.mp hdc).1
          simp [Session.putConnection, Core.primary, Session.setCore, hlt, hfd] at hx
      | succ idx =>
          have hsame : (s.putConnection (idx + 1) dc').core.primary = s.core.primary := by
            simp [Session.putConnection, Core.primary, Session.setCore]
          exact Option.some.inj (hx.symm.trans (hsame.trans hy))
  owned P hP := by
    refine ⟨⟨fun dc₁ hdc₁ x hx => ?_, hP.core.waiting⟩, hP.client⟩
    rcases List.mem_or_eq_of_mem_set hdc₁ with hdc₁ | rfl
    · exact hP.core.slots dc₁ hdc₁ x hx
    · rcases hfd with hfd | hfd
      · exact hP.core.slots dc (List.mem_of_getElem? hdc) x (hfd ▸ hx)
      · simp [hfd] at hx
  orderly := ⟨fun hst => absurd (h.early.late hdc) hst, h.paused⟩
  settled := id
  client := rfl

theorem onDisconnect_owned {P : Nat → Prop} (hP : s.Owned P) : (onDisconnect s).Owned P := by
  unfold onDisconnect
  split_ifs
  · exact hP
  · refine ⟨⟨fun dc hdc x hx => ?_, hP.core.waiting⟩, hP.client⟩
    obtain ⟨dc₀, hdc₀, rfl⟩ := List.mem_map.mp hdc
    unfold DataConnection.close at hx
    split_ifs at hx
    · simp at hx
    · exact hP.core.slots dc₀ hdc₀ x hx

/-- The slots of a paused session are closed. -/
theorem onDisconnect_primary (s : Session) :
    (onDisconnect s).core.primary = none ∨ (onDisconnect s).core.primary = s.core.primary := by
  unfold onDisconnect
  split_ifs
  · exact Or.inr rfl
  · left
    refine Option.bind_eq_none_iff.mpr fun dc hdc => ?_
    have hmap : (s.core.dataConnections.map DataConnection.close)[0]? = some dc := hdc
    rw [List.getElem?_map] at hmap
    obtain ⟨dc₀, -, rfl⟩ := Option.map_eq_some_iff.mp hmap
    unfold DataConnection.close
    split_ifs with hfd
    · rfl
    · simpa using hfd

/-- Losing the client behind a step changes nothing of what the step may do. -/
theorem Drift.onDisconnect (h : Drift s s') : Drift s (onDisconnect s') where
  primary x y hy hx := by
    rcases onDisconnect_primary s' with hp | hp
    · simp [hp] at hx
    · exact h.primary x y hy (hp.symm.trans hx)
  owned P hP := onDisconnect_owned (h.owned P hP)
  orderly := by
    unfold Lifecycle.onDisconnect
    split_ifs with hp
    · exact h.orderly
    · have hsettled : Settled s'.core.state := Or.inl (not_not.mp (not_or.mp hp).2)
      exact ⟨fun hst => absurd hsettled.late hst, fun _ => hsettled⟩
  settled hst := by
    unfold Lifecycle.onDisconnect
    split_ifs
    · exact h.settled hst
    · exact h.settled hst
  client := by
    unfold Lifecycle.onDisconnect
    split_ifs
    · exact h.client
    · exact h.client

theorem drift_dataRead (h : s.Orderly) {idx : Nat} {res : Wire.ReadResult}
    (hread : dataRead w s idx res = some s') : Drift s s' := by
  obtain ⟨dc, reader, hdc, hcases⟩ := dataRead_cases hread
  have hput : Drift s (s.putConnection idx { dc with reader := reader }) :=
    drift_putConnection h hdc (Or.inl rfl)
  rcases hcases with ⟨handled, rfl⟩ | rfl | rfl
  · have htame := tame_deliverHandled (w := w)
      (s.putConnection idx { dc with reader := reader }).control handled (Tame.refl _)
    refine ⟨fun x y hy hx => ?_, fun P hP => ?_, ⟨fun hst => ?_, fun hp => ?_⟩, ?_, rfl⟩
    · have hy' : (s.putConnection idx { dc with reader := reader }).core.primary = some y :=
        (putConnection_primary hdc { dc with reader := reader } rfl).trans hy
      exact Option.some.inj (hx.symm.trans (htame.primary y hy'))
    · exact ⟨htame.owned P (hput.owned P hP).core, hP.client⟩
    · exact absurd (htame.late (h.early.late hdc)) hst
    · exact htame.settled (h.paused hp)
    · exact htame.settled
  · exact hput
  · exact (drift_putConnection h hdc (Or.inr rfl)).onDisconnect

/-- A failed write closes its slot. -/
theorem drift_closeSlot (h : s.Orderly) (idx : Nat) :
    Drift s (s.setCore { s.core with
      dataConnections := s.core.dataConnections.modify idx fun dc => { dc with fd := none } }) := by
  cases hdc : s.core.dataConnections[idx]? with
  | none =>
      have hlen : s.core.dataConnections.length ≤ idx := List.getElem?_eq_none_iff.mp hdc
      rw [List.modify_eq_self hlen]
      exact drift_refl h
  | some dc =>
      have hset : s.core.dataConnections.modify idx (fun dc => { dc with fd := none }) =
          s.core.dataConnections.set idx { dc with fd := none } := by
        rw [List.modify_eq_set_getElem?, hdc]
        rfl
      rw [hset]
      exact drift_putConnection h hdc (Or.inr rfl)

theorem drift_checkHeartbeat (h : s.Orderly) (timeout : Bool) :
    Drift s (s.setCore (checkHeartbeat s.core timeout)) := by
  unfold checkHeartbeat
  split_ifs
  · have hsettled : Settled .disconnected := Or.inr rfl
    exact ⟨fun x y hy hx => Option.some.inj (hx.symm.trans hy),
      fun P hP => ⟨⟨hP.core.slots, hP.core.waiting⟩, hP.client⟩,
      ⟨fun hst => absurd hsettled.late hst, fun _ => hsettled⟩, fun _ => hsettled, rfl⟩
  · exact drift_refl h

/-! ## What the server does to a session -/

/-- A connection that is added replaces the primary one exactly when it asks for slot 0. -/
theorem addDataConnection_primary (w : World) {core : Core} {y : Nat}
    (hy : core.primary = some y) (outputIdx : UInt8) (fd : Nat) :
    (addDataConnection w core outputIdx fd).primary =
      some (if outputIdx.toNat = 0 then fd else y) := by
  obtain ⟨dc, hdc, hfd⟩ := Option.bind_eq_some_iff.mp hy
  have hpos : 0 < core.dataConnections.length := (List.getElem?_eq_some_iff.mp hdc).1
  by_cases hzero : outputIdx.toNat = 0
  · rw [addDataConnection, if_neg (by omega), if_pos hzero, Core.primary,
      (frames_checkReady w _).connections]
    simp [hzero, hdc, DataConnection.attach, hfd]
  · rw [if_neg hzero]
    unfold addDataConnection
    split_ifs
    · exact hy
    · rw [Core.primary, (frames_checkReady w _).connections]
      simp [hzero, hdc, hfd]

theorem addDataConnection_owned (w : World) {P : Nat → Prop} {core : Core} (hP : core.Owned P)
    (outputIdx : UInt8) {fd : Nat} (hfd : P fd) :
    (addDataConnection w core outputIdx fd).Owned P := by
  unfold addDataConnection
  split_ifs
  · refine ⟨hP.slots, fun q hq => ?_⟩
    rcases List.mem_append.mp hq with hq | hq
    · exact hP.waiting q hq
    · obtain rfl := List.mem_singleton.mp hq
      exact hfd
  · refine (frames_checkReady w _).tame.owned P ⟨fun dc hdc x hx => ?_, hP.waiting⟩
    obtain ⟨i, hi⟩ := List.mem_iff_getElem?.mp hdc
    rw [List.getElem?_modify] at hi
    obtain ⟨dc₀, hdc₀, rfl⟩ := Option.map_eq_some_iff.mp hi
    split_ifs at hx
    · have hx' : some fd = some x := by
        unfold DataConnection.attach at hx
        split_ifs at hx
        · exact hx
        · exact hx
      exact Option.some.inj hx' ▸ hfd
    · exact hP.slots dc₀ (List.mem_of_getElem? hdc₀) x hx

theorem addDataConnection_state (w : World) (core : Core) (outputIdx : UInt8) (fd : Nat) :
    (addDataConnection w core outputIdx fd).state = core.state := by
  unfold addDataConnection
  split_ifs
  · rfl
  · exact (frames_checkReady w _).state

theorem addDataConnection_orderly (w : World) (h : s.Orderly) (outputIdx : UInt8) (fd : Nat) :
    (s.setCore (addDataConnection w s.core outputIdx fd)).Orderly := by
  refine ⟨fun hst => ?_, fun hp => ?_⟩
  · have hnil : s.core.dataConnections = [] :=
      h.early (addDataConnection_state w s.core outputIdx fd ▸ hst)
    change (addDataConnection w s.core outputIdx fd).dataConnections = []
    simp [addDataConnection, hnil]
  · change Settled (addDataConnection w s.core outputIdx fd).state
    rw [addDataConnection_state]
    exact h.paused hp

/-- The core of a paused session with its new client, before the targets are reconnected. -/
def withClient (s : Session) (fd : Nat) : Core :=
  { s.core with
    dataConnections := s.core.dataConnections.modify 0 fun dc =>
      { fd := some fd, reader := { dc.reader with readBuf := [], readOffset := 0 } }
    pendingReconnectTargets := s.savedTargets }

theorem frames_reconnect (w : World) (hp : s.paused = true) (fd : Nat) :
    Frames (withClient s fd) (reconnect w s fd).core := by
  rw [reconnect, if_pos hp]
  exact frames_processPendingReconnectTargets w (withClient s fd)

theorem reconnect_of_not_paused (w : World) (hp : ¬ s.paused = true) (fd : Nat) :
    reconnect w s fd = s := by
  rw [reconnect, if_neg hp]

theorem reconnect_primary (w : World) (s : Session) (fd : Nat) {x : Nat}
    (hx : (reconnect w s fd).core.primary = some x) : x = fd ∨ s.core.primary = some x := by
  by_cases hp : s.paused = true
  · left
    rw [Core.primary, (frames_reconnect w hp fd).connections] at hx
    obtain ⟨dc, hdc, hfd⟩ := Option.bind_eq_some_iff.mp hx
    simp only [withClient, List.getElem?_modify] at hdc
    obtain ⟨dc₀, -, rfl⟩ := Option.map_eq_some_iff.mp hdc
    exact (Option.some.inj hfd).symm
  · rw [reconnect_of_not_paused w hp] at hx
    exact Or.inr hx

theorem reconnect_owned (w : World) {P : Nat → Prop} (hP : s.Owned P) {fd : Nat} (hfd : P fd) :
    (reconnect w s fd).Owned P := by
  by_cases hp : s.paused = true
  · have hcore : (withClient s fd).Owned P := by
      refine ⟨fun dc hdc x hx => ?_, hP.core.waiting⟩
      obtain ⟨i, hi⟩ := List.mem_iff_getElem?.mp hdc
      simp only [withClient, List.getElem?_modify] at hi
      obtain ⟨dc₀, hdc₀, rfl⟩ := Option.map_eq_some_iff.mp hi
      split_ifs at hx
      · exact Option.some.inj hx ▸ hfd
      · exact hP.core.slots dc₀ (List.mem_of_getElem? hdc₀) x hx
    refine ⟨(frames_reconnect w hp fd).tame.owned P hcore, fun x hx => ?_⟩
    have hx' : some fd = some x := by
      rw [reconnect, if_pos hp] at hx
      exact hx
    exact Option.some.inj hx' ▸ hfd
  · rw [reconnect_of_not_paused w hp]
    exact hP

end Drift

end PipelineTunnel.Lifecycle
