import PipelineTunnel.Common.WriteBuffer
import PipelineTunnel.Server.Finality

/-!
# What a lost connection costs

`on_disconnect` is called for the loss of any data connection. It closes all targets and all
connections of a running session, and `reconnect` opens the targets again at the addresses that
were saved.

## Implementation notes

`WireSession` adds to a session the half of its data connections that sends. Its reader is the
one of `Lifecycle`; how the sending half came to be as it is plays no role here.
-/

namespace PipelineTunnel.Lifecycle

open Protocol StepSystem
open Server (State)
open Wire (ReadResult)

/-! ## Targets after a reconnect -/

/-- The client's connection is lost and comes back. -/
def cycle (w : World) (s : Session) (fd : Nat) : Session := reconnect w (onDisconnect s) fd

/-- The same ids are open as before, each connected to the address it was requested with. -/
structure Restored (w : World) (requested : UInt8 → Bytes) (before after : Core) : Prop where
  same : ∀ c, (after.targets c).isSome = (before.targets c).isSome
  connected : ∀ c t, after.targets c = some t →
    ∃ n, w.connect n (host (requested c)) (port (requested c)) = .connected t.fd

/-- The session runs, and nothing it has saved can be used. -/
structure Running (s : Session) : Prop where
  state : s.core.state = .running
  paused : s.paused = false
  plain : Plain s.core
  saved : Unusable s.savedTargets

theorem plain_of_run {w : World} {fd : Nat} {events : List Event} {s : Session}
    (hrun : run (Session.step w) (Session.init fd) events = some s) :
    Plain s.core ∧ Unusable s.savedTargets := by
  refine invariant_of_run (I := fun s => Plain s.core ∧ Unusable s.savedTargets) ?_
    ⟨Plain.init, by simp [Unusable, Session.init]⟩ hrun
  intro s e s' h hstep
  have hmoves := moves_step h.1 h.2 hstep
  exact ⟨hmoves.core.plain, hmoves.saved⟩

/-- A cycle leaves no target. -/
theorem Running.cycle {w : World} {s : Session} (h : Running s) (fd : Nat) :
    Running (cycle w s fd) ∧ (cycle w s fd).core.targets = fun _ => none := by
  have hlost := moves_onDisconnect (w := w) h.plain h.saved
  have hback := moves_reconnect (w := w) hlost.core.plain hlost.saved fd
  have hdown : ¬ (s.paused = true ∨ s.core.state ≠ .running) := by simp [h.state, h.paused]
  have hfold := @processPendingReconnectTargets_of_unusable w { s.core with
    targets := fun _ => none
    dataConnections := (s.core.dataConnections.map DataConnection.close).modify 0 fun dc =>
      { fd := some fd, reader := { dc.reader with readBuf := [], readOffset := 0 } }
    pendingReconnectTargets := targetList s.core } h.plain.targetList
  have hcore : (Lifecycle.cycle w s fd).core = { s.core with
      targets := fun _ => none
      dataConnections := (s.core.dataConnections.map DataConnection.close).modify 0 fun dc =>
        { fd := some fd, reader := { dc.reader with readBuf := [], readOffset := 0 } }
      pendingReconnectTargets := [] } := by
    rw [← hfold, Lifecycle.cycle, onDisconnect, if_neg hdown]
    rfl
  refine ⟨⟨?_, ?_, hback.core.plain, hback.saved⟩, by rw [hcore]⟩
  · rw [hcore]
    exact h.state
  · rw [Lifecycle.cycle, onDisconnect, if_neg hdown]
    rfl

theorem Running.cycles {w : World} {s : Session} (h : Running s) (fd : Nat) (fds : List Nat) :
    ((fd :: fds).foldl (Lifecycle.cycle w) s).core.targets = fun _ => none := by
  induction fds generalizing s fd with
  | nil => exact (h.cycle fd).2
  | cons next fds ih => exact ih (h.cycle fd).1 next

theorem targets_of_targetList {core : Core} (h : targetList core = []) (c : UInt8) :
    core.targets c = none := by
  have hc : UInt8.ofNat c.toNat = c := UInt8.ofNat_toNat
  have hnone := List.filterMap_eq_nil_iff.mp h c.toNat (List.mem_range.mpr c.toNat_lt)
  rw [hc] at hnone
  simpa using hnone

/-- The targets are as they were after one or more cycles exactly when there were none. -/
theorem reconnect_restores_iff (w : World) (fd : Nat) (events : List Event) (s : Session)
    (hrun : run (Session.step w) (Session.init fd) events = some s)
    (hstate : s.core.state = .running) (hpaused : s.paused = false)
    (requested : UInt8 → Bytes) (first : Nat) (fds : List Nat) :
    Restored w requested s.core ((first :: fds).foldl (cycle w) s).core ↔
      ∀ c, s.core.targets c = none := by
  obtain ⟨hplain, hsaved⟩ := plain_of_run hrun
  have hgone := Running.cycles (w := w) ⟨hstate, hpaused, hplain, hsaved⟩ first fds
  constructor
  · intro hrestored c
    have hsame := hrestored.same c
    rw [hgone] at hsame
    simpa using hsame
  · intro hnone
    constructor
    · intro c
      rw [hgone, hnone c]
    · intro c t ht
      rw [hgone] at ht
      cases ht

/-- Every hash is `a…a`, a chain has one output more than its primary one and every connect
succeeds. -/
def sampleWorld : World :=
  ⟨7, [], [], fun _ => List.replicate 64 97, fun _ => true, fun _ => 1, fun _ => 0,
    fun _ _ _ => .connected 9⟩

/-- A client authenticates, creates a chain and adds the second connection. -/
def startUp : List Event :=
  [.onData (fun _ => false) (authBytes (List.replicate 64 97)),
    .dataRead 0 (.bytes (Wire.WireFrame.control 0 ⟨MSG_CHAIN_CREATE, [0]⟩).encode),
    .addDataConnection 1 5]

/-- It asks for a target at `a:1`. -/
def requestTarget : Event :=
  .dataRead 0 (.bytes (Wire.WireFrame.control 1 ⟨MSG_CONNECT_REQ, [4, 3, 97, COLON, 49]⟩).encode)

theorem reconnect_restores_iff_idle :
    ∃ s, run (Session.step sampleWorld) (Session.init 3) startUp = some s ∧
      Restored sampleWorld (fun _ => [97, COLON, 49]) s.core
        ([6, 8].foldl (cycle sampleWorld) s).core := by
  have hsome : (run (Session.step sampleWorld) (Session.init 3) startUp).isSome := by
    decide +kernel
  have hend : (run (Session.step sampleWorld) (Session.init 3) startUp).all fun s =>
      s.core.state = .running ∧ s.paused = false ∧ targetList s.core = [] := by decide +kernel
  obtain ⟨s, hrun⟩ := Option.isSome_iff_exists.mp hsome
  rw [hrun, Option.all_some, decide_eq_true_eq] at hend
  obtain ⟨hstate, hpaused, hnone⟩ := hend
  refine ⟨s, hrun, ?_⟩
  exact (reconnect_restores_iff sampleWorld 3 startUp s hrun hstate hpaused _ 6 [8]).mpr
    (targets_of_targetList hnone)

/-- One target, opened by a request that was handled in the usual way, is gone after a cycle,
although every connect succeeds. -/
theorem reconnect_loses_target :
    ¬ ∀ (w : World) (fd : Nat) (events : List Event) (s : Session),
      run (Session.step w) (Session.init fd) events = some s → s.core.state = .running →
        s.paused = false → (∀ n host port, ∃ fd', w.connect n host port = .connected fd') →
          ∀ (requested : UInt8 → Bytes) (fd' : Nat),
            Restored w requested s.core (cycle w s fd').core := by
  intro hall
  have hsome : (run (Session.step sampleWorld) (Session.init 3)
      (startUp ++ [requestTarget])).isSome := by decide +kernel
  have hend : (run (Session.step sampleWorld) (Session.init 3)
      (startUp ++ [requestTarget])).all fun s =>
      s.core.state = .running ∧ s.paused = false ∧ (s.core.targets 0).isSome ∧
        ((cycle sampleWorld s 6).core.targets 0).isNone := by decide +kernel
  obtain ⟨s, hrun⟩ := Option.isSome_iff_exists.mp hsome
  rw [hrun, Option.all_some, decide_eq_true_eq] at hend
  obtain ⟨hstate, hpaused, hopen, hclosed⟩ := hend
  have hsame := (hall sampleWorld 3 _ s hrun hstate hpaused (fun _ _ _ => ⟨9, rfl⟩)
    (fun _ => [97, COLON, 49]) 6).same 0
  rw [hopen, Option.isNone_iff_eq_none.mp hclosed] at hsame
  cases hsame

/-! ## The loss of a secondary connection -/

/-- A frame that waits for its ACK. -/
structure PendingFrame where
  seq : UInt16
  frame : Bytes
  sentAt : Nat
deriving DecidableEq, Repr

/-- The half of a data connection that sends. -/
structure Outgoing where
  writer : Common.WriteBuffer := {}
  unacked : List PendingFrame := []
  sendSeq : UInt16 := 0
deriving DecidableEq, Repr

structure WireSession where
  session : Session
  outgoing : Nat → Outgoing

/-- How a read ends a connection. -/
inductive Loss where
  | eof
  | error
deriving DecidableEq, Repr

def Loss.result : Loss → ReadResult
  | .eof => .eof
  | .error => .error

namespace WireSession

/-- A data connection with both halves. -/
def connection (s : WireSession) (i : Nat) : Option DataConnection × Outgoing :=
  (s.session.core.dataConnections[i]?, s.outgoing i)

/-- The descriptor of a connection; `none` also outside the table. -/
def fd (s : WireSession) (i : Nat) : Option Nat :=
  s.session.core.dataConnections[i]?.bind DataConnection.fd

/-- `on_disconnect`: the writers of the connections that are open are cleared. -/
def onDisconnect (s : WireSession) : WireSession where
  session := Lifecycle.onDisconnect s.session
  outgoing :=
    if s.session.paused ∨ s.session.core.state ≠ .running then s.outgoing
    else fun i => if (s.fd i).isSome then { s.outgoing i with writer := {} } else s.outgoing i

/-- The reader of connection `idx` sees the end of the stream or an error. -/
def readerLost (s : WireSession) (idx : Nat) (loss : Loss) : Option WireSession :=
  match s.session.core.dataConnections[idx]? with
  | none => none
  | some dc =>
      if dc.fd.isNone ∨ dc.reader.readBuf.length < dc.reader.readOffset then none
      else
        (dc.reader.serverRead loss.result).map fun reader =>
          onDisconnect { s with
            session := s.session.putConnection idx { fd := none, reader := reader } }

/-- `add_data_connection`: a slot that is open gets a new writer and keeps the rest. -/
def addDataConnection (w : World) (s : WireSession) (outputIdx : UInt8) (fd : Nat) :
    WireSession where
  session := s.session.setCore (Lifecycle.addDataConnection w s.session.core outputIdx fd)
  outgoing :=
    if (s.fd outputIdx.toNat).isSome then
      Function.update s.outgoing outputIdx.toNat
        { s.outgoing outputIdx.toNat with writer := {} }
    else s.outgoing

end WireSession

/-- The session is the one that `register_data_connection_reader` leaves. -/
theorem readerLost_session (w : World) (s : WireSession) (idx : Nat) (loss : Loss) :
    (s.readerLost idx loss).map WireSession.session =
      dataRead w s.session idx loss.result := by
  unfold WireSession.readerLost dataRead
  cases s.session.core.dataConnections[idx]? with
  | none => rfl
  | some dc =>
      dsimp only
      split_ifs
      · rfl
      · cases loss <;> rfl

/-- Nothing but connection `idx` is touched, and a new connection for its slot makes the session
what it was. -/
structure Contained (w : World) (idx : Nat) (s s' : WireSession) : Prop where
  targets : s'.session.core.targets = s.session.core.targets
  others : ∀ i, i ≠ idx → s'.connection i = s.connection i
  restores : ∀ (outputIdx : UInt8) (fd : Nat), outputIdx.toNat = idx →
    (s'.addDataConnection w outputIdx fd).session.core.targets = s.session.core.targets ∧
      (s'.addDataConnection w outputIdx fd).fd idx = some fd ∧
      ∀ i, i ≠ idx → (s'.addDataConnection w outputIdx fd).connection i = s.connection i

/-- Nothing else is open. -/
def Lone (s : WireSession) (idx : Nat) : Prop :=
  (∀ c, s.session.core.targets c = none) ∧ ∀ i, i ≠ idx → s.fd i = none

theorem readerLost_cases {s s' : WireSession} {idx : Nat} {loss : Loss}
    (h : s.readerLost idx loss = some s') :
    ∃ dc reader, s.session.core.dataConnections[idx]? = some dc ∧
      s' = WireSession.onDisconnect { s with
        session := s.session.putConnection idx { fd := none, reader := reader } } := by
  unfold WireSession.readerLost at h
  split at h
  · cases h
  · rename_i dc hdc
    split_ifs at h
    obtain ⟨reader, -, rfl⟩ := Option.map_eq_some_iff.mp h
    exact ⟨dc, reader, hdc, rfl⟩

/-- A connection of another slot, after `idx` was closed. -/
theorem putConnection_connection (s : WireSession) {idx i : Nat} (hi : i ≠ idx)
    (dc : DataConnection) :
    WireSession.connection { s with session := s.session.putConnection idx dc } i =
      s.connection i := by
  simp [WireSession.connection, Session.putConnection, Session.setCore, Ne.symm hi]

theorem checkReady_targets (w : World) {core : Core} (hplain : Plain core) :
    (checkReady w core).targets = core.targets := by
  unfold checkReady
  split_ifs
  · obtain ⟨sent, hsent⟩ := (processPendingReconnectTargets w core).sendControl_eq
      ⟨MSG_TRANSMIT_READY, []⟩
    rw [transmitReady, hsent, processPendingReconnectTargets_of_unusable w hplain.pending]
  · rfl

/-- A new connection changes its slot only. -/
theorem addDataConnection_spec (w : World) {s : WireSession} (hplain : Plain s.session.core)
    {outputIdx : UInt8} {dc : DataConnection}
    (hdc : s.session.core.dataConnections[outputIdx.toNat]? = some dc) (fd : Nat) :
    (s.addDataConnection w outputIdx fd).session.core.targets = s.session.core.targets ∧
      (s.addDataConnection w outputIdx fd).fd outputIdx.toNat = some fd ∧
      ∀ i, i ≠ outputIdx.toNat →
        (s.addDataConnection w outputIdx fd).connection i = s.connection i := by
  obtain ⟨hlt, -⟩ := List.getElem?_eq_some_iff.mp hdc
  let core : Core := { s.session.core with
    dataConnections := s.session.core.dataConnections.modify outputIdx.toNat fun dc =>
      dc.attach fd }
  have hcore : Lifecycle.addDataConnection w s.session.core outputIdx fd = checkReady w core := by
    rw [Lifecycle.addDataConnection, if_neg (by omega)]
  have hplain' : Plain core := ⟨hplain.targets, hplain.pending⟩
  have hdcs : (s.addDataConnection w outputIdx fd).session.core.dataConnections =
      core.dataConnections := by
    change (Lifecycle.addDataConnection w s.session.core outputIdx fd).dataConnections = _
    rw [hcore, (frames_checkReady w core).connections]
  refine ⟨?_, ?_, fun i hi => ?_⟩
  · change (Lifecycle.addDataConnection w s.session.core outputIdx fd).targets = _
    rw [hcore, checkReady_targets w hplain']
  · rw [WireSession.fd, hdcs, List.getElem?_modify_eq, hdc]
    change (dc.attach fd).fd = some fd
    rw [DataConnection.attach]
    split_ifs <;> rfl
  · have hout : (s.addDataConnection w outputIdx fd).outgoing i = s.outgoing i := by
      rw [WireSession.addDataConnection]
      dsimp only
      split_ifs
      · exact Function.update_of_ne hi _ _
      · rfl
    rw [WireSession.connection, WireSession.connection, hdcs, hout,
      List.getElem?_modify_ne _ _ (Ne.symm hi)]

theorem Contained.of_frame {w : World} {idx : Nat} {s s' : WireSession} {dc : DataConnection}
    (hplain : Plain s'.session.core) (hdc : s'.session.core.dataConnections[idx]? = some dc)
    (htargets : s'.session.core.targets = s.session.core.targets)
    (hothers : ∀ i, i ≠ idx → s'.connection i = s.connection i) : Contained w idx s s' where
  targets := htargets
  others := hothers
  restores := by
    rintro outputIdx fd rfl
    obtain ⟨htargets', hfd, hothers'⟩ := addDataConnection_spec w hplain hdc fd
    exact ⟨htargets'.trans htargets, hfd, fun i hi => (hothers' i hi).trans (hothers i hi)⟩

section OnDisconnect

variable {s : WireSession}

/-- A session that is paused already is left alone. -/
theorem onDisconnect_of_paused (hpaused : s.session.paused = true) : s.onDisconnect = s := by
  have hstop : s.session.paused = true ∨ s.session.core.state ≠ .running := Or.inl hpaused
  rw [WireSession.onDisconnect, Lifecycle.onDisconnect, if_pos hstop, if_pos hstop]

variable (hrunning : s.session.core.state = .running) (hpaused : s.session.paused = false)

include hrunning hpaused

theorem onDisconnect_core : s.onDisconnect.session.core = { s.session.core with
    targets := fun _ => none
    dataConnections := s.session.core.dataConnections.map DataConnection.close } := by
  have hgo : ¬ (s.session.paused = true ∨ s.session.core.state ≠ .running) := by
    simp [hrunning, hpaused]
  rw [WireSession.onDisconnect, Lifecycle.onDisconnect, if_neg hgo]
  rfl

/-- All connections are closed. -/
theorem onDisconnect_fd (i : Nat) : s.onDisconnect.fd i = none := by
  rw [WireSession.fd, onDisconnect_core hrunning hpaused, List.getElem?_map]
  cases s.session.core.dataConnections[i]? with
  | none => rfl
  | some dc =>
      change dc.close.fd = none
      rw [DataConnection.close]
      split_ifs with hopen
      · rfl
      · simpa using hopen

/-- One that was closed before stays as it is. -/
theorem onDisconnect_connection {i : Nat} (hclosed : s.fd i = none) :
    s.onDisconnect.connection i = s.connection i := by
  have hgo : ¬ (s.session.paused = true ∨ s.session.core.state ≠ .running) := by
    simp [hrunning, hpaused]
  have hout : s.onDisconnect.outgoing i = s.outgoing i := by
    rw [WireSession.onDisconnect, if_neg hgo]
    simp [hclosed]
  rw [WireSession.connection, WireSession.connection, hout, onDisconnect_core hrunning hpaused,
    List.getElem?_map]
  rw [WireSession.fd] at hclosed
  cases hdc : s.session.core.dataConnections[i]? with
  | none => rfl
  | some dc =>
      rw [hdc] at hclosed
      have hdown : dc.fd = none := hclosed
      simp [DataConnection.close, hdown]

end OnDisconnect

/-- The loss of a secondary connection is contained exactly in a session that is paused already
and in one that has nothing else open. -/
theorem secondary_loss_contained_iff (w : World) (fd : Nat) (events : List Event)
    (s s' : WireSession)
    (hrun : run (Session.step w) (Session.init fd) events = some s.session)
    (hrunning : s.session.core.state = .running) (idx : Nat) (loss : Loss)
    (hlost : s.readerLost idx loss = some s') :
    Contained w idx s s' ↔ s.session.paused = true ∨ Lone s idx := by
  obtain ⟨hplain, hsaved⟩ := plain_of_run hrun
  have hread : dataRead w s.session idx loss.result = some s'.session := by
    rw [← readerLost_session, hlost]
    rfl
  have hplain' : Plain s'.session.core := (moves_dataRead hplain hsaved hread).core.plain
  obtain ⟨dc, reader, hdc, rfl⟩ := readerLost_cases hlost
  obtain ⟨hlt, -⟩ := List.getElem?_eq_some_iff.mp hdc
  set closed : WireSession := { s with
    session := s.session.putConnection idx { fd := none, reader := reader } } with hclosed
  have hother : ∀ i, i ≠ idx → closed.connection i = s.connection i := fun i hi =>
    putConnection_connection s hi _
  have hslot : closed.session.core.dataConnections[idx]? =
      some { fd := none, reader := reader } := List.getElem?_set_self hlt
  have hrunning' : closed.session.core.state = .running := hrunning
  cases hpaused : s.session.paused with
  | true =>
      have hkept : closed.onDisconnect = closed := onDisconnect_of_paused hpaused
      rw [hkept] at hplain' ⊢
      exact iff_of_true (Contained.of_frame hplain' hslot rfl hother) (Or.inl rfl)
  | false =>
      have hpaused' : closed.session.paused = false := hpaused
      constructor
      · intro hcontained
        refine Or.inr ⟨fun c => ?_, fun i hi => ?_⟩
        · rw [← hcontained.targets, onDisconnect_core hrunning' hpaused']
        · have hfd : closed.onDisconnect.fd i = s.fd i :=
            congrArg (fun p => p.1.bind DataConnection.fd) (hcontained.others i hi)
          rw [← hfd, onDisconnect_fd hrunning' hpaused']
      · intro hlone
        obtain ⟨hnone, hdown⟩ : Lone s idx := by simpa using hlone
        have hslot' : closed.onDisconnect.session.core.dataConnections[idx]? =
            some (DataConnection.close { fd := none, reader := reader }) := by
          rw [onDisconnect_core hrunning' hpaused', List.getElem?_map, hslot]
          rfl
        refine Contained.of_frame hplain' hslot' ?_ fun i hi => ?_
        · rw [onDisconnect_core hrunning' hpaused']
          exact (funext hnone).symm
        · have hdown' : closed.fd i = none := by
            rw [← hdown i hi]
            exact congrArg (fun p => p.1.bind DataConnection.fd) (hother i hi)
          exact (onDisconnect_connection hrunning' hpaused' hdown').trans (hother i hi)

/-- The secondary connection comes back to a paused session and is lost again. -/
theorem secondary_loss_contained_iff_paused :
    let events := startUp ++ [.onDisconnect, .addDataConnection 1 6]
    ∃ s s' : WireSession, run (Session.step sampleWorld) (Session.init 3) events = some s.session ∧
      s.fd 1 = some 6 ∧ s.readerLost 1 .eof = some s' ∧ Contained sampleWorld 1 s s' := by
  intro events
  have hsome : (run (Session.step sampleWorld) (Session.init 3) events).isSome := by
    decide +kernel
  have hend : (run (Session.step sampleWorld) (Session.init 3) events).all fun t =>
      t.core.state = .running ∧ t.paused = true ∧ WireSession.fd ⟨t, fun _ => {}⟩ 1 = some 6 ∧
        (WireSession.readerLost ⟨t, fun _ => {}⟩ 1 .eof).isSome := by decide +kernel
  obtain ⟨t, hrun⟩ := Option.isSome_iff_exists.mp hsome
  rw [hrun, Option.all_some, decide_eq_true_eq] at hend
  obtain ⟨hrunning, hpaused, hfd, hlost⟩ := hend
  obtain ⟨s', hs'⟩ := Option.isSome_iff_exists.mp hlost
  refine ⟨⟨t, fun _ => {}⟩, s', hrun, hfd, hs', ?_⟩
  exact (secondary_loss_contained_iff sampleWorld 3 events ⟨t, fun _ => {}⟩ s' hrun hrunning 1 .eof
    hs').mpr (Or.inl hpaused)

/-- A session with a target and two connections: the end of the secondary one closes the target
and the primary one. -/
theorem secondary_loss_not_contained :
    ¬ ∀ (w : World) (fd : Nat) (events : List Event) (s s' : WireSession),
      run (Session.step w) (Session.init fd) events = some s.session →
        s.session.core.state = .running → ∀ (idx : Nat) (loss : Loss), 1 ≤ idx →
          s.readerLost idx loss = some s' → Contained w idx s s' := by
  intro hall
  have hsome : (run (Session.step sampleWorld) (Session.init 3)
      (startUp ++ [requestTarget])).isSome := by decide +kernel
  have hend : (run (Session.step sampleWorld) (Session.init 3)
      (startUp ++ [requestTarget])).all fun t =>
      t.core.state = .running ∧ (t.core.targets 0).isSome ∧
        (WireSession.readerLost ⟨t, fun _ => {}⟩ 1 .eof).isSome ∧
        (WireSession.readerLost ⟨t, fun _ => {}⟩ 1 .eof).all fun s' =>
          (s'.session.core.targets 0).isNone := by decide +kernel
  obtain ⟨t, hrun⟩ := Option.isSome_iff_exists.mp hsome
  rw [hrun, Option.all_some, decide_eq_true_eq] at hend
  obtain ⟨hrunning, hopen, hlost, hgone⟩ := hend
  obtain ⟨s', hs'⟩ := Option.isSome_iff_exists.mp hlost
  have hcontained := hall sampleWorld 3 _ ⟨t, fun _ => {}⟩ s' hrun hrunning 1 .eof le_rfl hs'
  have hclosed : s'.session.core.targets 0 = none := by
    rw [hs', Option.all_some] at hgone
    exact Option.isNone_iff_eq_none.mp hgone
  rw [← hcontained.targets, hclosed] at hopen
  cases hopen

end PipelineTunnel.Lifecycle
