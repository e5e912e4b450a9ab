import PipelineTunnel.Lib.StepSystem
import PipelineTunnel.Server.Frame

/-!
# No session without the password

A session that has not been sent the answer to its challenge is locked: it waits for the
answer or is disconnected, it has no data connection and nobody has its descriptor. Every
event keeps a session locked until the answer is among the bytes that `on_data` was fed.
-/

namespace PipelineTunnel.Lifecycle

open Protocol Control StepSystem
open Server (State)

/-- The bytes that an event feeds to `on_data`. -/
def Event.fed : Event → Bytes
  | .onData _ data => data
  | _ => []

def fedBytes (events : List Event) : Bytes := events.flatMap Event.fed

/-- The answer to the challenge was sent, on its own or behind the id of a session. -/
def Presented (w : World) (fed : Bytes) : Prop :=
  Carries fed ⟨MSG_AUTH_RESPONSE, w.expected⟩ ∨
    ∃ payload, payload.length = 72 ∧ payload.drop 8 = w.expected ∧
      Carries fed ⟨MSG_RECONNECT, payload⟩

theorem Presented.mono {w : World} {fed fed' : Bytes} (h : Presented w fed)
    (hle : fed <:+: fed') : Presented w fed' := by
  rcases h with h | ⟨payload, hlen, hhash, h⟩
  · exact Or.inl (h.mono hle)
  · exact Or.inr ⟨payload, hlen, hhash, h.mono hle⟩

/-- The state was assigned at some time. -/
def Reached (s : Session) (st : State) : Prop := .became st ∈ s.core.log

instance (s : Session) (st : State) : Decidable (Reached s st) :=
  inferInstanceAs (Decidable (_ ∈ _))

/-- Nothing has happened to the session but a failed authentication. -/
structure Locked (fed : Bytes) (s : Session) : Prop where
  waiting : s.core.state = .awaitAuth1ChallengeResp ∧ s.recvBuf <:+ fed ∨
    s.core.state = .disconnected
  connections : s.core.dataConnections = []
  unpaused : s.paused = false
  kept : s.handedTo = none
  reached : ∀ st, Reached s st → st = .disconnected

def Gate (w : World) (fed : Bytes) (s : Session) : Prop := Presented w fed ∨ Locked fed s

theorem Locked.init (fd : Nat) : Locked [] (Session.init fd) where
  waiting := Or.inl ⟨rfl, List.suffix_rfl⟩
  connections := rfl
  unpaused := rfl
  kept := rfl
  reached := by simp [Reached, Session.init]

theorem Locked.setCore {fed : Bytes} {s : Session} {core : Core} (h : Locked fed s)
    (hkeeps : Keeps s.core core) : Locked fed (s.setCore core) where
  waiting := by
    change core.state = _ ∧ _ ∨ core.state = _
    rw [hkeeps.state]
    exact h.waiting
  connections := hkeeps.connections.trans h.connections
  unpaused := h.unpaused
  kept := h.kept
  reached st hst := h.reached st (hkeeps.reached st hst)

/-! ## The loops of `on_data` -/

section Loops

variable {w : World} {reconnects : UInt64 → Bool} {fed : Bytes} {s : Session}

theorem Locked.setRecvBuf (h : Locked fed s) {buf : Bytes} (hbuf : buf <:+ fed) :
    Locked fed { s with recvBuf := buf } where
  waiting := h.waiting.imp (fun hw => ⟨hw.1, hbuf⟩) id
  connections := h.connections
  unpaused := h.unpaused
  kept := h.kept
  reached := h.reached

theorem Locked.sendPacket (h : Locked fed s) (pkt : Packet) : Locked fed (s.sendPacket pkt) :=
  ⟨h.waiting, h.connections, h.unpaused, h.kept, h.reached⟩

theorem Locked.disconnect (h : Locked fed s) : Locked fed (s.become .disconnected) where
  waiting := Or.inr rfl
  connections := h.connections
  unpaused := h.unpaused
  kept := h.kept
  reached st hst := by
    rcases List.mem_append.mp hst with hst | hst
    · exact h.reached st hst
    · simpa using hst

/-- Without the answer, a reply to the challenge disconnects. -/
theorem gate_handleAuthChallengeResponse (h : Locked fed s) {pkt : Packet}
    (htype : pkt.type = MSG_AUTH_RESPONSE) (hpkt : Carries fed pkt) :
    Gate w fed (handleAuthChallengeResponse w s pkt) := by
  unfold handleAuthChallengeResponse
  by_cases hhash : pkt.payload = w.expected
  · left; left
    rwa [← hhash, ← htype]
  · rw [if_pos hhash]
    exact Or.inr (h.sendPacket authFail).disconnect

theorem gate_handleReconnect (h : Locked fed s) {pkt : Packet}
    (htype : pkt.type = MSG_RECONNECT) (hpkt : Carries fed pkt) :
    Gate w fed (handleReconnect w reconnects s pkt) := by
  unfold handleReconnect
  by_cases hlen : pkt.payload.length = 72
  · by_cases hhash : pkt.payload.drop 8 = w.expected
    · left; right
      exact ⟨pkt.payload, hlen, hhash, htype ▸ hpkt⟩
    · rw [if_neg (not_not.mpr hlen), if_pos hhash]
      exact Or.inr (h.sendPacket authFail).disconnect
  · rw [if_pos hlen]
    exact Or.inr (h.sendPacket authFail)

theorem onAuthPacket_disconnected (hst : s.core.state = .disconnected) (pkt : Packet) :
    onAuthPacket w reconnects s pkt = s := by
  simp [onAuthPacket, hst]

theorem gate_onAuthPacket (h : Locked fed s) {pkt : Packet} (hpkt : Carries fed pkt) :
    Gate w fed (onAuthPacket w reconnects s pkt) := by
  rcases h.waiting with ⟨hst, -⟩ | hst
  · by_cases hresp : pkt.type = MSG_AUTH_RESPONSE
    · have heq : onAuthPacket w reconnects s pkt = handleAuthChallengeResponse w s pkt := by
        simp [onAuthPacket, hst, hresp]
      exact heq ▸ gate_handleAuthChallengeResponse h hresp hpkt
    · by_cases hrec : pkt.type = MSG_RECONNECT
      · have heq : onAuthPacket w reconnects s pkt = handleReconnect w reconnects s pkt := by
          rw [onAuthPacket, hrec]
          simp [hst, MSG_AUTH_RESPONSE, MSG_AUTH_OK, MSG_AUTH_CHALLENGE, MSG_RECONNECT]
        exact heq ▸ gate_handleReconnect h hrec hpkt
      · right
        simpa [onAuthPacket, hst, hresp, hrec] using h
  · rw [onAuthPacket_disconnected hst]
    exact Or.inr h

/-- Behind the authentication every case is gated by a state that a locked session is
never in. -/
theorem Locked.onWirePacket (h : Locked fed s) (pkt : Packet) :
    onWirePacket w reconnects s pkt = s := by
  rcases h.waiting with ⟨hst, -⟩ | hst
  · simp [Lifecycle.onWirePacket, hst]
  · simp [Lifecycle.onWirePacket, hst]

/-- For a disconnected session the receive buffer does not matter. -/
theorem Locked.of_disconnected (h : Locked fed s) (hst : s.core.state = .disconnected)
    (fed' buf : Bytes) : Locked fed' { s with recvBuf := buf } :=
  ⟨Or.inr hst, h.connections, h.unpaused, h.kept, h.reached⟩

theorem gate_authLoop (h : Locked fed s) (n : Nat) :
    Gate w fed ((authLoop w reconnects).rounds n s) := by
  refine PacketLoop.rounds_invariant _ (I := Gate w fed) ?_ n (Or.inr h)
  intro s n pkt hgate hparse
  rcases hgate with hpresented | h
  · exact Or.inl hpresented
  · rcases h.waiting with ⟨-, hsuffix⟩ | hst
    · have hbuf : s.recvBuf.drop n <:+ fed := (List.drop_suffix n _).trans hsuffix
      exact gate_onAuthPacket (h.setRecvBuf hbuf) (Carries.of_suffix hsuffix hparse)
    · right
      have heq : (authLoop w reconnects).take s n pkt = { s with recvBuf := s.recvBuf.drop n } :=
        onAuthPacket_disconnected (s := { s with recvBuf := s.recvBuf.drop n }) hst pkt
      rw [heq]
      exact h.of_disconnected hst fed _

theorem Locked.wireLoop (h : Locked fed s) (hst : s.core.state = .disconnected) (n : Nat) :
    Locked fed ((wireLoop w reconnects).rounds n s) := by
  refine (PacketLoop.rounds_invariant _
    (I := fun s => Locked fed s ∧ s.core.state = .disconnected) ?_ n ⟨h, hst⟩).1
  rintro s n pkt ⟨h, hst⟩ -
  have hdrop := h.of_disconnected hst fed (s.recvBuf.drop n)
  have heq : (Lifecycle.wireLoop w reconnects).take s n pkt =
      { s with recvBuf := s.recvBuf.drop n } := hdrop.onWirePacket pkt
  rw [heq]
  exact ⟨hdrop, hst⟩

theorem gate_onData (h : Locked fed s) (data : Bytes) :
    Gate w (fed ++ data) (onData w reconnects s data) := by
  unfold onData
  rcases h.waiting with ⟨hst, hsuffix⟩ | hst
  · have hlt : stateValue s.core.state < stateValue .authDone := by rw [hst]; decide
    rw [if_pos hlt]
    apply gate_authLoop
    have hbuf : s.recvBuf ++ data <:+ fed ++ data := List.suffix_append_self_iff.mpr hsuffix
    exact ⟨Or.inl ⟨hst, hbuf⟩, h.connections, h.unpaused, h.kept, h.reached⟩
  · have hge : ¬ stateValue s.core.state < stateValue .authDone := by rw [hst]; decide
    rw [if_neg hge]
    right
    split_ifs
    · exact h.of_disconnected hst _ s.recvBuf
    · exact (h.of_disconnected hst _ (s.recvBuf ++ data)).wireLoop hst _

end Loops

/-! ## Every event keeps the gate shut -/

/-- A locked session is not running: it cannot be paused and has no heartbeat. -/
theorem Locked.not_running {fed : Bytes} {s : Session} (h : Locked fed s) :
    s.core.state ≠ .running := by
  rcases h.waiting with ⟨hst, -⟩ | hst <;> simp [hst]

theorem keeps_event {w : World} {fed : Bytes} {s s' : Session} {e : Event} (h : Locked fed s)
    (hfed : ∀ reconnects data, e ≠ .onData reconnects data) (hstep : s.step w e = some s') :
    s' = s ∨ ∃ core, Keeps s.core core ∧ s' = s.setCore core := by
  cases e with
  | onData reconnects data => exact absurd rfl (hfed reconnects data)
  | dataRead idx res => simp [Session.step, Lifecycle.dataRead, h.connections] at hstep
  | addDataConnection outputIdx fd =>
      refine Or.inr ⟨_, ?_, (Option.some.inj hstep).symm⟩
      have hpending : s.core.dataConnections.length ≤ outputIdx.toNat := by simp [h.connections]
      rw [Lifecycle.addDataConnection, if_pos hpending]
      exact ⟨rfl, rfl, fun _ => id⟩
  | reconnect fd =>
      left
      simpa [Session.step, Lifecycle.reconnect, h.unpaused] using hstep.symm
  | onDisconnect =>
      left
      simpa [Session.step, Lifecycle.onDisconnect, h.not_running] using hstep.symm
  | connectDone pending ok =>
      simp only [Session.step] at hstep
      split_ifs at hstep
      exact Or.inr ⟨_, (frames_connectDone s.core pending ok).toKeeps, (Option.some.inj hstep).symm⟩
  | connectTimeout reqId =>
      exact Or.inr ⟨_, (frames_connectTimeout s.core reqId).toKeeps, (Option.some.inj hstep).symm⟩
  | sendDisconnectNow connId sent =>
      exact Or.inr ⟨_, (frames_sendDisconnectNow s.core connId sent).toKeeps,
        (Option.some.inj hstep).symm⟩
  | closePendingTargets =>
      refine Or.inr ⟨_, ?_, (Option.some.inj hstep).symm⟩
      have hframes := frames_closeTargets s.core.pendingDisconnectTargets s.core
      exact ⟨hframes.state, hframes.connections, hframes.reached⟩
  | wireWriteFailed idx =>
      refine Or.inr ⟨_, ?_, (Option.some.inj hstep).symm⟩
      exact ⟨rfl, by simp [h.connections], fun _ => id⟩
  | targetError connId =>
      exact Or.inr ⟨_, (frames_closeTarget s.core connId).toKeeps, (Option.some.inj hstep).symm⟩
  | checkHeartbeat timeout =>
      refine Or.inr ⟨_, ?_, (Option.some.inj hstep).symm⟩
      simpa [Lifecycle.checkHeartbeat, h.not_running] using (Frames.refl s.core).toKeeps

theorem gate_step {w : World} {fed : Bytes} {s s' : Session} {e : Event} (h : Gate w fed s)
    (hstep : s.step w e = some s') : Gate w (fed ++ e.fed) s' := by
  rcases h with hpresented | h
  · exact Or.inl (hpresented.mono (List.prefix_append fed e.fed).isInfix)
  · by_cases hdata : ∃ reconnects data, e = .onData reconnects data
    · obtain ⟨reconnects, data, rfl⟩ := hdata
      obtain rfl := Option.some.inj hstep
      exact gate_onData h data
    · have hnil : e.fed = [] := by
        cases e with
        | onData reconnects data => exact absurd ⟨reconnects, data, rfl⟩ hdata
        | _ => rfl
      rw [hnil, List.append_nil]
      right
      push Not at hdata
      rcases keeps_event h hdata hstep with rfl | ⟨core, hkeeps, rfl⟩
      · exact h
      · exact h.setCore hkeeps

/-- What a session was fed decides how far it can have come. -/
theorem gate_run {w : World} {fd : Nat} {events : List Event} {s : Session}
    (h : run (Session.step w) (Session.init fd) events = some s) :
    Gate w (fedBytes events) s := by
  have hstart : Gate w (fedBytes []) (Session.init fd) := Or.inr (Locked.init fd)
  refine invariant_of_history (I := fun hist s => Gate w (fedBytes hist) s) ?_ hstart h
  intro hist s e s' hI hstep
  simpa [fedBytes] using gate_step hI hstep

/-- The gate: a session that came to its chain, or gave its descriptor away, was sent the
answer to its challenge. -/
theorem Gate.presented {w : World} {fed : Bytes} {s : Session} (h : Gate w fed s)
    (hs : Reached s .awaitChainCreate ∨ Reached s .running ∨ s.handedTo.isSome) :
    Presented w fed := by
  rcases h with h | h
  · exact h
  · rcases hs with hs | hs | hs
    · exact absurd (h.reached _ hs) (by decide)
    · exact absurd (h.reached _ hs) (by decide)
    · simp [h.kept] at hs

/-- The bytes of an authentication that succeeds, when every hash is `hash`. -/
def authBytes (hash : Bytes) : Bytes :=
  serialize ⟨MSG_AUTH_RESPONSE, hash⟩ ++ serialize ⟨MSG_AUTH_CHALLENGE, [1]⟩ ++
    serialize ⟨MSG_AUTH_OK, [1]⟩

end PipelineTunnel.Lifecycle
