import PipelineTunnel.Client.Lifecycle
import PipelineTunnel.Server.AuthGate

/-!
# The authentication gate on both sides

The client accepts a server the way the server accepts a client: it has no chain, no data
connection and has sent no control frame until it receives the answer to the challenge it
drew itself. Once it has the answer it never draws another challenge.
-/

namespace PipelineTunnel.Client

open Protocol Control StepSystem

/-- The bytes that an event feeds to `on_server_data`. -/
def Event.fed : Event → Bytes
  | .onServerData _ data => data
  | _ => []

def fedBytes (events : List Event) : Bytes := events.flatMap Event.fed

/-- The answer to the client's challenge. -/
def Answered (w : World) (fed : Bytes) (s : Session) : Prop :=
  Carries fed ⟨MSG_AUTH_RESPONSE, w.hexSha256 (s.clientChallenge ++ w.password)⟩

/-- The challenge is drawn already, or never will be. -/
def Past (core : Core) : Prop :=
  core.state ≠ .awaitAuth1Challenge ∧ core.state ≠ .awaitAuth1Ok

structure Locked (fed : Bytes) (s : Session) : Prop where
  waiting : (s.core.state = .awaitAuth1Challenge ∨ s.core.state = .awaitAuth1Ok ∨
    s.core.state = .awaitAuth2Ok) ∧ s.recvBuf <:+ fed ∨ s.core.state = .disconnected
  connections : s.core.dataConnections = []
  silent : s.core.controlSent = []
  chain : .chainCreated ∉ s.core.log
  reached : .became .awaitModuleListRes ∉ s.core.log

def Gate (w : World) (fed : Bytes) (s : Session) : Prop :=
  Answered w fed s ∧ Past s.core ∨ Locked fed s

theorem Locked.init : Locked [] Session.init where
  waiting := Or.inl ⟨Or.inl rfl, List.suffix_rfl⟩
  connections := rfl
  silent := rfl
  chain := by simp [Session.init]
  reached := by simp [Session.init]

/-! ## The challenge is drawn once -/

theorem past_become {core : Core} {st : State} (h₁ : st ≠ .awaitAuth1Challenge)
    (h₂ : st ≠ .awaitAuth1Ok) : Past (core.become st) :=
  ⟨h₁, h₂⟩

@[simp] theorem sendControl_state (core : Core) (pkt : Packet) :
    (core.sendControl pkt).state = core.state := by
  unfold Core.sendControl
  split_ifs <;> rfl

@[simp] theorem openSecondaryConnections_state (w : World) (core : Core) :
    (openSecondaryConnections w core).state = core.state := by
  unfold openSecondaryConnections
  split_ifs
  · rfl
  · have hfold : ∀ (is : List Nat) (core : Core),
        (is.foldl (openSecondaryConnection w) core).state = core.state := by
      intro is
      induction is with
      | nil => exact fun _ => rfl
      | cons i is ih =>
          intro core
          rw [List.foldl_cons, ih]
          unfold openSecondaryConnection
          split <;> rfl
    rw [hfold]

theorem past_openOutputs (w : World) (core : Core) (extra : Nat) :
    Past (openOutputs w core extra) := by
  unfold openOutputs
  split_ifs
  · simp [Past, Core.become]
  · simp [Past, startRunning, Core.become]

theorem past_applyControl (w : World) (core : Core) (pkt : Packet) (h : Past core) :
    Past (applyControl w core pkt) := by
  unfold applyControl
  split_ifs
  · unfold handleModuleListRes
    split
    · exact h
    · split_ifs
      · exact past_become (by decide) (by decide)
      · exact past_become (by decide) (by decide)
  · unfold handleChainReady
    split
    · exact h
    · exact past_openOutputs w core _
  · unfold handleTransmitReady
    split_ifs
    · simp [Past, startRunning, Core.become]
    · exact h
  · exact h

section Loops

variable {w : World} {challenge fed : Bytes} {s : Session}

/-- Behind the test the challenge stays and the state is a later one. -/
theorem startChain_past (w : World) (s : Session) :
    (startChain w s).clientChallenge = s.clientChallenge ∧ Past (startChain w s).core := by
  unfold startChain
  split_ifs
  · exact ⟨rfl, past_become (by decide) (by decide)⟩
  · dsimp only
    split
    · exact ⟨rfl, past_become (by decide) (by decide)⟩
    · exact ⟨rfl, past_become (by decide) (by decide)⟩

theorem handleAuth2Challenge_past (w : World) (s : Session) (pkt : Packet) :
    (handleAuth2Challenge w s pkt).clientChallenge = s.clientChallenge ∧
      Past (handleAuth2Challenge w s pkt).core := by
  unfold handleAuth2Challenge
  split_ifs
  · exact ⟨rfl, past_become (by decide) (by decide)⟩
  · exact startChain_past w s

theorem onServerPacket_past (h : Past s.core) (pkt : Packet) :
    (onServerPacket w challenge s pkt).clientChallenge = s.clientChallenge ∧
      Past (onServerPacket w challenge s pkt).core := by
  unfold onServerPacket
  simp only [h.1, h.2, if_false]
  split_ifs
  · exact ⟨rfl, h⟩
  · exact ⟨rfl, h⟩
  · exact handleAuth2Challenge_past w s pkt
  · exact ⟨rfl, h⟩
  · exact ⟨rfl, h⟩

theorem Locked.of_disconnected (h : Locked fed s) (hst : s.core.state = .disconnected)
    (fed' buf : Bytes) : Locked fed' { s with recvBuf := buf } :=
  ⟨Or.inr hst, h.connections, h.silent, h.chain, h.reached⟩

theorem Locked.setRecvBuf (h : Locked fed s) {buf : Bytes} (hbuf : buf <:+ fed) :
    Locked fed { s with recvBuf := buf } :=
  ⟨h.waiting.imp (fun hw => ⟨hw.1, hbuf⟩) id, h.connections, h.silent, h.chain, h.reached⟩

/-- A step of the authentication that goes on waiting, or gives up. -/
theorem Locked.become (h : Locked fed s) {st : State} (hbuf : s.recvBuf <:+ fed)
    (hst : st = .awaitAuth1Ok ∨ st = .awaitAuth2Ok ∨ st = .disconnected) :
    Locked fed (s.become st) where
  waiting := by
    rcases hst with rfl | rfl | rfl
    · exact Or.inl ⟨Or.inr (Or.inl rfl), hbuf⟩
    · exact Or.inl ⟨Or.inr (Or.inr rfl), hbuf⟩
    · exact Or.inr rfl
  connections := h.connections
  silent := h.silent
  chain := by simpa [Session.become, Session.setCore, Core.become] using h.chain
  reached := by
    have hne : st ≠ .awaitModuleListRes := by
      rcases hst with rfl | rfl | rfl <;> decide
    simpa [Session.become, Session.setCore, Core.become, hne.symm] using h.reached

theorem gate_handleAuth1Ok (h : Locked fed s) (hbuf : s.recvBuf <:+ fed) (pkt : Packet) :
    Locked fed (handleAuth1Ok challenge s pkt) := by
  unfold handleAuth1Ok
  split
  · exact h.become hbuf (Or.inr (Or.inr rfl))
  · refine Locked.become ?_ ?_ (Or.inr (Or.inl rfl))
    · split_ifs
      · exact ⟨h.waiting, h.connections, h.silent, h.chain, h.reached⟩
      · exact ⟨h.waiting, h.connections, h.silent, h.chain, h.reached⟩
    · split_ifs
      · exact hbuf
      · exact hbuf

theorem gate_handleAuth2Challenge (h : Locked fed s) (hbuf : s.recvBuf <:+ fed) {pkt : Packet}
    (htype : pkt.type = MSG_AUTH_RESPONSE) (hpkt : Carries fed pkt) :
    Gate w fed (handleAuth2Challenge w s pkt) := by
  by_cases hhash : pkt.payload = w.hexSha256 (s.clientChallenge ++ w.password)
  · obtain ⟨hchallenge, hpast⟩ := handleAuth2Challenge_past w s pkt
    refine Or.inl ⟨?_, hpast⟩
    rwa [Answered, hchallenge, ← hhash, ← htype]
  · rw [handleAuth2Challenge, if_pos hhash]
    exact Or.inr (h.become hbuf (Or.inr (Or.inr rfl)))

theorem gate_onServerPacket (h : Locked fed s) (hbuf : s.recvBuf <:+ fed) {pkt : Packet}
    (hpkt : Carries fed pkt) : Gate w fed (onServerPacket w challenge s pkt) := by
  unfold onServerPacket
  dsimp only
  split_ifs with hchal hst₁ hok hst₂ hresp hst₃
  · right
    have hsent : Locked fed ({ s with challenge1 := pkt.payload }.sendPacket
        ⟨MSG_AUTH_RESPONSE, w.hexSha256 (pkt.payload ++ w.password)⟩) :=
      ⟨h.waiting, h.connections, h.silent, h.chain, h.reached⟩
    exact hsent.become hbuf (Or.inl rfl)
  · exact Or.inr h
  · exact Or.inr (gate_handleAuth1Ok h hbuf pkt)
  · exact Or.inr h
  · exact gate_handleAuth2Challenge h hbuf hresp hpkt
  · exact Or.inr h
  · exact Or.inr h

/-- A disconnected client acts on no packet. -/
theorem onServerPacket_disconnected (hst : s.core.state = .disconnected) (pkt : Packet) :
    onServerPacket w challenge s pkt = s := by
  simp [onServerPacket, hst]

theorem gate_serverLoop (h : Gate w fed s) (n : Nat) :
    Gate w fed ((serverLoop w challenge).rounds n s) := by
  refine PacketLoop.rounds_invariant _ (I := Gate w fed) ?_ n h
  intro s n pkt hgate hparse
  rcases hgate with ⟨hanswer, hpast⟩ | h
  · left
    have htake : ((serverLoop w challenge).take s n pkt).clientChallenge = s.clientChallenge ∧
        Past ((serverLoop w challenge).take s n pkt).core :=
      onServerPacket_past (s := { s with recvBuf := s.recvBuf.drop n }) hpast pkt
    refine ⟨?_, htake.2⟩
    rwa [Answered, htake.1]
  · rcases h.waiting with ⟨-, hsuffix⟩ | hst
    · have hbuf : s.recvBuf.drop n <:+ fed := (List.drop_suffix n _).trans hsuffix
      exact gate_onServerPacket (h.setRecvBuf hbuf) hbuf (Carries.of_suffix hsuffix hparse)
    · right
      have heq : (serverLoop w challenge).take s n pkt = { s with recvBuf := s.recvBuf.drop n } :=
        onServerPacket_disconnected (s := { s with recvBuf := s.recvBuf.drop n }) hst pkt
      rw [heq]
      exact h.of_disconnected hst fed _

theorem gate_onServerData (h : Gate w fed s) (data : Bytes) :
    Gate w (fed ++ data) (onServerData w challenge s data) := by
  apply gate_serverLoop
  rcases h with ⟨hanswer, hpast⟩ | h
  · exact Or.inl ⟨hanswer.mono (List.prefix_append fed data).isInfix, hpast⟩
  · right
    rcases h.waiting with ⟨hst, hsuffix⟩ | hst
    · have hbuf : s.recvBuf ++ data <:+ fed ++ data := List.suffix_append_self_iff.mpr hsuffix
      exact ⟨Or.inl ⟨hst, hbuf⟩, h.connections, h.silent, h.chain, h.reached⟩
    · exact h.of_disconnected hst _ _

end Loops

/-! ## Every event keeps the gate shut -/

theorem gate_step {w : World} {fed : Bytes} {s s' : Session} {e : Event} (h : Gate w fed s)
    (hstep : s.step w e = some s') : Gate w (fed ++ e.fed) s' := by
  cases e with
  | onServerData challenge data =>
      obtain rfl := Option.some.inj hstep
      exact gate_onServerData h data
  | serverClosed =>
      obtain rfl := Option.some.inj hstep
      simp only [Event.fed, List.append_nil]
      rcases h with ⟨hanswer, -⟩ | h
      · exact Or.inl ⟨hanswer, past_become (by decide) (by decide)⟩
      · right
        exact ⟨Or.inr rfl, h.connections, h.silent,
          by simpa [Session.become, Session.setCore, Core.become] using h.chain,
          by simpa [Session.become, Session.setCore, Core.become] using h.reached⟩
  | deliver seq pkt =>
      simp only [Session.step] at hstep
      split_ifs at hstep with hopen
      obtain rfl := Option.some.inj hstep
      simp only [Event.fed, List.append_nil]
      rcases h with ⟨hanswer, hpast⟩ | h
      · exact Or.inl ⟨hanswer,
          deliverControl_invariant (applyControl w) (past_applyControl w) seq pkt hpast⟩
      · simp [h.connections] at hopen

theorem gate_run {w : World} {events : List Event} {s : Session}
    (h : run (Session.step w) Session.init events = some s) : Gate w (fedBytes events) s := by
  have hstart : Gate w (fedBytes []) Session.init := Or.inr Locked.init
  refine invariant_of_history (I := fun hist s => Gate w (fedBytes hist) s) ?_ hstart h
  intro hist s e s' hI hstep
  simpa [fedBytes] using gate_step hI hstep

/-- The client came to its module list, has a chain or has sent a control frame. -/
def Trusts (s : Session) : Prop :=
  .became .awaitModuleListRes ∈ s.core.log ∨ .chainCreated ∈ s.core.log ∨ s.core.controlSent ≠ []

theorem Gate.answered {w : World} {fed : Bytes} {s : Session} (h : Gate w fed s)
    (hs : Trusts s) : Answered w fed s := by
  rcases h with ⟨h, -⟩ | h
  · exact h
  · rcases hs with hs | hs | hs
    · exact absurd hs h.reached
    · exact absurd hs h.chain
    · exact absurd h.silent hs

/-! ## Both sides -/

/-- Neither side gets past the authentication without the answer to its own challenge. -/
theorem mutual_authentication_gate (ws : Lifecycle.World) (fd : Nat)
    (serverEvents : List Lifecycle.Event) (s : Lifecycle.Session)
    (hserver : run (Lifecycle.Session.step ws) (Lifecycle.Session.init fd) serverEvents = some s)
    (wc : World) (clientEvents : List Event) (c : Session)
    (hclient : run (Session.step wc) Session.init clientEvents = some c) :
    (Lifecycle.Reached s .awaitChainCreate ∨ Lifecycle.Reached s .running ∨ s.handedTo.isSome →
      Lifecycle.Presented ws (Lifecycle.fedBytes serverEvents)) ∧
    (Trusts c → Answered wc (fedBytes clientEvents) c) :=
  ⟨(Lifecycle.gate_run hserver).presented, (gate_run hclient).answered⟩

/-- An empty password and empty challenges: the digest is the one of the empty text. -/
theorem mutual_authentication_gate_empty :
    let digest := Lifecycle.hex
      [0xe3, 0xb0, 0xc4, 0x42, 0x98, 0xfc, 0x1c, 0x14, 0x9a, 0xfb, 0xf4,
        0xc8, 0x99, 0x6f, 0xb9, 0x24, 0x27, 0xae, 0x41, 0xe4, 0x64, 0x9b,
        0x93, 0x4c, 0xa4, 0x95, 0x99, 0x1b, 0x78, 0x52, 0xb8, 0x55]
    let ws : Lifecycle.World := ⟨1, [], [], fun _ => digest, fun _ => true, fun _ => 0,
      fun _ => 0, fun _ _ _ => .fails⟩
    let wc : World := ⟨[], fun _ => digest, 3, 0, [], fun _ => none, 0, fun _ => none⟩
    let serverEvents : List Lifecycle.Event :=
      [.onData (fun _ => false) (serialize ⟨MSG_AUTH_RESPONSE, digest⟩),
        .onData (fun _ => false) (serialize ⟨MSG_AUTH_CHALLENGE, []⟩ ++
          serialize ⟨MSG_AUTH_OK, [1]⟩)]
    let clientEvents : List Event :=
      [.onServerData [] (serialize ⟨MSG_AUTH_CHALLENGE, []⟩),
        .onServerData [] (serialize ⟨MSG_AUTH_OK, [1]⟩ ++ serialize ⟨MSG_AUTH_RESPONSE, digest⟩)]
    ∃ s c, run (Lifecycle.Session.step ws) (Lifecycle.Session.init 4) serverEvents = some s ∧
      run (Session.step wc) Session.init clientEvents = some c ∧
      Lifecycle.Presented ws (Lifecycle.fedBytes serverEvents) ∧
      Answered wc (fedBytes clientEvents) c := by
  intro digest ws wc serverEvents clientEvents
  have h := mutual_authentication_gate ws 4 serverEvents _ rfl wc clientEvents _ rfl
  exact ⟨_, _, rfl, rfl, h.1 (Or.inl (by decide)), h.2 (Or.inl (by decide))⟩

end PipelineTunnel.Client
