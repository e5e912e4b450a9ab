import PipelineTunnel.Flow.Model
import PipelineTunnel.Lib.StepSystem

/-!
# Chain pauses between the two ends

An end whose chain is backed up from the tunnel (`bp1`) asks the other to stop reading, and
remembers that it did so in `local_chain_sent` of the connections it has at that moment. The
other end stops the connections it has when the message arrives.

## Implementation notes

Control messages travel in order in both directions. The server opens a connection and
announces it with `MSG_CONNECT_OK`, the client opens it when this arrives. Either end may close
a connection at any time; whether the other learns of it by `MSG_DISCONNECT` is part of the
event, since with a chain the notice travels with the data.
-/

namespace PipelineTunnel.Flow.Chain

open Protocol StepSystem

/-- `wire role` is under way to `role`; `chainSent role` lists what the ticks of `role` sent, and
`ranSince role` tells whether it had one since its `bp1` changed. -/
structure Peers where
  ends : Role → End := fun _ => {}
  wire : Role → List Packet := fun _ => []
  bp1 : Role → Bool := fun _ => false
  ranSince : Role → Bool := fun _ => false
  chainSent : Role → List Packet := fun _ => []

inductive Label where
  /-- `on_target_connected`. -/
  | serverOpens (connId reqId : UInt8) (fd : Nat)
  | closes (role : Role) (connId : UInt8) (notify : Bool)
  | bp1Flips (role : Role)
  | tick (role : Role) (t : Tick)
  /-- The next message arrives; `fd` is the descriptor of the request that a `MSG_CONNECT_OK`
  is for, if it still waits. -/
  | deliver (role : Role) (fd : Option Nat)
deriving DecidableEq, Repr

namespace Peers

def setEnd (s : Peers) (role : Role) (e : End) : Peers :=
  { s with ends := Function.update s.ends role e }

/-- `role` sends messages. -/
def send (s : Peers) (role : Role) (pkts : List Packet) : Peers :=
  { s with wire := Function.update s.wire role.other (s.wire role.other ++ pkts) }

/-- `handle_connect_ok`. -/
def receiveOk (s : Peers) (fd : Option Nat) (pkt : Packet) : Peers :=
  match pkt.payload, fd with
  | connId :: _ :: _, some fd => s.setEnd .client (openConn .client (s.ends .client) connId fd)
  | connId :: _ :: _, none => s.send .client [⟨MSG_DISCONNECT, [connId]⟩]
  | _, _ => s

/-- A message that has arrived at `role`. -/
def receive (s : Peers) (role : Role) (fd : Option Nat) (pkt : Packet) : Peers :=
  if role = .client ∧ pkt.type = MSG_CONNECT_OK then s.receiveOk fd pkt
  else s.setEnd role (applyControl role (s.ends role) pkt)

def runTick (s : Peers) (role : Role) (t : Tick) : Peers :=
  let (e, sent) := processPendingIo role t (s.ends role)
  { (s.setEnd role e).send role sent with
    ranSince := Function.update s.ranSince role true
    chainSent := Function.update s.chainSent role (s.chainSent role ++ sent) }

end Peers

def step (s : Peers) : Label → Option Peers
  | .serverOpens connId reqId fd =>
      some ((s.setEnd .server (openConn .server (s.ends .server) connId fd)).send .server
        [⟨MSG_CONNECT_OK, [connId, reqId]⟩])
  | .closes role connId notify =>
      some ((s.setEnd role (closeConn (s.ends role) connId)).send role
        (if notify then [⟨MSG_DISCONNECT, [connId]⟩] else []))
  | .bp1Flips role =>
      some { s with
        bp1 := Function.update s.bp1 role !s.bp1 role
        ranSince := Function.update s.ranSince role false }
  | .tick role t => if t.bp1 = s.bp1 role then some (s.runTick role t) else none
  | .deliver role fd =>
      match s.wire role with
      | [] => none
      | pkt :: rest =>
          some ({ s with wire := Function.update s.wire role rest }.receive role fd pkt)

/-- The last chain message is a pause. -/
def PauseLast (sent : List Packet) : Prop := sent.getLast?.map Packet.type = some MSG_CHAIN_PAUSE

instance (sent : List Packet) : Decidable (PauseLast sent) :=
  inferInstanceAs (Decidable (_ = some MSG_CHAIN_PAUSE))

/-- When the chain of `role` is not backed up, it has had a tick since then and no message is
under way, the other end has no connection paused by it. -/
def Lifted (s : Peers) : Prop :=
  ∀ role, s.bp1 role = false → s.ranSince role = true → (∀ side, s.wire side = []) →
    ∀ connId fl, (s.ends role.other).flagsOf connId = some fl → fl.chainPaused = false

/-- A tick without backpressure after a pause finds a connection that remembers the pause. -/
def Remembers (s : Peers) : Label → Prop
  | .tick role _ =>
      s.bp1 role = false → PauseLast (s.chainSent role) → localSent (s.ends role) = true
  | _ => True

instance (s : Peers) : ∀ l, Decidable (Remembers s l)
  | .tick role _ => inferInstanceAs (Decidable (s.bp1 role = false →
      PauseLast (s.chainSent role) → localSent (s.ends role) = true))
  | .serverOpens .. | .closes .. | .bp1Flips _ | .deliver .. => isTrue trivial

/-! ## One flag of the connections -/

/-- A flag of the connections stays as it is. -/
def Preserves (flag : Flags → Bool) (e e' : End) : Prop :=
  ∀ connId, (e'.flagsOf connId).map flag = (e.flagsOf connId).map flag

section Preserves

variable {flag : Flags → Bool} {e e' e'' : End} {f : Visit} {g : Flags → Flags}

theorem Preserves.refl (e : End) : Preserves flag e e := fun _ => rfl

theorem Preserves.trans (h : Preserves flag e e') (h' : Preserves flag e' e'') :
    Preserves flag e e'' := fun connId => (h' connId).trans (h connId)

theorem preserves_visit (hf : ∀ p, (f p).1 = g p.1) (hg : ∀ fl, flag (g fl) = flag fl)
    (connId : UInt8) : Preserves flag e (e.visit connId f) := by
  intro connId'
  rw [End.visit_flagsOf e f _ _ hf]
  split_ifs
  · rw [Option.map_map, show flag ∘ g = flag from funext hg]
  · rfl

theorem preserves_visitAll (hf : ∀ p, (f p).1 = g p.1) (hg : ∀ fl, flag (g fl) = flag fl) :
    Preserves flag e (e.visitAll f) := by
  intro connId
  rw [End.visitAll_flagsOf e f _ hf, Option.map_map, show flag ∘ g = flag from funext hg]

theorem preserves_overflow (hflag : ∀ fl b, flag { fl with extOverflowPaused := b } = flag fl)
    (e : End) (dcSize : Nat) : Preserves flag e (overflow e dcSize) := by
  have hset (b : Bool) : Preserves flag e { e with dcPaused := b } := fun _ => rfl
  unfold overflow
  split_ifs
  · exact Preserves.refl e
  · exact (hset true).trans (preserves_visitAll (fun _ => rfl) (fun fl => hflag fl true))
  · exact (hset false).trans (preserves_visitAll (fun _ => rfl) (fun fl => hflag fl false))
  · exact Preserves.refl e

theorem preserves_register (hflag : ∀ fl b, flag { fl with registered := b } = flag fl)
    (e : End) (connId : UInt8) : Preserves flag e (e.visit connId registerEpollout) := by
  refine preserves_visit (g := fun fl => { fl with registered := true }) ?_ (hflag · true) connId
  rintro ⟨fl, d⟩
  rw [registerEpollout]
  cases hreg : fl.registered with
  | true =>
      cases fl
      cases hreg
      rfl
  | false => rfl

theorem preserves_runBatch (hflag : ∀ fl b, flag { fl with registered := b } = flag fl)
    (e : End) (batch : List UInt8) : Preserves flag e (runBatch e batch) := by
  induction batch generalizing e with
  | nil => exact Preserves.refl e
  | cons connId batch ih => exact (preserves_register hflag e connId).trans (ih _)

theorem preserves_gate (hflag : ∀ fl b, flag { fl with epollinRemoved := b } = flag fl)
    (e : End) (bp0 : Bool) : Preserves flag e (e.visitAll (gate bp0)) := by
  refine preserves_visitAll
    (g := fun fl => { fl with epollinRemoved := fl.shouldPause bp0 }) ?_ (fun fl => hflag fl _)
  rintro ⟨⟨w, c, x, sent, removed, reg⟩, d⟩
  rw [gate]
  cases hpause : Flags.shouldPause ⟨w, c, x, sent, removed, reg⟩ bp0 <;> cases removed <;> rfl

end Preserves

/-! ## Which connections are paused -/

/-- The connection is paused by the chain of the other end. -/
def PausedAt (e : End) (connId : UInt8) : Prop :=
  ∃ fl, e.flagsOf connId = some fl ∧ fl.chainPaused = true

/-- From `e` to `e'` no connection gets paused. -/
def NoNewPause (e e' : End) : Prop := ∀ connId, PausedAt e' connId → PausedAt e connId

variable {e e' e'' : End} {role : Role}

theorem NoNewPause.trans (h : NoNewPause e e') (h' : NoNewPause e' e'') : NoNewPause e e'' :=
  fun connId hpaused => h connId (h' connId hpaused)

theorem pausedAt_iff {connId : UInt8} :
    PausedAt e connId ↔ (e.flagsOf connId).map Flags.chainPaused = some true := by
  rw [Option.map_eq_some_iff]
  rfl

theorem Preserves.noNewPause (h : Preserves Flags.chainPaused e e') : NoNewPause e e' := by
  intro connId hpaused
  rw [pausedAt_iff] at hpaused ⊢
  exact (h connId).symm.trans hpaused

theorem noNewPause_closeConn (e : End) (connId : UInt8) : NoNewPause e (closeConn e connId) := by
  rintro connId' ⟨fl, hfl, hpaused⟩
  rw [End.flagsOf, End.closeConn_conns] at hfl
  split_ifs at hfl
  · cases hfl
  · exact ⟨fl, hfl, hpaused⟩

theorem noNewPause_openConn (role : Role) (e : End) (connId : UInt8) (fd : Nat) :
    NoNewPause e (openConn role e connId fd) := by
  rintro connId' ⟨fl, hfl, hpaused⟩
  rw [End.flagsOf, End.openConn_conns] at hfl
  split_ifs at hfl
  · obtain rfl := Option.some.inj hfl
    cases hpaused
  · exact ⟨fl, hfl, hpaused⟩

theorem noNewPause_departs (role : Role) (e : End) (departs : List (UInt8 × Bool)) :
    NoNewPause e (departs.foldl (depart role) e) := by
  induction departs generalizing e with
  | nil => exact fun _ h => h
  | cons due departs ih =>
      refine NoNewPause.trans ?_ (ih _)
      unfold depart
      split_ifs
      · exact noNewPause_closeConn e due.1
      · exact (preserves_register (fun _ _ => rfl) e due.1).noNewPause

theorem preserves_debounce (e : End) (bp1 : Bool) (now : Nat) :
    Preserves Flags.chainPaused e (debounce e bp1 now).1 := by
  have hset (since : Option Nat) : Preserves Flags.chainPaused e { e with bp1Since := since } :=
    fun _ => rfl
  have hvisit (since : Option Nat) (sent : Bool) : Preserves Flags.chainPaused e
      (End.visitAll { e with bp1Since := since } (setLocalChainSent sent)) :=
    (hset since).trans
      (preserves_visitAll (g := fun fl => { fl with localChainSent := sent }) (fun _ => rfl)
        (fun _ => rfl))
  rw [debounce]
  dsimp only
  split_ifs <;> dsimp only
  · exact hvisit (some (e.bp1Since.getD now)) true
  · exact hset (some (e.bp1Since.getD now))
  · exact hvisit none false
  · exact hset none

theorem noNewPause_tick (role : Role) (t : Tick) (e : End) :
    NoNewPause e (processPendingIo role t e).1 := by
  have hoverflow := (preserves_overflow (fun _ _ => rfl) e t.dcSize).noNewPause
  have hbatch := (preserves_runBatch (fun _ _ => rfl) (overflow e t.dcSize) t.batch).noNewPause
  have hdebounce := (preserves_debounce (runBatch (overflow e t.dcSize) t.batch)
    t.bp1 t.now).noNewPause
  have hgate := (preserves_gate (fun _ _ => rfl)
    (debounce (runBatch (overflow e t.dcSize) t.batch) t.bp1 t.now).1 t.bp0).noNewPause
  exact (((hoverflow.trans hbatch).trans hdebounce).trans hgate).trans
    (noNewPause_departs role _ t.departs)

/-! ## What a tick sends -/

theorem localSent_eq (e : End) :
    localSent e = connIds.any fun connId =>
      ((e.flagsOf connId).map Flags.localChainSent).any id := by
  unfold localSent
  congr 1
  funext connId
  cases hconn : e.conns connId <;> simp [End.flagsOf, hconn]

theorem Preserves.localSent_eq (h : Preserves Flags.localChainSent e e') :
    localSent e' = localSent e := by
  rw [Chain.localSent_eq, Chain.localSent_eq]
  congr 1
  funext connId
  rw [h connId]

/-- The first half of a tick does not change what the connections remember. -/
theorem localSent_before_debounce (e : End) (t : Tick) :
    localSent (runBatch (overflow e t.dcSize) t.batch) = localSent e :=
  ((preserves_overflow (fun _ _ => rfl) e t.dcSize).trans
    (preserves_runBatch (fun _ _ => rfl) _ t.batch)).localSent_eq

def isChain (pkt : Packet) : Bool :=
  pkt.type == MSG_CHAIN_PAUSE || pkt.type == MSG_CHAIN_RESUME

theorem filter_isChain_tick (role : Role) (t : Tick) (e : End) :
    (processPendingIo role t e).2.filter isChain = (processPendingIo role t e).2 := by
  rw [processPendingIo]
  dsimp only
  rw [debounce]
  dsimp only
  split_ifs <;> rfl

/-- Without backpressure, a remembered pause is lifted. -/
theorem sent_of_bp1_false {t : Tick} (hbp1 : t.bp1 = false) (role : Role) (e : End) :
    (processPendingIo role t e).2 =
      if localSent e then [⟨MSG_CHAIN_RESUME, []⟩] else [] := by
  rw [processPendingIo]
  dsimp only
  rw [debounce, hbp1, ← localSent_before_debounce e t]
  dsimp only
  split_ifs <;> simp_all

theorem not_pauseLast_concat_resume (sent : List Packet) :
    ¬ PauseLast (sent ++ [⟨MSG_CHAIN_RESUME, []⟩]) := by
  simp [PauseLast, MSG_CHAIN_RESUME, MSG_CHAIN_PAUSE]

/-! ## What a message does -/

theorem noNewPause_applyControl {pkt : Packet} (htype : pkt.type ≠ MSG_CHAIN_PAUSE)
    (role : Role) (e : End) : NoNewPause e (applyControl role e pkt) := by
  unfold applyControl
  split_ifs
  · cases writerConnId role pkt.payload with
    | none => exact fun _ h => h
    | some connId =>
        exact (preserves_visit (g := fun fl => { fl with writerPaused := true }) (fun _ => rfl)
          (fun _ => rfl) connId).noNewPause
  · cases writerConnId role pkt.payload with
    | none => exact fun _ h => h
    | some connId =>
        exact (preserves_visit (g := fun fl => { fl with writerPaused := false }) (fun _ => rfl)
          (fun _ => rfl) connId).noNewPause
  · rintro connId ⟨fl', hfl', hpaused⟩
    rw [End.visitAll_flagsOf e chainResume _ (g := fun fl => { fl with chainPaused := false })
      (fun _ => rfl)] at hfl'
    obtain ⟨fl, -, rfl⟩ := Option.map_eq_some_iff.mp hfl'
    cases hpaused
  · exact fun _ h => h

theorem not_pausedAt_resume {pkt : Packet} (htype : pkt.type = MSG_CHAIN_RESUME) (role : Role)
    (e : End) (connId : UInt8) : ¬ PausedAt (applyControl role e pkt) connId := by
  rintro ⟨fl', hfl', hpaused⟩
  have happly : applyControl role e pkt = e.visitAll chainResume := by
    simp [applyControl, htype, MSG_CHAIN_RESUME, MSG_CHAIN_PAUSE, MSG_WRITER_PAUSE,
      MSG_WRITER_RESUME]
  rw [happly, End.visitAll_flagsOf e chainResume _
    (g := fun fl => { fl with chainPaused := false }) (fun _ => rfl)] at hfl'
  obtain ⟨fl, -, rfl⟩ := Option.map_eq_some_iff.mp hfl'
  cases hpaused

/-! ## What one end knows of the other -/

/-- What arrived of the chain messages of `role` accounts for the pauses at the other end, and
without backpressure a tick leaves no pause behind. -/
structure Tracks (role : Role) (s : Peers) : Prop where
  delivered : ∃ done, s.chainSent role = done ++ (s.wire role.other).filter isChain ∧
    ∀ connId, PausedAt (s.ends role.other) connId → PauseLast done
  lifted : s.bp1 role = false → s.ranSince role = true → ¬ PauseLast (s.chainSent role)

variable {s s' : Peers} {side : Role}

theorem tracks_init (role : Role) : Tracks role {} := by
  refine ⟨⟨[], rfl, ?_⟩, nofun⟩
  rintro connId ⟨fl, hfl, -⟩
  simp [End.flagsOf] at hfl

/-- Steps that send no chain message, pause nothing and leave the backpressure alone. -/
theorem Tracks.frame (h : Tracks role s)
    (hends : NoNewPause (s.ends role.other) (s'.ends role.other))
    (hwire : (s'.wire role.other).filter isChain = (s.wire role.other).filter isChain)
    (hsent : s'.chainSent role = s.chainSent role)
    (hran : s'.bp1 role = false → s'.ranSince role = true →
      s.bp1 role = false ∧ s.ranSince role = true) : Tracks role s' := by
  obtain ⟨⟨done, hdone, hpaused⟩, hlifted⟩ := h
  refine ⟨⟨done, ?_, fun connId hat => hpaused connId (hends connId hat)⟩, ?_⟩
  · rw [hsent, hwire, hdone]
  · intro hbp1 hran'
    obtain ⟨hbp1, hran⟩ := hran hbp1 hran'
    rw [hsent]
    exact hlifted hbp1 hran

/-- Only the other end matters. -/
theorem Tracks.setEnd (h : Tracks role s) {e : End}
    (hend : side = role.other → NoNewPause (s.ends side) e) : Tracks role (s.setEnd side e) := by
  refine h.frame ?_ rfl rfl fun hbp1 hran => ⟨hbp1, hran⟩
  by_cases hside : role.other = side
  · subst hside
    simpa only [Peers.setEnd, Function.update_self] using hend rfl
  · simp only [Peers.setEnd, Function.update_of_ne hside]
    exact fun _ h => h

theorem filter_send {pkts : List Packet} (hpkts : pkts.filter isChain = []) (role : Role) :
    ((s.send side pkts).wire role).filter isChain = (s.wire role).filter isChain := by
  by_cases hrole : role = side.other
  · subst hrole
    simp only [Peers.send, Function.update_self, List.filter_append, hpkts, List.append_nil]
  · simp only [Peers.send, Function.update_of_ne hrole]

/-- Other messages do not count. -/
theorem Tracks.send (h : Tracks role s) {pkts : List Packet} (hpkts : pkts.filter isChain = []) :
    Tracks role (s.send side pkts) :=
  h.frame (fun _ h => h) (filter_send hpkts _) rfl fun hbp1 hran => ⟨hbp1, hran⟩

theorem Tracks.receiveOk (h : Tracks role s) (fd : Option Nat) (pkt : Packet) :
    Tracks role (s.receiveOk fd pkt) := by
  unfold Peers.receiveOk
  split
  · exact h.setEnd fun _ => noNewPause_openConn _ _ _ _
  · exact h.send rfl
  · exact h

theorem Tracks.receive (h : Tracks role s) {pkt : Packet}
    (htype : side = role.other → pkt.type ≠ MSG_CHAIN_PAUSE) (fd : Option Nat) :
    Tracks role (s.receive side fd pkt) := by
  unfold Peers.receive
  split_ifs
  · exact h.receiveOk fd pkt
  · exact h.setEnd fun hside => noNewPause_applyControl (htype hside) _ _

theorem isChain_iff {pkt : Packet} :
    isChain pkt = true ↔ pkt.type = MSG_CHAIN_PAUSE ∨ pkt.type = MSG_CHAIN_RESUME := by
  simp [isChain]

/-- A message that is no chain message leaves the wire. -/
theorem Tracks.drop (h : Tracks role s) {pkt : Packet} {rest : List Packet}
    (hpkt : s.wire side = pkt :: rest) (hchain : side = role.other → isChain pkt = false) :
    Tracks role { s with wire := Function.update s.wire side rest } := by
  refine h.frame (fun _ h => h) ?_ rfl fun hbp1 hran => ⟨hbp1, hran⟩
  by_cases hside : role.other = side
  · subst hside
    simp only [Function.update_self, hpkt]
    rw [List.filter_cons_of_neg (by simp [hchain rfl])]
  · simp only [Function.update_of_ne hside]

/-- A chain message arrives. -/
theorem Tracks.takeChain (h : Tracks role s) {pkt : Packet} {rest : List Packet}
    (hpkt : s.wire role.other = pkt :: rest) (hchain : isChain pkt = true) (fd : Option Nat) :
    Tracks role
      ({ s with wire := Function.update s.wire role.other rest }.receive role.other fd pkt) := by
  have hreceive : Peers.receive { s with wire := Function.update s.wire role.other rest }
      role.other fd pkt =
      Peers.setEnd { s with wire := Function.update s.wire role.other rest } role.other
        (applyControl role.other (s.ends role.other) pkt) := by
    rw [Peers.receive, if_neg]
    rintro ⟨-, hok⟩
    rcases isChain_iff.mp hchain with htype | htype <;> rw [hok] at htype <;>
      exact absurd htype (by decide)
  obtain ⟨⟨done, hdone, -⟩, hlifted⟩ := h
  rw [hreceive]
  refine ⟨⟨done ++ [pkt], ?_, fun connId hat => ?_⟩, hlifted⟩
  · rw [hpkt, List.filter_cons_of_pos hchain] at hdone
    simpa only [Peers.setEnd, Function.update_self, List.append_assoc, List.singleton_append]
      using hdone
  · rcases isChain_iff.mp hchain with hpause | hresume
    · simp [PauseLast, hpause]
    · simp only [Peers.setEnd, Function.update_self] at hat
      exact absurd hat (not_pausedAt_resume hresume _ _ _)

theorem Tracks.deliver (h : Tracks role s) {pkt : Packet} {rest : List Packet}
    (hpkt : s.wire side = pkt :: rest) (fd : Option Nat) :
    Tracks role ({ s with wire := Function.update s.wire side rest }.receive side fd pkt) := by
  by_cases hchain : side = role.other ∧ isChain pkt = true
  · obtain ⟨rfl, hchain⟩ := hchain
    exact h.takeChain hpkt hchain fd
  · have hnot : side = role.other → isChain pkt = false := fun hside => by
      simpa using fun hc => hchain ⟨hside, hc⟩
    refine (h.drop hpkt hnot).receive (fun hside htype => ?_) fd
    have hpause : isChain pkt = true := isChain_iff.mpr (.inl htype)
    exact absurd (hpause.symm.trans (hnot hside)) (by decide)

/-- A tick of the end that is tracked. -/
theorem Tracks.runOwnTick (h : Tracks role s) {t : Tick} (hbp1 : t.bp1 = s.bp1 role)
    (hremembers : s.bp1 role = false → PauseLast (s.chainSent role) →
      localSent (s.ends role) = true) : Tracks role (s.runTick role t) := by
  obtain ⟨⟨done, hdone, hpaused⟩, -⟩ := h
  have hne := role.ne_other
  refine ⟨⟨done, ?_, fun connId hat => hpaused connId ?_⟩, fun hfree _ => ?_⟩
  · simp only [Peers.runTick, Peers.send, Peers.setEnd, Function.update_self, List.filter_append,
      filter_isChain_tick, hdone, List.append_assoc]
  · simpa only [Peers.runTick, Peers.send, Peers.setEnd, Function.update_of_ne hne.symm] using hat
  · have hfree : s.bp1 role = false := hfree
    simp only [Peers.runTick, Function.update_self, sent_of_bp1_false (hbp1.trans hfree)]
    split_ifs with hsent
    · exact not_pauseLast_concat_resume _
    · rw [List.append_nil]
      exact fun hlast => hsent (hremembers hfree hlast)

/-- A tick of the other end. -/
theorem Tracks.runOtherTick (h : Tracks role s) (t : Tick) :
    Tracks role (s.runTick role.other t) := by
  have hne := role.ne_other
  have hwire : ∀ e, ((s.setEnd role.other e).send role.other
      (processPendingIo role.other t (s.ends role.other)).2).wire role.other =
        s.wire role.other := by
    intro e
    rw [Peers.send]
    exact Function.update_of_ne role.other.ne_other _ _
  have hend : Tracks role (s.setEnd role.other
      (processPendingIo role.other t (s.ends role.other)).1) :=
    h.setEnd fun _ => noNewPause_tick _ _ _
  refine hend.frame (fun _ h => h) ?_ ?_ ?_
  · simp only [Peers.runTick, hwire]
    rfl
  · simp only [Peers.runTick, Function.update_of_ne hne]
    rfl
  · intro hbp1 hran
    simp only [Peers.runTick, Function.update_of_ne hne] at hran
    exact ⟨hbp1, hran⟩

theorem Tracks.step {l : Label} (h : Tracks role s) (hremembers : Remembers s l)
    (hstep : step s l = some s') : Tracks role s' := by
  cases l with
  | serverOpens connId reqId fd =>
      obtain rfl := Option.some.inj hstep
      exact (h.setEnd fun _ => noNewPause_openConn _ _ _ _).send rfl
  | closes side connId notify =>
      obtain rfl := Option.some.inj hstep
      refine (h.setEnd fun _ => noNewPause_closeConn _ _).send ?_
      cases notify <;> rfl
  | bp1Flips side =>
      obtain rfl := Option.some.inj hstep
      refine h.frame (fun _ h => h) rfl rfl fun hbp1 hran => ?_
      by_cases hside : role = side
      · subst hside
        simp only [Function.update_self] at hran
        cases hran
      · simp only [Function.update_of_ne hside] at hbp1 hran
        exact ⟨hbp1, hran⟩
  | tick side t =>
      simp only [Chain.step] at hstep
      split_ifs at hstep with hbp1
      obtain rfl := Option.some.inj hstep
      by_cases hside : side = role
      · subst hside
        exact h.runOwnTick hbp1 hremembers
      · obtain rfl : side = role.other := by cases side <;> cases role <;> simp_all [Role.other]
        exact h.runOtherTick t
  | deliver side fd =>
      cases hpkt : s.wire side with
      | nil => simp [Chain.step, hpkt] at hstep
      | cons pkt rest =>
          simp only [Chain.step, hpkt] at hstep
          obtain rfl := Option.some.inj hstep
          exact h.deliver hpkt fd

/-- Where no tick without backpressure finds a pause forgotten, every pause is lifted. -/
theorem chainPause_lifted {ls : List Label} (hremembers : Meets step Remembers {} ls)
    (hrun : run step {} ls = some s') : Lifted s' := by
  intro role hbp1 hran hquiet connId fl hfl
  have hstep : ∀ s l s', Tracks role s → Remembers s l → step s l = some s' → Tracks role s' :=
    fun s l s' h hl hs => h.step hl hs
  have htracks := invariant_of_meets hstep (tracks_init role) hremembers hrun
  obtain ⟨done, hdone, hpaused⟩ := htracks.delivered
  rw [hquiet, List.filter_nil, List.append_nil] at hdone
  by_contra hnot
  have hlast := hpaused connId ⟨fl, hfl, by simpa using hnot⟩
  rw [← hdone] at hlast
  exact htracks.lifted hbp1 hran hlast

/-- The client pauses the server while both have the connection, and lifts the pause. -/
def liftedRun : List Label :=
  [.serverOpens 0 0 5, .deliver .client (some 6), .bp1Flips .client,
    .tick .client { bp1 := true, now := 0 }, .tick .client { bp1 := true, now := 50 },
    .deliver .server none, .bp1Flips .client, .tick .client { now := 60 }, .deliver .server none]

theorem chainPause_lifted_once :
    ∃ s', run step {} liftedRun = some s' ∧ (s'.chainSent .client).length = 2 ∧ Lifted s' := by
  have hsent : (run step {} liftedRun).map (fun s => (s.chainSent .client).length) = some 2 := by
    decide +kernel
  obtain ⟨s', hrun, hlength⟩ := Option.map_eq_some_iff.mp hsent
  have hremembers : Meets step Remembers {} liftedRun := by decide +kernel
  exact ⟨s', hrun, hlength, chainPause_lifted hremembers hrun⟩

/-- The client pauses the server before it has a connection that could remember it. -/
def forgottenRun : List Label :=
  [.serverOpens 0 0 5, .bp1Flips .client, .tick .client { bp1 := true, now := 0 },
    .tick .client { bp1 := true, now := 50 }, .deliver .server none, .deliver .client (some 6),
    .bp1Flips .client, .tick .client { now := 60 }]

/-- The pause of the server's connection is not lifted. -/
theorem chainPause_forgotten : ∃ s', run step {} forgottenRun = some s' ∧ ¬ Lifted s' := by
  have hend : (run step {} forgottenRun).map (fun s => (s.bp1 .client, s.ranSince .client,
      s.wire .server, s.wire .client, ((s.ends .server).flagsOf 0).map Flags.chainPaused)) =
        some (false, true, [], [], some true) := by
    decide +kernel
  obtain ⟨s', hrun, hs'⟩ := Option.map_eq_some_iff.mp hend
  simp only [Prod.mk.injEq] at hs'
  obtain ⟨hbp1, hran, hserver, hclient, hpaused⟩ := hs'
  refine ⟨s', hrun, fun hlifted => ?_⟩
  have hquiet : ∀ side, s'.wire side = [] := by
    intro side
    cases side with
    | server => exact hserver
    | client => exact hclient
  obtain ⟨fl, hfl, hflag⟩ := Option.map_eq_some_iff.mp hpaused
  have hfree := hlifted .client hbp1 hran hquiet 0 fl hfl
  exact absurd (hflag.symm.trans hfree) (by decide)

end PipelineTunnel.Flow.Chain
