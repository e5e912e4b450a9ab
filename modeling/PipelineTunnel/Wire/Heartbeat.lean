import PipelineTunnel.Lib.StepSystem
import PipelineTunnel.Wire.Reader

/-!
# Heartbeats of the wire

`check_heartbeat` of `client/client.cpp` and `server/session.cpp`, which are the same but for what
a timeout does, and the readers' answers. A side that has read nothing for longer than the interval
sends one ping on each open data connection, and after twice the interval it gives up.

## Implementation notes

Time is the steady clock in nanoseconds. `delay` bounds the time from a write until the other side
reads it, `period` the time between two ticks of an event loop; a `wait` that would break one of
them is not a step. What the sides write besides heartbeats is a message `data`, at any time. The
messages of several connections need not arrive in order, so any message may be the next one.
-/

namespace PipelineTunnel.Wire.Heartbeat

open StepSystem

inductive Content where
  | ping
  | pong
  | data
deriving DecidableEq, Repr

structure Message where
  content : Content
  sent : Nat
deriving DecidableEq, Repr

structure Peer where
  lastWireActivity : Nat := 0
  heartbeating : Bool := false
  /-- `check_heartbeat` has found a timeout. -/
  timedOut : Bool := false
  lastTick : Nat := 0
  /-- Written by the other side and not read yet. -/
  inbox : List Message := []
deriving DecidableEq, Repr

structure Timing where
  /-- `heartbeat_interval_ms_`. -/
  intervalMs : Nat
  delay : Nat
  period : Nat
  /-- The open data connections. -/
  conns : Nat
deriving DecidableEq, Repr

structure System where
  now : Nat := 0
  client : Peer := {}
  server : Peer := {}
deriving DecidableEq, Repr

inductive Event where
  | wait (ns : Nat)
  | tick (side : Role)
  | write (side : Role)
  /-- A side reads the message at place `i`. -/
  | read (side : Role) (i : Nat)
deriving DecidableEq, Repr

/-- `check_heartbeat`: the state behind it and whether pings are sent. -/
def Peer.checkHeartbeat (p : Peer) (intervalMs now : Nat) : Peer × Bool :=
  let idleMs := (now - p.lastWireActivity) / 1000000
  if p.timedOut then ({ p with lastTick := now }, false)
  else if idleMs > intervalMs * 2 then ({ p with timedOut := true, lastTick := now }, false)
  else if idleMs > intervalMs ∧ p.heartbeating = false then
    ({ p with heartbeating := true, lastTick := now }, true)
  else ({ p with lastTick := now }, false)

section CheckHeartbeat

variable {p : Peer} {intervalMs now : Nat}

theorem Peer.timedOut_checkHeartbeat
    (h : intervalMs * 2 < (now - p.lastWireActivity) / 1000000) :
    (p.checkHeartbeat intervalMs now).1.timedOut = true := by
  simp only [Peer.checkHeartbeat]
  split_ifs with hout
  · exact hout
  · rfl

theorem Peer.checkHeartbeat_ping (hconnected : p.timedOut = false)
    (hlow : (now - p.lastWireActivity) / 1000000 ≤ intervalMs * 2)
    (hhigh : intervalMs < (now - p.lastWireActivity) / 1000000) (hbeat : p.heartbeating = false) :
    p.checkHeartbeat intervalMs now = ({ p with heartbeating := true, lastTick := now }, true) := by
  simp only [Peer.checkHeartbeat, hconnected, Bool.false_eq_true, if_false]
  rw [if_neg (Nat.not_lt.mpr hlow), if_pos ⟨hhigh, hbeat⟩]

theorem Peer.checkHeartbeat_silent (hconnected : p.timedOut = false)
    (hlow : (now - p.lastWireActivity) / 1000000 ≤ intervalMs * 2)
    (hsilent : (now - p.lastWireActivity) / 1000000 ≤ intervalMs ∨ p.heartbeating = true) :
    p.checkHeartbeat intervalMs now = ({ p with lastTick := now }, false) := by
  simp only [Peer.checkHeartbeat, hconnected, Bool.false_eq_true, if_false]
  rw [if_neg (Nat.not_lt.mpr hlow), if_neg]
  rintro ⟨hhigh, hbeat⟩
  rcases hsilent with hle | htrue
  · exact Nat.not_lt.mpr hle hhigh
  · rw [hbeat] at htrue
    cases htrue

end CheckHeartbeat

def Peer.receive (p : Peer) (ms : List Message) : Peer := { p with inbox := p.inbox ++ ms }

/-- The reader behind a successful `read`. -/
def Peer.took (p : Peer) (i now : Nat) : Peer :=
  { p with
    lastWireActivity := now
    heartbeating := false
    inbox := p.inbox.eraseIdx i }

/-- A ping is answered. -/
def Message.answer (m : Message) (now : Nat) : List Message :=
  match m.content with
  | .ping => [⟨.pong, now⟩]
  | .pong | .data => []

/-- At the time `now` no tick and no read is overdue. -/
def Peer.Punctual (p : Peer) (t : Timing) (now : Nat) : Prop :=
  now ≤ p.lastTick + t.period ∧ ∀ m ∈ p.inbox, now ≤ m.sent + t.delay

instance (p : Peer) (t : Timing) (now : Nat) : Decidable (p.Punctual t now) :=
  inferInstanceAs (Decidable (_ ∧ _))

namespace System

def peer (s : System) : Role → Peer
  | .client => s.client
  | .server => s.server

def other (s : System) : Role → Peer
  | .client => s.server
  | .server => s.client

/-- One side and the other one. -/
def put (s : System) (side : Role) (p q : Peer) : System :=
  match side with
  | .client => { s with client := p, server := q }
  | .server => { s with client := q, server := p }

def step (t : Timing) (s : System) : Event → Option System
  | .wait ns =>
      if s.client.Punctual t (s.now + ns) ∧ s.server.Punctual t (s.now + ns) then
        some { s with now := s.now + ns }
      else none
  | .tick side =>
      let checked := (s.peer side).checkHeartbeat t.intervalMs s.now
      some (s.put side checked.1 ((s.other side).receive
        (if checked.2 then List.replicate t.conns ⟨.ping, s.now⟩ else [])))
  | .write side =>
      some (s.put side (s.peer side) ((s.other side).receive [⟨.data, s.now⟩]))
  | .read side i =>
      match (s.peer side).inbox[i]? with
      | none => none
      | some m =>
          some (s.put side ((s.peer side).took i s.now) ((s.other side).receive (m.answer s.now)))

end System

/-! ## No timeout -/

/-- The time up to which a side is idle without a ping, counted from its last activity. -/
def Timing.quiet (t : Timing) : Nat := (t.intervalMs + 1) * 1000000

/-- What holds of one side, `p`, with the other side `q`. -/
structure Alive (t : Timing) (now : Nat) (p q : Peer) : Prop where
  connected : p.timedOut = false
  tick : p.lastTick ≤ now ∧ now ≤ p.lastTick + t.period
  inbox : ∀ m ∈ p.inbox, now ≤ m.sent + t.delay
  /-- The last tick saw no need for a ping. -/
  quiet : p.heartbeating = false → p.lastTick < p.lastWireActivity + t.quiet
  /-- A ping is on its way to the other side, or its answer is on its way back. -/
  asked : p.heartbeating = true →
    (∃ m ∈ q.inbox, m.content = .ping ∧ m.sent < p.lastWireActivity + t.quiet + t.period) ∨
      ∃ m ∈ p.inbox, m.content = .pong ∧ m.sent < p.lastWireActivity + t.quiet + t.period + t.delay

def System.Sound (t : Timing) (s : System) : Prop :=
  Alive t s.now s.client s.server ∧ Alive t s.now s.server s.client

section Alive

variable {t : Timing} {now : Nat} {p q : Peer} {s s' : System}

theorem System.Sound.of_side (h : s.Sound t) (side : Role) :
    Alive t s.now (s.peer side) (s.other side) ∧
      Alive t s.now (s.other side) (s.peer side) := by
  cases side with
  | client => exact h
  | server => exact h.symm

theorem System.sound_put {side : Role} (hp : Alive t s.now p q) (hq : Alive t s.now q p) :
    (s.put side p q).Sound t := by
  cases side with
  | client => exact ⟨hp, hq⟩
  | server => exact ⟨hq, hp⟩

/-- New messages for one side. -/
theorem Alive.receive (h : Alive t now p q) {ms : List Message} (hms : ∀ m ∈ ms, m.sent = now) :
    Alive t now (p.receive ms) q := by
  refine ⟨h.connected, h.tick, ?_, h.quiet, ?_⟩
  · intro m hm
    rcases List.mem_append.mp hm with hm | hm
    · exact h.inbox m hm
    · rw [hms m hm]
      exact Nat.le_add_right now t.delay
  · intro hbeat
    rcases h.asked hbeat with hping | ⟨m, hm, hpong⟩
    · exact .inl hping
    · exact .inr ⟨m, List.mem_append_left ms hm, hpong⟩

/-- New messages for the other side. -/
theorem Alive.other_receive (h : Alive t now p q) (ms : List Message) :
    Alive t now p (q.receive ms) := by
  refine ⟨h.connected, h.tick, h.inbox, h.quiet, fun hbeat => ?_⟩
  rcases h.asked hbeat with ⟨m, hm, hping⟩ | hpong
  · exact .inl ⟨m, List.mem_append_left ms hm, hping⟩
  · exact .inr hpong

/-- A side that waits has been idle for less than twice the interval. -/
theorem Alive.idle_lt (h : Alive t now p q) (hq : ∀ m ∈ q.inbox, now ≤ m.sent + t.delay)
    (htiming : 2 * t.delay + t.period ≤ t.intervalMs * 1000000) :
    now < p.lastWireActivity + (2 * t.intervalMs + 1) * 1000000 := by
  have hquiet : t.quiet = (t.intervalMs + 1) * 1000000 := rfl
  obtain ⟨-, htick⟩ := h.tick
  cases hbeat : p.heartbeating with
  | false =>
      have := h.quiet hbeat
      omega
  | true =>
      rcases h.asked hbeat with ⟨m, hm, -, hsent⟩ | ⟨m, hm, -, hsent⟩
      · have := hq m hm
        omega
      · have := h.inbox m hm
        omega

/-- A tick finds no timeout, and sends a ping in time. -/
theorem Alive.checkHeartbeat (h : Alive t now p q) (hq : ∀ m ∈ q.inbox, now ≤ m.sent + t.delay)
    (htiming : 2 * t.delay + t.period ≤ t.intervalMs * 1000000) (hconns : 0 < t.conns) :
    Alive t now (p.checkHeartbeat t.intervalMs now).1 (q.receive
      (if (p.checkHeartbeat t.intervalMs now).2 then List.replicate t.conns ⟨.ping, now⟩ else [])) := by
  have hidle := h.idle_lt hq htiming
  have hquiet : t.quiet = (t.intervalMs + 1) * 1000000 := rfl
  have hnow : now ≤ now ∧ now ≤ now + t.period := ⟨Nat.le_refl _, Nat.le_add_right _ _⟩
  have hlow : (now - p.lastWireActivity) / 1000000 ≤ t.intervalMs * 2 := by omega
  by_cases hping : t.intervalMs < (now - p.lastWireActivity) / 1000000 ∧ p.heartbeating = false
  · rw [Peer.checkHeartbeat_ping h.connected hlow hping.1 hping.2]
    refine ⟨h.connected, hnow, h.inbox, nofun, fun _ => .inl ⟨⟨.ping, now⟩, ?_, rfl, ?_⟩⟩
    · have hmem : (⟨.ping, now⟩ : Message) ∈ List.replicate t.conns ⟨.ping, now⟩ :=
        List.mem_replicate.mpr ⟨Nat.ne_of_gt hconns, rfl⟩
      exact List.mem_append_right q.inbox hmem
    · have := h.quiet hping.2
      have := h.tick.2
      simp only
      omega
  · have hsilent : (now - p.lastWireActivity) / 1000000 ≤ t.intervalMs ∨ p.heartbeating = true := by
      by_contra hnone
      simp only [not_or, Nat.not_le, Bool.not_eq_true] at hnone
      exact hping hnone
    rw [Peer.checkHeartbeat_silent h.connected hlow hsilent]
    refine ⟨h.connected, hnow, h.inbox, ?_, ?_⟩
    · intro hbeat
      have hle := hsilent.resolve_right (by simp [show p.heartbeating = false from hbeat])
      simp only
      omega
    · exact (h.other_receive []).asked

/-- A tick of the other side changes nothing for this one. -/
theorem Alive.other_checkHeartbeat (h : Alive t now p q) (intervalMs : Nat) :
    Alive t now p (q.checkHeartbeat intervalMs now).1 := by
  have hinbox : (q.checkHeartbeat intervalMs now).1.inbox = q.inbox := by
    simp only [Peer.checkHeartbeat]
    split_ifs <;> rfl
  exact ⟨h.connected, h.tick, h.inbox, h.quiet, by rw [hinbox]; exact h.asked⟩

/-- What a side has read is its activity. -/
theorem Alive.took (h : Alive t now p q) (i : Nat) : Alive t now (p.took i now) q := by
  refine ⟨h.connected, h.tick, fun m hm => h.inbox m (List.mem_of_mem_eraseIdx hm), ?_, nofun⟩
  intro _
  have hquiet : t.quiet = (t.intervalMs + 1) * 1000000 := rfl
  have := h.tick.1
  simp only [Peer.took]
  omega

/-- The other side reads the message at place `i` and answers it. -/
theorem Alive.other_took (h : Alive t now p q) (hq : ∀ m ∈ q.inbox, now ≤ m.sent + t.delay)
    {i : Nat} {m : Message} (hget : q.inbox[i]? = some m) :
    Alive t now (p.receive (m.answer now)) (q.took i now) := by
  have hsent : ∀ a ∈ m.answer now, a.sent = now := by
    intro a ha
    cases hm : m.content with
    | ping => simp_all [Message.answer]
    | pong | data => simp [Message.answer, hm] at ha
  refine ⟨h.connected, h.tick, (h.receive hsent).inbox, h.quiet, fun hbeat => ?_⟩
  rcases h.asked hbeat with ⟨m', hm', hping, hlt⟩ | ⟨m', hm', hpong⟩
  · by_cases heq : m' = m
    · -- the ping itself: its answer takes its place
      subst heq
      refine .inr ⟨⟨.pong, now⟩, ?_, rfl, ?_⟩
      · simp [Peer.receive, Message.answer, hping]
      · have := hq m' hm'
        simp only [Peer.receive]
        omega
    · refine .inl ⟨m', ?_, hping, hlt⟩
      obtain ⟨before, after, hinbox, herase, -⟩ := split_at hget
      simp only [Peer.took, herase]
      rw [hinbox] at hm'
      simpa [heq] using hm'
  · exact .inr ⟨m', List.mem_append_left _ hm', hpong⟩

theorem System.Sound.step (h : s.Sound t)
    (htiming : 2 * t.delay + t.period ≤ t.intervalMs * 1000000) (hconns : 0 < t.conns)
    {e : Event} (hstep : s.step t e = some s') : s'.Sound t := by
  cases e with
  | wait ns =>
      simp only [System.step] at hstep
      split_ifs at hstep with hpunctual
      obtain rfl := Option.some.inj hstep
      obtain ⟨⟨hclient, hclient'⟩, hserver, hserver'⟩ := hpunctual
      have hlater : ∀ n : Nat, n ≤ s.now → n ≤ s.now + ns := fun _ hle => hle.trans (Nat.le_add_right _ _)
      exact ⟨⟨h.1.connected, ⟨hlater _ h.1.tick.1, hclient⟩, hclient', h.1.quiet, h.1.asked⟩,
        ⟨h.2.connected, ⟨hlater _ h.2.tick.1, hserver⟩, hserver', h.2.quiet, h.2.asked⟩⟩
  | tick side =>
      obtain ⟨hp, hq⟩ := h.of_side side
      obtain rfl := Option.some.inj hstep
      have hnew : ∀ m ∈ (if ((s.peer side).checkHeartbeat t.intervalMs s.now).2 then
          List.replicate t.conns (⟨.ping, s.now⟩ : Message) else []), m.sent = s.now := by
        intro m hm
        split_ifs at hm
        · rw [(List.mem_replicate.mp hm).2]
        · cases hm
      refine System.sound_put (hp.checkHeartbeat hq.inbox htiming hconns) ?_
      exact (hq.receive hnew).other_checkHeartbeat t.intervalMs
  | write side =>
      obtain ⟨hp, hq⟩ := h.of_side side
      obtain rfl := Option.some.inj hstep
      exact System.sound_put (hp.other_receive _) (hq.receive (by simp))
  | read side i =>
      obtain ⟨hp, hq⟩ := h.of_side side
      simp only [System.step] at hstep
      cases hget : (s.peer side).inbox[i]? with
      | none => simp [hget] at hstep
      | some m =>
          simp only [hget] at hstep
          obtain rfl := Option.some.inj hstep
          exact System.sound_put ((hp.took i).other_receive _) (hq.other_took hp.inbox hget)

end Alive

/-! ## A timeout -/

def Reaches (t : Timing) (s s' : System) : Prop := ∃ es, run (System.step t) s es = some s'

section Reaches

variable {t : Timing} {s s' s'' : System}

theorem Reaches.refl : Reaches t s s := ⟨[], rfl⟩

theorem Reaches.trans (h : Reaches t s s') (h' : Reaches t s' s'') : Reaches t s s'' := by
  obtain ⟨es, hrun⟩ := h
  obtain ⟨es', hrun'⟩ := h'
  exact ⟨es ++ es', run_append hrun hrun'⟩

theorem Reaches.of_step {e : Event} (h : s.step t e = some s') : Reaches t s s' :=
  ⟨[e], by simp [run, h]⟩

/-- For `n` more nanoseconds nothing is overdue at a side and its ticks do nothing. -/
structure Idle (t : Timing) (n now : Nat) (p : Peer) : Prop where
  connected : p.timedOut = false
  tick : p.lastTick = now
  inbox : ∀ m ∈ p.inbox, now + n ≤ m.sent + t.delay
  silent : (now + n - p.lastWireActivity) / 1000000 ≤ t.intervalMs ∨
    p.heartbeating = true ∧ (now + n - p.lastWireActivity) / 1000000 ≤ 2 * t.intervalMs

theorem Idle.checkHeartbeat {n now : Nat} {p : Peer} (h : Idle t (n + 1) now p) :
    p.checkHeartbeat t.intervalMs (now + 1) = ({ p with lastTick := now + 1 }, false) := by
  have hle : (now + 1 - p.lastWireActivity) / 1000000 ≤
      (now + (n + 1) - p.lastWireActivity) / 1000000 :=
    Nat.div_le_div_right (by omega)
  rcases h.silent with hlow | ⟨hbeat, hlow⟩
  · exact Peer.checkHeartbeat_silent h.connected (by omega) (.inl (by omega))
  · exact Peer.checkHeartbeat_silent h.connected (by omega) (.inr hbeat)

/-- The next nanosecond with a tick at its end. -/
theorem Idle.next {n now : Nat} {p : Peer} (h : Idle t (n + 1) now p) :
    Idle t n (now + 1) { p with lastTick := now + 1 } := by
  have hsum : now + 1 + n = now + (n + 1) := by omega
  exact ⟨h.connected, rfl, by rw [hsum]; exact h.inbox, by rw [hsum]; exact h.silent⟩

theorem Idle.punctual {n now : Nat} {p : Peer} (h : Idle t (n + 1) now p) (hperiod : 0 < t.period) :
    p.Punctual t (now + 1) := by
  constructor
  · rw [h.tick]
    omega
  · intro m hm
    have := h.inbox m hm
    omega

theorem reaches_idle (hperiod : 0 < t.period) (n : Nat) : ∀ {s : System},
    Idle t n s.now s.client → Idle t n s.now s.server →
    Reaches t s
      { now := s.now + n
        client := { s.client with lastTick := s.now + n }
        server := { s.server with lastTick := s.now + n } } := by
  induction n with
  | zero =>
      intro s hclient hserver
      have hclient' : { s.client with lastTick := s.now } = s.client := by rw [← hclient.tick]
      have hserver' : { s.server with lastTick := s.now } = s.server := by rw [← hserver.tick]
      rw [Nat.add_zero, hclient', hserver']
      exact .refl
  | succ n ih =>
      intro s hclient hserver
      have hwait : s.step t (.wait 1) = some { s with now := s.now + 1 } :=
        if_pos ⟨hclient.punctual hperiod, hserver.punctual hperiod⟩
      have htick : System.step t { s with now := s.now + 1 } (.tick .client) =
          some { s with now := s.now + 1, client := { s.client with lastTick := s.now + 1 } } := by
        simp [System.step, System.peer, System.other, System.put, hclient.checkHeartbeat,
          Peer.receive]
      have htick' : System.step t
          { s with now := s.now + 1, client := { s.client with lastTick := s.now + 1 } }
          (.tick .server) = some
            { now := s.now + 1
              client := { s.client with lastTick := s.now + 1 }
              server := { s.server with lastTick := s.now + 1 } } := by
        simp [System.step, System.peer, System.other, System.put, hserver.checkHeartbeat,
          Peer.receive]
      have hrest := ih (s := ⟨s.now + 1, { s.client with lastTick := s.now + 1 },
        { s.server with lastTick := s.now + 1 }⟩) hclient.next hserver.next
      rw [Nat.add_right_comm] at hrest
      exact (((Reaches.of_step hwait).trans (.of_step htick)).trans (.of_step htick')).trans hrest

/-- The server reads the pings of all connections and answers them. -/
theorem reaches_answered {sent : Nat} (k : Nat) : ∀ {s : System},
    s.server.inbox = List.replicate (k + 1) ⟨.ping, sent⟩ →
    Reaches t s
      { s with
        client := s.client.receive (List.replicate (k + 1) ⟨.pong, s.now⟩)
        server := { s.server with
          lastWireActivity := s.now, heartbeating := false, inbox := [] } } := by
  induction k with
  | zero =>
      intro s hinbox
      apply Reaches.of_step (e := .read .server 0)
      simp [System.step, System.peer, System.other, System.put, hinbox, Peer.took, Peer.receive,
        Message.answer]
  | succ k ih =>
      intro s hinbox
      have hread : s.step t (.read .server 0) = some
          { s with
            client := s.client.receive [⟨.pong, s.now⟩]
            server := { s.server with
              lastWireActivity := s.now, heartbeating := false,
              inbox := List.replicate (k + 1) ⟨.ping, sent⟩ } } := by
        simp [System.step, System.peer, System.other, System.put, hinbox, Peer.took,
          Message.answer, List.replicate_succ]
      have hrest := ih (s :=
        { s with
          client := s.client.receive [⟨.pong, s.now⟩]
          server := { s.server with
            lastWireActivity := s.now, heartbeating := false,
            inbox := List.replicate (k + 1) ⟨.ping, sent⟩ } }) rfl
      simp only [Peer.receive, List.append_assoc, List.singleton_append,
        ← List.replicate_succ] at hrest
      exact (Reaches.of_step hread).trans hrest

/-- After a wait of `n` nanoseconds the client finds a timeout. -/
theorem exists_timedOut {n : Nat} (hreach : Reaches t {} s)
    (hclient : s.client.Punctual t (s.now + n)) (hserver : s.server.Punctual t (s.now + n))
    (hidle : t.intervalMs * 2 < (s.now + n - s.client.lastWireActivity) / 1000000) :
    ∃ es s', run (System.step t) {} es = some s' ∧ s'.client.timedOut = true := by
  have hwait : s.step t (.wait n) = some { s with now := s.now + n } := if_pos ⟨hclient, hserver⟩
  obtain ⟨es, hrun⟩ := hreach.trans (.of_step hwait)
  exact ⟨es ++ [.tick .client], _, run_append hrun rfl, Peer.timedOut_checkHeartbeat hidle⟩

/-- The longest time without a ping; at its end the server has just read data. -/
theorem reaches_quiet (hperiod : 0 < t.period) :
    Reaches t {}
      { now := t.quiet - 1
        client := { lastTick := t.quiet - 1 }
        server := { lastWireActivity := t.quiet - 1, lastTick := t.quiet - 1 } } := by
  have hquiet : t.quiet = (t.intervalMs + 1) * 1000000 := rfl
  have hidle : Idle t (t.quiet - 1) 0 {} := by
    refine ⟨rfl, rfl, by simp, .inl ?_⟩
    simp only
    omega
  have hreach := reaches_idle (s := {}) hperiod (t.quiet - 1) hidle hidle
  rw [Nat.zero_add] at hreach
  have hwrite : System.step t
      { now := t.quiet - 1
        client := { lastTick := t.quiet - 1 }
        server := { lastTick := t.quiet - 1 } } (.write .client) = some
      { now := t.quiet - 1
        client := { lastTick := t.quiet - 1 }
        server := { lastTick := t.quiet - 1, inbox := [⟨.data, t.quiet - 1⟩] } } := rfl
  exact (hreach.trans (.of_step hwrite)).trans (.of_step (e := .read .server 0) rfl)

/-- The ping is sent as late as can be. -/
theorem reaches_ping (hperiod : 0 < t.period) (hle : t.period ≤ t.intervalMs * 1000000) :
    Reaches t {}
      { now := t.quiet - 1 + t.period
        client := { heartbeating := true, lastTick := t.quiet - 1 + t.period }
        server := {
          lastWireActivity := t.quiet - 1
          lastTick := t.quiet - 1 + t.period
          inbox := List.replicate t.conns ⟨.ping, t.quiet - 1 + t.period⟩ } } := by
  have hquiet : t.quiet = (t.intervalMs + 1) * 1000000 := rfl
  have hwait : System.step t
      { now := t.quiet - 1
        client := { lastTick := t.quiet - 1 }
        server := { lastWireActivity := t.quiet - 1, lastTick := t.quiet - 1 } }
      (.wait t.period) = some
      { now := t.quiet - 1 + t.period
        client := { lastTick := t.quiet - 1 }
        server := { lastWireActivity := t.quiet - 1, lastTick := t.quiet - 1 } } := by
    simp [System.step, Peer.Punctual]
  have hclient : System.step t
      { now := t.quiet - 1 + t.period
        client := { lastTick := t.quiet - 1 }
        server := { lastWireActivity := t.quiet - 1, lastTick := t.quiet - 1 } }
      (.tick .client) = some
      { now := t.quiet - 1 + t.period
        client := { heartbeating := true, lastTick := t.quiet - 1 + t.period }
        server := {
          lastWireActivity := t.quiet - 1
          lastTick := t.quiet - 1
          inbox := List.replicate t.conns ⟨.ping, t.quiet - 1 + t.period⟩ } } := by
    have hping : Peer.checkHeartbeat { lastTick := t.quiet - 1 } t.intervalMs
        (t.quiet - 1 + t.period) =
          ({ heartbeating := true, lastTick := t.quiet - 1 + t.period }, true) :=
      Peer.checkHeartbeat_ping rfl (by simp only; omega) (by simp only; omega) rfl
    simp [System.step, System.peer, System.other, System.put, hping, Peer.receive]
  have hserver : System.step t
      { now := t.quiet - 1 + t.period
        client := { heartbeating := true, lastTick := t.quiet - 1 + t.period }
        server := {
          lastWireActivity := t.quiet - 1
          lastTick := t.quiet - 1
          inbox := List.replicate t.conns ⟨.ping, t.quiet - 1 + t.period⟩ } }
      (.tick .server) = some
      { now := t.quiet - 1 + t.period
        client := { heartbeating := true, lastTick := t.quiet - 1 + t.period }
        server := {
          lastWireActivity := t.quiet - 1
          lastTick := t.quiet - 1 + t.period
          inbox := List.replicate t.conns ⟨.ping, t.quiet - 1 + t.period⟩ } } := by
    have hsilent : Peer.checkHeartbeat
        { lastWireActivity := t.quiet - 1
          lastTick := t.quiet - 1
          inbox := List.replicate t.conns ⟨.ping, t.quiet - 1 + t.period⟩ }
        t.intervalMs (t.quiet - 1 + t.period) =
          ({ lastWireActivity := t.quiet - 1
             lastTick := t.quiet - 1 + t.period
             inbox := List.replicate t.conns ⟨.ping, t.quiet - 1 + t.period⟩ }, false) :=
      Peer.checkHeartbeat_silent rfl (by simp only; omega) (.inl (by simp only; omega))
    simp [System.step, System.peer, System.other, System.put, hsilent, Peer.receive]
  exact (((reaches_quiet hperiod).trans (.of_step hwait)).trans (.of_step hclient)).trans
    (.of_step hserver)

theorem timesOut_of_lt (hperiod : 0 < t.period) (hconns : 0 < t.conns)
    (hlt : t.intervalMs * 1000000 < 2 * t.delay + t.period) :
    ∃ es s, run (System.step t) {} es = some s ∧ s.client.timedOut = true := by
  have hquiet : t.quiet = (t.intervalMs + 1) * 1000000 := rfl
  by_cases hle : t.period ≤ t.intervalMs * 1000000
  · -- what is left until twice the interval is over
    obtain ⟨left, hleft⟩ := Nat.le.dest hle
    have hping := reaches_ping hperiod hle
    by_cases hdelay : left < t.delay
    · -- the pings have not arrived
      have hreach := hping.trans (reaches_idle hperiod left
        ⟨rfl, rfl, by simp, .inr ⟨rfl, by simp only; omega⟩⟩
        ⟨rfl, rfl, by simp; omega, .inl (by simp only; omega)⟩)
      refine exists_timedOut (n := 1) hreach ?_ ?_ ?_
      · simp [Peer.Punctual]
        omega
      · simp [Peer.Punctual]
        omega
      · simp only
        omega
    · -- the answers have not arrived
      obtain ⟨k, hk⟩ := Nat.exists_eq_succ_of_ne_zero (Nat.ne_of_gt hconns)
      have hsent := hping.trans (reaches_idle hperiod t.delay
        ⟨rfl, rfl, by simp, .inr ⟨rfl, by simp only; omega⟩⟩
        ⟨rfl, rfl, by simp, .inl (by simp only; omega)⟩)
      have hanswered := hsent.trans (reaches_answered k (by rw [← Nat.succ_eq_add_one, ← hk]))
      have hreach := hanswered.trans (reaches_idle hperiod (left - t.delay)
        ⟨rfl, rfl, by simp [Peer.receive]; omega, .inr ⟨rfl, by simp only [Peer.receive]; omega⟩⟩
        ⟨rfl, rfl, by simp, .inl (by simp only; omega)⟩)
      refine exists_timedOut (n := 1) hreach ?_ ?_ ?_
      · simp [Peer.Punctual, Peer.receive]
        omega
      · simp [Peer.Punctual]
        omega
      · simp only [Peer.receive]
        omega
  · refine exists_timedOut (n := t.intervalMs * 1000000 + 1) (reaches_quiet hperiod) ?_ ?_ ?_
    · simp [Peer.Punctual]
      omega
    · simp [Peer.Punctual]
      omega
    · simp only
      omega

end Reaches

/-- However the two sides write, tick and read, neither of them ever times out, exactly when a
ping, its answer and a period between two ticks fit into the interval. -/
theorem never_timesOut_iff {t : Timing} (hperiod : 0 < t.period) (hconns : 0 < t.conns) :
    (∀ es s, run (System.step t) {} es = some s →
        s.client.timedOut = false ∧ s.server.timedOut = false) ↔
      2 * t.delay + t.period ≤ t.intervalMs * 1000000 := by
  constructor
  · intro hnever
    by_contra htiming
    obtain ⟨es, s, hrun, hout⟩ := timesOut_of_lt hperiod hconns (Nat.lt_of_not_le htiming)
    rw [(hnever es s hrun).1] at hout
    cases hout
  · intro htiming es s hrun
    have hstart : Alive t 0 {} {} := by
      refine ⟨rfl, ⟨Nat.le_refl 0, Nat.zero_le _⟩, by simp, fun _ => ?_, nofun⟩
      simp [Timing.quiet]
    have hsound : s.Sound t := invariant_of_run
      (fun _ _ _ hinv hstep => hinv.step htiming hconns hstep) ⟨hstart, hstart⟩ hrun
    exact ⟨hsound.1.connected, hsound.2.connected⟩

/-- With the default interval and the ticks of the event loop a delay of 14.975 seconds is the
longest that is safe. -/
theorem never_timesOut_iff_default :
    (∀ es s, run (System.step ⟨30000, 14975000000, 50000000, 3⟩) {} es = some s →
      s.client.timedOut = false ∧ s.server.timedOut = false) ∧
    ¬ ∀ es s, run (System.step ⟨30000, 14975000001, 50000000, 3⟩) {} es = some s →
      s.client.timedOut = false ∧ s.server.timedOut = false :=
  ⟨(@never_timesOut_iff ⟨30000, 14975000000, 50000000, 3⟩ (by decide) (by decide)).mpr (by decide),
    fun h => absurd ((@never_timesOut_iff ⟨30000, 14975000001, 50000000, 3⟩
      (by decide) (by decide)).mp h) (by decide)⟩

end PipelineTunnel.Wire.Heartbeat
