import PipelineTunnel.Flow.Model
import PipelineTunnel.Lib.StepSystem

/-!
# When a connection is read

The interest in `EPOLLIN` of a connection changes in the handlers of the pause messages, when
too much data waits for the tunnel and when it no longer does, and in the gate at the end of a
tick. Only the gate keeps `epollin_removed`.

## Implementation notes

A `Gauge` is what matters here of a connection and its descriptor; every operation is followed
on gauges (`Acts`). The entry of a descriptor that belongs to no connection may be anything,
and the rest of the program may change it at any time.
-/

namespace PipelineTunnel.Flow

open Protocol Kernel StepSystem

/-- The flags that can stop a connection, the flag of the gate, and whether it is read. -/
structure Gauge where
  writerPaused : Bool
  chainPaused : Bool
  extOverflowPaused : Bool
  epollinRemoved : Bool
  reads : Bool
deriving DecidableEq, Repr

def gauge (p : Flags × Descriptor) : Gauge where
  writerPaused := p.1.writerPaused
  chainPaused := p.1.chainPaused
  extOverflowPaused := p.1.extOverflowPaused
  epollinRemoved := p.1.epollinRemoved
  reads := p.2.reads

/-- The descriptor has a handler for input, and what is watched agrees with its entry. -/
def IsWatched (d : Descriptor) : Prop := ∃ ev, d.Watched ev

/-- A visit acts on the gauge of a connection as `op`. -/
def Acts (f : Visit) (op : Gauge → Gauge) : Prop :=
  ∀ fl d, IsWatched d → IsWatched (f (fl, d)).2 ∧ gauge (f (fl, d)) = op (gauge (fl, d))

namespace Gauge

def writerPause (g : Gauge) : Gauge := { g with writerPaused := true, reads := false }

def writerResume (g : Gauge) : Gauge :=
  { g with
    writerPaused := false
    reads := g.reads || (!g.chainPaused && !g.extOverflowPaused) }

def chainPause (g : Gauge) : Gauge := { g with chainPaused := true, reads := false }

def chainResume (g : Gauge) : Gauge :=
  { g with
    chainPaused := false
    reads := g.reads || (!g.writerPaused && !g.extOverflowPaused) }

def overflowPause (g : Gauge) : Gauge := { g with extOverflowPaused := true, reads := false }

def overflowResume (g : Gauge) : Gauge :=
  { g with
    extOverflowPaused := false
    reads := g.reads || (!g.writerPaused && !g.chainPaused) }

/-- A source of a pause is active. -/
def active (g : Gauge) (bp0 : Bool) : Bool :=
  g.writerPaused || g.chainPaused || g.extOverflowPaused || bp0

def gate (bp0 : Bool) (g : Gauge) : Gauge :=
  { g with
    epollinRemoved := g.active bp0
    reads := if g.active bp0 = g.epollinRemoved then g.reads else !g.active bp0 }

end Gauge

/-! ## The visits act on gauges -/

theorem stopReading_spec {d : Descriptor} (h : IsWatched d) :
    IsWatched (stopReading d) ∧ (stopReading d).reads = false := by
  obtain ⟨ev, h⟩ := h
  have hstop := h.modFdEvents {} EPOLLIN
  exact ⟨⟨_, hstop⟩, by rw [stopReading, hstop.reads_eq]; simp [Events.without, EPOLLIN]⟩

theorem startReading_spec {d : Descriptor} (h : IsWatched d) :
    IsWatched (startReading d) ∧ (startReading d).reads = true := by
  obtain ⟨ev, h⟩ := h
  have hstart := h.modFdEvents EPOLLIN {}
  exact ⟨⟨_, hstart⟩, by
    rw [startReading, hstart.reads_eq]; simp [Events.without, Events.union, EPOLLIN]⟩

/-- A pause: whatever the descriptor becomes, it is not watched for input. -/
theorem acts_pauseVisit {set : Flags → Flags} {op : Gauge → Gauge}
    (h : ∀ fl d d', d'.reads = false → gauge (set fl, d') = op (gauge (fl, d))) :
    Acts (pauseVisit set) op := by
  intro fl d hd
  obtain ⟨hwatched, hreads⟩ := stopReading_spec hd
  exact ⟨hwatched, h fl d (stopReading d) hreads⟩

/-- A resume: the descriptor is watched for input if it was, or if the flags allow it. -/
theorem acts_resumeVisit {clear : Flags → Flags} {free : Flags → Bool} {op : Gauge → Gauge}
    (h : ∀ fl d d', d'.reads = (d.reads || free fl) → gauge (clear fl, d') = op (gauge (fl, d))) :
    Acts (resumeVisit clear free) op := by
  intro fl d hd
  rw [resumeVisit]
  cases hfree : free fl with
  | false => exact ⟨hd, h fl d d (by simp [hfree])⟩
  | true =>
      obtain ⟨hwatched, hreads⟩ := startReading_spec hd
      exact ⟨hwatched, h fl d (startReading d) (by simp [hreads, hfree])⟩

theorem acts_writerPause : Acts writerPause Gauge.writerPause :=
  acts_pauseVisit fun fl d d' h => by simp [gauge, Gauge.writerPause, h]

theorem acts_chainPause : Acts chainPause Gauge.chainPause :=
  acts_pauseVisit fun fl d d' h => by simp [gauge, Gauge.chainPause, h]

theorem acts_overflowPause : Acts overflowPause Gauge.overflowPause :=
  acts_pauseVisit fun fl d d' h => by simp [gauge, Gauge.overflowPause, h]

theorem acts_writerResume : Acts writerResume Gauge.writerResume :=
  acts_resumeVisit fun fl d d' h => by simp [gauge, Gauge.writerResume, h]

theorem acts_chainResume : Acts chainResume Gauge.chainResume :=
  acts_resumeVisit fun fl d d' h => by simp [gauge, Gauge.chainResume, h]

theorem acts_overflowResume : Acts overflowResume Gauge.overflowResume :=
  acts_resumeVisit fun fl d d' h => by simp [gauge, Gauge.overflowResume, h]

theorem acts_gate (bp0 : Bool) : Acts (gate bp0) (Gauge.gate bp0) := by
  intro fl d h
  have hactive : (gauge (fl, d)).active bp0 = fl.shouldPause bp0 := rfl
  rw [gate, Gauge.gate, hactive]
  cases hpause : fl.shouldPause bp0 <;> cases hremoved : fl.epollinRemoved
  · exact ⟨h, by simp [gauge, hremoved]⟩
  · exact ⟨(startReading_spec h).1, by simp [gauge, hremoved, (startReading_spec h).2]⟩
  · exact ⟨(stopReading_spec h).1, by simp [gauge, hremoved, (stopReading_spec h).2]⟩
  · exact ⟨h, by simp [gauge, hremoved]⟩

/-- Waiting for room in the socket does not change whether the connection is read. -/
theorem acts_registerEpollout : Acts registerEpollout id := by
  intro fl d h
  rw [registerEpollout]
  cases hreg : fl.registered with
  | true => exact ⟨h, rfl⟩
  | false =>
      obtain ⟨ev, hev⟩ := h
      have hne : EPOLLOUT ≠ {} := by decide
      have hadd := hev.addFdHandler hne
      have hreads : (d.addFdHandler EPOLLOUT).reads = d.reads := by
        rw [hadd.reads_eq, hev.reads_eq]
        simp [Events.union, EPOLLOUT]
      exact ⟨⟨_, hadd⟩, by simp [gauge, hreads]⟩

theorem acts_unregisterEpollout : Acts unregisterEpollout id := by
  intro fl d h
  obtain ⟨ev, hev⟩ := h
  have hmod := hev.modFdEvents {} EPOLLOUT
  have hreads : (d.modFdEvents {} EPOLLOUT).reads = d.reads := by
    rw [hmod.reads_eq, hev.reads_eq]
    simp [Events.union, Events.without, EPOLLOUT]
  exact ⟨⟨_, hmod⟩, by simp [gauge, unregisterEpollout, hreads]⟩

theorem acts_setLocalChainSent (sent : Bool) : Acts (setLocalChainSent sent) id :=
  fun _ _ h => ⟨h, rfl⟩

/-! ## The operations on gauges -/

def End.gaugeOf (e : End) (connId : UInt8) : Option Gauge := (e.port connId).map gauge

/-- Descriptors are not shared, and each is watched as its entry says. -/
structure Sane (e : End) : Prop where
  distinct : e.Distinct
  watched : ∀ connId p, e.port connId = some p → IsWatched p.2

/-- From `e` to `e'` the gauge of each connection changes by `op`. -/
structure Follows (e e' : End) (op : UInt8 → Option Gauge → Option Gauge) : Prop where
  sane : Sane e'
  gauges : ∀ connId, e'.gaugeOf connId = op connId (e.gaugeOf connId)

variable {e e' e'' : End} {f : Visit} {op : Gauge → Gauge} {role : Role}

theorem Follows.trans {op op' : UInt8 → Option Gauge → Option Gauge} (h : Follows e e' op)
    (h' : Follows e' e'' op') : Follows e e'' fun connId g => op' connId (op connId g) :=
  ⟨h'.sane, fun connId => by rw [h'.gauges, h.gauges]⟩

theorem Sane.refl (h : Sane e) : Follows e e fun _ g => g := ⟨h, fun _ => rfl⟩

/-- What a visit does to the gauge, where there is a connection. -/
theorem Acts.map_gauge (hf : Acts f op) {p : Option (Flags × Descriptor)}
    (hp : ∀ q, p = some q → IsWatched q.2) : (p.map f).map gauge = (p.map gauge).map op := by
  cases p with
  | none => rfl
  | some q => simp [(hf q.1 q.2 (hp q rfl)).2]

theorem Sane.visit (h : Sane e) (hf : Acts f op) (connId : UInt8) :
    Follows e (e.visit connId f) fun connId' g => if connId' = connId then g.map op else g := by
  refine ⟨⟨h.distinct.visit f connId, fun connId' p hp => ?_⟩, fun connId' => ?_⟩
  · rw [End.visit_port f _ _ h.distinct] at hp
    split_ifs at hp with hid
    · obtain ⟨q, hq, rfl⟩ := Option.map_eq_some_iff.mp hp
      exact (hf q.1 q.2 (h.watched connId' q hq)).1
    · exact h.watched connId' p hp
  · rw [End.gaugeOf, End.visit_port f _ _ h.distinct]
    split_ifs with hid
    · exact hf.map_gauge (h.watched connId')
    · rfl

theorem Sane.visitAll (h : Sane e) (hf : Acts f op) :
    Follows e (e.visitAll f) fun _ g => g.map op := by
  refine ⟨⟨h.distinct.visitAll f, fun connId p hp => ?_⟩, fun connId => ?_⟩
  · rw [End.visitAll_port f _ h.distinct] at hp
    obtain ⟨q, hq, rfl⟩ := Option.map_eq_some_iff.mp hp
    exact (hf q.1 q.2 (h.watched connId q hq)).1
  · rw [End.gaugeOf, End.visitAll_port f _ h.distinct]
    exact hf.map_gauge (h.watched connId)

/-- A visit that no gauge shows. -/
theorem Sane.visit_id (h : Sane e) (hf : Acts f id) (connId : UInt8) :
    Follows e (e.visit connId f) fun _ g => g := by
  refine ⟨(h.visit hf connId).sane, fun connId' => ?_⟩
  rw [(h.visit hf connId).gauges]
  simp

theorem Sane.visitAll_id (h : Sane e) (hf : Acts f id) :
    Follows e (e.visitAll f) fun _ g => g := by
  refine ⟨(h.visitAll hf).sane, fun connId => ?_⟩
  rw [(h.visitAll hf).gauges, Option.map_id_fun, id]

/-- The counters of an end are no part of its connections. -/
theorem Sane.setDcPaused (h : Sane e) (b : Bool) : Sane { e with dcPaused := b } :=
  ⟨h.distinct, h.watched⟩

theorem Sane.setBp1Since (h : Sane e) (since : Option Nat) : Sane { e with bp1Since := since } :=
  ⟨h.distinct, h.watched⟩

def Gauge.overflow (dcSize : Nat) (dcPaused : Bool) (g : Gauge) : Gauge :=
  if dcSize > DC_HIGH then if dcPaused then g else g.overflowPause
  else if dcSize < DC_LOW ∧ dcPaused then g.overflowResume
  else g

theorem Sane.overflow (h : Sane e) (dcSize : Nat) :
    Follows e (overflow e dcSize) fun _ g => g.map (Gauge.overflow dcSize e.dcPaused) := by
  unfold Flow.overflow Gauge.overflow
  split_ifs
  · exact ⟨h, fun connId => by simp⟩
  · have hall := (h.setDcPaused true).visitAll acts_overflowPause
    exact ⟨hall.sane, hall.gauges⟩
  · have hall := (h.setDcPaused false).visitAll acts_overflowResume
    exact ⟨hall.sane, hall.gauges⟩
  · exact ⟨h, fun connId => by simp⟩

theorem Sane.runBatch (h : Sane e) (batch : List UInt8) :
    Follows e (runBatch e batch) fun _ g => g := by
  induction batch generalizing e with
  | nil => exact h.refl
  | cons connId batch ih =>
      have hfirst := h.visit_id acts_registerEpollout connId
      exact hfirst.trans (ih hfirst.sane)

theorem Sane.debounce (h : Sane e) (bp1 : Bool) (now : Nat) :
    Follows e (debounce e bp1 now).1 fun _ g => g := by
  have hvisit (since : Option Nat) (sent : Bool) :
      Follows e (End.visitAll { e with bp1Since := since } (setLocalChainSent sent))
        fun _ g => g := by
    have hall := (h.setBp1Since since).visitAll_id (acts_setLocalChainSent sent)
    exact ⟨hall.sane, hall.gauges⟩
  have hidle (since : Option Nat) : Follows e { e with bp1Since := since } fun _ g => g :=
    ⟨h.setBp1Since since, fun _ => rfl⟩
  rw [Flow.debounce]
  dsimp only
  split_ifs <;> dsimp only
  · exact hvisit (some (e.bp1Since.getD now)) true
  · exact hidle (some (e.bp1Since.getD now))
  · exact hvisit none false
  · exact hidle none

theorem Sane.gate (h : Sane e) (bp0 : Bool) :
    Follows e (e.visitAll (gate bp0)) fun _ g => g.map (Gauge.gate bp0) :=
  h.visitAll (acts_gate bp0)

/-! Connections that come and go. -/

/-- The connections that a tick closes. -/
def Leaves (role : Role) (departs : List (UInt8 × Bool)) (connId : UInt8) : Prop :=
  ∃ due ∈ departs, due.1 = connId ∧ (role = .server ∨ due.2)

instance (departs : List (UInt8 × Bool)) (connId : UInt8) :
    Decidable (Leaves role departs connId) :=
  inferInstanceAs (Decidable (∃ due ∈ departs, due.1 = connId ∧ (role = .server ∨ due.2)))

theorem Sane.closeConn (h : Sane e) (connId : UInt8) :
    Follows e (closeConn e connId) fun connId' g => if connId' = connId then none else g := by
  refine ⟨⟨h.distinct.closeConn connId, fun connId' p hp => ?_⟩, fun connId' => ?_⟩
  · rw [End.closeConn_port _ _ h.distinct] at hp
    split_ifs at hp
    exact h.watched connId' p hp
  · rw [End.gaugeOf, End.closeConn_port _ _ h.distinct]
    split_ifs <;> rfl

/-- A new connection is read, whatever its descriptor was before. -/
theorem Sane.openConn (h : Sane e) (role : Role) (connId : UInt8) {fd : Nat}
    (hfd : ∀ connId', e.fdOf connId' ≠ some fd) :
    Follows e (openConn role e connId fd) fun connId' g =>
      if connId' = connId ∧ ¬ End.Keeps role e connId then
        some ⟨false, false, false, false, true⟩
      else g := by
  have hwatched := (e.kernel fd).watched_addFdHandler_epollin
  have hreads : ((e.kernel fd).addFdHandler EPOLLIN).reads = true := by
    rw [hwatched.reads_eq]
    simp [Events.union, EPOLLIN]
  refine ⟨⟨h.distinct.openConn connId role hfd, fun connId' p hp => ?_⟩, fun connId' => ?_⟩
  · rw [End.openConn_port _ _ role hfd] at hp
    split_ifs at hp with hnew
    · obtain rfl := Option.some.inj hp
      exact ⟨_, hwatched⟩
    · exact h.watched connId' p hp
  · rw [End.gaugeOf, End.openConn_port _ _ role hfd]
    split_ifs with hnew
    · simp [gauge, hreads]
    · rfl

theorem Sane.depart (h : Sane e) (role : Role) (due : UInt8 × Bool) :
    Follows e (depart role e due) fun connId g =>
      if due.1 = connId ∧ (role = .server ∨ due.2) then none else g := by
  unfold Flow.depart
  split_ifs with hcloses
  · refine ⟨(h.closeConn due.1).sane, fun connId => ?_⟩
    rw [(h.closeConn due.1).gauges]
    by_cases hid : due.1 = connId
    · simp [hid, hcloses]
    · simp [hid, Ne.symm hid]
  · have hvisit := h.visit_id acts_registerEpollout due.1
    exact ⟨hvisit.sane, fun connId => by simp [hcloses, hvisit.gauges]⟩

theorem leaves_cons {due : UInt8 × Bool} {departs : List (UInt8 × Bool)} {connId : UInt8} :
    Leaves role (due :: departs) connId ↔
      (due.1 = connId ∧ (role = .server ∨ due.2)) ∨ Leaves role departs connId := by
  simp only [Leaves, List.exists_mem_cons_iff]

theorem Sane.foldl_depart (h : Sane e) (role : Role) (departs : List (UInt8 × Bool)) :
    Follows e (departs.foldl (Flow.depart role) e) fun connId g =>
      if Leaves role departs connId then none else g := by
  induction departs generalizing e with
  | nil => exact ⟨h, fun connId => by simp [Leaves]⟩
  | cons due departs ih =>
      have hfirst := h.depart role due
      have hall := hfirst.trans (ih hfirst.sane)
      refine ⟨hall.sane, fun connId => ?_⟩
      rw [List.foldl_cons, hall.gauges]
      simp only [leaves_cons]
      by_cases hdue : due.1 = connId ∧ (role = .server ∨ due.2)
      · rw [if_pos hdue, ite_self, if_pos (Or.inl hdue)]
      · simp only [hdue, if_false, false_or]

/-- What a tick does to a connection that stays. -/
def Gauge.tick (t : Tick) (dcPaused : Bool) (g : Gauge) : Gauge :=
  (g.overflow t.dcSize dcPaused).gate t.bp0

theorem Sane.processPendingIo (h : Sane e) (role : Role) (t : Tick) :
    Follows e (processPendingIo role t e).1 fun connId g =>
      if Leaves role t.departs connId then none else g.map (Gauge.tick t e.dcPaused) := by
  have hoverflow := h.overflow t.dcSize
  have hbatch := hoverflow.sane.runBatch t.batch
  have hdebounce := hbatch.sane.debounce t.bp1 t.now
  have hgate := hdebounce.sane.gate t.bp0
  have hdeparts := hgate.sane.foldl_depart role t.departs
  have hall := (((hoverflow.trans hbatch).trans hdebounce).trans hgate).trans hdeparts
  refine ⟨hall.sane, fun connId => ?_⟩
  rw [Flow.processPendingIo]
  rw [hall.gauges, Option.map_map]
  rfl

/-! ## What holds of a gauge at any time -/

/-- A connection that is not read has a reason, and a flag of a pause is such a reason. -/
structure Gauge.Sound (g : Gauge) : Prop where
  kept : g.reads = false → g.active false ∨ g.epollinRemoved
  stopped : g.active false → g.reads = false

theorem Gauge.sound_writerPause (g : Gauge) : g.writerPause.Sound :=
  ⟨fun _ => by simp [Gauge.writerPause, active], fun _ => rfl⟩

theorem Gauge.sound_chainPause (g : Gauge) : g.chainPause.Sound :=
  ⟨fun _ => by simp [Gauge.chainPause, active], fun _ => rfl⟩

theorem Gauge.sound_overflowPause (g : Gauge) : g.overflowPause.Sound :=
  ⟨fun _ => by simp [Gauge.overflowPause, active], fun _ => rfl⟩

namespace Gauge.Sound

variable {g : Gauge}

theorem writerResume (h : g.Sound) : g.writerResume.Sound := by
  obtain ⟨w, c, x, r, i⟩ := g
  obtain ⟨hkept, hstopped⟩ := h
  refine ⟨?_, ?_⟩ <;> cases c <;> cases x <;> simp_all [Gauge.writerResume, active]

theorem chainResume (h : g.Sound) : g.chainResume.Sound := by
  obtain ⟨w, c, x, r, i⟩ := g
  obtain ⟨hkept, hstopped⟩ := h
  refine ⟨?_, ?_⟩ <;> cases w <;> cases x <;> simp_all [Gauge.chainResume, active]

theorem overflowResume (h : g.Sound) : g.overflowResume.Sound := by
  obtain ⟨w, c, x, r, i⟩ := g
  obtain ⟨hkept, hstopped⟩ := h
  refine ⟨?_, ?_⟩ <;> cases w <;> cases c <;> simp_all [Gauge.overflowResume, active]

theorem overflow (h : g.Sound) (dcSize : Nat) (dcPaused : Bool) :
    (g.overflow dcSize dcPaused).Sound := by
  unfold Gauge.overflow
  split_ifs
  · exact h
  · exact g.sound_overflowPause
  · exact h.overflowResume
  · exact h

theorem gate (h : g.Sound) (bp0 : Bool) : (g.gate bp0).Sound := by
  obtain ⟨w, c, x, r, i⟩ := g
  obtain ⟨hkept, hstopped⟩ := h
  refine ⟨?_, ?_⟩ <;> cases w <;> cases c <;> cases x <;> cases bp0 <;> cases r <;>
    simp_all [Gauge.gate, active]

theorem tick (h : g.Sound) (t : Tick) (dcPaused : Bool) : (g.tick t dcPaused).Sound :=
  (h.overflow t.dcSize dcPaused).gate t.bp0

/-- Behind the gate a connection without a reason to pause is read. -/
theorem reads_gate (h : g.Sound) {bp0 : Bool} (hidle : (g.gate bp0).active bp0 = false) :
    (g.gate bp0).reads = true := by
  have hflags : (g.gate bp0).active false = false := by
    simp only [active, Bool.or_eq_false_iff] at hidle ⊢
    exact ⟨hidle.1, trivial⟩
  by_contra hreads
  rcases (h.gate bp0).kept (by simpa using hreads) with hactive | hremoved
  · rw [hflags] at hactive
    cases hactive
  · have hgate : g.active bp0 = true := hremoved
    exact absurd (hgate.symm.trans hidle) (by decide)

/-- The gate stops a connection unless its own flag says that it has done so before. -/
theorem stopped_gate_iff (h : g.Sound) (bp0 : Bool) :
    ((g.gate bp0).active bp0 = true → (g.gate bp0).reads = false) ↔
      (bp0 = true → g.epollinRemoved = true → g.reads = false) := by
  have hactive : (g.gate bp0).active bp0 = g.active bp0 := rfl
  have hreads : (g.gate bp0).reads =
      if g.active bp0 = g.epollinRemoved then g.reads else !g.active bp0 := rfl
  rw [hactive, hreads]
  constructor
  · intro hstop hbp0 hremoved
    have hon : g.active bp0 = true := by simp [active, hbp0]
    simpa [hon, hremoved] using hstop hon
  · intro hshut hon
    rw [hon]
    split_ifs with hremoved
    · cases bp0 with
      | false => exact h.stopped hon
      | true => exact hshut rfl hremoved.symm
    · rfl

end Gauge.Sound

/-- When a connection is not read behind the overflow test of a tick. -/
theorem Gauge.reads_overflow (g : Gauge) (dcSize : Nat) (dcPaused : Bool) :
    (g.overflow dcSize dcPaused).reads = false ↔
      dcSize > DC_HIGH ∧ dcPaused = false ∨
        g.reads = false ∧ ¬ (dcSize < DC_LOW ∧ dcPaused = true ∧
          g.writerPaused = false ∧ g.chainPaused = false) := by
  have hlow : DC_LOW < DC_HIGH := by decide
  unfold Gauge.overflow
  split_ifs with hhigh hpaused hlow'
  · have hnot : ¬ dcSize < DC_LOW := by omega
    simp [hpaused, hnot]
  · simp [hhigh, hpaused, Gauge.overflowPause]
  · simp [hhigh, hlow', Gauge.overflowResume]
  · have hnot : ¬ (dcSize < DC_LOW ∧ dcPaused = true ∧
        g.writerPaused = false ∧ g.chainPaused = false) := fun h => hlow' ⟨h.1, h.2.1⟩
    simp [hhigh, hnot]

/-! ## Runs -/

inductive Label where
  | control (pkt : Packet)
  | tick (t : Tick)
  | registerEpollout (connId : UInt8)
  | unregisterEpollout (connId : UInt8)
  | openConn (connId : UInt8) (fd : Nat)
  | closeConn (connId : UInt8)
  /-- The rest of the program changes the entry of another descriptor. -/
  | foreign (fd : Nat) (d : Descriptor)
deriving DecidableEq, Repr

def End.uses (e : End) (fd : Nat) : Bool := connIds.any fun connId => e.fdOf connId = some fd

/-- A new descriptor is not that of a connection. -/
def step (role : Role) (e : End) : Label → Option End
  | .control pkt => some (applyControl role e pkt)
  | .tick t => some (processPendingIo role t e).1
  | .registerEpollout connId => some (e.visit connId registerEpollout)
  | .unregisterEpollout connId => some (e.visit connId unregisterEpollout)
  | .openConn connId fd => if e.uses fd then none else some (openConn role e connId fd)
  | .closeConn connId => some (closeConn e connId)
  | .foreign fd d =>
      if e.uses fd then none else some { e with kernel := Function.update e.kernel fd d }

/-- The end is sane and every gauge is sound. -/
structure Steady (e : End) : Prop where
  sane : Sane e
  sound : ∀ connId g, e.gaugeOf connId = some g → g.Sound

theorem not_uses {fd : Nat} (h : ¬ e.uses fd) : ∀ connId, e.fdOf connId ≠ some fd := by
  intro connId heq
  exact h (List.any_eq_true.mpr ⟨connId, mem_connIds connId, by simpa using heq⟩)

theorem steady_init (kernel : Nat → Descriptor) : Steady { kernel := kernel } :=
  ⟨⟨fun connId connId' fd h => by simp [End.fdOf] at h, fun connId p h => by simp [End.port] at h⟩,
    fun connId g h => by simp [End.gaugeOf, End.port] at h⟩

/-- Operations that keep gauges sound keep an end steady. -/
theorem Steady.follows {op : UInt8 → Option Gauge → Option Gauge} (h : Steady e)
    (hfollows : Follows e e' op)
    (hop : ∀ connId g g', (∀ g₀, g = some g₀ → g₀.Sound) → op connId g = some g' → g'.Sound) :
    Steady e' := by
  refine ⟨hfollows.sane, fun connId g hg => ?_⟩
  rw [hfollows.gauges] at hg
  exact hop connId _ g (h.sound connId) hg

theorem Steady.visit (h : Steady e) (hf : Acts f op) (hop : ∀ g, g.Sound → (op g).Sound)
    (connId : UInt8) : Steady (e.visit connId f) := by
  refine h.follows (h.sane.visit hf connId) fun connId' g g' hg hop' => ?_
  split_ifs at hop' with hid
  · obtain ⟨g₀, hg₀, rfl⟩ := Option.map_eq_some_iff.mp hop'
    exact hop g₀ (hg g₀ hg₀)
  · exact hg g' hop'

theorem Steady.visitAll (h : Steady e) (hf : Acts f op) (hop : ∀ g, g.Sound → (op g).Sound) :
    Steady (e.visitAll f) := by
  refine h.follows (h.sane.visitAll hf) fun connId g g' hg hop' => ?_
  obtain ⟨g₀, hg₀, rfl⟩ := Option.map_eq_some_iff.mp hop'
  exact hop g₀ (hg g₀ hg₀)

theorem Steady.applyControl (h : Steady e) (role : Role) (pkt : Packet) :
    Steady (applyControl role e pkt) := by
  unfold Flow.applyControl
  split_ifs
  · cases writerConnId role pkt.payload with
    | none => exact h
    | some connId => exact h.visit acts_writerPause (fun g _ => g.sound_writerPause) connId
  · cases writerConnId role pkt.payload with
    | none => exact h
    | some connId => exact h.visit acts_writerResume (fun _ hg => hg.writerResume) connId
  · exact h.visitAll acts_chainPause fun g _ => g.sound_chainPause
  · exact h.visitAll acts_chainResume fun _ hg => hg.chainResume
  · exact h

theorem Steady.processPendingIo (h : Steady e) (role : Role) (t : Tick) :
    Steady (processPendingIo role t e).1 := by
  refine h.follows (h.sane.processPendingIo role t) fun connId g g' hg hop => ?_
  split_ifs at hop
  obtain ⟨g₀, hg₀, rfl⟩ := Option.map_eq_some_iff.mp hop
  exact (hg g₀ hg₀).tick t e.dcPaused

theorem Steady.foreign (h : Steady e) {fd : Nat} (hfd : ∀ connId, e.fdOf connId ≠ some fd)
    (d : Descriptor) : Steady { e with kernel := Function.update e.kernel fd d } := by
  have hport : ∀ connId, End.port { e with kernel := Function.update e.kernel fd d } connId =
      e.port connId := by
    intro connId
    cases hconn : e.conns connId with
    | none => simp [End.port, hconn]
    | some conn =>
        have hne : conn.fd ≠ fd := fun heq => hfd connId (by simp [End.fdOf, hconn, heq])
        simp [End.port, hconn, Function.update_of_ne hne]
  refine ⟨⟨h.sane.distinct, fun connId p hp => ?_⟩, fun connId g hg => ?_⟩
  · rw [hport] at hp
    exact h.sane.watched connId p hp
  · rw [End.gaugeOf, hport] at hg
    exact h.sound connId g hg

theorem Steady.step {l : Label} (h : Steady e) (hstep : step role e l = some e') :
    Steady e' := by
  cases l with
  | control pkt =>
      obtain rfl := Option.some.inj hstep
      exact h.applyControl role pkt
  | tick t =>
      obtain rfl := Option.some.inj hstep
      exact h.processPendingIo role t
  | registerEpollout connId =>
      obtain rfl := Option.some.inj hstep
      exact h.visit acts_registerEpollout (fun _ hg => hg) connId
  | unregisterEpollout connId =>
      obtain rfl := Option.some.inj hstep
      exact h.visit acts_unregisterEpollout (fun _ hg => hg) connId
  | openConn connId fd =>
      simp only [Flow.step] at hstep
      split_ifs at hstep with huses
      obtain rfl := Option.some.inj hstep
      refine h.follows (h.sane.openConn role connId (not_uses huses)) fun c g g' hg hop => ?_
      split_ifs at hop
      · obtain rfl := Option.some.inj hop
        exact ⟨nofun, nofun⟩
      · exact hg g' hop
  | closeConn connId =>
      obtain rfl := Option.some.inj hstep
      refine h.follows (h.sane.closeConn connId) fun c g g' hg hop => ?_
      split_ifs at hop
      exact hg g' hop
  | foreign fd d =>
      simp only [Flow.step] at hstep
      split_ifs at hstep with huses
      obtain rfl := Option.some.inj hstep
      exact h.foreign (not_uses huses) d

/-- From a connection to its gauge. -/
theorem gaugeOf_eq {connId : UInt8} {conn : Conn} (h : e.conns connId = some conn) :
    e.gaugeOf connId = some (gauge (conn.flags, e.kernel conn.fd)) := by
  simp [End.gaugeOf, End.port, h]

/-- A connection behind a tick was there before. -/
theorem Steady.before_tick (h : Steady e) {t : Tick} {connId : UInt8} {g' : Gauge}
    (hg' : (Flow.processPendingIo role t e).1.gaugeOf connId = some g') :
    ∃ g, e.gaugeOf connId = some g ∧ g.Sound ∧ g' = g.tick t e.dcPaused ∧
      ¬ Leaves role t.departs connId := by
  rw [(h.sane.processPendingIo role t).gauges] at hg'
  split_ifs at hg' with hleaves
  obtain ⟨g, hg, rfl⟩ := Option.map_eq_some_iff.mp hg'
  exact ⟨g, hg, h.sound connId g hg, rfl, hleaves⟩

/-- After a tick, a connection without a reason to pause is watched for input. -/
theorem resume_notLost {kernel : Nat → Descriptor} {ls : List Label} {t : Tick}
    (hrun : run (step role) { kernel := kernel } (ls ++ [.tick t]) = some e') {connId : UInt8}
    {conn : Conn} (hconn : e'.conns connId = some conn)
    (hidle : conn.flags.shouldPause t.bp0 = false) : (e'.kernel conn.fd).reads = true := by
  obtain ⟨e, hrun, htick⟩ := run_concat_some hrun
  have hstep : ∀ e l e', Steady e → step role e l = some e' → Steady e' :=
    fun e l e' h => h.step
  have hsteady := invariant_of_run hstep (steady_init kernel) hrun
  obtain rfl := Option.some.inj htick
  obtain ⟨g, -, hsound, hg, -⟩ := hsteady.before_tick (gaugeOf_eq hconn)
  have hidle' : (g.tick t e.dcPaused).active t.bp0 = false := hg ▸ hidle
  have hreads : (g.tick t e.dcPaused).reads = true :=
    (hsound.overflow t.dcSize e.dcPaused).reads_gate hidle'
  rw [← hg] at hreads
  exact hreads

/-- A connection is paused three times and resumed in another order. -/
def overlapRun : List Label :=
  [.openConn 0 7, .control ⟨MSG_WRITER_PAUSE, [0]⟩, .tick { dcSize := DC_HIGH + 1, bp0 := true },
    .registerEpollout 0, .control ⟨MSG_CHAIN_PAUSE, []⟩, .control ⟨MSG_WRITER_RESUME, [0]⟩,
    .unregisterEpollout 0, .tick { dcSize := 0 }, .control ⟨MSG_CHAIN_RESUME, []⟩]

def overlapEnd (role : Role) : Option End := run (step role) {} (overlapRun ++ [.tick {}])

theorem resume_notLost_overlap :
    ∃ e' conn, overlapEnd .server = some e' ∧ e'.conns 0 = some conn ∧
      conn.flags.shouldPause false = false ∧ (e'.kernel conn.fd).reads = true := by
  obtain ⟨e', he'⟩ := Option.isSome_iff_exists.mp
    (show (overlapEnd .server).isSome by decide +kernel)
  have hconns : (overlapEnd .server).bind (fun e => e.conns 0) = some ⟨7, {}⟩ := by
    decide +kernel
  have hconn : e'.conns 0 = some ⟨7, {}⟩ := by simpa [he'] using hconns
  exact ⟨e', ⟨7, {}⟩, he', hconn, rfl, resume_notLost he' hconn rfl⟩

/-- After a tick, a connection with a reason to pause is not watched for input. -/
def Stopped (t : Tick) (e : End) : Prop :=
  ∀ connId conn, e.conns connId = some conn → conn.flags.shouldPause t.bp0 = true →
    (e.kernel conn.fd).reads = false

/-- When the chain is backed up, no connection that stays and that the gate has stopped before
is read again: not since then, and not by the end of an overflow in this tick. The beginning of
an overflow stops them all. -/
def Shut (role : Role) (t : Tick) (e : End) : Prop :=
  t.bp0 = true → ∀ connId conn, e.conns connId = some conn → ¬ Leaves role t.departs connId →
    conn.flags.epollinRemoved = true →
      t.dcSize > DC_HIGH ∧ e.dcPaused = false ∨
        (e.kernel conn.fd).reads = false ∧ ¬ (t.dcSize < DC_LOW ∧ e.dcPaused = true ∧
          conn.flags.writerPaused = false ∧ conn.flags.chainPaused = false)

/-- A condition on the ticks of a run. -/
def AtTick (ok : Tick → End → Prop) (e : End) (l : Label) : Prop := ∀ t, l = .tick t → ok t e

theorem Gauge.Sound.stopped_tick_iff {g : Gauge} (h : g.Sound) (t : Tick) (dcPaused : Bool) :
    ((g.tick t dcPaused).active t.bp0 = true → (g.tick t dcPaused).reads = false) ↔
      (t.bp0 = true → g.epollinRemoved = true →
        t.dcSize > DC_HIGH ∧ dcPaused = false ∨
          g.reads = false ∧ ¬ (t.dcSize < DC_LOW ∧ dcPaused = true ∧
            g.writerPaused = false ∧ g.chainPaused = false)) := by
  have hremoved : (g.overflow t.dcSize dcPaused).epollinRemoved = g.epollinRemoved := by
    unfold Gauge.overflow
    split_ifs <;> rfl
  rw [Gauge.tick, (h.overflow t.dcSize dcPaused).stopped_gate_iff t.bp0, hremoved,
    g.reads_overflow]

theorem Steady.stopped_iff (h : Steady e) (role : Role) (t : Tick) :
    Stopped t (Flow.processPendingIo role t e).1 ↔ Shut role t e := by
  have hafter := (h.sane.processPendingIo role t).gauges
  constructor
  · intro hstopped hbp0 connId conn hconn hstays hremoved
    have hg := gaugeOf_eq hconn
    have hsound := h.sound connId _ hg
    refine (hsound.stopped_tick_iff t e.dcPaused).mp (fun hactive => ?_) hbp0 hremoved
    have hg' := hafter connId
    rw [if_neg hstays, hg, Option.map_some] at hg'
    obtain ⟨p, hp, hgauge⟩ := Option.map_eq_some_iff.mp hg'
    obtain ⟨conn', hconn', rfl⟩ := Option.map_eq_some_iff.mp hp
    rw [← hgauge] at hactive ⊢
    exact hstopped connId conn' hconn' hactive
  · intro hshut connId conn' hconn' hactive
    obtain ⟨g, hg, hsound, htick, hstays⟩ := h.before_tick (gaugeOf_eq hconn')
    obtain ⟨p, hp, rfl⟩ := Option.map_eq_some_iff.mp hg
    obtain ⟨conn, hconn, rfl⟩ := Option.map_eq_some_iff.mp hp
    have hreads := (hsound.stopped_tick_iff t e.dcPaused).mpr
      (fun hbp0 hremoved => hshut hbp0 connId conn hconn hstays hremoved)
    rw [← htick] at hreads
    exact hreads hactive

/-- A run stops reading after each of its ticks exactly when no tick finds a connection that
was stopped by the gate and is read again. -/
theorem pause_stopsReading_iff (role : Role) (kernel : Nat → Descriptor) (ls : List Label) :
    Meets (step role) (AtTick fun t e => Stopped t (processPendingIo role t e).1)
        { kernel := kernel } ls ↔
      Meets (step role) (AtTick (Shut role)) { kernel := kernel } ls := by
  refine meets_congr ?_ (fun e l e' h => h.step) (steady_init kernel)
  intro e l h
  constructor
  · intro hstopped t hl
    exact (h.stopped_iff role t).mp (hstopped t hl)
  · intro hshut t hl
    exact (h.stopped_iff role t).mpr (hshut t hl)

/-- A writer is paused and resumed while the chain is backed up. -/
def resumedRun : List Label :=
  [.openConn 0 7, .tick { bp0 := true }, .control ⟨MSG_WRITER_PAUSE, [0]⟩,
    .control ⟨MSG_WRITER_RESUME, [0]⟩]

/-- The resumed connection, as the next tick finds it and as it leaves it. -/
theorem resumedRun_gaugeOf (role : Role) :
    ∃ e, run (step role) {} resumedRun = some e ∧
      (processPendingIo role { bp0 := true } e).1.gaugeOf 0 =
        some ⟨false, false, false, true, true⟩ := by
  have hgauge : ((run (step role) {} resumedRun).map fun e =>
      (processPendingIo role { bp0 := true } e).1.gaugeOf 0) =
        some (some ⟨false, false, false, true, true⟩) := by
    cases role <;> decide +kernel
  exact Option.map_eq_some_iff.mp hgauge

/-- The gate does not stop it again, at either end. -/
theorem pause_keepsReading :
    ¬ Meets (step .server) (AtTick fun t e => Stopped t (processPendingIo .server t e).1) {}
        (resumedRun ++ [.tick { bp0 := true }]) ∧
      ¬ Meets (step .client) (AtTick fun t e => Stopped t (processPendingIo .client t e).1) {}
        (resumedRun ++ [.tick { bp0 := true }]) := by
  have hreads (role : Role) :
      ¬ Meets (step role) (AtTick fun t e => Stopped t (processPendingIo role t e).1) {}
        (resumedRun ++ [.tick { bp0 := true }]) := by
    intro hmeets
    obtain ⟨e, hrun, hgauge⟩ := resumedRun_gaugeOf role
    have hstopped : Stopped { bp0 := true } (processPendingIo role { bp0 := true } e).1 :=
      hmeets.last hrun _ rfl
    generalize (processPendingIo role { bp0 := true } e).1 = after at hgauge hstopped
    obtain ⟨p, hp, hg⟩ := Option.map_eq_some_iff.mp hgauge
    obtain ⟨conn, hconn, rfl⟩ := Option.map_eq_some_iff.mp hp
    have hnot := hstopped 0 conn hconn (by simp [Flags.shouldPause])
    have hreads : (after.kernel conn.fd).reads = true := congrArg Gauge.reads hg
    exact absurd (hreads.symm.trans hnot) (by decide)
  exact ⟨hreads .server, hreads .client⟩

end PipelineTunnel.Flow
