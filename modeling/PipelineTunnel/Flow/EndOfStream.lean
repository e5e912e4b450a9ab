import PipelineTunnel.Common.WriteBuffer

/-!
# The end of a stream

The last packet of a connection is a control packet of the chain: `CHAIN_CTRL_SHUTDOWN_WR` makes
the server shut down its side of the target, `CHAIN_CTRL_DISCONNECT` makes the client close the
external connection. Both first let the writer drain.

## Implementation notes

One connection of each role, from its first packet on. A worker hands over data packets and
then one control packet, in this order. A step is one locked section of a worker, one call of the
write buffer, or a stretch of the event loop between two such calls. Closures run in the order of
`pending_io_` whenever the event loop is idle; those of the flow control are left out. Whether
the loop of the client's handler goes round again depends on `read_offset`, read without a lock,
so the step says. A tick that finds the chain busy does nothing.
-/

namespace PipelineTunnel.Flow.EndOfStream

open Protocol StepSystem
open Common (Channel Socket Kept)

/-- The writer of a connection, with the payload handed over so far, whether the control packet
has been handed over, and what the socket had taken at each shutdown or close. -/
structure Stream where
  writer : Channel := {}
  handed : Bytes := []
  ended : Bool := false
  cuts : List Bytes := []
deriving DecidableEq, Repr

namespace Stream

/-- A data packet; none comes behind the control packet. -/
def write (sock : Socket) (st : Stream) (payload : Bytes) : Option (Stream × Int) :=
  if st.ended then none
  else (Common.write sock st.writer payload).map fun r =>
    ({ st with writer := r.1, handed := st.handed ++ payload }, r.2)

def flush (sock : Socket) (st : Stream) : Option (Stream × Bool) :=
  (Common.flush sock st.writer).map fun r => ({ st with writer := r.1 }, r.2)

/-- `writer.empty()`. -/
def empty (st : Stream) : Bool :=
  st.writer.buf.chunks = [] ∧ st.writer.buf.priorityChunks = []

/-- The control packet; there is one. -/
def close (st : Stream) : Option Stream := if st.ended then none else some { st with ended := true }

/-- Record a shutdown or a close. -/
def cut (st : Stream) : Stream := { st with cuts := st.cuts ++ [st.writer.takenOf .normal] }

/-- At each shutdown or close the socket had taken every byte that came before the control
packet. -/
def Untruncated (st : Stream) : Prop :=
  ∀ taken ∈ st.cuts, st.ended = true ∧ taken = st.handed

instance (st : Stream) : Decidable st.Untruncated :=
  inferInstanceAs (Decidable (∀ taken ∈ st.cuts, _))

structure Sound (st : Stream) : Prop where
  kept : Kept st.writer st.handed
  untruncated : st.Untruncated

variable {sock : Socket} {st st' : Stream}

theorem sound_fresh : Sound {} := ⟨⟨Nat.le_refl 0, rfl⟩, nofun⟩

theorem Sound.write {payload : Bytes} {ret : Int} (hsock : sock.Reliable) (h : Sound st)
    (hwrite : st.write sock payload = some (st', ret)) :
    Sound st' ∧ st.ended = false ∧ st'.ended = false := by
  rw [Stream.write] at hwrite
  split_ifs at hwrite with hended
  have hopen : st.ended = false := by simpa using hended
  obtain ⟨r, hr, heq⟩ := Option.map_eq_some_iff.mp hwrite
  obtain ⟨rfl, rfl⟩ := Prod.mk.inj heq
  refine ⟨⟨h.kept.write hsock hr, fun taken htaken => ?_⟩, hopen, hopen⟩
  exact absurd (h.untruncated taken htaken).1 hended

/-- What a flush leaves as it was, and what it says when it returns true. -/
theorem Sound.flush {ok : Bool} (hsock : sock.Reliable) (h : Sound st)
    (hflush : st.flush sock = some (st', ok)) :
    Sound st' ∧ st'.ended = st.ended ∧ (ok = true → st'.writer.buf.chunks = []) ∧
      (st.writer.buf.chunks = [] → st'.writer.buf.chunks = []) := by
  obtain ⟨r, hr, heq⟩ := Option.map_eq_some_iff.mp hflush
  obtain ⟨rfl, rfl⟩ := Prod.mk.inj heq
  obtain ⟨hkept, hdrained⟩ := h.kept.flush hsock hr
  exact ⟨⟨hkept, h.untruncated⟩, rfl, hdrained, fun hempty => h.kept.chunks_flush hempty hr⟩

theorem Sound.close (h : Sound st) (hclose : st.close = some st') :
    Sound st' ∧ st'.ended = true ∧ st'.writer = st.writer := by
  rw [Stream.close] at hclose
  split_ifs at hclose with hended
  cases hclose
  refine ⟨⟨h.kept, fun taken htaken => ?_⟩, rfl, rfl⟩
  exact absurd (h.untruncated taken htaken).1 hended

theorem Sound.cut (h : Sound st) (hended : st.ended = true) (hempty : st.writer.buf.chunks = []) :
    Sound st.cut := by
  refine ⟨h.kept, fun taken htaken => ?_⟩
  rcases List.mem_append.mp htaken with hold | hnew
  · exact h.untruncated taken hold
  · rw [List.mem_singleton.mp hnew]
    exact ⟨hended, h.kept.takenOf_eq hempty⟩

theorem chunks_of_empty (h : st.empty = true) : st.writer.buf.chunks = [] := by
  rw [Stream.empty, decide_eq_true_iff] at h
  exact h.1

end Stream

/-! ## The server -/

/-- Where a worker stands in the control branch of `wire_write`: behind the assignment to
`shutdown_wr`, or before `shutdown`. -/
inductive Control where
  | idle
  | marked
  | drained
deriving DecidableEq, Repr

/-- A target. `pushes` counts the registrations that workers have still to push; `drained` says
that the handler for `EPOLLOUT` has drained the writer and not yet looked at `shutdown_wr`. -/
structure Target where
  stream : Stream := {}
  registered : Bool := false
  epollout : Bool := false
  shutdownWr : Bool := false
  shutdownWrSent : Bool := false
  control : Control := .idle
  pushes : Nat := 0
  pendingIo : Nat := 0
  drained : Bool := false
deriving DecidableEq, Repr

namespace Target

inductive Label where
  | data (payload : Bytes)
  | push
  | control
  | controlFlush
  | controlShutdown
  | runClosure
  | epolloutFlush
  | epolloutTest
deriving DecidableEq, Repr

/-- `register_target_epollout`. -/
def registerTargetEpollout (t : Target) : Target :=
  if t.registered then t else { t with registered := true, epollout := true }

/-- `shutdown` with `SHUT_WR`. -/
def shutdown (t : Target) : Target := { t with stream := t.stream.cut, shutdownWrSent := true }

/-- The end of the handler when the writer is drained. -/
def epolloutTest (t : Target) : Target :=
  let t := { t with registered := false, epollout := false, drained := false }
  if t.shutdownWr && !t.shutdownWrSent then t.shutdown else t

def step (sock : Socket) (t : Target) : Label → Option Target
  | .data payload => (t.stream.write sock payload).map fun r =>
      { t with stream := r.1, pushes := if (0 : Int) < r.2 then t.pushes + 1 else t.pushes }
  | .push =>
      if 0 < t.pushes then some { t with pushes := t.pushes - 1, pendingIo := t.pendingIo + 1 }
      else none
  | .control => t.stream.close.map fun stream =>
      { t with stream := stream, shutdownWr := true, control := .marked }
  | .controlFlush =>
      if t.control = .marked then
        if t.stream.empty then some { t with control := .drained }
        else (t.stream.flush sock).map fun r =>
          { t with stream := r.1, control := if r.2 then .drained else .idle }
      else none
  | .controlShutdown =>
      if t.control = .drained then some { t.shutdown with control := .idle } else none
  | .runClosure =>
      if t.drained = false ∧ 0 < t.pendingIo then
        some (registerTargetEpollout { t with pendingIo := t.pendingIo - 1 })
      else none
  | .epolloutFlush =>
      if t.drained = false ∧ t.epollout then
        (t.stream.flush sock).map fun r => { t with stream := r.1, drained := r.2 }
      else none
  | .epolloutTest => if t.drained then some t.epolloutTest else none

/-- The control packet does not come, with bytes in the queue, while the handler stands between
its flush and its look at `shutdown_wr`. -/
def Guarded (t : Target) : Label → Prop
  | .control => t.drained = true → t.stream.writer.buf.chunks = []
  | _ => True

instance (t : Target) : ∀ l, Decidable (Guarded t l)
  | .control => inferInstanceAs (Decidable (t.drained = true → t.stream.writer.buf.chunks = []))
  | .data _ | .push | .controlFlush | .controlShutdown | .runClosure | .epolloutFlush
  | .epolloutTest => isTrue trivial

/-- A shutdown that is due finds the queue empty. -/
structure Sound (t : Target) : Prop where
  stream : t.stream.Sound
  marked : t.shutdownWr = true → t.stream.ended = true
  busy : t.control ≠ .idle → t.stream.ended = true
  control : t.control = .drained → t.stream.writer.buf.chunks = []
  handler : t.drained = true → t.stream.ended = true → t.stream.writer.buf.chunks = []

variable {sock : Socket} {t t' : Target} {l : Label}

theorem sound_fresh : Sound {} := ⟨Stream.sound_fresh, nofun, by simp, nofun, nofun⟩

theorem Sound.shutdown (h : Sound t) (hended : t.stream.ended = true)
    (hempty : t.stream.writer.buf.chunks = []) : Sound t.shutdown :=
  ⟨h.stream.cut hended hempty, fun _ => hended, fun _ => hended, fun _ => hempty, fun _ _ => hempty⟩

theorem Sound.epolloutTest (h : Sound t) (hdrained : t.drained = true) :
    Sound t.epolloutTest := by
  have hidle : Sound { t with registered := false, epollout := false, drained := false } :=
    ⟨h.stream, h.marked, h.busy, h.control, nofun⟩
  rw [Target.epolloutTest]
  split_ifs with hdue
  · have hended : t.stream.ended = true := h.marked (Bool.and_eq_true_iff.mp hdue).1
    exact hidle.shutdown hended (h.handler hdrained hended)
  · exact hidle

theorem Sound.step (hsock : sock.Reliable) (h : Sound t) (hguard : Guarded t l)
    (hstep : t.step sock l = some t') : Sound t' := by
  cases l with
  | data payload =>
      obtain ⟨r, hr, rfl⟩ := Option.map_eq_some_iff.mp hstep
      obtain ⟨hsound, hopen, hopen'⟩ := h.stream.write hsock hr
      -- the control packet is still to come
      have hnot : ¬ t.stream.ended = true := by simp [hopen]
      refine ⟨hsound, fun hmarked => absurd (h.marked hmarked) hnot,
        fun hbusy => absurd (h.busy hbusy) hnot, fun hcontrol => ?_, fun _ hended => ?_⟩
      · exact absurd (h.busy (by simp [show t.control = .drained from hcontrol])) hnot
      · exact absurd (hended.symm.trans hopen') (by decide)
  | push =>
      simp only [Target.step] at hstep
      split_ifs at hstep
      cases hstep
      exact ⟨h.stream, h.marked, h.busy, h.control, h.handler⟩
  | control =>
      obtain ⟨stream, hclose, rfl⟩ := Option.map_eq_some_iff.mp hstep
      obtain ⟨hsound, hended, hwriter⟩ := h.stream.close hclose
      refine ⟨hsound, fun _ => hended, fun _ => hended, nofun, fun hdrained _ => ?_⟩
      show stream.writer.buf.chunks = []
      rw [hwriter]
      exact hguard hdrained
  | controlFlush =>
      simp only [Target.step] at hstep
      split_ifs at hstep with hmarked hempty
      · cases hstep
        have hended := h.busy (by simp [hmarked])
        exact ⟨h.stream, h.marked, fun _ => hended, fun _ => Stream.chunks_of_empty hempty,
          h.handler⟩
      · obtain ⟨r, hr, rfl⟩ := Option.map_eq_some_iff.mp hstep
        obtain ⟨hsound, hended, hdrained, hkept⟩ := h.stream.flush hsock hr
        have hended' : r.1.ended = true := hended.trans (h.busy (by simp [hmarked]))
        refine ⟨hsound, fun _ => hended', fun _ => hended', fun hcontrol => hdrained ?_,
          fun hhandler _ => hkept (h.handler hhandler (h.busy (by simp [hmarked])))⟩
        by_contra hfalse
        simp [hfalse] at hcontrol
  | controlShutdown =>
      simp only [Target.step] at hstep
      split_ifs at hstep with hcontrol
      cases hstep
      have hshut := h.shutdown (h.busy (by simp [hcontrol])) (h.control hcontrol)
      exact ⟨hshut.stream, hshut.marked, by simp, nofun, hshut.handler⟩
  | runClosure =>
      simp only [Target.step] at hstep
      split_ifs at hstep
      cases hstep
      unfold registerTargetEpollout
      split_ifs <;> exact ⟨h.stream, h.marked, h.busy, h.control, h.handler⟩
  | epolloutFlush =>
      simp only [Target.step] at hstep
      split_ifs at hstep with hidle
      obtain ⟨r, hr, rfl⟩ := Option.map_eq_some_iff.mp hstep
      obtain ⟨hsound, hended, hdrained, hkept⟩ := h.stream.flush hsock hr
      exact ⟨hsound, fun hmarked => hended.trans (h.marked hmarked),
        fun hbusy => hended.trans (h.busy hbusy), fun hcontrol => hkept (h.control hcontrol),
        fun hok _ => hdrained hok⟩
  | epolloutTest =>
      simp only [Target.step] at hstep
      split_ifs at hstep with hdrained
      cases hstep
      exact h.epolloutTest hdrained

end Target

/-! ## The client -/

inductive Closure where
  | register
  | disconnect
deriving DecidableEq, Repr

/-- The handlers for `EPOLLOUT` of an external connection: that of `register_external_epollout`
and that of the deferred disconnect. -/
inductive OutCb where
  | external
  | deferred
deriving DecidableEq, Repr

/-- Where the event loop stands: in the loop of the first handler, behind it, behind its test of
`writer.empty()`, behind the flush of the second handler, or behind the flush of a tick. -/
inductive Loop where
  | idle
  | flushing
  | flushed
  | emptied
  | deferred
  | tick
deriving DecidableEq, Repr

/-- An external connection; `epollout` is the handler that the kernel calls. -/
structure Conn where
  stream : Stream := {}
  present : Bool := true
  registered : Bool := false
  epollout : Option OutCb := none
  disconnecting : Bool := false
  pendingDisconnect : Bool := false
  pushes : Nat := 0
  pendingIo : List Closure := []
  loop : Loop := .idle
deriving DecidableEq, Repr

namespace Conn

inductive Label where
  | data (payload : Bytes)
  | push
  | control
  | runClosure
  | epollout
  | flush (again : Bool)
  | tick
  | test
deriving DecidableEq, Repr

/-- The locked section of `wire_write` that writes; a connection that is being closed loses the
packet. -/
def wireWrite (sock : Socket) (c : Conn) (payload : Bytes) : Option Conn :=
  if c.present = false ∨ c.disconnecting = true then
    if c.stream.ended then none
    else some { c with stream := { c.stream with handed := c.stream.handed ++ payload } }
  else (c.stream.write sock payload).map fun r =>
    { c with stream := r.1, pushes := if (0 : Int) < r.2 then c.pushes + 1 else c.pushes }

/-- Install a handler for `EPOLLOUT` unless the writer is registered. -/
def register (c : Conn) (cb : OutCb) : Conn :=
  if c.registered then c else { c with registered := true, epollout := some cb }

def unregister (c : Conn) : Conn := { c with registered := false, epollout := none }

def runClosure (c : Conn) : Closure → Conn
  | .register => if c.present then c.register .external else c
  | .disconnect =>
      if c.present then { c with disconnecting := true, pendingDisconnect := true } else c

/-- The connection is erased, and its descriptor closed. -/
def erase (c : Conn) : Conn :=
  { c with stream := c.stream.cut, present := false, epollout := none }

/-- The stretches of the event loop behind its flushes. -/
def test (c : Conn) : Option Conn :=
  match c.loop with
  | .idle | .flushing => none
  | .flushed =>
      if c.stream.empty then some { c.unregister with loop := .emptied }
      else some { c with loop := .idle }
  | .emptied =>
      if c.disconnecting then some { c.erase with loop := .idle } else some { c with loop := .idle }
  | .deferred =>
      if c.stream.empty then some { c.unregister with loop := .idle }
      else some { c with loop := .idle }
  | .tick =>
      if c.stream.empty then some { c.erase with pendingDisconnect := false, loop := .idle }
      else some { c.register .deferred with loop := .idle }

def flushTo (sock : Socket) (c : Conn) (loop : Loop) : Option Conn :=
  (c.stream.flush sock).map fun r => { c with stream := r.1, loop := loop }

def step (sock : Socket) (c : Conn) : Label → Option Conn
  | .data payload => c.wireWrite sock payload
  | .push =>
      if 0 < c.pushes then
        some { c with pushes := c.pushes - 1, pendingIo := c.pendingIo ++ [.register] }
      else none
  | .control => c.stream.close.map fun stream =>
      { c with stream := stream, pendingIo := c.pendingIo ++ [.disconnect] }
  | .runClosure =>
      match c.loop, c.pendingIo with
      | .idle, closure :: rest => some (runClosure { c with pendingIo := rest } closure)
      | _, _ => none
  | .epollout =>
      match c.loop, c.epollout with
      | .idle, some .external => some { c with loop := .flushing }
      | .idle, some .deferred => c.flushTo sock .deferred
      | _, _ => none
  | .flush again =>
      if c.loop = .flushing then c.flushTo sock (if again then .flushing else .flushed) else none
  | .tick =>
      if c.loop = .idle ∧ c.pendingDisconnect = true then
        if c.present then c.flushTo sock .tick else some { c with pendingDisconnect := false }
      else none
  | .test => c.test

/-- Nobody speaks of the end of the connection before its control packet. -/
structure Sound (c : Conn) : Prop where
  stream : c.stream.Sound
  present : c.present = false → c.stream.ended = true
  disconnecting : c.disconnecting = true → c.stream.ended = true
  pendingIo : .disconnect ∈ c.pendingIo → c.stream.ended = true
  pendingDisconnect : c.pendingDisconnect = true → c.stream.ended = true
  tick : c.loop = .tick → c.stream.ended = true
  emptied : c.loop = .emptied → c.disconnecting = true → c.stream.writer.buf.chunks = []

variable {sock : Socket} {c c' : Conn} {l : Label}

theorem sound_fresh : Sound {} :=
  ⟨Stream.sound_fresh, nofun, nofun, nofun, nofun, nofun, nofun⟩

/-- Everything but the stream is as it was. -/
theorem Sound.withStream (h : Sound c) {stream : Stream} (hstream : stream.Sound)
    (hended : c.stream.ended = true → stream.ended = true)
    (hempty : c.disconnecting = true → c.stream.writer.buf.chunks = [] →
      stream.writer.buf.chunks = []) : Sound { c with stream := stream } :=
  ⟨hstream, fun hp => hended (h.present hp), fun hd => hended (h.disconnecting hd),
    fun hm => hended (h.pendingIo hm), fun hp => hended (h.pendingDisconnect hp),
    fun ht => hended (h.tick ht), fun hl hd => hempty hd (h.emptied hl hd)⟩

theorem Sound.register (h : Sound c) (cb : OutCb) : Sound (c.register cb) := by
  unfold Conn.register
  split_ifs
  · exact h
  · exact ⟨h.stream, h.present, h.disconnecting, h.pendingIo, h.pendingDisconnect, h.tick,
      h.emptied⟩

theorem Sound.erase (h : Sound c) (hended : c.stream.ended = true)
    (hempty : c.stream.writer.buf.chunks = []) : Sound c.erase :=
  ⟨h.stream.cut hended hempty, fun _ => hended, h.disconnecting, h.pendingIo,
    h.pendingDisconnect, h.tick, h.emptied⟩

theorem Sound.idle (h : Sound c) : Sound { c with loop := .idle } :=
  ⟨h.stream, h.present, h.disconnecting, h.pendingIo, h.pendingDisconnect, nofun, nofun⟩

theorem Sound.wireWrite {payload : Bytes} (hsock : sock.Reliable) (h : Sound c)
    (hwrite : c.wireWrite sock payload = some c') : Sound c' := by
  rw [Conn.wireWrite] at hwrite
  split_ifs at hwrite with hclosing hended
  · -- a connection is not being closed before its control packet
    exact absurd (hclosing.elim h.present h.disconnecting) hended
  · obtain ⟨r, hr, rfl⟩ := Option.map_eq_some_iff.mp hwrite
    obtain ⟨hsound, hopen, -⟩ := h.stream.write hsock hr
    have hnot : ¬ c.stream.ended = true := by simp [hopen]
    have hstream := h.withStream hsound (fun hended => absurd hended hnot)
      (fun hd => absurd (h.disconnecting hd) hnot)
    exact ⟨hstream.stream, hstream.present, hstream.disconnecting, hstream.pendingIo,
      hstream.pendingDisconnect, hstream.tick, hstream.emptied⟩

theorem Sound.runClosure {closure : Closure} {rest : List Closure} (h : Sound c)
    (hidle : c.loop = .idle) (hqueue : c.pendingIo = closure :: rest) :
    Sound (runClosure { c with pendingIo := rest } closure) := by
  have hrest : Sound { c with pendingIo := rest } := by
    refine ⟨h.stream, h.present, h.disconnecting, fun hm => h.pendingIo ?_, h.pendingDisconnect,
      h.tick, h.emptied⟩
    rw [hqueue]
    exact List.mem_cons_of_mem closure hm
  cases closure with
  | register =>
      unfold Conn.runClosure
      dsimp only
      split_ifs
      · exact hrest.register .external
      · exact hrest
  | disconnect =>
      have hended : c.stream.ended = true := h.pendingIo (by simp [hqueue])
      unfold Conn.runClosure
      dsimp only
      split_ifs
      · exact ⟨h.stream, h.present, fun _ => hended, hrest.pendingIo, fun _ => hended, h.tick,
          fun hl => absurd (hidle.symm.trans hl) (by decide)⟩
      · exact hrest

theorem Sound.flushTo {loop : Loop} (hsock : sock.Reliable) (h : Sound c)
    (hflush : c.flushTo sock loop = some c') (htick : loop = .tick → c.stream.ended = true)
    (hloop : loop ≠ .emptied) : Sound c' := by
  obtain ⟨r, hr, rfl⟩ := Option.map_eq_some_iff.mp hflush
  obtain ⟨hsound, hended, -, hkept⟩ := h.stream.flush hsock hr
  have hstream := h.withStream hsound (fun he => hended.trans he) (fun _ => hkept)
  exact ⟨hstream.stream, hstream.present, hstream.disconnecting, hstream.pendingIo,
    hstream.pendingDisconnect, fun hl => hended.trans (htick hl), fun hl => absurd hl hloop⟩

theorem Sound.test (h : Sound c) (htest : c.test = some c') : Sound c' := by
  rw [Conn.test] at htest
  split at htest
  · cases htest
  · cases htest
  · split_ifs at htest with hempty
    · cases htest
      exact ⟨h.stream, h.present, h.disconnecting, h.pendingIo, h.pendingDisconnect, nofun,
        fun _ _ => Stream.chunks_of_empty hempty⟩
    · cases htest
      exact h.idle
  · rename_i hloop
    split_ifs at htest with hdisconnecting
    · cases htest
      exact (h.erase (h.disconnecting hdisconnecting) (h.emptied hloop hdisconnecting)).idle
    · cases htest
      exact h.idle
  · split_ifs at htest with hempty
    · cases htest
      exact ⟨h.stream, h.present, h.disconnecting, h.pendingIo, h.pendingDisconnect, nofun, nofun⟩
    · cases htest
      exact h.idle
  · rename_i hloop
    split_ifs at htest with hempty
    · cases htest
      have herase := h.erase (h.tick hloop) (Stream.chunks_of_empty hempty)
      exact ⟨herase.stream, herase.present, herase.disconnecting, herase.pendingIo, nofun, nofun,
        nofun⟩
    · cases htest
      exact (h.register .deferred).idle

theorem Sound.step (hsock : sock.Reliable) (h : Sound c) (hstep : c.step sock l = some c') :
    Sound c' := by
  cases l with
  | data payload => exact h.wireWrite hsock hstep
  | push =>
      simp only [Conn.step] at hstep
      split_ifs at hstep
      cases hstep
      refine ⟨h.stream, h.present, h.disconnecting, fun hm => h.pendingIo ?_,
        h.pendingDisconnect, h.tick, h.emptied⟩
      simpa using hm
  | control =>
      obtain ⟨stream, hclose, rfl⟩ := Option.map_eq_some_iff.mp hstep
      obtain ⟨hsound, hended, hwriter⟩ := h.stream.close hclose
      have hstream := h.withStream hsound (fun _ => hended) (fun _ he => by rw [hwriter, he])
      exact ⟨hsound, fun _ => hended, fun _ => hended, fun _ => hended, fun _ => hended,
        fun _ => hended, hstream.emptied⟩
  | runClosure =>
      simp only [Conn.step] at hstep
      split at hstep
      · rename_i hidle hqueue
        cases hstep
        exact h.runClosure hidle hqueue
      · cases hstep
  | epollout =>
      simp only [Conn.step] at hstep
      split at hstep
      · cases hstep
        exact ⟨h.stream, h.present, h.disconnecting, h.pendingIo, h.pendingDisconnect, nofun,
          nofun⟩
      · exact h.flushTo hsock hstep nofun nofun
      · cases hstep
  | flush again =>
      simp only [Conn.step] at hstep
      split_ifs at hstep
      · exact h.flushTo hsock hstep nofun nofun
      · exact h.flushTo hsock hstep nofun nofun
  | tick =>
      simp only [Conn.step] at hstep
      split_ifs at hstep with hready
      · exact h.flushTo hsock hstep (fun _ => h.pendingDisconnect hready.2) nofun
      · cases hstep
        exact ⟨h.stream, h.present, h.disconnecting, h.pendingIo, nofun, h.tick, h.emptied⟩
  | test => exact h.test hstep

end Conn

/-! ## Both ends -/

/-- No byte is cut off: on the server when the control packet does not come, behind bytes that
are still queued, between the flush of the handler and its look at `shutdown_wr`; on the client
always. -/
theorem endOfStream_untruncated {sock : Socket} (hsock : sock.Reliable) :
    (∀ ls t, Meets (Target.step sock) Target.Guarded {} ls →
      run (Target.step sock) {} ls = some t → t.stream.Untruncated) ∧
    ∀ ls c, run (Conn.step sock) {} ls = some c → c.stream.Untruncated := by
  constructor
  · intro ls t hmeets hrun
    exact (invariant_of_meets (I := Target.Sound) (fun t l t' h hguard hs => h.step hsock hguard hs)
      Target.sound_fresh hmeets hrun).stream.untruncated
  · intro ls c hrun
    exact (invariant_of_run (I := Conn.Sound) (fun c l c' h hs => h.step hsock hs)
      Conn.sound_fresh hrun).stream.untruncated

theorem reliable_stutter : Common.stutter.Reliable := by
  intro call len
  show (if call % 3 = 0 then Common.Written.wrote 1 else
    if call % 3 = 1 then .again else .wrote len) ≠ .error
  split_ifs <;> simp

/-- The control packet comes while bytes are queued, and the handler drains them. -/
def serverRun : List Target.Label :=
  [.data [1, 2, 3], .push, .runClosure, .control, .controlFlush, .epolloutFlush, .epolloutTest]

def clientRun : List Conn.Label :=
  [.data [1, 2, 3], .push, .control, .runClosure, .runClosure, .epollout, .flush false, .test,
    .epollout, .flush false, .test, .test]

theorem endOfStream_untruncated_stutter :
    (∃ t, run (Target.step Common.stutter) {} serverRun = some t ∧
      t.stream.cuts = [[1, 2, 3]] ∧ t.stream.Untruncated) ∧
    ∃ c, run (Conn.step Common.stutter) {} clientRun = some c ∧
      c.stream.cuts = [[1, 2, 3]] ∧ c.stream.Untruncated := by
  obtain ⟨hserver, hclient⟩ := endOfStream_untruncated reliable_stutter
  have hmeets : Meets (Target.step Common.stutter) Target.Guarded {} serverRun := by
    decide +kernel
  have ht : (run (Target.step Common.stutter) {} serverRun).map (·.stream.cuts) =
      some [[1, 2, 3]] := by decide +kernel
  have hc : (run (Conn.step Common.stutter) {} clientRun).map (·.stream.cuts) =
      some [[1, 2, 3]] := by decide +kernel
  obtain ⟨t, htrun, htcuts⟩ := Option.map_eq_some_iff.mp ht
  obtain ⟨c, hcrun, hccuts⟩ := Option.map_eq_some_iff.mp hc
  exact ⟨⟨t, htrun, htcuts, hserver _ t hmeets htrun⟩, c, hcrun, hccuts, hclient _ c hcrun⟩

/-- The last data packet and the control packet come behind the flush of the handler. -/
def racingRun : List Target.Label :=
  [.data [1, 2], .push, .runClosure, .epolloutFlush, .epolloutFlush, .data [3, 4], .control,
    .controlFlush, .epolloutTest]

/-- The target is shut down with a byte in the queue. -/
theorem endOfStream_truncated :
    Common.stutter.Reliable ∧ ∃ t, run (Target.step Common.stutter) {} racingRun = some t ∧
      t.stream.cuts = [[1, 2, 3]] ∧ t.stream.handed = [1, 2, 3, 4] ∧ ¬ t.stream.Untruncated := by
  refine ⟨reliable_stutter, ?_⟩
  have hend : (run (Target.step Common.stutter) {} racingRun).map
      (fun t => (t.stream.cuts, t.stream.handed)) = some ([[1, 2, 3]], [1, 2, 3, 4]) := by
    decide +kernel
  obtain ⟨t, hrun, ht⟩ := Option.map_eq_some_iff.mp hend
  obtain ⟨hcuts, hhanded⟩ := Prod.mk.inj ht
  refine ⟨t, hrun, hcuts, hhanded, fun h => ?_⟩
  have htaken := (h [1, 2, 3] (by simp [hcuts])).2
  rw [hhanded] at htaken
  exact absurd htaken (by decide)

end PipelineTunnel.Flow.EndOfStream
