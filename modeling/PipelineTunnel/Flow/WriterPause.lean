import PipelineTunnel.Common.WriteBuffer
import PipelineTunnel.Flow.Model

/-!
# Writer pauses of a connection

A worker that writes to a connection (`wire_write` with destination 0) may find no room. It
then has the event loop wait for room, and has the other end told to stop reading. Both happen
later, as closures of `pending_io_`; when the writer is drained the other end is told to go on.

## Implementation notes

One connection, which exists at both ends throughout; the closures of other connections are
left out. `workers` holds, for each call under way, the pushes it still has to make, each push
being one locked section. The loop of the client's handler over `flush` ends after the number
of rounds that the event gives. The event loop handles no event while it runs a batch. `sent`
logs the messages.
-/

namespace PipelineTunnel.Flow.Writer

open Protocol StepSystem Kernel
open Common (Channel Socket)

/-- The closures that `wire_write` pushes. -/
inductive Closure where
  | register
  | pause
  | resume
deriving DecidableEq, Repr

def HIGH_WATER : Int := 262144
def LOW_WATER : Int := 131072

structure Sender where
  writer : Channel := {}
  registered : Bool := false
  fd : Descriptor := {}
  localWriterSent : Bool := false
  inPaused : Bool := false
  workers : List (List (List Closure)) := []
  pendingIo : List Closure := []
  batch : List Closure := []

structure State where
  sender : Sender := {}
  sent : List Packet := []
  inFlight : List Packet := []
  remote : End := {}

def writerPauseMsg (connId : UInt8) : Packet := ⟨MSG_WRITER_PAUSE, [connId]⟩
def writerResumeMsg (connId : UInt8) : Packet := ⟨MSG_WRITER_RESUME, [connId]⟩

def State.send (s : State) (pkt : Packet) : State :=
  { s with sent := s.sent ++ [pkt], inFlight := s.inFlight ++ [pkt] }

/-! ## The worker -/

/-- The pushes that follow the write, one list for each locked section. -/
def pushes (role : Role) (inPaused : Bool) (ret : Int) : List (List Closure) :=
  match role with
  | .server =>
      (if ret > 0 then [[.register]] else []) ++ (if ret > 0 ∧ !inPaused then [[.pause]] else [])
  | .client =>
      if ret > 0 then [[.register, .pause]] else if ret = 0 then [[.resume]] else []

/-- The locked section of `wire_write` with the write itself. The client has no use for
`in_paused`. -/
def wireWrite (role : Role) (sock : Socket) (p : Sender) (data : Bytes) : Option Sender :=
  match Common.write sock p.writer data with
  | none => none
  | some (writer, ret) =>
      some { p with
        writer := writer
        inPaused := p.inPaused || (role = .server && ret > 0)
        workers := p.workers ++ [pushes role p.inPaused ret] }

/-- The next locked section of a call under way. -/
def push (p : Sender) (i : Nat) : Option Sender :=
  match p.workers[i]? with
  | some (closures :: rest) =>
      some { p with pendingIo := p.pendingIo ++ closures, workers := p.workers.set i rest }
  | _ => none

/-! ## The event loop -/

def pausesNow (role : Role) (p : Sender) : Bool :=
  !p.localWriterSent && (role = .server || p.writer.buf.totalSize > HIGH_WATER)

def resumesNow (p : Sender) : Bool :=
  p.localWriterSent && p.writer.buf.totalSize ≤ LOW_WATER

/-- `register_target_epollout` and `register_external_epollout`. -/
def registerWriter (p : Sender) : Sender :=
  if p.registered then p
  else { p with registered := true, fd := p.fd.addFdHandler EPOLLOUT }

def runClosure (role : Role) (connId : UInt8) (s : State) : Closure → State
  | .register => { s with sender := registerWriter s.sender }
  | .pause =>
      if pausesNow role s.sender then
        State.send { s with sender := { s.sender with localWriterSent := true } }
          (writerPauseMsg connId)
      else s
  | .resume =>
      if resumesNow s.sender then
        State.send { s with sender := { s.sender with localWriterSent := false } }
          (writerResumeMsg connId)
      else s

/-- The loop of the client's handler goes on while `flush` makes progress. -/
def flushLoop (sock : Socket) : Nat → Channel → Option Channel
  | 0, _ => none
  | rounds + 1, w =>
      match Common.flush sock w with
      | none => none
      | some (w', drained) =>
          if w'.buf.readOffset = w.buf.readOffset ∨ drained then some w'
          else flushLoop sock rounds w'

/-- The writer behind the flush of the handler, and whether it counts as drained: for the
server what `flush` returns, for the client whether it is empty. -/
def flushed (role : Role) (sock : Socket) (rounds : Nat) (w : Channel) : Option (Channel × Bool) :=
  match role with
  | .server => Common.flush sock w
  | .client => (flushLoop sock rounds w).map fun w' =>
      (w', w'.buf.chunks = [] ∧ w'.buf.priorityChunks = [])

/-- The end of the handler for `EPOLLOUT` when the writer is drained. -/
def drained (role : Role) (connId : UInt8) (s : State) : State :=
  let p := { s.sender with registered := false, fd := s.sender.fd.modFdEvents {} EPOLLOUT }
  if p.localWriterSent then
    State.send { s with sender := { p with
      localWriterSent := false
      inPaused := if role = .server then false else p.inPaused } } (writerResumeMsg connId)
  else { s with sender := p }

def epollout (role : Role) (sock : Socket) (connId : UInt8) (s : State) (rounds : Nat) :
    Option State :=
  match flushed role sock rounds s.sender.writer with
  | none => none
  | some (writer, isDrained) =>
      let s := { s with sender := { s.sender with writer := writer } }
      some (if isDrained then drained role connId s else s)

inductive Label where
  | write (data : Bytes)
  | push (i : Nat)
  | swap
  | runClosure
  | epollout (rounds : Nat)
  /-- The flow control of reading starts or stops watching the descriptor for input. -/
  | epollin (on : Bool)
  | deliver
deriving DecidableEq, Repr

def step (role : Role) (sock : Socket) (connId : UInt8) (s : State) : Label → Option State
  | .write data => (wireWrite role sock s.sender data).map fun p => { s with sender := p }
  | .push i => (Writer.push s.sender i).map fun p => { s with sender := p }
  | .swap =>
      if s.sender.batch = [] then
        some { s with sender := { s.sender with batch := s.sender.pendingIo, pendingIo := [] } }
      else none
  | .runClosure =>
      match s.sender.batch with
      | [] => none
      | closure :: rest =>
          some (Writer.runClosure role connId
            { s with sender := { s.sender with batch := rest } } closure)
  | .epollout rounds =>
      if s.sender.batch = [] ∧ s.sender.registered then Writer.epollout role sock connId s rounds
      else none
  | .epollin on =>
      some { s with sender := { s.sender with
        fd := if on then startReading s.sender.fd else stopReading s.sender.fd } }
  | .deliver =>
      match s.inFlight with
      | [] => none
      | pkt :: rest =>
          some { s with inFlight := rest, remote := applyControl role.other s.remote pkt }

/-- Everything a step can do, with the conditions under which it does it. -/
inductive Moves (role : Role) (sock : Socket) (connId : UInt8) (s : State) :
    Label → State → Prop where
  | write {data : Bytes} (writer : Channel) (ret : Int) :
      Moves role sock connId s (.write data) { s with sender := { s.sender with
        writer := writer
        inPaused := s.sender.inPaused || (role = .server && ret > 0)
        workers := s.sender.workers ++ [pushes role s.sender.inPaused ret] } }
  | push {i : Nat} {closures : List Closure} {rest : List (List Closure)} :
      s.sender.workers[i]? = some (closures :: rest) →
      Moves role sock connId s (.push i) { s with sender := { s.sender with
        pendingIo := s.sender.pendingIo ++ closures
        workers := s.sender.workers.set i rest } }
  | swap : s.sender.batch = [] →
      Moves role sock connId s .swap { s with sender := { s.sender with
        batch := s.sender.pendingIo
        pendingIo := [] } }
  | runClosure {closure : Closure} {rest : List Closure} : s.sender.batch = closure :: rest →
      Moves role sock connId s .runClosure
        (Writer.runClosure role connId { s with sender := { s.sender with batch := rest } } closure)
  | flush {rounds : Nat} (writer : Channel) :
      Moves role sock connId s (.epollout rounds)
        { s with sender := { s.sender with writer := writer } }
  | drain {rounds : Nat} {writer : Channel} : s.sender.batch = [] →
      flushed role sock rounds s.sender.writer = some (writer, true) →
      Moves role sock connId s (.epollout rounds)
        (drained role connId { s with sender := { s.sender with writer := writer } })
  | epollin (on : Bool) :
      Moves role sock connId s (.epollin on) { s with sender := { s.sender with
        fd := if on then startReading s.sender.fd else stopReading s.sender.fd } }
  | deliver {pkt : Packet} {rest : List Packet} : s.inFlight = pkt :: rest →
      Moves role sock connId s .deliver
        { s with inFlight := rest, remote := applyControl role.other s.remote pkt }

theorem step_moves {role : Role} {sock : Socket} {connId : UInt8} {s s' : State} {l : Label}
    (h : step role sock connId s l = some s') : Moves role sock connId s l s' := by
  cases l with
  | write data =>
      simp only [step, wireWrite] at h
      split at h
      · cases h
      · rename_i writer ret _
        cases h
        exact .write writer ret
  | push i =>
      simp only [step, push] at h
      split at h
      · rename_i closures rest hworker
        cases h
        exact .push hworker
      · cases h
  | swap =>
      simp only [step] at h
      split_ifs at h with hbatch
      cases h
      exact .swap hbatch
  | runClosure =>
      simp only [step] at h
      split at h
      · cases h
      · rename_i closure rest hbatch
        cases h
        exact .runClosure hbatch
  | epollout rounds =>
      simp only [step, epollout] at h
      split_ifs at h with hready
      split at h
      · cases h
      · rename_i writer isDrained hflushed
        cases h
        cases isDrained with
        | false => exact .flush writer
        | true => exact .drain hready.1 hflushed
  | epollin on =>
      cases h
      exact .epollin on
  | deliver =>
      simp only [step] at h
      split at h
      · cases h
      · rename_i pkt rest hpkt
        cases h
        exact .deliver hpkt

/-! ## What should hold -/

/-- Pauses and resumes in turn, beginning with a pause. -/
def exchange (connId : UInt8) (n : Nat) : List Packet :=
  (List.range n).map fun i => if i % 2 = 0 then writerPauseMsg connId else writerResumeMsg connId

structure Consistent (connId : UInt8) (s : State) : Prop where
  alternates : s.sent = exchange connId s.sent.length
  waits : s.sender.localWriterSent = true → s.sender.registered = true ∧ s.sender.fd.drains = true
  agrees : s.inFlight = [] →
    (s.remote.flagsOf connId).map Flags.writerPaused = some s.sender.localWriterSent

/-- The connection is new at both ends. -/
structure Fresh (connId : UInt8) (s : State) : Prop where
  sender : ∃ fd, s.sender = { fd := fd } ∧ ∃ ev, fd.Watched ev
  sent : s.sent = []
  inFlight : s.inFlight = []
  remote : (s.remote.flagsOf connId).map Flags.writerPaused = some false

/-- In this order, starting with a writer that is registered or not, every pause finds the
writer registered. -/
def Covered : Bool → List Closure → Prop
  | _, [] => True
  | _, .register :: l => Covered true l
  | registered, .pause :: l => registered = true ∧ Covered registered l
  | registered, .resume :: l => Covered registered l

instance decidableCovered : ∀ registered l, Decidable (Covered registered l)
  | _, [] => isTrue trivial
  | _, .register :: l => decidableCovered true l
  | registered, .pause :: l =>
      have := decidableCovered registered l
      inferInstanceAs (Decidable (registered = true ∧ Covered registered l))
  | registered, .resume :: l => decidableCovered registered l

/-- Whether the writer is registered after these closures. -/
def registeredAfter (registered : Bool) (l : List Closure) : Bool :=
  registered || l.contains .register

/-- A pause that is still to come, in `pending_io_` or in the hands of a worker, has a
registration ahead of it. -/
def CoveredPauses (registered : Bool) (queue : List Closure)
    (workers : List (List (List Closure))) : Prop :=
  Covered registered queue ∧
    ∀ w ∈ workers, Covered (registeredAfter registered queue) w.flatten

instance (registered : Bool) (queue : List Closure) (workers : List (List (List Closure))) :
    Decidable (CoveredPauses registered queue workers) :=
  inferInstanceAs (Decidable (_ ∧ _))

/-- When the handler drains the writer, every pause that is still to come has a registration
ahead of it. -/
def Guarded (role : Role) (sock : Socket) (s : State) : Label → Prop
  | .epollout rounds => (flushed role sock rounds s.sender.writer).any Prod.snd = true →
      CoveredPauses false s.sender.pendingIo s.sender.workers
  | _ => True

instance (role : Role) (sock : Socket) (s : State) : ∀ l, Decidable (Guarded role sock s l)
  | .epollout rounds =>
      inferInstanceAs (Decidable ((flushed role sock rounds s.sender.writer).any Prod.snd = true →
        CoveredPauses false s.sender.pendingIo s.sender.workers))
  | .write _ | .push _ | .swap | .runClosure | .epollin _ | .deliver => isTrue trivial

/-! ## The order of closures -/

theorem Covered.mono {registered registered' : Bool} {l : List Closure}
    (h : Covered registered l) (hle : registered = true → registered' = true) :
    Covered registered' l := by
  induction l generalizing registered registered' with
  | nil => trivial
  | cons closure l ih =>
      cases closure with
      | register => exact h
      | pause => exact ⟨hle h.1, ih h.2 hle⟩
      | resume => exact @ih registered registered' h hle

theorem covered_append {registered : Bool} {l l' : List Closure} :
    Covered registered (l ++ l') ↔
      Covered registered l ∧ Covered (registeredAfter registered l) l' := by
  induction l generalizing registered with
  | nil => simp [Covered, registeredAfter]
  | cons closure l ih =>
      cases closure with
      | register =>
          simp only [List.cons_append, Covered, ih]
          simp [registeredAfter]
      | pause =>
          simp only [List.cons_append, Covered, ih, and_assoc]
          simp [registeredAfter]
      | resume =>
          simp only [List.cons_append, Covered, ih]
          simp [registeredAfter]

theorem registeredAfter_append (registered : Bool) (l l' : List Closure) :
    registeredAfter registered (l ++ l') =
      registeredAfter (registeredAfter registered l) l' := by
  simp [registeredAfter, Bool.or_assoc]

section CoveredPauses

variable {registered : Bool} {queue : List Closure} {workers : List (List (List Closure))}

/-- A worker comes with its own registration. -/
theorem CoveredPauses.addWorker (h : CoveredPauses registered queue workers)
    {w : List (List Closure)} (hw : Covered false w.flatten) :
    CoveredPauses registered queue (workers ++ [w]) := by
  refine ⟨h.1, fun w' hw' => ?_⟩
  rcases List.mem_append.mp hw' with hold | hnew
  · exact h.2 w' hold
  · rw [List.mem_singleton.mp hnew]
    exact hw.mono nofun

theorem CoveredPauses.push (h : CoveredPauses registered queue workers) {i : Nat}
    {closures : List Closure} {rest : List (List Closure)}
    (hw : workers[i]? = some (closures :: rest)) :
    CoveredPauses registered (queue ++ closures) (workers.set i rest) := by
  have hworker := h.2 _ (List.mem_of_getElem? hw)
  rw [List.flatten_cons, covered_append] at hworker
  refine ⟨covered_append.mpr ⟨h.1, hworker.1⟩, fun w' hw' => ?_⟩
  rw [registeredAfter_append]
  rcases List.mem_or_eq_of_mem_set hw' with hold | rfl
  · refine (h.2 w' hold).mono fun hreg => ?_
    simp [registeredAfter] at hreg ⊢
    exact .inl hreg
  · exact hworker.2

/-- The first closure of the queue has run. -/
theorem CoveredPauses.tail {closure : Closure}
    (h : CoveredPauses registered (closure :: queue) workers) :
    CoveredPauses (registered || closure = .register) queue workers := by
  have hafter : registeredAfter (registered || closure = .register) queue =
      registeredAfter registered (closure :: queue) := by
    cases closure <;> simp [registeredAfter]
  obtain ⟨hqueue, hworkers⟩ := h
  rw [CoveredPauses, hafter]
  refine ⟨?_, hworkers⟩
  cases closure with
  | register => simpa [Covered] using hqueue
  | pause => simpa using hqueue.2
  | resume => simpa [Covered] using hqueue

end CoveredPauses

/-! ## The sender -/

/-- Pauses still to come find the writer registered, a pause that was sent has a registered
writer, and the descriptor of a registered writer is watched. -/
structure Arranged (p : Sender) : Prop where
  pauses : CoveredPauses p.registered (p.batch ++ p.pendingIo) p.workers
  waits : p.localWriterSent = true → p.registered = true
  watched : ∃ ev, p.fd.Watched ev ∧ (p.registered = true → ev.epollout = true)

variable {role : Role} {sock : Socket} {connId : UInt8} {p p' : Sender} {s s' : State}

theorem covered_pushes (role : Role) (inPaused : Bool) (ret : Int) :
    Covered false (pushes role inPaused ret).flatten := by
  cases role with
  | server => by_cases hret : ret > 0 <;> cases inPaused <;> simp [pushes, hret, Covered]
  | client =>
      simp only [pushes]
      split_ifs <;> simp [Covered]

theorem Arranged.registerWriter (h : Arranged p) {rest : List Closure}
    (hbatch : p.batch = .register :: rest) :
    Arranged (registerWriter { p with batch := rest }) := by
  have hpauses : CoveredPauses true (rest ++ p.pendingIo) p.workers := by
    have htail := h.pauses
    rw [hbatch, List.cons_append] at htail
    simpa using htail.tail
  unfold Writer.registerWriter
  split_ifs with hreg
  · have hreg : p.registered = true := hreg
    exact ⟨hreg ▸ hpauses, h.waits, h.watched⟩
  · obtain ⟨ev, hev, -⟩ := h.watched
    have hne : EPOLLOUT ≠ {} := by decide
    refine ⟨hpauses, fun _ => rfl, _, hev.addFdHandler hne, fun _ => ?_⟩
    simp [Events.union, EPOLLOUT]

/-- A pause that runs finds the writer registered. -/
theorem Arranged.runPause (h : Arranged p) {rest : List Closure}
    (hbatch : p.batch = .pause :: rest) :
    p.registered = true ∧ Arranged { p with batch := rest } := by
  have hpauses := h.pauses
  rw [hbatch, List.cons_append] at hpauses
  exact ⟨hpauses.1.1, by simpa using hpauses.tail, h.waits, h.watched⟩

theorem Arranged.runResume (h : Arranged p) {rest : List Closure}
    (hbatch : p.batch = .resume :: rest) : Arranged { p with batch := rest } := by
  have hpauses := h.pauses
  rw [hbatch, List.cons_append] at hpauses
  exact ⟨by simpa using hpauses.tail, h.waits, h.watched⟩

/-- The handler takes the registration back. -/
theorem Arranged.unregister (h : Arranged p) (hbatch : p.batch = [])
    (hguard : CoveredPauses false p.pendingIo p.workers) (writer : Channel) (inPaused : Bool)
    {sent : Bool} (hsent : sent = false) :
    Arranged { p with
      writer := writer
      registered := false
      fd := p.fd.modFdEvents {} EPOLLOUT
      localWriterSent := sent
      inPaused := inPaused } := by
  obtain ⟨ev, hev, -⟩ := h.watched
  refine ⟨?_, fun htrue => absurd (htrue.symm.trans hsent) (by decide), _,
    hev.modFdEvents {} EPOLLOUT, nofun⟩
  rw [hbatch]
  exact hguard

theorem Arranged.epollin (h : Arranged p) (on : Bool) :
    Arranged { p with fd := if on then startReading p.fd else stopReading p.fd } := by
  obtain ⟨ev, hev, hout⟩ := h.watched
  refine ⟨h.pauses, h.waits, ?_⟩
  cases on with
  | false =>
      refine ⟨_, hev.modFdEvents {} EPOLLIN, fun hreg => ?_⟩
      simp [Events.union, Events.without, EPOLLIN, hout hreg]
  | true =>
      refine ⟨_, hev.modFdEvents EPOLLIN {}, fun hreg => ?_⟩
      simp [Events.union, Events.without, EPOLLIN, hout hreg]

/-! ## The messages -/

/-- The messages alternate, the flag tells whose turn it is, and the other end will agree when
they have arrived. -/
structure Spoken (role : Role) (connId : UInt8) (s : State) : Prop where
  alternates : s.sent = exchange connId s.sent.length
  turn : s.sender.localWriterSent = decide (s.sent.length % 2 = 1)
  remote : ((s.inFlight.foldl (applyControl role.other) s.remote).flagsOf connId).map
    Flags.writerPaused = some s.sender.localWriterSent

theorem exchange_succ (connId : UInt8) (n : Nat) :
    exchange connId (n + 1) = exchange connId n ++
      [if n % 2 = 0 then writerPauseMsg connId else writerResumeMsg connId] := by
  simp [exchange, List.range_succ]

/-- A message about the connection sets its flag at the other end. -/
theorem writerPaused_applyControl {e : End} {paused : Bool}
    (h : (e.flagsOf connId).map Flags.writerPaused = some paused) (role : Role) :
    ((applyControl role e (writerPauseMsg connId)).flagsOf connId).map Flags.writerPaused =
        some true ∧
      ((applyControl role e (writerResumeMsg connId)).flagsOf connId).map Flags.writerPaused =
        some false := by
  obtain ⟨fl, hfl, -⟩ := Option.map_eq_some_iff.mp h
  have hpause : applyControl role e (writerPauseMsg connId) = e.visit connId writerPause := by
    cases role <;> rfl
  have hresume : applyControl role e (writerResumeMsg connId) = e.visit connId writerResume := by
    cases role <;> rfl
  rw [hpause, hresume,
    End.visit_flagsOf e writerPause _ _ (g := fun fl => { fl with writerPaused := true })
      (fun _ => rfl),
    End.visit_flagsOf e writerResume _ _ (g := fun fl => { fl with writerPaused := false })
      (fun _ => rfl)]
  simp [hfl]

theorem Spoken.sendPause (h : Spoken role connId s) (hfree : s.sender.localWriterSent = false)
    (hp : p.localWriterSent = true) :
    Spoken role connId (State.send { s with sender := p } (writerPauseMsg connId)) := by
  have heven : s.sent.length % 2 = 0 := by
    have hturn := h.turn
    rw [hfree, eq_comm, decide_eq_false_iff_not] at hturn
    omega
  refine ⟨?_, ?_, ?_⟩
  · simp only [State.send, List.length_append, List.length_singleton, exchange_succ, if_pos heven]
    rw [← h.alternates]
  · simp only [State.send, List.length_append, List.length_singleton]
    rw [hp, eq_comm, decide_eq_true_iff]
    omega
  · simp only [State.send, List.foldl_append, List.foldl_cons, List.foldl_nil]
    rw [hp]
    exact (writerPaused_applyControl h.remote role.other).1

theorem Spoken.sendResume (h : Spoken role connId s) (hsent : s.sender.localWriterSent = true)
    (hp : p.localWriterSent = false) :
    Spoken role connId (State.send { s with sender := p } (writerResumeMsg connId)) := by
  have hodd : s.sent.length % 2 = 1 := by
    have hturn := h.turn
    rw [hsent, eq_comm, decide_eq_true_iff] at hturn
    exact hturn
  refine ⟨?_, ?_, ?_⟩
  · have hne : s.sent.length % 2 ≠ 0 := by omega
    simp only [State.send, List.length_append, List.length_singleton, exchange_succ, if_neg hne]
    rw [← h.alternates]
  · simp only [State.send, List.length_append, List.length_singleton]
    rw [hp, eq_comm, decide_eq_false_iff_not]
    omega
  · simp only [State.send, List.foldl_append, List.foldl_cons, List.foldl_nil]
    rw [hp]
    exact (writerPaused_applyControl h.remote role.other).2

/-- Steps of the sender that say nothing. -/
theorem Spoken.keep (h : Spoken role connId s)
    (hp : p.localWriterSent = s.sender.localWriterSent) :
    Spoken role connId { s with sender := p } :=
  ⟨h.alternates, hp.trans h.turn, by rw [hp]; exact h.remote⟩

theorem Spoken.deliver (h : Spoken role connId s) {pkt : Packet} {rest : List Packet}
    (hpkt : s.inFlight = pkt :: rest) :
    Spoken role connId
      { s with inFlight := rest, remote := applyControl role.other s.remote pkt } := by
  refine ⟨h.alternates, h.turn, ?_⟩
  have hremote := h.remote
  rw [hpkt, List.foldl_cons] at hremote
  exact hremote

/-! ## The steps -/

/-- The sender is arranged and has spoken in turn. -/
structure Orderly (role : Role) (connId : UInt8) (s : State) : Prop where
  arranged : Arranged s.sender
  spoken : Spoken role connId s

theorem Fresh.orderly (h : Fresh connId s) (role : Role) : Orderly role connId s := by
  obtain ⟨⟨fd, hsender, ev, hev⟩, hsent, hinFlight, hremote⟩ := h
  refine ⟨?_, ?_, ?_, ?_⟩
  · rw [hsender]
    exact ⟨⟨trivial, nofun⟩, nofun, ev, hev, nofun⟩
  · rw [hsent]
    rfl
  · rw [hsent, hsender]
    rfl
  · rw [hinFlight, hsender]
    exact hremote

theorem Orderly.consistent (h : Orderly role connId s) : Consistent connId s := by
  refine ⟨h.spoken.alternates, fun hsent => ?_, fun hquiet => ?_⟩
  · have hreg := h.arranged.waits hsent
    obtain ⟨ev, hev, hout⟩ := h.arranged.watched
    exact ⟨hreg, hev.drains_eq.trans (hout hreg)⟩
  · have hremote := h.spoken.remote
    rw [hquiet] at hremote
    exact hremote

theorem Orderly.runClosure (h : Orderly role connId s) {closure : Closure} {rest : List Closure}
    (hbatch : s.sender.batch = closure :: rest) :
    Orderly role connId
      (runClosure role connId { s with sender := { s.sender with batch := rest } } closure) := by
  cases closure with
  | register =>
      refine ⟨h.arranged.registerWriter hbatch, h.spoken.keep ?_⟩
      unfold registerWriter
      split_ifs <;> rfl
  | pause =>
      obtain ⟨hreg, harranged⟩ := h.arranged.runPause hbatch
      unfold Writer.runClosure
      dsimp only
      split_ifs with hpauses
      · have hfree : s.sender.localWriterSent = false := by
          simp only [pausesNow, Bool.and_eq_true, Bool.not_eq_true'] at hpauses
          exact hpauses.1
        exact ⟨⟨harranged.pauses, fun _ => hreg, harranged.watched⟩,
          h.spoken.sendPause hfree rfl⟩
      · exact ⟨harranged, h.spoken.keep rfl⟩
  | resume =>
      have harranged := h.arranged.runResume hbatch
      unfold Writer.runClosure
      dsimp only
      split_ifs with hresumes
      · have hsent : s.sender.localWriterSent = true := by
          simp only [resumesNow, Bool.and_eq_true] at hresumes
          exact hresumes.1
        exact ⟨⟨harranged.pauses, nofun, harranged.watched⟩, h.spoken.sendResume hsent rfl⟩
      · exact ⟨harranged, h.spoken.keep rfl⟩

theorem Orderly.drained (h : Orderly role connId s) (hbatch : s.sender.batch = [])
    (hcovered : CoveredPauses false s.sender.pendingIo s.sender.workers) (writer : Channel) :
    Orderly role connId
      (drained role connId { s with sender := { s.sender with writer := writer } }) := by
  have hunregister := h.arranged.unregister hbatch hcovered writer
  simp only [Writer.drained]
  split_ifs with hsent hserver
  · exact ⟨hunregister false rfl, h.spoken.sendResume hsent rfl⟩
  · exact ⟨hunregister s.sender.inPaused rfl, h.spoken.sendResume hsent rfl⟩
  · have hfree : s.sender.localWriterSent = false := by simpa using hsent
    exact ⟨hunregister s.sender.inPaused hfree, h.spoken.keep rfl⟩

theorem Orderly.step {l : Label} (h : Orderly role connId s) (hguard : Guarded role sock s l)
    (hstep : step role sock connId s l = some s') : Orderly role connId s' := by
  obtain ⟨hpauses, hwaits, hwatched⟩ := h.arranged
  cases step_moves hstep with
  | write writer ret =>
      exact ⟨⟨hpauses.addWorker (covered_pushes _ _ _), hwaits, hwatched⟩, h.spoken.keep rfl⟩
  | push hworker =>
      refine ⟨⟨?_, hwaits, hwatched⟩, h.spoken.keep rfl⟩
      rw [← List.append_assoc]
      exact hpauses.push hworker
  | swap hbatch =>
      refine ⟨⟨?_, hwaits, hwatched⟩, h.spoken.keep rfl⟩
      rw [hbatch, List.nil_append] at hpauses
      simpa using hpauses
  | runClosure hbatch => exact h.runClosure hbatch
  | flush writer => exact ⟨⟨hpauses, hwaits, hwatched⟩, h.spoken.keep rfl⟩
  | drain hbatch hflushed => exact h.drained hbatch (hguard (by simp [hflushed])) _
  | epollin on => exact ⟨h.arranged.epollin on, h.spoken.keep rfl⟩
  | deliver hpkt => exact ⟨h.arranged, h.spoken.deliver hpkt⟩

/-! ## The client -/

/-- The client pushes a pause together with its registration. -/
structure Paired (p : Sender) : Prop where
  queue : Covered false p.pendingIo
  workers : ∀ w ∈ p.workers, w = [] ∨ w = [[.register, .pause]] ∨ w = [[.resume]]

theorem Paired.guarded (h : Paired s.sender) (l : Label) : Guarded .client sock s l := by
  cases l with
  | epollout rounds =>
      intro _
      refine ⟨h.queue, fun w' hw' => ?_⟩
      rcases h.workers w' hw' with rfl | rfl | rfl <;> simp [Covered]
  | _ => trivial

/-- The pushes are the workers' business. -/
theorem runClosure_pushes (role : Role) (connId : UInt8) (s : State) (closure : Closure) :
    (runClosure role connId s closure).sender.pendingIo = s.sender.pendingIo ∧
      (runClosure role connId s closure).sender.workers = s.sender.workers := by
  cases closure with
  | register =>
      unfold runClosure registerWriter
      split_ifs <;> exact ⟨rfl, rfl⟩
  | pause =>
      unfold runClosure
      dsimp only
      split_ifs <;> exact ⟨rfl, rfl⟩
  | resume =>
      unfold runClosure
      dsimp only
      split_ifs <;> exact ⟨rfl, rfl⟩

theorem drained_pushes (role : Role) (connId : UInt8) (s : State) :
    (drained role connId s).sender.pendingIo = s.sender.pendingIo ∧
      (drained role connId s).sender.workers = s.sender.workers := by
  unfold drained
  dsimp only
  split_ifs <;> exact ⟨rfl, rfl⟩

theorem Paired.of_eq (h : Paired p) (hqueue : p'.pendingIo = p.pendingIo)
    (hworkers : p'.workers = p.workers) : Paired p' :=
  ⟨hqueue ▸ h.queue, hworkers ▸ h.workers⟩

theorem Paired.step {l : Label} (h : Paired s.sender)
    (hstep : step .client sock connId s l = some s') : Paired s'.sender := by
  cases step_moves hstep with
  | write writer ret =>
      refine ⟨h.queue, fun w hw => ?_⟩
      rcases List.mem_append.mp hw with hold | hnew
      · exact h.workers w hold
      · rw [List.mem_singleton.mp hnew, pushes]
        split_ifs <;> simp
  | @push i closures rest hworker =>
      have hblock : Covered false closures ∧ rest = [] := by
        rcases h.workers _ (List.mem_of_getElem? hworker) with hnil | hpause | hresume
        · cases hnil
        · obtain ⟨rfl, rfl⟩ := List.cons.inj hpause
          simp [Covered]
        · obtain ⟨rfl, rfl⟩ := List.cons.inj hresume
          simp [Covered]
      refine ⟨covered_append.mpr ⟨h.queue, hblock.1.mono nofun⟩, fun w hw => ?_⟩
      rcases List.mem_or_eq_of_mem_set hw with hold | rfl
      · exact h.workers w hold
      · exact .inl hblock.2
  | swap => exact ⟨trivial, h.workers⟩
  | @runClosure closure rest hbatch =>
      obtain ⟨hqueue, hworkers⟩ := runClosure_pushes .client connId
        { s with sender := { s.sender with batch := rest } } closure
      exact h.of_eq hqueue hworkers
  | flush writer => exact ⟨h.queue, h.workers⟩
  | @drain rounds writer hbatch hflushed =>
      obtain ⟨hqueue, hworkers⟩ := drained_pushes .client connId
        { s with sender := { s.sender with writer := writer } }
      exact h.of_eq hqueue hworkers
  | epollin on => exact ⟨h.queue, h.workers⟩
  | deliver => exact h

/-- The client meets the condition in every run. -/
theorem meets_guarded_client (hfresh : Fresh connId s) (ls : List Label) :
    Meets (step .client sock connId) (Guarded .client sock) s ls := by
  refine meets_of_invariant (I := fun s => Paired s.sender) (fun s l _ h => h.guarded l)
    (fun s l s' h _ hs => h.step hs) ?_
  obtain ⟨⟨fd, hsender, -⟩, -⟩ := hfresh
  show Paired s.sender
  rw [hsender]
  exact ⟨trivial, nofun⟩

/-! ## Both directions -/

/-- With the client as sender always, and with the server as sender when every drain leaves a
registration ahead of the pauses still to come: the messages alternate, a pause is never
orphaned, and the two ends agree when nothing is under way. -/
theorem writerPause_consistent {role : Role} {sock : Socket} {connId : UInt8} {s s' : State}
    {ls : List Label} (hfresh : Fresh connId s)
    (hguard : role = .server → Meets (step role sock connId) (Guarded role sock) s ls)
    (hrun : run (step role sock connId) s ls = some s') : Consistent connId s' := by
  have hmeets : Meets (step role sock connId) (Guarded role sock) s ls := by
    cases role with
    | server => exact hguard rfl
    | client => exact meets_guarded_client hfresh ls
  have hstep : ∀ s l s', Orderly role connId s → Guarded role sock s l →
      step role sock connId s l = some s' → Orderly role connId s' :=
    fun s l s' h hl hs => h.step hl hs
  exact (invariant_of_meets hstep (hfresh.orderly role) hmeets hrun).consistent

/-- A socket without room at the first call. -/
def laterSocket : Socket where
  write call len := if call = 0 then .again else .wrote len
  valid call len n hlen hwrote := by
    split_ifs at hwrote
    cases hwrote
    exact ⟨hlen, Nat.le_refl len⟩

/-- A connection that is watched for input, and its other end. -/
def freshState : State where
  sender := { fd := ({} : Descriptor).addFdHandler EPOLLIN }
  remote := openConn .client {} 0 7

/-- Both closures run before the writer is drained. -/
def promptRun : List Label :=
  [.write [1], .push 0, .push 0, .swap, .runClosure, .runClosure, .epollout 1, .deliver, .deliver]

theorem fresh_freshState : Fresh 0 freshState :=
  ⟨⟨_, rfl, _, Descriptor.watched_addFdHandler_epollin {}⟩, rfl, rfl, by decide⟩

theorem writerPause_consistent_prompt :
    ∃ s', run (step .server laterSocket 0) freshState promptRun = some s' ∧
      s'.sent = [writerPauseMsg 0, writerResumeMsg 0] ∧ Consistent 0 s' := by
  have hsent : (run (step .server laterSocket 0) freshState promptRun).map State.sent =
      some [writerPauseMsg 0, writerResumeMsg 0] := by decide +kernel
  obtain ⟨s', hrun, hs'⟩ := Option.map_eq_some_iff.mp hsent
  have hguard : Meets (step .server laterSocket 0) (Guarded .server laterSocket) freshState
      promptRun := by decide +kernel
  exact ⟨s', hrun, hs', writerPause_consistent fresh_freshState (fun _ => hguard) hrun⟩

/-- The writer is drained between the two pushes of the worker. -/
def orphanRun : List Label :=
  [.write [1], .push 0, .swap, .runClosure, .epollout 1, .push 0, .swap, .runClosure]

/-- The pause is sent for a writer that is empty and not registered. -/
theorem writerPause_orphaned :
    ∃ s', run (step .server laterSocket 0) freshState orphanRun = some s' ∧
      ¬ Consistent 0 s' := by
  have hend : (run (step .server laterSocket 0) freshState orphanRun).map (fun s =>
      (s.sender.localWriterSent, s.sender.registered)) = some (true, false) := by
    decide +kernel
  obtain ⟨s', hrun, hs'⟩ := Option.map_eq_some_iff.mp hend
  obtain ⟨hsent, hreg⟩ := Prod.mk.inj hs'
  refine ⟨s', hrun, fun h => ?_⟩
  exact absurd ((h.waits hsent).1.symm.trans hreg) (by decide)

end PipelineTunnel.Flow.Writer
