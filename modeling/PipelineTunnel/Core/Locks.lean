import PipelineTunnel.Lib.LockOrder
import PipelineTunnel.Pipeline.Model

/-!
# The mutexes

Every mutex of the program and, for each function that takes one, what it takes and gives back in
which order. The workers of the pool and the event loop take them in one order, so they never wait
for each other in a circle.

## Implementation notes

A function of the source becomes the list of its operations on mutexes, given how its branches are
taken; what it does in between is left out. The waits for a condition variable (`worker_loop`,
`wait_drain`) and `ThreadPool::stop` are left out too. A pause callback of a chain only calls
`Kernel::wakeup`, which takes no mutex, so neither does `check_backpressure`.
-/

namespace PipelineTunnel.Locks

open Pipeline (Dir)
open LockOrder StepSystem

/-- A client has one session, and the sessions of a server share one pool. -/
inductive Lock where
  /-- `Session::io_mutex_`. -/
  | io (session : Nat)
  /-- `Chain::nogap_mutex_`. -/
  | nogap (session : Nat) (dir : Dir)
  /-- `Module::dir_mutex`. -/
  | dir (session mod : Nat) (dir : Dir)
  /-- `Module::hb_mutex`. -/
  | heartbeat (session mod : Nat)
  /-- `Chain::_drain_mtx`. -/
  | drain (session : Nat)
  /-- `ThreadPool::mtx_`. -/
  | pool
  /-- `Session::targets_mtx_`. -/
  | targets (session : Nat)
  /-- `data_mtx_` of a client or a session. -/
  | data (session : Nat)
  /-- `WriteBuffer::mtx_`. -/
  | writer (session id : Nat)
deriving DecidableEq, Repr

/-- A mutex is taken only by who holds mutexes of smaller rank. -/
@[simp] def Lock.rank : Lock → Nat
  | .io _ => 0
  | .nogap _ _ => 1
  | .dir _ _ .encode => 2
  | .dir _ _ .decode => 3
  | .heartbeat _ _ => 4
  | .drain _ => 5
  | .pool => 6
  | .targets _ => 7
  | .data _ => 8
  | .writer _ _ => 9

/-! ## The functions -/

/-- A method of a `WriteBuffer`. -/
def writerMethod (session id : Nat) : List (Op Lock) := locked (.writer session id) []

/-- `ThreadPool::enqueue`. -/
def enqueue : List (Op Lock) := locked .pool []

/-- `Chain::request_heartbeat_impl`. -/
def requestHeartbeat (session mod : Nat) : List (Op Lock) := locked (.heartbeat session mod) []

/-- The ways through the `wire_write` of a client. -/
inductive ClientWrite where
  /-- An empty packet, an unknown chain control or no data connection. -/
  | refused
  /-- `CHAIN_CTRL_DISCONNECT`. -/
  | disconnect
  /-- Data for an external connection that is there or not; `failed` is a negative `ret`. -/
  | external (writer : Option Nat) (failed : Bool)
  /-- A frame for a data connection. -/
  | frame (writer : Nat)
deriving DecidableEq, Repr

def ClientWrite.ops (session : Nat) : ClientWrite → List (Op Lock)
  | .refused => []
  | .disconnect => locked (.data session) []
  | .external none _ => locked (.data session) []
  | .external (some writer) failed =>
      locked (.data session) (writerMethod session writer) ++
        if failed then [] else locked (.data session) []
  | .frame writer =>
      writerMethod session writer ++ locked (.data session) [] ++ locked (.data session) []

/-- The ways through the `wire_write` of a session. -/
inductive ServerWrite where
  /-- An empty packet, an unknown chain control or no data connection. -/
  | refused
  /-- `CHAIN_CTRL_SHUTDOWN_WR` for a target that is there, with its `writer.empty()`, or not. -/
  | shutdownWr (writer : Option (Nat × Bool))
  /-- Data for a target that is there, with `need_epollout` and `need_pause`, or not. -/
  | target (writer : Option Nat) (epollout pause : Bool)
  /-- A frame for a data connection; `blocked` is a positive `ret`. -/
  | frame (writer : Nat) (blocked : Bool)
deriving DecidableEq, Repr

def ServerWrite.ops (session : Nat) : ServerWrite → List (Op Lock)
  | .refused => []
  | .shutdownWr none => locked (.targets session) []
  | .shutdownWr (some (writer, isEmpty)) =>
      locked (.targets session)
        (writerMethod session writer ++ if isEmpty then [] else writerMethod session writer)
  | .target none _ _ => locked (.targets session) []
  | .target (some writer) epollout pause =>
      locked (.targets session) (writerMethod session writer) ++
        (if epollout then locked (.data session) [] else []) ++
        if pause then locked (.data session) [] else []
  | .frame writer blocked =>
      -- the branch for a hard error appends to `pending_io_` without `data_mtx_`
      writerMethod session writer ++ locked (.data session) [] ++
        if blocked then locked (.data session) [] else []

/-- What a module calls while it processes a packet. -/
inductive Call where
  /-- `write_packet` for a module of the chain. -/
  | near
  /-- `write_packet` out of the chain of a client. -/
  | client (write : ClientWrite)
  /-- `write_packet` out of the chain of a session. -/
  | server (write : ServerWrite)
  | requestHeartbeat
deriving DecidableEq, Repr

def Call.ops (session mod : Nat) : Call → List (Op Lock)
  | .near => enqueue
  | .client write => write.ops session
  | .server write => write.ops session
  | .requestHeartbeat => Locks.requestHeartbeat session mod

/-- `process_fn`. -/
def process (session mod : Nat) (calls : List Call) : List (Op Lock) :=
  calls.flatMap (Call.ops session mod)

/-- `Chain::task_done`. -/
def taskDone (session : Nat) (last : Bool) : List (Op Lock) :=
  if last then locked (.drain session) [] else []

/-- A task of `Chain::enqueue_module`, with the way it takes. -/
structure Task where
  session : Nat
  mod : Nat
  dir : Dir
  /-- It finds the chain cancelled. -/
  cancelled : Bool := false
  calls : List Call := []
  /-- It counts `_inflight` down to zero. -/
  last : Bool := false
deriving DecidableEq, Repr

def Task.ops (t : Task) : List (Op Lock) :=
  if t.cancelled then locked (.nogap t.session t.dir) [] ++ taskDone t.session t.last
  else
    .acquire (.nogap t.session t.dir) ::
      (locked (.heartbeat t.session t.mod) [] ++
        .acquire (.dir t.session t.mod t.dir) :: .release (.nogap t.session t.dir) ::
          ((process t.session t.mod t.calls ++ taskDone t.session t.last) ++
            [.release (.dir t.session t.mod t.dir)]))

/-- `ThreadPool::worker_loop`, with the tasks it is going to take. -/
def workerLoop (tasks : List Task) : List (Op Lock) :=
  tasks.flatMap fun t => locked .pool [] ++ t.ops

/-- A tick of a module under both of its direction mutexes. -/
def tick (session mod : Nat) (calls : List Call) : List (Op Lock) :=
  locked (.dir session mod .encode)
    (locked (.dir session mod .decode) (process session mod calls))

/-- What a round of `check_module_heartbeats` does with a module. -/
inductive Beat where
  /-- The interval is 0. -/
  | skip
  /-- The interval is -2. -/
  | always (calls : List Call)
  /-- The module has been idle long enough. -/
  | due (calls : List Call)
  | early
deriving DecidableEq, Repr

def Beat.ops (session mod : Nat) : Beat → List (Op Lock)
  | .skip => []
  | .always calls => tick session mod calls
  | .due calls => locked (.heartbeat session mod) [] ++ tick session mod calls
  | .early => locked (.heartbeat session mod) []

/-- What the event loop does between two of its own mutexes. -/
inductive Work where
  /-- A method of a `WriteBuffer`, of a reader, a writer, `send_control` or a heartbeat. -/
  | writer (id : Nat)
  /-- `push_packet` of a chain, or past an empty one. -/
  | push (call : Call)
  /-- The acknowledged frames, or the swap of `pending_io_`. -/
  | data
  /-- The frames that are sent again. -/
  | resend (ids : List Nat)
  /-- The targets are paused or resumed; a session may send a control message. -/
  | gate (ids : List Nat)
  | beat (mod : Nat) (beat : Beat)
  /-- The constructor of a module asks for heartbeats. -/
  | requestHeartbeat (mod : Nat)
deriving DecidableEq, Repr

def Work.ops (session : Nat) : Work → List (Op Lock)
  | .writer id => writerMethod session id
  | .push call => call.ops session 0
  | .data => locked (.data session) []
  | .resend ids => locked (.data session) (ids.flatMap (writerMethod session))
  | .gate ids => locked (.targets session) (ids.flatMap (writerMethod session))
  | .beat mod b => b.ops session mod
  | .requestHeartbeat mod => Locks.requestHeartbeat session mod

/-- A callback of the event loop. `MSG_RECONNECT` reaches from one session into another. -/
inductive Turn where
  | handler (works : List (Nat × Work))
  /-- `Session::on_data`. -/
  | onData (session : Nat) (works : List (Nat × Work))
deriving DecidableEq, Repr

def Turn.ops : Turn → List (Op Lock)
  | .handler works => works.flatMap fun w => w.2.ops w.1
  | .onData session works => locked (.io session) (works.flatMap fun w => w.2.ops w.1)

/-- The workers and the event loop, with all that they are going to do. -/
def start (workers : List (List Task)) (loop : List Turn) : List (Thread Lock) :=
  ⟨[], loop.flatMap Turn.ops⟩ :: workers.map fun tasks => ⟨[], workerLoop tasks⟩

/-! ## They keep the order -/

/-- A mutex that is taken for a moment. -/
theorem keeps_locked_nil {bound : Nat} (lock : Lock) (h : bound ≤ lock.rank) :
    Keeps Lock.rank bound (locked lock []) :=
  keeps_nil.locked h

theorem keeps_writerMethod {bound : Nat} (session id : Nat) (h : bound ≤ 9) :
    Keeps Lock.rank bound (writerMethod session id) :=
  keeps_locked_nil (.writer session id) h

theorem keeps_if {bound : Nat} {c : Bool} {ops : List (Op Lock)} (h : Keeps Lock.rank bound ops) :
    Keeps Lock.rank bound (if c then ops else []) := by
  cases c with
  | true => exact h
  | false => exact keeps_nil

theorem keeps_unless {bound : Nat} {c : Bool} {ops : List (Op Lock)}
    (h : Keeps Lock.rank bound ops) : Keeps Lock.rank bound (if c then [] else ops) := by
  cases c with
  | true => exact keeps_nil
  | false => exact h

theorem keeps_clientWrite (session : Nat) (write : ClientWrite) :
    Keeps Lock.rank 4 (write.ops session) := by
  have hdata : Keeps Lock.rank 4 (locked (.data session) []) :=
    keeps_locked_nil (.data session) (by simp)
  cases write with
  | refused => exact keeps_nil
  | disconnect => exact hdata
  | external writer failed =>
      cases writer with
      | none => exact hdata
      | some writer =>
          have hwrite : Keeps Lock.rank 4 (locked (.data session) (writerMethod session writer)) :=
            (keeps_writerMethod session writer (by simp)).locked (by simp)
          exact hwrite.append (keeps_unless hdata)
  | frame writer =>
      have hwrite : Keeps Lock.rank 4 (writerMethod session writer) :=
        keeps_writerMethod session writer (by simp)
      exact (hwrite.append hdata).append hdata

theorem keeps_serverWrite (session : Nat) (write : ServerWrite) :
    Keeps Lock.rank 4 (write.ops session) := by
  have hdata : Keeps Lock.rank 4 (locked (.data session) []) :=
    keeps_locked_nil (.data session) (by simp)
  have hmethod : ∀ writer, Keeps Lock.rank 8 (writerMethod session writer) :=
    fun writer => keeps_writerMethod session writer (by simp)
  have htargets : ∀ ops, Keeps Lock.rank 8 ops →
      Keeps Lock.rank 4 (locked (.targets session) ops) :=
    fun ops hops => Keeps.locked hops (by simp)
  cases write with
  | refused => exact keeps_nil
  | shutdownWr writer =>
      cases writer with
      | none => exact htargets [] keeps_nil
      | some writer =>
          apply htargets
          exact (hmethod writer.1).append (keeps_unless (hmethod writer.1))
  | target writer epollout pause =>
      cases writer with
      | none => exact htargets [] keeps_nil
      | some writer =>
          have hwrite := htargets (writerMethod session writer) (hmethod writer)
          exact (hwrite.append (keeps_if hdata)).append (keeps_if hdata)
  | frame writer blocked =>
      have hwrite := (hmethod writer).mono (show 4 ≤ 8 by simp)
      exact (hwrite.append hdata).append (keeps_if hdata)

theorem keeps_call (session mod : Nat) (call : Call) :
    Keeps Lock.rank 4 (call.ops session mod) := by
  cases call with
  | near => exact keeps_locked_nil .pool (by simp)
  | client write => exact keeps_clientWrite session write
  | server write => exact keeps_serverWrite session write
  | requestHeartbeat => exact keeps_locked_nil (.heartbeat session mod) (by simp)

theorem keeps_process (session mod : Nat) (calls : List Call) :
    Keeps Lock.rank 4 (process session mod calls) :=
  keeps_flatMap fun call _ => keeps_call session mod call

theorem keeps_taskDone (session : Nat) (last : Bool) :
    Keeps Lock.rank 4 (taskDone session last) :=
  keeps_if (keeps_locked_nil (.drain session) (by simp))

theorem rank_dir (session mod : Nat) (dir : Dir) :
    1 < Lock.rank (.dir session mod dir) ∧ Lock.rank (.dir session mod dir) < 4 := by
  cases dir with
  | encode => simp
  | decode => simp

theorem keeps_task (t : Task) : Keeps Lock.rank 1 t.ops := by
  obtain ⟨session, mod, dir, cancelled, calls, last⟩ := t
  have hdone := keeps_taskDone session last
  cases cancelled with
  | true =>
      have hnogap : Keeps Lock.rank 1 (locked (.nogap session dir) []) :=
        keeps_locked_nil (.nogap session dir) (by simp)
      exact hnogap.append (hdone.mono (by simp))
  | false =>
      obtain ⟨hlow, hhigh⟩ := rank_dir session mod dir
      have hheartbeat : Keeps Lock.rank 2 (locked (.heartbeat session mod) []) :=
        keeps_locked_nil (.heartbeat session mod) (by simp)
      have hbody : Keeps Lock.rank 4 (process session mod calls ++ taskDone session last) :=
        (keeps_process session mod calls).append hdone
      -- `nogap_mutex_` is given back once the direction mutex of the module is taken
      have hlt : Lock.rank (.nogap session dir) < Lock.rank (.dir session mod dir) := hlow
      exact Keeps.handover hlt hheartbeat (hbody.mono hhigh)

theorem keeps_workerLoop (tasks : List Task) : Keeps Lock.rank 0 (workerLoop tasks) := by
  apply keeps_flatMap
  intro t _
  have htake : Keeps Lock.rank 0 (locked .pool []) := keeps_locked_nil .pool (by simp)
  exact htake.append ((keeps_task t).mono (Nat.zero_le 1))

theorem keeps_tick (session mod : Nat) (calls : List Call) :
    Keeps Lock.rank 1 (tick session mod calls) := by
  have hdecode : Keeps Lock.rank 3
      (locked (.dir session mod .decode) (process session mod calls)) :=
    (keeps_process session mod calls).locked (by simp)
  exact hdecode.locked (by simp)

theorem keeps_beat (session mod : Nat) (beat : Beat) :
    Keeps Lock.rank 1 (beat.ops session mod) := by
  have hheartbeat : Keeps Lock.rank 1 (locked (.heartbeat session mod) []) :=
    keeps_locked_nil (.heartbeat session mod) (by simp)
  cases beat with
  | skip => exact keeps_nil
  | always calls => exact keeps_tick session mod calls
  | due calls => exact hheartbeat.append (keeps_tick session mod calls)
  | early => exact hheartbeat

theorem keeps_work (session : Nat) (work : Work) : Keeps Lock.rank 1 (work.ops session) := by
  have hwriters : ∀ ids : List Nat, Keeps Lock.rank 9 (ids.flatMap (writerMethod session)) :=
    fun ids => keeps_flatMap fun id _ => keeps_writerMethod session id (Nat.le_refl 9)
  cases work with
  | writer id => exact keeps_writerMethod session id (by simp)
  | push call => exact (keeps_call session 0 call).mono (by simp)
  | data => exact keeps_locked_nil (.data session) (by simp)
  | resend ids => exact (hwriters ids).locked (by simp)
  | gate ids => exact ((hwriters ids).mono (show 8 ≤ 9 by simp)).locked (by simp)
  | beat mod b => exact keeps_beat session mod b
  | requestHeartbeat mod => exact keeps_locked_nil (.heartbeat session mod) (by simp)

theorem keeps_turn (turn : Turn) : Keeps Lock.rank 0 turn.ops := by
  have hworks : ∀ works : List (Nat × Work),
      Keeps Lock.rank 1 (works.flatMap fun w => w.2.ops w.1) :=
    fun works => keeps_flatMap fun w _ => keeps_work w.1 w.2
  cases turn with
  | handler works => exact (hworks works).mono (Nat.zero_le 1)
  | onData session works => exact (hworks works).locked (by simp)

theorem safe_start (workers : List (List Task)) (loop : List Turn) :
    Safe Lock.rank (start workers loop) := by
  intro t ht
  rcases List.mem_cons.mp ht with rfl | hmem
  · exact (keeps_flatMap fun turn _ => keeps_turn turn).ordered
  · obtain ⟨tasks, -, rfl⟩ := List.mem_map.mp hmem
    exact (keeps_workerLoop tasks).ordered

/-- In whatever order the workers and the event loop run, they never wait for mutexes in a circle:
as long as one of them is not done one of them can go on, and all are done after boundedly many
steps, with every mutex given back. -/
theorem never_deadlocks (workers : List (List Task)) (loop : List Turn) {is : List Nat}
    {s : List (Thread Lock)} (hrun : run step (start workers loop) is = some s) :
    is.length + pending s ≤ pending (start workers loop) ∧
      ((∀ t ∈ s, t.todo = [] ∧ t.held = []) ∨ ∃ i, (step s i).isSome = true) :=
  safe_run (safe_start workers loop) hrun

/-- A worker and a tick of the event loop wait for the direction mutex that another worker holds. -/
theorem never_deadlocks_tick :
    ∃ s, run step
        (start [[⟨0, 0, .encode, false, [.near], false⟩], [⟨0, 0, .encode, false, [], false⟩]]
          [.handler [(0, .beat 0 (.always []))]]) [1, 1, 1, 1, 1, 1, 1, 2, 2, 2, 2, 2] = some s ∧
      step s 0 = none ∧ step s 2 = none ∧ ∃ i, (step s i).isSome = true := by
  have hrun : run step
      (start [[⟨0, 0, .encode, false, [.near], false⟩], [⟨0, 0, .encode, false, [], false⟩]]
        [.handler [(0, .beat 0 (.always []))]]) [1, 1, 1, 1, 1, 1, 1, 2, 2, 2, 2, 2] =
      some [
        ⟨[], [.acquire (.dir 0 0 .encode), .acquire (.dir 0 0 .decode),
          .release (.dir 0 0 .decode), .release (.dir 0 0 .encode)]⟩,
        ⟨[.dir 0 0 .encode], [.acquire .pool, .release .pool, .release (.dir 0 0 .encode)]⟩,
        ⟨[.nogap 0 .encode], [.acquire (.dir 0 0 .encode), .release (.nogap 0 .encode),
          .release (.dir 0 0 .encode)]⟩] := by
    decide
  refine ⟨_, hrun, by decide, by decide, ?_⟩
  exact (never_deadlocks _ _ hrun).2.resolve_left (by decide)

end PipelineTunnel.Locks
