import PipelineTunnel.Lib.StepSystem
import PipelineTunnel.Pipeline.Model
import Mathlib.Data.List.Nodup
import Mathlib.Logic.Function.Basic

/-!
# A chain on its thread pool

`core/thread_pool.cpp` and `Chain::enqueue_module`: the workers take tasks from one
queue, and the body of a task locks `nogap_mutex_[dir]`, then `dir_mutex[dir]` of its
module, releases the first and runs `process`. Every `write_packet` of that call
enqueues a task for the neighbour or leaves through `wire_write`.

## Implementation notes

Workers are interchangeable, so the state lists the tasks whose worker is at a given
point of the body, in the order they came there. The chain is not cancelled and its
owner lives. `process` answers with the context it leaves and its `write_packet`
calls in order; `rand` is what `std::rand` returns during the call. `none` is a call
that does not return.
-/

namespace PipelineTunnel.Pipeline

variable {σ : Type*}

/-- A task of the pool. -/
structure Task where
  mod : Nat
  dir : Dir
  src : Int
  data : Bytes
deriving DecidableEq, Repr

/-- The module and the direction, which select the mutex a task needs. -/
def Task.key (t : Task) : Nat × Dir := (t.mod, t.dir)

/-- A `process` call with the writes it has not made yet. -/
structure Call where
  task : Task
  out : List (Int × Bytes)
deriving DecidableEq, Repr

/-- The arguments of a `push_packet` call. -/
structure Input where
  src : Int
  dir : Dir
  data : Bytes
deriving DecidableEq, Repr

/-- `pushed` and `wire` log the calls of `push_packet` and of `wire_write`. -/
structure Pool (σ : Type*) where
  chain : Chain σ
  workers : Nat
  queue : List Task := []
  /-- Taken from the queue, before `nogap_mutex_`. -/
  waiting : List Task := []
  /-- Holding `nogap_mutex_`, before `dir_mutex`. -/
  gated : List Task := []
  /-- Holding both. -/
  entered : List Task := []
  /-- Holding `dir_mutex`, in `process` or behind it. -/
  running : List Call := []
  wire : List (Int × Bytes) := []
  pushed : List Input := []

/-- `process_fn` of every module type. -/
abbrev Process (σ : Type*) :=
  (Nat → Nat) → σ → Dir → Int → Bytes → Option (σ × List (Int × Bytes))

/-- An atomic step: a `push_packet` call, or a worker at position `i` of its list. -/
inductive Action where
  | push (src : Int) (dir : Dir) (data : Bytes)
  | dequeue
  | lockNogap (i : Nat)
  | lockDir (i : Nat)
  | unlockNogap (i : Nat) (rand : Nat → Nat)
  | write (i : Nat)
  | finish (i : Nat)

def Chain.setCtx (c : Chain σ) (x : Nat) (ctx : σ) : Chain σ :=
  { c with modules := c.modules.modify x fun m => { m with ctx := ctx } }

namespace Pool

def busy (s : Pool σ) : Nat :=
  s.waiting.length + s.gated.length + s.entered.length + s.running.length

def NogapFree (s : Pool σ) (d : Dir) : Prop := ∀ t ∈ s.gated ++ s.entered, t.dir ≠ d

def DirFree (s : Pool σ) (k : Nat × Dir) : Prop :=
  ∀ t ∈ s.entered ++ s.running.map Call.task, t.key ≠ k

instance (s : Pool σ) (d : Dir) : Decidable (s.NogapFree d) :=
  inferInstanceAs (Decidable (∀ t ∈ s.gated ++ s.entered, t.dir ≠ d))

instance (s : Pool σ) (k : Nat × Dir) : Decidable (s.DirFree k) :=
  inferInstanceAs (Decidable (∀ t ∈ s.entered ++ s.running.map Call.task, t.key ≠ k))

/-- `push_packet`; a null entry has no next state. -/
def push (s : Pool σ) (i : Input) : Option (Pool σ) :=
  let s := { s with pushed := s.pushed ++ [i] }
  match pushPacket s.chain false true i.src i.dir with
  | .dropped => some s
  | .passThrough dst => some { s with wire := s.wire ++ [(dst, i.data)] }
  | .enqueued m => some { s with queue := s.queue ++ [⟨m, i.dir, i.src, i.data⟩] }
  | .null => none

/-- `write_packet_impl` called from the body of a task. -/
def writeOut (s : Pool σ) (t : Task) (dst : Int) (data : Bytes) : Option (Pool σ) :=
  match s.chain.modules[t.mod]? with
  | none => none
  | some m =>
      match writePacket m dst with
      | .toModule q d => some { s with queue := s.queue ++ [⟨q, d, t.src, data⟩] }
      | .toWire p => some { s with wire := s.wire ++ [(p, data)] }

variable (process : Process σ)

def step (s : Pool σ) : Action → Option (Pool σ)
  | .push src dir data => s.push ⟨src, dir, data⟩
  | .dequeue =>
      match s.queue with
      | [] => none
      | t :: queue =>
          if s.busy < s.workers then some { s with queue := queue, waiting := s.waiting ++ [t] }
          else none
  | .lockNogap i =>
      match s.waiting[i]? with
      | none => none
      | some t =>
          if s.NogapFree t.dir then
            some { s with waiting := s.waiting.eraseIdx i, gated := s.gated ++ [t] }
          else none
  | .lockDir i =>
      match s.gated[i]? with
      | none => none
      | some t =>
          if s.DirFree t.key then
            some { s with gated := s.gated.eraseIdx i, entered := s.entered ++ [t] }
          else none
  | .unlockNogap i rand =>
      match s.entered[i]? with
      | none => none
      | some t =>
          match s.chain.modules[t.mod]? with
          | none => none
          | some m =>
              match process rand m.ctx t.dir t.src t.data with
              | none => none
              | some (ctx, out) =>
                  some { s with
                    chain := s.chain.setCtx t.mod ctx
                    entered := s.entered.eraseIdx i
                    running := s.running ++ [⟨t, out⟩] }
  | .write i =>
      match s.running[i]? with
      | some ⟨t, (dst, data) :: out⟩ =>
          { s with running := s.running.set i ⟨t, out⟩ }.writeOut t dst data
      | _ => none
  | .finish i =>
      match s.running[i]? with
      | some ⟨_, []⟩ => some { s with running := s.running.eraseIdx i }
      | _ => none

/-- A new chain with `workers` threads. -/
def start (c : Chain σ) (workers : Nat) : Pool σ := { chain := c, workers := workers }

/-- No task is left. -/
def Drained (s : Pool σ) : Prop := s.queue = [] ∧ s.busy = 0

instance (s : Pool σ) : Decidable s.Drained :=
  inferInstanceAs (Decidable (s.queue = [] ∧ s.busy = 0))

/-- A worker takes `nogap_mutex_` only after every worker that took a task of the same
module and direction from the queue before it. -/
def FirstCome (s : Pool σ) : Action → Prop
  | .lockNogap i => ∀ t ∈ s.waiting[i]?, ∀ u ∈ s.waiting.take i, u.key ≠ t.key
  | _ => True

instance (s : Pool σ) : ∀ a, Decidable (s.FirstCome a)
  | .lockNogap i =>
      inferInstanceAs (Decidable (∀ t ∈ s.waiting[i]?, ∀ u ∈ s.waiting.take i, u.key ≠ t.key))
  | .push .. | .dequeue | .lockDir _ | .unlockNogap .. | .write _ | .finish _ => isTrue trivial

end Pool

end PipelineTunnel.Pipeline
