import PipelineTunnel.Lib.StepSystem
import PipelineTunnel.Pipeline.Model
import Mathlib.Data.List.Basic

/-!
# When a chain is drained

`enqueue_module`, `task_done` and `wait_drain` of `core/chain.cpp` on the thread pool: who counts
in `_inflight`, and what it says about the buffers and the workers.

## Implementation notes

The modules may do anything with the buffers they hold: release them, keep them or hand them to
`write_packet`, in a `process` call or in a tick of the heartbeat. A task goes through the
stages of its body one at a time. Which of the queued tasks a worker takes first is left open.
`pushed`, `wired` and `freed` list buffers; no step reads them. `none` is a step that cannot
occur.
-/

namespace PipelineTunnel.Drain

open Pipeline (Chain Dir pushPacket writePacket)
open StepSystem

variable {σ : Type*}

/-- Where a task of `enqueue_module` is. -/
inductive Stage where
  /-- Counted, before `_pool->enqueue`. -/
  | created
  | queued
  /-- A worker has taken it. -/
  | taken
  /-- Holding `nogap_mutex_[dir]`, before the test of `_cancelled`. -/
  | gated
  /-- Behind the test. -/
  | checked
  /-- Holding `dir_mutex[dir]` of its module, in `process`. -/
  | running
  /-- Behind `task_done`; the guard of `dir_mutex[dir]` ends with the body. -/
  | leaving
deriving DecidableEq, Repr

structure Task where
  mod : Nat
  dir : Dir
  data : Nat
  stage : Stage
deriving DecidableEq, Repr

structure State where
  workers : Nat
  tasks : List Task := []
  inflight : Int := 0
  cancelled : Bool := false
  ownerAlive : Bool := true
  /-- The number of the next buffer. -/
  next : Nat := 0
  /-- The buffers in the hands of the modules. -/
  held : List (Nat × Nat) := []
  pushed : List Nat := []
  wired : List Nat := []
  freed : List Nat := []
deriving DecidableEq, Repr

namespace Task

/-- Between two modules. -/
def InTransit (t : Task) : Prop :=
  t.stage = .created ∨ t.stage = .queued ∨ t.stage = .taken ∨ t.stage = .gated ∨ t.stage = .checked

/-- Queued or executing: `task_done` has not been called. -/
def live (t : Task) : Bool := t.stage ≠ .leaving

/-- A worker is busy with it. -/
def busy (t : Task) : Bool := t.stage ≠ .created ∧ t.stage ≠ .queued

end Task

namespace State

/-- No task holds `nogap_mutex_[dir]`. -/
def NogapFree (s : State) (dir : Dir) : Prop :=
  ∀ t ∈ s.tasks, t.dir = dir → t.stage ≠ .gated ∧ t.stage ≠ .checked

/-- No task holds `dir_mutex[dir]` of the module. -/
def DirFree (s : State) (mod : Nat) (dir : Dir) : Prop :=
  ∀ t ∈ s.tasks, t.mod = mod → t.dir = dir → t.stage ≠ .running ∧ t.stage ≠ .leaving

instance (s : State) (dir : Dir) : Decidable (s.NogapFree dir) :=
  inferInstanceAs (Decidable (∀ t ∈ s.tasks, _))

instance (s : State) (mod : Nat) (dir : Dir) : Decidable (s.DirFree mod dir) :=
  inferInstanceAs (Decidable (∀ t ∈ s.tasks, _))

def setStage (s : State) (i : Nat) (t : Task) (stage : Stage) : State :=
  { s with tasks := s.tasks.set i { t with stage := stage } }

def freeBuffer (s : State) (b : Nat) : State := { s with freed := s.freed ++ [b] }

/-- `enqueue_module`, up to the call of `_pool->enqueue`. -/
def enqueueModule (s : State) (mod data : Nat) (dir : Dir) : State :=
  if s.ownerAlive then
    { s with inflight := s.inflight + 1, tasks := s.tasks ++ [⟨mod, dir, data, .created⟩] }
  else s.freeBuffer data

def taskDone (s : State) : State := { s with inflight := s.inflight - 1 }

/-- `push_packet` of a new buffer. -/
def push (ch : Chain σ) (s : State) (src : Int) (dir : Dir) : Option State :=
  let data := s.next
  let s := { s with next := s.next + 1, pushed := s.pushed ++ [data] }
  match pushPacket ch s.cancelled s.ownerAlive src dir with
  | .dropped => some (s.freeBuffer data)
  | .passThrough _ => some { s.freeBuffer data with wired := s.wired ++ [data] }
  | .enqueued first => some (s.enqueueModule first data dir)
  | .null => none

/-- `write_packet_impl` called by module `mod` for a buffer it holds. -/
def write (ch : Chain σ) (s : State) (mod : Nat) (dst : Int) (data : Nat) : Option State :=
  if (mod, data) ∈ s.held then
    let s := { s with held := s.held.erase (mod, data) }
    match ch.modules[mod]? with
    | none => none
    | some m =>
        match writePacket m dst with
        | .toModule near dir => some (s.enqueueModule near data dir)
        | .toWire _ => some { s.freeBuffer data with wired := s.wired ++ [data] }
  else none

/-- `free` called by module `mod` for a buffer it holds. -/
def free (s : State) (mod data : Nat) : Option State :=
  if (mod, data) ∈ s.held then
    some ({ s with held := s.held.erase (mod, data) }.freeBuffer data)
  else none

/-- `malloc` called by module `mod`. -/
def malloc (s : State) (mod : Nat) : State :=
  { s with next := s.next + 1, held := s.held ++ [(mod, s.next)] }

end State

inductive Step where
  | push (src : Int) (dir : Dir)
  | enqueue (i : Nat)
  | dequeue (i : Nat)
  | lockNogap (i : Nat)
  /-- The test of `_cancelled`; a task that finds it set ends here. -/
  | test (i : Nat)
  /-- `last_activity` is set, `dir_mutex` locked, `nogap_mutex_` unlocked, `process` called. -/
  | enter (i : Nat)
  | write (i : Nat) (dst : Int) (data : Nat)
  | free (i : Nat) (data : Nat)
  | malloc (i : Nat)
  /-- `process` returns and `task_done` is called. -/
  | finish (i : Nat) (ret : Int)
  /-- The end of the body unlocks `dir_mutex`. -/
  | unlock (i : Nat)
  /-- `process` throws: the worker catches it behind the body. -/
  | throw (i : Nat)
  /-- `write_packet` and `free` in a tick of a module's heartbeat. -/
  | tickWrite (mod : Nat) (dst : Int) (data : Nat)
  | tickFree (mod data : Nat)
  | cancel
  /-- The last reference to the owner goes away. -/
  | expire
deriving DecidableEq, Repr

namespace State

/-- A step of the worker of task `i`, which is at `stage`. -/
def work (s : State) (i : Nat) (stage : Stage) (k : Task → Option State) : Option State :=
  match s.tasks[i]? with
  | none => none
  | some t => if t.stage = stage then k t else none

def step (ch : Chain σ) (s : State) : Step → Option State
  | .push src dir => s.push ch src dir
  | .enqueue i => s.work i .created fun t => some (s.setStage i t .queued)
  | .dequeue i => s.work i .queued fun t =>
      if s.tasks.countP Task.busy < s.workers then some (s.setStage i t .taken) else none
  | .lockNogap i => s.work i .taken fun t =>
      if s.NogapFree t.dir then some (s.setStage i t .gated) else none
  | .test i => s.work i .gated fun t =>
      if s.cancelled then
        some ({ s with tasks := s.tasks.eraseIdx i }.freeBuffer t.data).taskDone
      else some (s.setStage i t .checked)
  | .enter i => s.work i .checked fun t =>
      if s.DirFree t.mod t.dir then
        some { s.setStage i t .running with held := s.held ++ [(t.mod, t.data)] }
      else none
  | .write i dst data => s.work i .running fun t => s.write ch t.mod dst data
  | .free i data => s.work i .running fun t => s.free t.mod data
  | .malloc i => s.work i .running fun t => some (s.malloc t.mod)
  | .finish i ret => s.work i .running fun t =>
      if ret < 0 then
        some ({ s.setStage i t .leaving with
          held := s.held.erase (t.mod, t.data) }.freeBuffer t.data).taskDone
      else some (s.setStage i t .leaving).taskDone
  | .unlock i => s.work i .leaving fun _ => some { s with tasks := s.tasks.eraseIdx i }
  | .throw i => s.work i .running fun _ => some { s with tasks := s.tasks.eraseIdx i }
  | .tickWrite mod dst data => s.write ch mod dst data
  | .tickFree mod data => s.free mod data
  | .cancel => some { s with cancelled := true }
  | .expire => some { s with ownerAlive := false }

end State

/-- A task reads or writes its module, the mutexes of the module included. -/
def Step.Touches : Step → Prop
  | .enter _ | .write _ _ _ | .free _ _ | .malloc _ | .finish _ _ | .unlock _ | .throw _ => True
  | _ => False

/-- `process` returns. -/
def Step.Returns : Step → Prop
  | .throw _ => False
  | _ => True

/-- What `is_drained` and `wait_drain` promise. -/
structure Sound (ch : Chain σ) (s : State) : Prop where
  inflight : s.inflight = s.tasks.countP Task.live
  transit : (∃ t ∈ s.tasks, t.InTransit) → 0 < s.inflight
  placed : s.inflight = 0 → ∀ b ∈ s.pushed,
    b ∈ s.wired ∨ b ∈ s.freed ∨ ∃ mod, (mod, b) ∈ s.held
  quiet : s.cancelled = true → s.inflight = 0 →
    ∀ ls s', run (State.step ch) s ls = some s' → ∀ l ∈ ls, ¬ l.Touches

/-! ## One task among the others -/

section Around

variable {s s' : State} {i : Nat} {stage : Stage} {t : Task}

/-- The worker of a task acts only at the stage the task is at. -/
theorem work_cases {k : Task → Option State} (h : s.work i stage k = some s') :
    ∃ t, s.tasks[i]? = some t ∧ t.stage = stage ∧ k t = some s' := by
  unfold State.work at h
  split at h
  · cases h
  · rename_i t ht
    split_ifs at h with hstage
    exact ⟨t, ht, hstage, h⟩

theorem countP_set (ht : s.tasks[i]? = some t) (p : Task → Bool) (u : Task) :
    ((s.tasks.set i u).countP p : Int) =
      s.tasks.countP p - (if p t then 1 else 0) + if p u then 1 else 0 := by
  obtain ⟨before, after, htasks, -, hset, -⟩ := split_at ht
  rw [hset, htasks]
  simp only [List.countP_append, List.countP_cons]
  split_ifs <;> push_cast <;> omega

theorem countP_eraseIdx (ht : s.tasks[i]? = some t) (p : Task → Bool) :
    ((s.tasks.eraseIdx i).countP p : Int) = s.tasks.countP p - if p t then 1 else 0 := by
  obtain ⟨before, after, htasks, herase, -, -⟩ := split_at ht
  rw [herase, htasks]
  simp only [List.countP_append, List.countP_cons]
  split_ifs <;> push_cast <;> omega

theorem mem_set_of_mem (ht : s.tasks[i]? = some t) {u : Task} (hu : u ∈ s.tasks) (v : Task) :
    u = t ∨ u ∈ s.tasks.set i v := by
  obtain ⟨before, after, htasks, -, hset, -⟩ := split_at ht
  rw [hset]
  rw [htasks] at hu
  simp only [List.mem_append, List.mem_cons] at hu ⊢
  tauto

theorem mem_set_self (ht : s.tasks[i]? = some t) (v : Task) : v ∈ s.tasks.set i v := by
  obtain ⟨before, after, -, -, hset, -⟩ := split_at ht
  rw [hset]
  simp

theorem mem_eraseIdx_of_mem (ht : s.tasks[i]? = some t) {u : Task} (hu : u ∈ s.tasks) :
    u = t ∨ u ∈ s.tasks.eraseIdx i := by
  obtain ⟨before, after, htasks, herase, -, -⟩ := split_at ht
  rw [herase]
  rw [htasks] at hu
  simp only [List.mem_append, List.mem_cons] at hu ⊢
  tauto

end Around

/-! ## What a step can do -/

/-- A module gives a buffer away that it holds. -/
inductive Given (s : State) (mod data : Nat) : State → Prop where
  | enqueued (near : Nat) (dir : Dir) :
      Given s mod data
        (State.enqueueModule { s with held := s.held.erase (mod, data) } near data dir)
  | wired :
      Given s mod data { s with
        held := s.held.erase (mod, data)
        freed := s.freed ++ [data]
        wired := s.wired ++ [data] }
  | freed : Given s mod data (State.freeBuffer { s with held := s.held.erase (mod, data) } data)

/-- Everything a step can do, with the stage of the task that does it. -/
inductive Moves (ch : Chain σ) (s : State) : Step → State → Prop where
  | push {src : Int} {dir : Dir} {s' : State} : s.push ch src dir = some s' →
      Moves ch s (.push src dir) s'
  | advance {l : Step} {i : Nat} {t : Task} {stage : Stage} : s.tasks[i]? = some t →
      t.stage ≠ .leaving → stage = .queued ∨ stage = .taken ∨ stage = .gated ∨
        stage = .checked ∧ s.cancelled = false → ¬ l.Touches →
      Moves ch s l (s.setStage i t stage)
  | reject {i : Nat} {t : Task} : s.tasks[i]? = some t → t.stage = .gated →
      Moves ch s (.test i)
        (State.freeBuffer { s with tasks := s.tasks.eraseIdx i } t.data).taskDone
  | enter {i : Nat} {t : Task} : s.tasks[i]? = some t → t.stage = .checked →
      Moves ch s (.enter i) { s.setStage i t .running with held := s.held ++ [(t.mod, t.data)] }
  | give {l : Step} {i data : Nat} {t : Task} {s' : State} : s.tasks[i]? = some t →
      t.stage = .running → Given s t.mod data s' → Moves ch s l s'
  | malloc {i : Nat} {t : Task} : s.tasks[i]? = some t → t.stage = .running →
      Moves ch s (.malloc i) (s.malloc t.mod)
  | fail {i : Nat} {ret : Int} {t : Task} : s.tasks[i]? = some t → t.stage = .running →
      Moves ch s (.finish i ret) (State.freeBuffer { s.setStage i t .leaving with
        held := s.held.erase (t.mod, t.data) } t.data).taskDone
  | finish {i : Nat} {ret : Int} {t : Task} : s.tasks[i]? = some t → t.stage = .running →
      Moves ch s (.finish i ret) (s.setStage i t .leaving).taskDone
  | unlock {i : Nat} {t : Task} : s.tasks[i]? = some t → t.stage = .leaving →
      Moves ch s (.unlock i) { s with tasks := s.tasks.eraseIdx i }
  | throw {i : Nat} {t : Task} : s.tasks[i]? = some t → t.stage = .running →
      Moves ch s (.throw i) { s with tasks := s.tasks.eraseIdx i }
  | tick {l : Step} {mod data : Nat} {s' : State} : Given s mod data s' → ¬ l.Touches →
      Moves ch s l s'
  | cancel : Moves ch s .cancel { s with cancelled := true }
  | expire : Moves ch s .expire { s with ownerAlive := false }

section Moves

variable {ch : Chain σ} {s s' : State}

theorem given_write {mod : Nat} {dst : Int} {data : Nat}
    (h : s.write ch mod dst data = some s') : Given s mod data s' := by
  unfold State.write at h
  split_ifs at h
  dsimp only at h
  split at h
  · cases h
  · split at h
    · cases h
      exact .enqueued _ _
    · cases h
      exact .wired

theorem given_free {mod data : Nat} (h : s.free mod data = some s') : Given s mod data s' := by
  unfold State.free at h
  split_ifs at h
  cases h
  exact .freed

theorem step_moves {l : Step} (h : s.step ch l = some s') : Moves ch s l s' := by
  cases l with
  | push src dir => exact .push h
  | enqueue i =>
      obtain ⟨t, ht, hstage, heq⟩ := work_cases h
      cases heq
      exact .advance ht (by simp [hstage]) (by simp) id
  | dequeue i =>
      obtain ⟨t, ht, hstage, heq⟩ := work_cases h
      split_ifs at heq
      cases heq
      exact .advance ht (by simp [hstage]) (by simp) id
  | lockNogap i =>
      obtain ⟨t, ht, hstage, heq⟩ := work_cases h
      split_ifs at heq
      cases heq
      exact .advance ht (by simp [hstage]) (by simp) id
  | test i =>
      obtain ⟨t, ht, hstage, heq⟩ := work_cases h
      split_ifs at heq with hcancelled
      · cases heq
        exact .reject ht hstage
      · cases heq
        exact .advance ht (by simp [hstage]) (by simpa using hcancelled) id
  | enter i =>
      obtain ⟨t, ht, hstage, heq⟩ := work_cases h
      split_ifs at heq
      cases heq
      exact .enter ht hstage
  | write i dst data =>
      obtain ⟨t, ht, hstage, heq⟩ := work_cases h
      exact .give ht hstage (given_write heq)
  | free i data =>
      obtain ⟨t, ht, hstage, heq⟩ := work_cases h
      exact .give ht hstage (given_free heq)
  | malloc i =>
      obtain ⟨t, ht, hstage, heq⟩ := work_cases h
      cases heq
      exact .malloc ht hstage
  | finish i ret =>
      obtain ⟨t, ht, hstage, heq⟩ := work_cases h
      split_ifs at heq
      · cases heq
        exact .fail ht hstage
      · cases heq
        exact .finish ht hstage
  | unlock i =>
      obtain ⟨t, ht, hstage, heq⟩ := work_cases h
      cases heq
      exact .unlock ht hstage
  | throw i =>
      obtain ⟨t, ht, hstage, heq⟩ := work_cases h
      cases heq
      exact .throw ht hstage
  | tickWrite mod dst data => exact .tick (given_write h) id
  | tickFree mod data => exact .tick (given_free h) id
  | cancel =>
      cases h
      exact .cancel
  | expire =>
      cases h
      exact .expire

end Moves

/-! ## The counter -/

/-- The invariant of the counter. -/
def Counted (s : State) : Prop := s.inflight = s.tasks.countP Task.live

namespace Counted

variable {ch : Chain σ} {s s' : State}

theorem enqueueModule (h : Counted s) (mod data : Nat) (dir : Dir) :
    Counted (s.enqueueModule mod data dir) := by
  unfold State.enqueueModule
  split_ifs
  · change s.inflight + 1 = ((s.tasks ++ [_]).countP Task.live : Int)
    rw [List.countP_append, h]
    simp [Task.live]
  · exact h

/-- A task goes on without being done. -/
theorem setStage (h : Counted s) {i : Nat} {t : Task} (ht : s.tasks[i]? = some t)
    (hlive : t.stage ≠ .leaving) {stage : Stage} (hstage : stage ≠ .leaving) :
    Counted (s.setStage i t stage) := by
  change s.inflight = ((s.tasks.set i _).countP Task.live : Int)
  rw [countP_set ht, h]
  simp [Task.live, hlive, hstage]

theorem give (h : Counted s) {mod data : Nat} (hgiven : Given s mod data s') : Counted s' := by
  cases hgiven with
  | enqueued near dir =>
      exact enqueueModule (s := { s with held := s.held.erase (mod, data) }) h near data dir
  | wired => exact h
  | freed => exact h

theorem push (h : Counted s) {src : Int} {dir : Dir} (hpush : s.push ch src dir = some s') :
    Counted s' := by
  unfold State.push at hpush
  dsimp only at hpush
  split at hpush
  · cases hpush
    exact h
  · cases hpush
    exact h
  · cases hpush
    exact enqueueModule (s := { s with next := s.next + 1, pushed := s.pushed ++ [s.next] }) h _ _ _
  · cases hpush

/-- A task calls `task_done`. -/
theorem taskDone (h : Counted s) {i : Nat} {t : Task} (ht : s.tasks[i]? = some t)
    (hlive : t.stage ≠ .leaving) :
    s.inflight - 1 = ((s.tasks.set i { t with stage := .leaving }).countP Task.live : Int) := by
  rw [countP_set ht, h]
  simp [Task.live, hlive]

/-- Every step but an exception keeps the count. -/
theorem step (h : Counted s) {l : Step} (hret : l.Returns) (hstep : s.step ch l = some s') :
    Counted s' := by
  cases step_moves hstep with
  | push hpush => exact h.push hpush
  | advance ht hlive hstage _ =>
      apply h.setStage ht hlive
      rcases hstage with rfl | rfl | rfl | ⟨rfl, -⟩ <;> simp
  | @reject i t ht hstage =>
      change s.inflight - 1 = ((s.tasks.eraseIdx i).countP Task.live : Int)
      rw [countP_eraseIdx ht, h]
      simp [Task.live, hstage]
  | enter ht hstage => exact h.setStage ht (by simp [hstage]) (by simp)
  | give _ _ hgiven => exact h.give hgiven
  | malloc _ _ => exact h
  | fail ht hstage => exact h.taskDone ht (by simp [hstage])
  | finish ht hstage => exact h.taskDone ht (by simp [hstage])
  | @unlock i t ht hstage =>
      change s.inflight = ((s.tasks.eraseIdx i).countP Task.live : Int)
      rw [countP_eraseIdx ht, h]
      simp [Task.live, hstage]
  | throw => exact absurd hret id
  | tick hgiven _ => exact h.give hgiven
  | cancel => exact h
  | expire => exact h

end Counted

/-! ## The buffers -/

/-- Where a buffer can be. -/
def Located (s : State) (b : Nat) : Prop :=
  (∃ t ∈ s.tasks, t.InTransit ∧ t.data = b) ∨ (∃ mod, (mod, b) ∈ s.held) ∨ b ∈ s.wired ∨
    b ∈ s.freed

/-- Every buffer that was pushed is somewhere. -/
def Placed (s : State) : Prop := ∀ b ∈ s.pushed, Located s b

section Located

variable {s s' : State} {b : Nat}

/-- More places keep a buffer located. -/
theorem Located.mono (h : Located s b)
    (htasks : ∀ t ∈ s.tasks, t.InTransit → t.data = b → Located s' b)
    (hheld : ∀ mod, (mod, b) ∈ s.held → Located s' b) (hwired : s.wired ⊆ s'.wired)
    (hfreed : s.freed ⊆ s'.freed) : Located s' b := by
  rcases h with ⟨t, ht, htransit, hdata⟩ | ⟨mod, hmod⟩ | hb | hb
  · exact htasks t ht htransit hdata
  · exact hheld mod hmod
  · exact Or.inr (Or.inr (Or.inl (hwired hb)))
  · exact Or.inr (Or.inr (Or.inr (hfreed hb)))

theorem Located.freeBuffer (h : Located s b) (data : Nat) : Located (s.freeBuffer data) b := by
  refine h.mono (fun t ht htransit hdata => Or.inl ⟨t, ht, htransit, hdata⟩)
    (fun mod hmod => Or.inr (Or.inl ⟨mod, hmod⟩)) (List.Subset.refl _) ?_
  exact List.subset_append_left _ _

/-- A buffer goes to the wire. -/
theorem Located.wire (h : Located s b) (data : Nat) :
    Located { s with freed := s.freed ++ [data], wired := s.wired ++ [data] } b := by
  refine h.mono (fun t ht htransit hdata => Or.inl ⟨t, ht, htransit, hdata⟩)
    (fun mod hmod => Or.inr (Or.inl ⟨mod, hmod⟩)) ?_ ?_
  · exact List.subset_append_left _ _
  · exact List.subset_append_left _ _

theorem pushed_enqueueModule (s : State) (mod data : Nat) (dir : Dir) :
    (s.enqueueModule mod data dir).pushed = s.pushed := by
  unfold State.enqueueModule
  split_ifs <;> rfl

theorem located_freeBuffer (s : State) (data : Nat) : Located (s.freeBuffer data) data :=
  Or.inr (Or.inr (Or.inr (List.mem_append_right _ List.mem_cons_self)))

theorem Located.enqueueModule (h : Located s b) (mod data : Nat) (dir : Dir) :
    Located (s.enqueueModule mod data dir) b := by
  unfold State.enqueueModule
  split_ifs
  · refine h.mono (fun t ht htransit hdata => Or.inl ⟨t, ?_, htransit, hdata⟩)
      (fun mod hmod => Or.inr (Or.inl ⟨mod, hmod⟩)) (List.Subset.refl _) (List.Subset.refl _)
    exact List.mem_append_left _ ht
  · exact h.freeBuffer data

theorem located_enqueueModule (s : State) (mod data : Nat) (dir : Dir) :
    Located (s.enqueueModule mod data dir) data := by
  unfold State.enqueueModule
  split_ifs
  · exact Or.inl ⟨⟨mod, dir, data, .created⟩, List.mem_append_right _ List.mem_cons_self,
      Or.inl rfl, rfl⟩
  · exact located_freeBuffer s data

/-- A module gives one buffer away. -/
theorem Located.erase (h : Located s b) {mod data : Nat} (hb : b ≠ data) :
    Located { s with held := s.held.erase (mod, data) } b := by
  refine h.mono (fun t ht htransit hdata => Or.inl ⟨t, ht, htransit, hdata⟩) ?_
    (List.Subset.refl _) (List.Subset.refl _)
  intro mod' hmod
  refine Or.inr (Or.inl ⟨mod', ?_⟩)
  refine (List.mem_erase_of_ne ?_).mpr hmod
  intro heq
  exact hb (Prod.mk.inj heq).2

/-- A task goes from one stage of its way to the next. -/
theorem Located.setStage (h : Located s b) {i : Nat} {t : Task} (ht : s.tasks[i]? = some t)
    {stage : Stage} (hstage : Task.InTransit { t with stage := stage }) :
    Located (s.setStage i t stage) b := by
  refine h.mono (fun u hu htransit hdata => ?_) (fun mod hmod => Or.inr (Or.inl ⟨mod, hmod⟩))
    (List.Subset.refl _) (List.Subset.refl _)
  rcases mem_set_of_mem ht hu { t with stage := stage } with rfl | hu'
  · exact Or.inl ⟨_, mem_set_self ht _, hstage, hdata⟩
  · exact Or.inl ⟨u, hu', htransit, hdata⟩

/-- Everything on its way stays there but the data of one task, which got another place. -/
theorem Located.settle (h : Located s b) {t : Task}
    (htasks : ∀ u ∈ s.tasks, u.InTransit → u = t ∨ u ∈ s'.tasks) (hdata : Located s' t.data)
    (hheld : s.held ⊆ s'.held) (hwired : s.wired ⊆ s'.wired) (hfreed : s.freed ⊆ s'.freed) :
    Located s' b := by
  refine h.mono (fun u hu htransit hub => ?_)
    (fun mod hmod => Or.inr (Or.inl ⟨mod, hheld hmod⟩)) hwired hfreed
  rcases htasks u hu htransit with rfl | hu'
  · rw [← hub]
    exact hdata
  · exact Or.inl ⟨u, hu', htransit, hub⟩

/-- A task that is not on its way is changed or removed. -/
theorem Located.other (h : Located s b) {t : Task} (ht : ¬ t.InTransit)
    (htasks : ∀ u ∈ s.tasks, u = t ∨ u ∈ s'.tasks) (hheld : s'.held = s.held)
    (hwired : s'.wired = s.wired) (hfreed : s'.freed = s.freed) : Located s' b := by
  refine h.mono (fun u hu htransit hdata => ?_) (fun mod hmod => ?_)
    (by rw [hwired]; exact fun _ => id) (by rw [hfreed]; exact fun _ => id)
  · rcases htasks u hu with rfl | hu'
    · exact absurd htransit ht
    · exact Or.inl ⟨u, hu', htransit, hdata⟩
  · exact Or.inr (Or.inl ⟨mod, by rwa [hheld]⟩)

end Located

namespace Placed

variable {ch : Chain σ} {s s' : State}

theorem not_inTransit {t : Task} (h : t.stage = .running) : ¬ t.InTransit := by
  simp [Task.InTransit, h]

theorem give (h : Placed s) {mod data : Nat} (hgiven : Given s mod data s') : Placed s' := by
  intro b hb
  cases hgiven with
  | enqueued near dir =>
      by_cases hdata : b = data
      · rw [hdata]
        exact located_enqueueModule _ near data dir
      · refine Located.enqueueModule (Located.erase (h b ?_) hdata) near data dir
        rw [pushed_enqueueModule] at hb
        exact hb
  | wired =>
      by_cases hdata : b = data
      · rw [hdata]
        exact Or.inr (Or.inr (Or.inl (List.mem_append_right _ List.mem_cons_self)))
      · exact (Located.erase (h b hb) hdata).wire data
  | freed =>
      by_cases hdata : b = data
      · rw [hdata]
        exact located_freeBuffer _ data
      · exact (Located.erase (h b hb) hdata).freeBuffer data

theorem push (h : Placed s) {src : Int} {dir : Dir} (hpush : s.push ch src dir = some s') :
    Placed s' := by
  have hold : ∀ b ∈ s.pushed,
      Located { s with next := s.next + 1, pushed := s.pushed ++ [s.next] } b := h
  have hnew : ∀ b ∈ s.pushed ++ [s.next], b ∈ s.pushed ∨ b = s.next := by simp
  unfold State.push at hpush
  dsimp only at hpush
  split at hpush
  · cases hpush
    intro b hb
    rcases hnew b hb with hb | rfl
    · exact (hold b hb).freeBuffer _
    · exact located_freeBuffer _ _
  · cases hpush
    intro b hb
    rcases hnew b hb with hb | rfl
    · exact (hold b hb).wire s.next
    · exact Or.inr (Or.inr (Or.inl (List.mem_append_right _ List.mem_cons_self)))
  · cases hpush
    intro b hb
    rw [pushed_enqueueModule] at hb
    rcases hnew b hb with hb | rfl
    · exact (hold b hb).enqueueModule _ _ _
    · exact located_enqueueModule _ _ _ _
  · cases hpush

theorem step (h : Placed s) {l : Step} (hstep : s.step ch l = some s') : Placed s' := by
  cases step_moves hstep with
  | push hpush => exact h.push hpush
  | advance ht _ hstage _ =>
      intro b hb
      refine (h b hb).setStage ht ?_
      rcases hstage with rfl | rfl | rfl | ⟨rfl, -⟩ <;> simp [Task.InTransit]
  | @reject i t ht hstage =>
      intro b hb
      refine (h b hb).settle (t := t) (fun u hu _ => mem_eraseIdx_of_mem ht hu) ?_
        (List.Subset.refl _) (List.Subset.refl _) (List.subset_append_left _ _)
      exact Or.inr (Or.inr (Or.inr (List.mem_append_right _ List.mem_cons_self)))
  | @enter i t ht hstage =>
      intro b hb
      refine (h b hb).settle (t := t) (fun u hu _ => mem_set_of_mem ht hu _) ?_
        (List.subset_append_left _ _) (List.Subset.refl _) (List.Subset.refl _)
      exact Or.inr (Or.inl ⟨t.mod, List.mem_append_right _ List.mem_cons_self⟩)
  | give _ _ hgiven => exact h.give hgiven
  | malloc _ _ =>
      refine fun b hb => (h b hb).mono
        (fun u hu htransit hdata => Or.inl ⟨u, hu, htransit, hdata⟩)
        (fun mod hmod => Or.inr (Or.inl ⟨mod, List.mem_append_left _ hmod⟩))
        (List.Subset.refl _) (List.Subset.refl _)
  | @fail i ret t ht hstage =>
      intro b hb
      by_cases hdata : b = t.data
      · rw [hdata]
        exact Or.inr (Or.inr (Or.inr (List.mem_append_right _ List.mem_cons_self)))
      · have hset : Located (s.setStage i t .leaving) b :=
          (h b hb).other (not_inTransit hstage) (fun u hu => mem_set_of_mem ht hu _) rfl rfl rfl
        exact (hset.erase hdata).freeBuffer t.data
  | finish ht hstage =>
      exact fun b hb => (h b hb).other (not_inTransit hstage)
        (fun u hu => mem_set_of_mem ht hu _) rfl rfl rfl
  | unlock ht hstage =>
      exact fun b hb => (h b hb).other (by simp [Task.InTransit, hstage])
        (fun u hu => mem_eraseIdx_of_mem ht hu) rfl rfl rfl
  | throw ht hstage =>
      exact fun b hb => (h b hb).other (not_inTransit hstage)
        (fun u hu => mem_eraseIdx_of_mem ht hu) rfl rfl rfl
  | tick hgiven _ => exact h.give hgiven
  | cancel => exact h
  | expire => exact h

end Placed

/-! ## After `wait_drain` -/

/-- The chain is cancelled and no task is behind the test of `_cancelled`. -/
structure Quiet (s : State) : Prop where
  cancelled : s.cancelled = true
  outside : ∀ t ∈ s.tasks,
    t.stage = .created ∨ t.stage = .queued ∨ t.stage = .taken ∨ t.stage = .gated

namespace Quiet

variable {ch : Chain σ} {s s' : State}

theorem enqueueModule (h : Quiet s) (mod data : Nat) (dir : Dir) :
    Quiet (s.enqueueModule mod data dir) := by
  unfold State.enqueueModule
  split_ifs
  · refine ⟨h.cancelled, fun t ht => ?_⟩
    rcases List.mem_append.mp ht with ht | ht
    · exact h.outside t ht
    · rw [List.mem_singleton.mp ht]
      exact Or.inl rfl
  · exact ⟨h.cancelled, h.outside⟩

theorem setStage (h : Quiet s) {i : Nat} {t : Task} {stage : Stage}
    (hstage : stage = .created ∨ stage = .queued ∨ stage = .taken ∨ stage = .gated) :
    Quiet (s.setStage i t stage) := by
  refine ⟨h.cancelled, fun u hu => ?_⟩
  rcases List.mem_or_eq_of_mem_set hu with hu | rfl
  · exact h.outside u hu
  · exact hstage

theorem give (h : Quiet s) {mod data : Nat} (hgiven : Given s mod data s') : Quiet s' := by
  have herase : Quiet { s with held := s.held.erase (mod, data) } := ⟨h.cancelled, h.outside⟩
  cases hgiven with
  | enqueued near dir => exact herase.enqueueModule near data dir
  | wired => exact ⟨h.cancelled, h.outside⟩
  | freed => exact ⟨h.cancelled, h.outside⟩

theorem push (h : Quiet s) {src : Int} {dir : Dir} (hpush : s.push ch src dir = some s') :
    Quiet s' := by
  have hdropped : pushPacket ch s.cancelled s.ownerAlive src dir = .dropped := by
    rw [pushPacket, h.cancelled, if_pos rfl]
  unfold State.push at hpush
  dsimp only at hpush
  rw [hdropped] at hpush
  cases hpush
  exact ⟨h.cancelled, h.outside⟩

/-- No task is where it could touch its module. -/
theorem not_inside (h : Quiet s) {i : Nat} {t : Task} (ht : s.tasks[i]? = some t)
    (hstage : t.stage = .checked ∨ t.stage = .running ∨ t.stage = .leaving) : False := by
  have hout := h.outside t (List.mem_of_getElem? ht)
  rcases hstage with hstage | hstage | hstage <;> simp [hstage] at hout

/-- A step touches no module, and the chain stays quiet. -/
theorem step (h : Quiet s) {l : Step} (hstep : s.step ch l = some s') :
    ¬ l.Touches ∧ Quiet s' := by
  cases step_moves hstep with
  | push hpush => exact ⟨id, h.push hpush⟩
  | advance ht _ hstage htouches =>
      refine ⟨htouches, h.setStage ?_⟩
      rcases hstage with rfl | rfl | rfl | ⟨-, hrunning⟩
      · simp
      · simp
      · simp
      · exact absurd (hrunning.symm.trans h.cancelled) (by decide)
  | reject ht hstage =>
      exact ⟨id, h.cancelled, fun u hu => h.outside u (List.mem_of_mem_eraseIdx hu)⟩
  | enter ht hstage => exact (h.not_inside ht (.inl hstage)).elim
  | give ht hstage _ => exact (h.not_inside ht (.inr (.inl hstage))).elim
  | malloc ht hstage => exact (h.not_inside ht (.inr (.inl hstage))).elim
  | fail ht hstage => exact (h.not_inside ht (.inr (.inl hstage))).elim
  | finish ht hstage => exact (h.not_inside ht (.inr (.inl hstage))).elim
  | unlock ht hstage => exact (h.not_inside ht (.inr (.inr hstage))).elim
  | throw ht hstage => exact (h.not_inside ht (.inr (.inl hstage))).elim
  | tick hgiven htouches => exact ⟨htouches, h.give hgiven⟩
  | cancel => exact ⟨id, rfl, h.outside⟩
  | expire => exact ⟨id, h.cancelled, h.outside⟩

theorem run (h : Quiet s) {ls : List Step} (hrun : StepSystem.run (State.step ch) s ls = some s') :
    ∀ l ∈ ls, ¬ l.Touches := by
  induction ls generalizing s with
  | nil => simp
  | cons l ls ih =>
      obtain ⟨t, ht, hrest⟩ := run_cons_some hrun
      obtain ⟨hno, hquiet⟩ := h.step ht
      exact List.forall_mem_cons.mpr ⟨hno, ih hquiet hrest⟩

end Quiet

/-! ## What drained means -/

theorem live_of_inTransit {t : Task} (h : t.InTransit) : t.live = true := by
  rcases h with h | h | h | h | h <;> simp [Task.live, h]

/-- At zero every task has called `task_done`. -/
theorem Counted.leaving {s : State} (h : Counted s) (hzero : s.inflight = 0) {t : Task}
    (ht : t ∈ s.tasks) : t.stage = .leaving := by
  rw [h] at hzero
  have hnone := List.countP_eq_zero.mp (Int.natCast_eq_zero.mp hzero) t ht
  simpa [Task.live] using hnone

/-- As long as no `process` throws, the counter and the buffers are as they should be in every
state of every run, and no task touches a module after `wait_drain` exactly when it did not
return between the `task_done` of a task and the end of its body. -/
theorem drained_sound_iff (ch : Chain σ) (workers : Nat) (ls : List Step) (s : State)
    (hrun : run (State.step ch) { workers := workers } ls = some s)
    (hreturns : ∀ l ∈ ls, l.Returns) :
    Sound ch s ↔
      (s.cancelled = true → s.inflight = 0 → ∀ t ∈ s.tasks, t.stage ≠ .leaving) := by
  have hcounted : Counted s :=
    invariant_of_meets (fun _ _ _ h hok => h.step hok.1) (by simp [Counted])
      ((meets_true _ ls).and_mem hreturns) hrun
  have hplaced : Placed s :=
    invariant_of_run (fun _ _ _ h => h.step) (by simp [Placed]) hrun
  constructor
  · intro hsound hcancelled hzero t ht hleaving
    obtain ⟨i, hi, rfl⟩ := List.getElem_of_mem ht
    have hunlock : run (State.step ch) s [.unlock i] =
        some { s with tasks := s.tasks.eraseIdx i } := by
      simp [run, State.step, State.work, List.getElem?_eq_getElem hi, hleaving]
    exact hsound.quiet hcancelled hzero _ _ hunlock (.unlock i) List.mem_cons_self trivial
  · intro hended
    constructor
    · exact hcounted
    · rintro ⟨t, ht, htransit⟩
      rw [hcounted, Int.natCast_pos, List.countP_pos_iff]
      exact ⟨t, ht, live_of_inTransit htransit⟩
    · intro hzero b hb
      rcases hplaced b hb with ⟨t, ht, htransit, -⟩ | hheld | hwired | hfreed
      · have hleaving := hcounted.leaving hzero ht
        simp [Task.InTransit, hleaving] at htransit
      · exact Or.inr (Or.inr hheld)
      · exact Or.inl hwired
      · exact Or.inr (Or.inl hfreed)
    · intro hcancelled hzero ls' s' hrun'
      have hquiet : Quiet s := by
        refine ⟨hcancelled, fun t ht => ?_⟩
        exact absurd (hcounted.leaving hzero ht) (hended hcancelled hzero t ht)
      exact hquiet.run hrun'

/-- One module between the external side and the wire. -/
def oneModule : Chain Unit :=
  Pipeline.construct (fun _ _ => some ((), 0)) 1 fun _ requests => requests

/-- A packet goes through the module to the wire, and the worker reaches the end of the body
before the chain is cancelled. -/
theorem drained_sound_iff_through :
    let ls : List Step := [.push 0 .encode, .enqueue 0, .dequeue 0, .lockNogap 0, .test 0, .enter 0,
      .write 0 1 0, .finish 0 0, .unlock 0, .cancel]
    ∃ s, run (State.step oneModule) { workers := 2 } ls = some s ∧ s.inflight = 0 ∧
      s.wired = [0] ∧ Sound oneModule s := by
  intro ls
  have hsome : (run (State.step oneModule) { workers := 2 } ls).isSome := by decide
  have hend : (run (State.step oneModule) { workers := 2 } ls).all fun s =>
      s.inflight = 0 ∧ s.wired = [0] ∧ s.tasks = [] := by decide
  obtain ⟨s, hrun⟩ := Option.isSome_iff_exists.mp hsome
  rw [hrun, Option.all_some, decide_eq_true_eq] at hend
  obtain ⟨hzero, hwired, htasks⟩ := hend
  refine ⟨s, hrun, hzero, hwired, (drained_sound_iff oneModule 2 ls s hrun ?_).mpr ?_⟩
  · simp [ls, Step.Returns]
  · simp [htasks]

/-- The same run up to `task_done`: `wait_drain` returns, and the worker unlocks the mutex of
the module behind it. -/
theorem drained_not_sound :
    ¬ ∀ (ch : Chain Unit) (workers : Nat) (ls : List Step) (s : State),
      run (State.step ch) { workers := workers } ls = some s → (∀ l ∈ ls, l.Returns) →
        Sound ch s := by
  intro hall
  let ls : List Step := [.push 0 .encode, .enqueue 0, .dequeue 0, .lockNogap 0, .test 0, .enter 0,
    .write 0 1 0, .cancel, .finish 0 0]
  have hsome : (run (State.step oneModule) { workers := 2 } ls).isSome := by decide
  have hend : (run (State.step oneModule) { workers := 2 } ls).all fun s =>
      s.cancelled = true ∧ s.inflight = 0 ∧
        (run (State.step oneModule) s [.unlock 0]).isSome := by decide
  obtain ⟨s, hrun⟩ := Option.isSome_iff_exists.mp hsome
  rw [hrun, Option.all_some, decide_eq_true_eq] at hend
  obtain ⟨hcancelled, hzero, hunlock⟩ := hend
  obtain ⟨s', hrun'⟩ := Option.isSome_iff_exists.mp hunlock
  have hsound := hall oneModule 2 ls s hrun (by simp [ls, Step.Returns])
  exact hsound.quiet hcancelled hzero _ s' hrun' (.unlock 0) List.mem_cons_self trivial

end PipelineTunnel.Drain
