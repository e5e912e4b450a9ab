import PipelineTunnel.Lib.Rank

/-!
# The workers of the thread pool

`core/thread_pool.cpp`: the workers wait on a condition variable for tasks or for the end.
`enqueue` changes the queue under `mtx_` and calls `notify_one` behind it; `stop` sets `shutdown_`
without `mtx_` and calls `notify_all`.

## Implementation notes

A step of a worker is one of its accesses to `shutdown_` or one operation on `mtx_` and `cv_`;
`cv_.wait` releases `mtx_` and falls asleep in one step, and may wake up by itself. The locked
section of `enqueue` is one step, since nobody sees the inside of it. `notifies` counts the calls
of `notify_one` that are still to come. The tasks return. `enqueued` and `started` are history.
-/

namespace PipelineTunnel.Workers

open StepSystem

variable {α : Type*}

/-- Where a thread is in `worker_loop`. -/
inductive Worker (α : Type*) where
  /-- Before the test of the `while` loop. -/
  | outside
  /-- Before it locks `mtx_`. -/
  | locking
  /-- Holding `mtx_`, before the predicate of `cv_.wait`. -/
  | testing
  /-- Holding `mtx_`, behind a predicate that was false. -/
  | parking
  | asleep
  /-- Awake, before `cv_.wait` locks `mtx_` again. -/
  | woken
  /-- Holding `mtx_`, behind `cv_.wait`. -/
  | holding
  | busy (task : α)
  | exited
deriving DecidableEq, Repr

def Worker.holdsMtx : Worker α → Bool
  | .testing | .parking | .holding => true
  | .outside | .locking | .asleep | .woken | .busy _ | .exited => false

def Worker.awake : Worker α → Bool
  | .asleep => false
  | .outside | .locking | .testing | .parking | .woken | .holding | .busy _ | .exited => true

structure State (α : Type*) where
  workers : List (Worker α)
  queue : List α := []
  notifies : Nat := 0
  /-- `shutdown_`. -/
  shutdown : Bool := false
  /-- `stop` has called `notify_all` and joins the workers. -/
  joining : Bool := false
  enqueued : List α := []
  started : List α := []
deriving DecidableEq, Repr

inductive Label (α : Type*) where
  | enqueue (task : α)
  /-- `notify_one` wakes worker `i`. -/
  | notifyOne (i : Nat)
  /-- `notify_one` finds nobody asleep. -/
  | notifyNone
  /-- A spurious wakeup. -/
  | spurious (i : Nat)
  | loop (i : Nat)
  | lock (i : Nat)
  | test (i : Nat)
  | park (i : Nat)
  | take (i : Nat)
  | finish (i : Nat)
  | store
  | notifyAll
deriving DecidableEq, Repr

/-- A step of a worker itself. -/
def Label.ofWorker : Label α → Bool
  | .loop _ | .lock _ | .test _ | .park _ | .take _ | .finish _ => true
  | .enqueue _ | .notifyOne _ | .notifyNone | .spurious _ | .store | .notifyAll => false

/-- A step of a worker itself or the second half of `enqueue`. -/
def Label.ofPool : Label α → Bool
  | .loop _ | .lock _ | .test _ | .park _ | .take _ | .finish _ | .notifyOne _ | .notifyNone => true
  | .enqueue _ | .spurious _ | .store | .notifyAll => false

theorem Label.ofPool_of_ofWorker {l : Label α} (h : l.ofWorker = true) : l.ofPool = true := by
  cases l with
  | loop | lock | test | park | take | finish => rfl
  | enqueue | notifyOne | notifyNone | spurious | store | notifyAll => cases h

namespace State

/-- `start`. -/
def start (count : Nat) : State α :=
  { workers := List.replicate (if count = 0 then 1 else count) .outside }

def MtxFree (s : State α) : Prop := ∀ w ∈ s.workers, w.holdsMtx = false

instance (s : State α) : Decidable s.MtxFree :=
  inferInstanceAs (Decidable (∀ w ∈ s.workers, w.holdsMtx = false))

def setWorker (s : State α) (i : Nat) (w : Worker α) : State α :=
  { s with workers := s.workers.set i w }

def step (s : State α) : Label α → Option (State α)
  | .enqueue task =>
      if s.MtxFree then
        some { s with
          queue := s.queue ++ [task]
          notifies := s.notifies + 1
          enqueued := s.enqueued ++ [task] }
      else none
  | .notifyOne i =>
      match s.workers[i]? with
      | some .asleep =>
          if 0 < s.notifies then some { s.setWorker i .woken with notifies := s.notifies - 1 }
          else none
      | _ => none
  | .notifyNone =>
      if 0 < s.notifies ∧ ∀ w ∈ s.workers, w.awake = true then
        some { s with notifies := s.notifies - 1 }
      else none
  | .spurious i =>
      match s.workers[i]? with
      | some .asleep => some (s.setWorker i .woken)
      | _ => none
  | .loop i =>
      match s.workers[i]? with
      | some .outside => some (s.setWorker i (if s.shutdown then .exited else .locking))
      | _ => none
  | .lock i =>
      match s.workers[i]? with
      | some .locking | some .woken =>
          if s.MtxFree then some (s.setWorker i .testing) else none
      | _ => none
  | .test i =>
      match s.workers[i]? with
      | some .testing =>
          some (s.setWorker i (if s.shutdown ∨ s.queue.isEmpty = false then .holding else .parking))
      | _ => none
  | .park i =>
      match s.workers[i]? with
      | some .parking => some (s.setWorker i .asleep)
      | _ => none
  | .take i =>
      match s.workers[i]? with
      | some .holding =>
          if s.shutdown then some (s.setWorker i .exited)
          else
            match s.queue with
            | [] => none
            | task :: queue =>
                some { s.setWorker i (.busy task) with
                  queue := queue
                  started := s.started ++ [task] }
      | _ => none
  | .finish i =>
      match s.workers[i]? with
      | some (.busy _) => some (s.setWorker i .outside)
      | _ => none
  | .store => if s.shutdown then none else some { s with shutdown := true }
  | .notifyAll =>
      if s.shutdown = true ∧ s.joining = false then
        some { s with
          joining := true
          workers := s.workers.map fun w => if w.awake then w else .woken }
      else none

end State

/-! ## What a step can be -/

/-- The steps of one worker that change nothing else. -/
inductive Turn (s : State α) : Label α → Worker α → Worker α → Prop where
  | spurious {i : Nat} : Turn s (.spurious i) .asleep .woken
  | leave {i : Nat} : s.shutdown = true → Turn s (.loop i) .outside .exited
  | enter {i : Nat} : s.shutdown = false → Turn s (.loop i) .outside .locking
  | lock {i : Nat} {w : Worker α} : w = .locking ∨ w = .woken → s.MtxFree →
      Turn s (.lock i) w .testing
  | hold {i : Nat} : s.shutdown = true ∨ s.queue ≠ [] → Turn s (.test i) .testing .holding
  | wait {i : Nat} : s.shutdown = false → s.queue = [] → Turn s (.test i) .testing .parking
  | park {i : Nat} : Turn s (.park i) .parking .asleep
  | quit {i : Nat} : s.shutdown = true → Turn s (.take i) .holding .exited
  | finish {i : Nat} {task : α} : Turn s (.finish i) (.busy task) .outside

/-- Everything a step can do, with the conditions under which it does it. -/
inductive Moves (s : State α) : Label α → State α → Prop where
  | enqueue {task : α} : s.MtxFree → Moves s (.enqueue task)
      { s with
        queue := s.queue ++ [task]
        notifies := s.notifies + 1
        enqueued := s.enqueued ++ [task] }
  | notifyOne {i : Nat} {before after : List (Worker α)} :
      s.workers = before ++ .asleep :: after → 0 < s.notifies → Moves s (.notifyOne i)
        { s with workers := before ++ .woken :: after, notifies := s.notifies - 1 }
  | notifyNone : 0 < s.notifies → (∀ w ∈ s.workers, w.awake = true) →
      Moves s .notifyNone { s with notifies := s.notifies - 1 }
  | turn {l : Label α} {before after : List (Worker α)} {w w' : Worker α} :
      s.workers = before ++ w :: after → Turn s l w w' →
      Moves s l { s with workers := before ++ w' :: after }
  | take {i : Nat} {before after : List (Worker α)} {task : α} {queue : List α} :
      s.workers = before ++ .holding :: after → s.shutdown = false → s.queue = task :: queue →
      Moves s (.take i)
        { s with
          workers := before ++ .busy task :: after
          queue := queue
          started := s.started ++ [task] }
  | store : s.shutdown = false → Moves s .store { s with shutdown := true }
  | notifyAll : s.shutdown = true → Moves s .notifyAll
      { s with joining := true, workers := s.workers.map fun w => if w.awake then w else .woken }

variable {s s' : State α} {l : Label α}

theorem moves_setWorker {i : Nat} {w w' : Worker α} (hget : s.workers[i]? = some w)
    (hturn : Turn s l w w') : Moves s l (s.setWorker i w') := by
  obtain ⟨before, after, hworkers, -, hset, -⟩ := split_at hget
  rw [State.setWorker, hset]
  exact .turn hworkers hturn

theorem step_moves (h : s.step l = some s') : Moves s l s' := by
  cases l with
  | enqueue task =>
      simp only [State.step] at h
      split_ifs at h with hfree
      cases h
      exact .enqueue hfree
  | notifyOne i =>
      simp only [State.step] at h
      split at h
      · rename_i hget
        split_ifs at h with hpos
        cases h
        obtain ⟨before, after, hworkers, -, hset, -⟩ := split_at hget
        rw [State.setWorker, hset]
        exact .notifyOne hworkers hpos
      · cases h
  | notifyNone =>
      simp only [State.step] at h
      split_ifs at h with hnone
      cases h
      exact .notifyNone hnone.1 hnone.2
  | spurious i =>
      simp only [State.step] at h
      split at h
      · rename_i hget
        cases h
        exact moves_setWorker hget .spurious
      · cases h
  | loop i =>
      simp only [State.step] at h
      split at h
      · rename_i hget
        cases h
        cases hshutdown : s.shutdown with
        | true => exact moves_setWorker hget (.leave hshutdown)
        | false => exact moves_setWorker hget (.enter hshutdown)
      · cases h
  | lock i =>
      simp only [State.step] at h
      split at h
      · rename_i hget
        split_ifs at h with hfree
        cases h
        exact moves_setWorker hget (.lock (.inl rfl) hfree)
      · rename_i hget
        split_ifs at h with hfree
        cases h
        exact moves_setWorker hget (.lock (.inr rfl) hfree)
      · cases h
  | test i =>
      simp only [State.step] at h
      split at h
      · rename_i hget
        cases h
        split
        · rename_i hready
          refine moves_setWorker hget (.hold (hready.imp_right ?_))
          rintro hfilled hnil
          simp [hnil] at hfilled
        · rename_i hnot
          obtain ⟨hshutdown, hqueue⟩ := not_or.mp hnot
          refine moves_setWorker hget (.wait ?_ ?_)
          · simpa using hshutdown
          · simpa using hqueue
      · cases h
  | park i =>
      simp only [State.step] at h
      split at h
      · rename_i hget
        cases h
        exact moves_setWorker hget .park
      · cases h
  | take i =>
      simp only [State.step] at h
      split at h
      · rename_i hget
        split_ifs at h with hshutdown
        · cases h
          exact moves_setWorker hget (.quit hshutdown)
        · split at h
          · cases h
          · rename_i task queue hqueue
            cases h
            obtain ⟨before, after, hworkers, -, hset, -⟩ := split_at hget
            rw [State.setWorker, hset]
            exact .take hworkers (by simpa using hshutdown) hqueue
      · cases h
  | finish i =>
      simp only [State.step] at h
      split at h
      · rename_i hget
        cases h
        exact moves_setWorker hget .finish
      · cases h
  | store =>
      simp only [State.step] at h
      split_ifs at h with hshutdown
      cases h
      exact .store (by simpa using hshutdown)
  | notifyAll =>
      simp only [State.step] at h
      split_ifs at h with hjoin
      cases h
      exact .notifyAll hjoin.1

/-! ## No task waits for a worker that sleeps -/

/-- The invariant of the pool. -/
structure Sound (s : State α) : Prop where
  exclusive : s.workers.countP Worker.holdsMtx ≤ 1
  parking : .parking ∈ s.workers → s.queue = []
  holding : .holding ∈ s.workers → s.shutdown = true ∨ s.queue ≠ []
  exited : .exited ∈ s.workers → s.shutdown = true
  fifo : s.enqueued = s.started ++ s.queue
  conserve : s.shutdown = false →
    min s.workers.length s.queue.length ≤ s.workers.countP Worker.awake + s.notifies

theorem Sound.start (count : Nat) : Sound (State.start (α := α) count) := by
  have houtside : ∀ w ∈ (State.start (α := α) count).workers, w = .outside := fun w hw =>
    List.eq_of_mem_replicate hw
  refine ⟨?_, ?_, ?_, ?_, rfl, fun _ => Nat.le_trans (Nat.min_le_right _ _) (Nat.zero_le _)⟩
  · rw [List.countP_eq_zero.mpr]
    · exact Nat.zero_le 1
    · intro w hw
      rw [houtside w hw]
      exact Bool.false_ne_true
  · exact fun hmem => absurd (houtside _ hmem) nofun
  · exact fun hmem => absurd (houtside _ hmem) nofun
  · exact fun hmem => absurd (houtside _ hmem) nofun

theorem mem_replace {before after : List (Worker α)} {v w w' : Worker α}
    (h : v ∈ before ++ w' :: after) (hne : v ≠ w') : v ∈ before ++ w :: after := by
  simp only [List.mem_append, List.mem_cons] at h ⊢
  exact h.imp_right fun h => .inr (h.resolve_left hne)

theorem countP_replace (p : Worker α → Bool) (before after : List (Worker α)) (w w' : Worker α) :
    (before ++ w' :: after).countP p + (if p w then 1 else 0) =
      (before ++ w :: after).countP p + (if p w' then 1 else 0) := by
  simp only [List.countP_append, List.countP_cons]
  omega

/-- `notify_all` changes the workers that are asleep. -/
theorem mem_notified {ws : List (Worker α)} {v : Worker α}
    (h : v ∈ ws.map fun w => if w.awake then w else .woken) (hne : v ≠ .woken) : v ∈ ws := by
  obtain ⟨w, hw, heq⟩ := List.mem_map.mp h
  split_ifs at heq
  · exact heq ▸ hw
  · exact absurd heq.symm hne

theorem holdsMtx_notified (w : Worker α) :
    Worker.holdsMtx (if w.awake then w else .woken) = w.holdsMtx := by
  cases w <;> rfl

namespace Sound

variable {before after : List (Worker α)} {w w' : Worker α}

theorem countP_of_free (hfree : s.MtxFree) : s.workers.countP Worker.holdsMtx = 0 := by
  apply List.countP_eq_zero.mpr
  intro w hw
  rw [hfree w hw]
  exact Bool.false_ne_true

theorem turn (h : Sound s) (hworkers : s.workers = before ++ w :: after) (hturn : Turn s l w w') :
    Sound { s with workers := before ++ w' :: after } := by
  have hmem : w ∈ s.workers := hworkers ▸ List.mem_append_right before List.mem_cons_self
  have hlength : (before ++ w' :: after).length = s.workers.length := by
    rw [hworkers, List.length_append, List.length_append, List.length_cons, List.length_cons]
  have hheld := countP_replace Worker.holdsMtx before after w w'
  have hawake := countP_replace Worker.awake before after w w'
  rw [← hworkers] at hheld hawake
  have hexclusive := h.exclusive
  refine ⟨?_, ?_, ?_, ?_, h.fifo, ?_⟩
  · dsimp only
    cases hturn with
    | lock hw hfree =>
        have hnone := countP_of_free hfree
        rcases hw with rfl | rfl <;>
          simp only [Worker.holdsMtx, Bool.false_eq_true, if_false, if_true, hnone] at hheld <;>
          omega
    | spurious | leave | enter | hold | wait | park | quit | finish =>
        simp only [Worker.holdsMtx, Bool.false_eq_true, if_false, if_true] at hheld
        omega
  · intro hpark
    dsimp only at hpark ⊢
    by_cases heq : .parking = w'
    · cases hturn with
      | wait _ hqueue => exact hqueue
      | lock hw | spurious | leave | enter | hold | park | quit | finish => cases heq
    · exact h.parking (hworkers ▸ mem_replace hpark heq)
  · intro hhold
    dsimp only at hhold ⊢
    by_cases heq : .holding = w'
    · cases hturn with
      | hold hready => exact hready
      | lock hw | spurious | leave | enter | wait | park | quit | finish => cases heq
    · exact h.holding (hworkers ▸ mem_replace hhold heq)
  · intro hexit
    dsimp only at hexit ⊢
    by_cases heq : .exited = w'
    · cases hturn with
      | leave hshutdown => exact hshutdown
      | quit hshutdown => exact hshutdown
      | lock hw | spurious | hold | enter | wait | park | finish => cases heq
    · exact h.exited (hworkers ▸ mem_replace hexit heq)
  · intro hopen
    have hconserve := h.conserve hopen
    dsimp only
    rw [hlength]
    cases hturn with
    | park =>
        -- a worker falls asleep in front of an empty queue
        rw [h.parking hmem]
        exact Nat.le_trans (Nat.min_le_right _ _) (Nat.zero_le _)
    | lock hw =>
        rcases hw with rfl | rfl <;> simp only [Worker.awake, if_true] at hawake <;> omega
    | spurious | leave | enter | hold | wait | quit | finish =>
        simp only [Worker.awake, Bool.false_eq_true, if_false, if_true] at hawake
        omega

theorem step (h : Sound s) (hstep : s.step l = some s') : Sound s' := by
  cases step_moves hstep with
  | @enqueue task hfree =>
      have hno : ∀ w, w ∈ s.workers → w.holdsMtx = true → False := fun w hw hheld =>
        Bool.false_ne_true ((hfree w hw).symm.trans hheld)
      refine ⟨h.exclusive, fun hpark => (hno _ hpark rfl).elim, fun hhold => (hno _ hhold rfl).elim,
        h.exited, ?_, fun hopen => ?_⟩
      · rw [h.fifo, List.append_assoc]
      · have := h.conserve hopen
        simp only [List.length_append, List.length_singleton]
        omega
  | @notifyOne i before after hworkers hpos =>
      have hturn := h.turn hworkers (Turn.spurious (i := i))
      refine ⟨hturn.exclusive, hturn.parking, hturn.holding, hturn.exited, hturn.fifo, ?_⟩
      intro hopen
      have hconserve := h.conserve hopen
      have hawake := countP_replace Worker.awake before after .asleep .woken
      rw [← hworkers] at hawake
      have hlength : (before ++ Worker.woken :: after).length = s.workers.length := by
        rw [hworkers, List.length_append, List.length_append, List.length_cons, List.length_cons]
      simp only [Worker.awake, Bool.false_eq_true, if_false, if_true] at hawake
      dsimp only
      omega
  | notifyNone hpos hall =>
      refine ⟨h.exclusive, h.parking, h.holding, h.exited, h.fifo, fun hopen => ?_⟩
      have hlength : s.workers.countP Worker.awake = s.workers.length :=
        List.countP_eq_length.mpr hall
      dsimp only
      omega
  | turn hworkers hturn => exact h.turn hworkers hturn
  | @take i before after task queue hworkers hopen hqueue =>
      have hheld := countP_replace Worker.holdsMtx before after .holding (.busy task)
      have hawake := countP_replace Worker.awake before after .holding (.busy task)
      rw [← hworkers] at hheld hawake
      have hexclusive := h.exclusive
      simp only [Worker.holdsMtx, Worker.awake, Bool.false_eq_true, if_false, if_true] at hheld hawake
      have hnone : (before ++ Worker.busy task :: after).countP Worker.holdsMtx = 0 := by omega
      have hno : ∀ w ∈ before ++ Worker.busy task :: after, w.holdsMtx = true → False :=
        fun w hw => List.countP_eq_zero.mp hnone w hw
      refine ⟨?_, fun hpark => (hno _ hpark rfl).elim, fun hhold => (hno _ hhold rfl).elim, ?_, ?_,
        fun _ => ?_⟩
      · rw [hnone]
        exact Nat.zero_le 1
      · exact fun hexit => h.exited (hworkers ▸ mem_replace hexit nofun)
      · rw [h.fifo, hqueue, List.append_assoc]
        rfl
      · have hconserve := h.conserve hopen
        have hlength : (before ++ Worker.busy task :: after).length = s.workers.length := by
          rw [hworkers, List.length_append, List.length_append, List.length_cons, List.length_cons]
        rw [hqueue, List.length_cons] at hconserve
        dsimp only
        omega
  | store hopen =>
      exact ⟨h.exclusive, h.parking, fun _ => .inl rfl, fun _ => rfl, h.fifo, nofun⟩
  | notifyAll hshutdown =>
      refine ⟨?_, fun hpark => h.parking (mem_notified hpark nofun),
        fun hhold => h.holding (mem_notified hhold nofun),
        fun hexit => h.exited (mem_notified hexit nofun), h.fifo, fun hopen => ?_⟩
      · have hcount : (s.workers.map fun w => if w.awake then w else .woken).countP
            Worker.holdsMtx = s.workers.countP Worker.holdsMtx := by
          rw [List.countP_map]
          exact List.countP_congr fun w _ => by simp [holdsMtx_notified]
        dsimp only
        rw [hcount]
        exact h.exclusive
      · exact absurd (hshutdown.symm.trans hopen) (by decide)

/-- Whoever holds `mtx_` can go on. -/
theorem holder_step (h : Sound s) {i : Nat} {w : Worker α} (hget : s.workers[i]? = some w)
    (hheld : w.holdsMtx = true) : ∃ l, l.ofWorker = true ∧ (s.step l).isSome = true := by
  cases w with
  | testing =>
      exact ⟨.test i, rfl, by simp only [State.step, hget, Option.isSome_some]⟩
  | parking =>
      exact ⟨.park i, rfl, by simp only [State.step, hget, Option.isSome_some]⟩
  | holding =>
      cases hshutdown : s.shutdown with
      | true =>
          exact ⟨.take i, rfl, by simp only [State.step, hget, hshutdown, if_true, Option.isSome_some]⟩
      | false =>
          have hready := h.holding (List.mem_of_getElem? hget)
          rw [hshutdown] at hready
          obtain ⟨task, queue, hqueue⟩ := List.exists_cons_of_ne_nil (hready.resolve_left nofun)
          exact ⟨.take i, rfl, by simp only [State.step, hget, hshutdown, hqueue, Bool.false_eq_true, if_false, Option.isSome_some]⟩
  | outside | locking | asleep | woken | busy | exited => cases hheld

/-- A worker that is awake can go on, or waits for one that can. -/
theorem progress (h : Sound s) {w : Worker α} (hw : w ∈ s.workers) (hawake : w.awake = true)
    (hexit : w ≠ .exited) : ∃ l, l.ofWorker = true ∧ (s.step l).isSome = true := by
  obtain ⟨i, hget⟩ := List.mem_iff_getElem?.mp hw
  by_cases hfree : s.MtxFree
  · cases w with
    | outside =>
        exact ⟨.loop i, rfl, by simp only [State.step, hget, Option.isSome_some]⟩
    | locking | woken =>
        exact ⟨.lock i, rfl, by simp only [State.step, hget, if_pos hfree, Option.isSome_some]⟩
    | busy task =>
        exact ⟨.finish i, rfl, by simp only [State.step, hget, Option.isSome_some]⟩
    | testing | parking | holding => exact h.holder_step hget rfl
    | asleep => cases hawake
    | exited => exact absurd rfl hexit
  · simp only [State.MtxFree, not_forall, Bool.not_eq_false] at hfree
    obtain ⟨v, hv, hheld⟩ := hfree
    obtain ⟨j, hgetv⟩ := List.mem_iff_getElem?.mp hv
    exact h.holder_step hgetv hheld

end Sound

theorem length_step (hstep : s.step l = some s') : s'.workers.length = s.workers.length := by
  cases step_moves hstep with
  | notifyOne hworkers | turn hworkers | take hworkers =>
      rw [hworkers, List.length_append, List.length_append, List.length_cons, List.length_cons]
  | notifyAll => exact List.length_map _
  | enqueue | notifyNone | store => rfl

theorem shutdown_step (hstep : s.step l = some s') (hl : l.ofPool = true) :
    s'.shutdown = s.shutdown ∧ s'.enqueued = s.enqueued := by
  cases step_moves hstep with
  | notifyOne | turn | take | notifyNone => exact ⟨rfl, rfl⟩
  | enqueue | store | notifyAll => cases hl

theorem Sound.of_run {count : Nat} {ls : List (Label α)}
    (hrun : run State.step (State.start count) ls = some s) : Sound s ∧ s.workers ≠ [] := by
  refine invariant_of_run (I := fun s => Sound s ∧ s.workers ≠ []) ?_ ⟨.start count, ?_⟩ hrun
  · rintro s l s' ⟨h, hsome⟩ hstep
    refine ⟨h.step hstep, ?_⟩
    rw [← List.length_pos_iff, length_step hstep]
    exact List.length_pos_iff.mpr hsome
  · rw [← List.length_pos_iff, State.start, List.length_replicate]
    split
    · exact Nat.one_pos
    · exact Nat.pos_of_ne_zero (by assumption)

/-! ## How far the pool is from its end -/

/-- The steps that are left to a worker until it sleeps or has left `worker_loop`. -/
def Worker.rank : Worker α → Nat
  | .asleep | .exited => 0
  | .parking | .holding => 1
  | .testing => 2
  | .locking | .woken => 3
  | .outside => 4
  | .busy _ => 5

def rankSum : List (Worker α) → Nat
  | [] => 0
  | w :: ws => w.rank + rankSum ws

/-- A task in the queue costs one round of a worker, a call of `notify_one` the rest of one. -/
def State.rank (s : State α) : Nat :=
  rankSum s.workers + 5 * s.queue.length + 4 * s.notifies

theorem rankSum_append (before after : List (Worker α)) :
    rankSum (before ++ after) = rankSum before + rankSum after := by
  induction before with
  | nil => exact (Nat.zero_add _).symm
  | cons w before ih => simp only [List.cons_append, rankSum, ih, Nat.add_assoc]

theorem rankSum_le (ws : List (Worker α)) : rankSum ws ≤ 5 * ws.length := by
  induction ws with
  | nil => exact Nat.le_refl 0
  | cons w ws ih =>
      have hw : w.rank ≤ 5 := by cases w <;> simp only [Worker.rank] <;> omega
      rw [rankSum, List.length_cons]
      omega

theorem rank_step (hl : l.ofPool = true) (hstep : s.step l = some s') : s'.rank < s.rank := by
  have hsum (before after : List (Worker α)) (w : Worker α) :
      rankSum (before ++ w :: after) = rankSum before + w.rank + rankSum after := by
    rw [rankSum_append, rankSum, Nat.add_assoc]
  cases step_moves hstep with
  | notifyOne hworkers hpos =>
      simp only [State.rank, hworkers, hsum, Worker.rank]
      omega
  | notifyNone hpos =>
      simp only [State.rank]
      omega
  | take hworkers _ hqueue =>
      simp only [State.rank, hworkers, hqueue, hsum, Worker.rank, List.length_cons]
      omega
  | turn hworkers hturn =>
      simp only [State.rank, hworkers, hsum]
      cases hturn with
      | spurious => cases hl
      | lock hw => rcases hw with rfl | rfl <;> simp only [Worker.rank] <;> omega
      | leave | enter | hold | wait | park | quit | finish =>
          simp only [Worker.rank]
          omega
  | enqueue | store | notifyAll => cases hl

theorem length_le {ms : List (Label α)} (hpool : ∀ l ∈ ms, l.ofPool = true)
    (hrun : run State.step s ms = some s') :
    ms.length ≤ 5 * (s.workers.length + s.queue.length) + 4 * s.notifies := by
  have hlength := length_add_rank_le (fun s l s' => rank_step) hpool hrun
  have hworkers := rankSum_le s.workers
  simp only [State.rank] at hlength
  omega

/-- Nothing is left to do for a pool that is not at its end. -/
theorem Sound.of_stuck (h : Sound s) (hsome : s.workers ≠ []) (hopen : s.shutdown = false)
    (hstuck : Stuck State.step (fun l => l.ofPool = true) s) :
    s.queue = [] ∧ ∀ w ∈ s.workers, w = .asleep := by
  have hasleep : ∀ w ∈ s.workers, w.awake = false := by
    intro w hw
    by_contra hawake
    have hexit : w ≠ .exited := by
      rintro rfl
      exact absurd ((h.exited hw).symm.trans hopen) (by decide)
    obtain ⟨l, hl, henabled⟩ := h.progress hw (by simpa using hawake) hexit
    rw [hstuck l (Label.ofPool_of_ofWorker hl)] at henabled
    cases henabled
  have hall : ∀ w ∈ s.workers, w = .asleep := by
    intro w hw
    have := hasleep w hw
    cases w with
    | asleep => rfl
    | outside | locking | testing | parking | woken | holding | busy | exited => cases this
  have hnone : s.workers.countP Worker.awake = 0 :=
    List.countP_eq_zero.mpr fun w hw => by rw [hasleep w hw]; exact Bool.false_ne_true
  have hquiet : s.notifies = 0 := by
    by_contra hpos
    obtain ⟨w, hw⟩ := List.exists_mem_of_ne_nil s.workers hsome
    obtain ⟨i, hget⟩ := List.mem_iff_getElem?.mp (hall w hw ▸ hw)
    have hdisabled := hstuck (.notifyOne i) rfl
    simp only [State.step, hget, if_pos (Nat.pos_of_ne_zero hpos)] at hdisabled
    cases hdisabled
  refine ⟨?_, hall⟩
  have hconserve := h.conserve hopen
  have hlength := List.length_pos_iff.mpr hsome
  exact List.length_eq_zero_iff.mp (by omega)

/-- Tasks start in the order of the calls of `enqueue`, each once, and until the end of the pool
none is lost: the steps of the workers and of `notify_one` come to an end after so many of them,
and when none is left every task has been started and all workers sleep. -/
theorem tasks_conserved {count : Nat} {ls : List (Label α)}
    (hrun : run State.step (State.start count) ls = some s) :
    s.enqueued = s.started ++ s.queue ∧
      ∀ ms t, (∀ l ∈ ms, l.ofPool = true) → run State.step s ms = some t →
        ms.length ≤ 5 * (s.workers.length + s.queue.length) + 4 * s.notifies ∧
        (s.shutdown = false → Stuck State.step (fun l => l.ofPool = true) t →
          t.started = s.enqueued ∧ ∀ w ∈ t.workers, w = .asleep) := by
  have h := (Sound.of_run hrun).1
  refine ⟨h.fifo, fun ms t hpool hrun' => ⟨length_le hpool hrun', fun hopen hstuck => ?_⟩⟩
  obtain ⟨ht, hsome⟩ := Sound.of_run (run_append hrun hrun')
  have hsame : t.shutdown = s.shutdown ∧ t.enqueued = s.enqueued := by
    refine invariant_of_labels (I := fun t => t.shutdown = s.shutdown ∧ t.enqueued = s.enqueued)
      ?_ ⟨rfl, rfl⟩ hpool hrun'
    rintro t l t' ⟨hshutdown, henqueued⟩ hl hstep
    obtain ⟨hshutdown', henqueued'⟩ := shutdown_step hstep hl
    exact ⟨hshutdown'.trans hshutdown, henqueued'.trans henqueued⟩
  obtain ⟨hqueue, hall⟩ := ht.of_stuck hsome (hsame.1.trans hopen) hstuck
  refine ⟨?_, hall⟩
  rw [← hsame.2, ht.fifo, hqueue, List.append_nil]

/-- A worker sleeps, one has a task, and the calls of `notify_one` for two more are to come. -/
theorem tasks_conserved_three :
    let s : State Nat := {
      workers := [.asleep, .busy 7]
      queue := [8, 9]
      notifies := 3
      enqueued := [7, 8, 9]
      started := [7] }
    s.enqueued = s.started ++ s.queue ∧
      ∀ ms t, (∀ l ∈ ms, l.ofPool = true) → run State.step s ms = some t →
        ms.length ≤ 5 * (s.workers.length + s.queue.length) + 4 * s.notifies ∧
        (s.shutdown = false → Stuck State.step (fun l => l.ofPool = true) t →
          t.started = s.enqueued ∧ ∀ w ∈ t.workers, w = .asleep) := by
  have hrun : run State.step (State.start 2)
      [.loop 0, .lock 0, .test 0, .park 0, .enqueue 7, .enqueue 8, .enqueue 9, .loop 1, .lock 1,
        .test 1, .take 1] = some {
      workers := [.asleep, .busy 7]
      queue := [8, 9]
      notifies := 3
      enqueued := [7, 8, 9]
      started := [7] } := rfl
  exact tasks_conserved hrun

/-! ## The end of the pool -/

/-- Behind `notify_all` no worker sleeps that was not between its test and its sleep before. -/
def Leaving (s : State α) : Prop :=
  s.shutdown = true ∧ ∀ w ∈ s.workers, w ≠ .parking ∧ w ≠ .asleep

theorem Leaving.notifyAll (hstep : s.step .notifyAll = some s') (hpark : .parking ∉ s.workers) :
    Leaving s' := by
  cases step_moves hstep with
  | turn _ hturn => cases hturn
  | notifyAll hshutdown =>
      refine ⟨hshutdown, fun w hw => ?_⟩
      obtain ⟨v, hv, rfl⟩ := List.mem_map.mp hw
      have hne : v ≠ .parking := fun heq => hpark (heq ▸ hv)
      cases v with
      | parking => exact absurd rfl hne
      | asleep | outside | locking | testing | woken | holding | busy | exited =>
          exact ⟨nofun, nofun⟩

theorem Leaving.step (h : Leaving s) (hl : l.ofWorker = true) (hstep : s.step l = some s') :
    Leaving s' := by
  obtain ⟨hshutdown, hawake⟩ := h
  cases step_moves hstep with
  | take _ hopen => exact absurd (hshutdown.symm.trans hopen) (by decide)
  | @turn _ before after w w' hworkers hturn =>
      have hmem : w ∈ s.workers := hworkers ▸ List.mem_append_right before List.mem_cons_self
      have hnew : w' ≠ .parking ∧ w' ≠ .asleep := by
        cases hturn with
        | spurious => cases hl
        | park => exact absurd rfl (hawake _ hmem).1
        | enter hopen => exact absurd (hshutdown.symm.trans hopen) (by decide)
        | wait hopen => exact absurd (hshutdown.symm.trans hopen) (by decide)
        | lock | leave | hold | quit | finish => exact ⟨nofun, nofun⟩
      refine ⟨hshutdown, fun v hv => ?_⟩
      by_cases heq : v = w'
      · exact heq ▸ hnew
      · exact hawake v (hworkers ▸ mem_replace hv heq)
  | enqueue | notifyOne | notifyNone | store | notifyAll => cases hl

/-- A worker on its way to sleep stays there if nobody wakes it. -/
theorem lost_step (h : ∃ w ∈ s.workers, w = .parking ∨ w = .asleep) (hl : l.ofWorker = true)
    (hstep : s.step l = some s') : ∃ w ∈ s'.workers, w = .parking ∨ w = .asleep := by
  obtain ⟨v, hv, hlost⟩ := h
  cases step_moves hstep with
  | take hworkers =>
      have hne : v ≠ .holding := by rintro rfl; exact hlost.elim nofun nofun
      exact ⟨v, mem_replace (hworkers ▸ hv) hne, hlost⟩
  | @turn _ before after w w' hworkers hturn =>
      by_cases heq : v = w
      · subst heq
        cases hturn with
        | spurious => cases hl
        | park => exact ⟨.asleep, List.mem_append_right _ List.mem_cons_self, .inr rfl⟩
        | lock hw => rcases hw with rfl | rfl <;> exact hlost.elim nofun nofun
        | leave | enter | hold | wait | quit | finish => exact hlost.elim nofun nofun
      · exact ⟨v, mem_replace (hworkers ▸ hv) heq, hlost⟩
  | enqueue | notifyOne | notifyNone | store | notifyAll => cases hl

/-- Behind `notify_all` the steps of the workers come to an end. `stop` then has joined every
worker, in whatever order they go on, if and only if no worker was between its test of `shutdown_`
and its sleep at `notify_all`: such a worker sleeps through it, as `stop` does not lock `mtx_`. -/
theorem stop_returns_iff {count : Nat} {ls : List (Label α)}
    (hrun : run State.step (State.start count) ls = some s)
    (hnotify : s.step .notifyAll = some s') :
    (∀ ms t, (∀ l ∈ ms, l.ofWorker = true) → run State.step s' ms = some t →
      ms.length ≤ 5 * (s'.workers.length + s'.queue.length) + 4 * s'.notifies) ∧
    ((∀ ms t, (∀ l ∈ ms, l.ofWorker = true) → run State.step s' ms = some t →
      Stuck State.step (fun l => l.ofWorker = true) t → ∀ w ∈ t.workers, w = .exited) ↔
        .parking ∉ s.workers) := by
  have h' : Sound s' := (Sound.of_run hrun).1.step hnotify
  refine ⟨fun ms t hworker hrun' => ?_, ?_⟩
  · exact length_le (fun l hl => Label.ofPool_of_ofWorker (hworker l hl)) hrun'
  constructor
  · intro hjoined hpark
    have hdrop (s : State α) (l : Label α) (s' : State α) (hl : l.ofWorker = true)
        (hstep : s.step l = some s') : s'.rank < s.rank :=
      rank_step (Label.ofPool_of_ofWorker hl) hstep
    obtain ⟨ms, t, hworker, hrun', hstuck⟩ := exists_run_stuck hdrop s'
    have hlost : ∃ w ∈ s'.workers, w = .parking ∨ w = .asleep := by
      cases step_moves hnotify with
      | turn _ hturn => cases hturn
      | notifyAll => exact ⟨.parking, List.mem_map.mpr ⟨.parking, hpark, rfl⟩, .inl rfl⟩
    obtain ⟨w, hw, hasleep⟩ := invariant_of_labels (p := fun l => l.ofWorker = true)
      (fun s l s' hlost hl hstep => lost_step hlost hl hstep) hlost hworker hrun'
    rw [hjoined ms t hworker hrun' hstuck w hw] at hasleep
    exact hasleep.elim nofun nofun
  · intro hpark ms t hworker hrun' hstuck w hw
    obtain ⟨ht, hleaving⟩ := invariant_of_labels (I := fun t => Sound t ∧ Leaving t)
      (p := fun l => l.ofWorker = true)
      (fun s l s' h hl hstep => ⟨h.1.step hstep, h.2.step hl hstep⟩)
      ⟨h', .notifyAll hnotify hpark⟩ hworker hrun'
    by_contra hexit
    have hawake : w.awake = true := by
      cases w with
      | asleep => exact absurd rfl (hleaving.2 _ hw).2
      | outside | locking | testing | parking | woken | holding | busy | exited => rfl
    obtain ⟨l, hl, henabled⟩ := ht.progress hw hawake hexit
    rw [hstuck l hl] at henabled
    cases henabled

/-- A pool with one worker whose `stop` waits for ever. -/
theorem stop_returns_iff_lost :
    ¬ ∀ ms t, (∀ l ∈ ms, l.ofWorker = true) →
      run State.step
        ({ workers := [.parking], shutdown := true, joining := true } : State Nat) ms = some t →
      Stuck State.step (fun l => l.ofWorker = true) t → ∀ w ∈ t.workers, w = .exited := by
  have hrun : run State.step (State.start 1) [.loop 0, .lock 0, .test 0, .store] =
      some ({ workers := [.parking], shutdown := true } : State Nat) := rfl
  exact fun hjoined => (stop_returns_iff hrun rfl).2.mp hjoined List.mem_cons_self

end PipelineTunnel.Workers
