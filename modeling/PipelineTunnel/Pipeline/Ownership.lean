import PipelineTunnel.Lib.CString
import PipelineTunnel.Lib.Ledger
import PipelineTunnel.Lib.StepSystem
import PipelineTunnel.Pipeline.Model

/-!
# Who releases a buffer

`push_packet`, `enqueue_module` and `write_packet_impl` of `core/chain.cpp` over chains of
`core/modules/copy.cpp`: a buffer from `alloc_buffer` travels through the chain, and
every function on the way releases it in some of its branches.

## Implementation notes

A worker advances by one action at a time, so the calls of all workers interleave in every
way; the mutexes only rule out some of these interleavings. `_inflight` is the number of
tasks. The result of `wire_write` and whether `malloc` returns a buffer are part of the
action. The bytes of a packet and the trace output are left out. `none` is the use of a
null pointer.
-/

namespace PipelineTunnel.Ownership

open Pipeline (Chain Dir construct pushPacket writePacket)
open StepSystem

/-- `builtin_copy_ctx`. -/
structure CopyCtx where
  modeCopy : Bool := false
deriving DecidableEq, Repr

/-- `builtin_copy_init`. -/
def builtinCopyInit (config : List Char) : CopyCtx :=
  match CString.strstr config ['m', ':'] with
  | some (_ :: _ :: c :: _) => { modeCopy := (c = 'c' ∨ c = 'm') ∧ c = 'c' }
  | _ => {}

/-- The chain of the copy modules with the given configurations; `init` always returns a
context and asks for no outputs. -/
def copyChain (configs : List (List Char)) : Chain CopyCtx :=
  construct (fun _ i => configs[i]?.map fun config => (builtinCopyInit config, 0))
    configs.length fun _ requests => requests

/-- Where the worker of a task is. -/
inductive Phase where
  /-- Before the test of `_cancelled`. -/
  | queued
  /-- At the start of `process`. -/
  | entered
  /-- Behind the `memcpy` to the buffer `cp`. -/
  | copied (cp : Nat)
  /-- In `write_packet_impl` with the buffer `buf`. -/
  | writing (buf : Nat)
  /-- Behind `wire_write`. -/
  | written (buf : Nat) (ret : Int)
  /-- Behind `process`. -/
  | returned (ret : Int)
deriving DecidableEq, Repr

/-- A task of `enqueue_module`. -/
structure WorkTask where
  mod : Nat
  data : Nat
  len : Nat
  srcIdx : Int
  dir : Dir
  phase : Phase := .queued
deriving DecidableEq, Repr

structure State where
  ledger : Ledger
  tasks : List WorkTask := []
  cancelled : Bool := false
  ownerAlive : Bool := true
deriving DecidableEq, Repr

inductive Action where
  /-- `alloc_buffer` and `push_packet` of the first `len` bytes. -/
  | push (size len : Nat) (srcIdx : Int) (dir : Dir)
  | cancel
  /-- The last reference to the owner goes away. -/
  | expire
  /-- The next action of the worker of task `i`. -/
  | work (i : Nat) (mallocOk : Bool) (wireRet : Int)
deriving DecidableEq, Repr

namespace State

def free (s : State) (b : Nat) : State := { s with ledger := s.ledger.free b }

def setPhase (s : State) (i : Nat) (t : WorkTask) (phase : Phase) : State :=
  { s with tasks := s.tasks.set i { t with phase := phase } }

/-- `task_done`. -/
def taskDone (s : State) (i : Nat) : State := { s with tasks := s.tasks.eraseIdx i }

/-- `enqueue_module`. -/
def enqueueModule (s : State) (mod data len : Nat) (srcIdx : Int) (dir : Dir) : State :=
  if s.ownerAlive then { s with tasks := s.tasks ++ [⟨mod, data, len, srcIdx, dir, .queued⟩] }
  else s.free data

/-- `push_packet` of a new buffer. -/
def push (ch : Chain CopyCtx) (s : State) (size len : Nat) (srcIdx : Int) (dir : Dir) :
    Option State :=
  let data := s.ledger.next
  let s := { s with ledger := s.ledger.alloc size }
  match pushPacket ch s.cancelled s.ownerAlive srcIdx dir with
  | .dropped => some (s.free data)
  | .passThrough _ => some (s.free data)
  | .enqueued first => some (s.enqueueModule first data len srcIdx dir)
  | .null => none

/-- The body of the task of `enqueue_module`, around `builtin_copy_process` and
`write_packet_impl`. -/
def work (ch : Chain CopyCtx) (s : State) (i : Nat) (t : WorkTask) (mallocOk : Bool)
    (wireRet : Int) : Option State :=
  match t.phase with
  | .queued =>
      if s.cancelled then some ((s.free t.data).taskDone i) else some (s.setPhase i t .entered)
  | .entered =>
      match ch.modules[t.mod]? with
      | none => none
      | some mod =>
          if t.len ≤ 0 then some (s.setPhase i t (.returned (-1)))
          else if mod.ctx.modeCopy then
            if mallocOk then
              some ({ s with ledger := s.ledger.alloc t.len }.setPhase i t (.copied s.ledger.next))
            else some (s.setPhase i t (.returned (-1)))
          else some (s.setPhase i t (.writing t.data))
  | .copied cp => some ((s.free t.data).setPhase i t (.writing cp))
  | .writing buf =>
      match ch.modules[t.mod]? with
      | none => none
      | some mod =>
          match writePacket mod (if t.dir = .encode then 1 else 0) with
          | .toModule next dir =>
              some ((s.setPhase i t (.returned 0)).enqueueModule next buf t.len t.srcIdx dir)
          | .toWire _ => some (s.setPhase i t (.written buf wireRet))
  | .written buf ret => some ((s.free buf).setPhase i t (.returned ret))
  | .returned ret =>
      if ret < 0 then some ((s.free t.data).taskDone i) else some (s.taskDone i)

/-- A new chain whose counter stands at `base`. -/
def start (base : Int) : State := { ledger := { bytes := base } }

/-- `is_drained`. -/
def Drained (s : State) : Prop := s.tasks = []

instance (s : State) : Decidable s.Drained := inferInstanceAs (Decidable (s.tasks = []))

end State

def step (ch : Chain CopyCtx) (s : State) : Action → Option State
  | .push size len srcIdx dir => s.push ch size len srcIdx dir
  | .cancel => some { s with cancelled := true }
  | .expire => some { s with ownerAlive := false }
  | .work i mallocOk wireRet =>
      match s.tasks[i]? with
      | none => none
      | some t => s.work ch i t mallocOk wireRet

/-- Every buffer was released exactly once when the chain is drained in `s`, the counter
stands where it stood before the pushes, and it was never below that. -/
structure ReleasedOnce (ch : Chain CopyCtx) (base : Int) (acts : List Action) (s : State) :
    Prop where
  once : ∀ b < s.ledger.next, s.ledger.released.count b = 1
  restored : s.ledger.bytes = base
  above : ∀ done s', done <+: acts → run (step ch) (.start base) done = some s' →
    base ≤ s'.ledger.bytes

/-- The next action of the task's worker calls `wire_write`. -/
def leavesChain (ch : Chain CopyCtx) (t : WorkTask) : Bool :=
  match t.phase, ch.modules[t.mod]? with
  | .writing _, some mod =>
      match writePacket mod (if t.dir = .encode then 1 else 0) with
      | .toModule _ _ => false
      | .toWire _ => true
  | _, _ => false

/-- If the action calls `wire_write` for a task, the call does not fail. -/
def WriteSucceeds (ch : Chain CopyCtx) (s : State) : Action → Prop
  | .work i _ wireRet => ∀ t ∈ s.tasks[i]?, leavesChain ch t → 0 ≤ wireRet
  | _ => True

instance (ch : Chain CopyCtx) (s : State) : ∀ a, Decidable (WriteSucceeds ch s a)
  | .work i _ wireRet =>
      inferInstanceAs (Decidable (∀ t ∈ s.tasks[i]?, leavesChain ch t → 0 ≤ wireRet))
  | .push .. | .cancel | .expire => isTrue trivial

/-! ## Who owes a release -/

variable {ch : Chain CopyCtx} {s s' : State} {base : Int}

/-- The releases that a task still has to make. -/
def owed (t : WorkTask) : List Nat :=
  match t.phase with
  | .queued | .entered => [t.data]
  | .copied cp => [t.data, cp]
  | .writing buf => [buf]
  | .written buf ret => if ret < 0 then [buf, t.data] else [buf]
  | .returned ret => if ret < 0 then [t.data] else []

/-- The releases of a buffer that were made or are owed. -/
def claims (s : State) (b : Nat) : Nat :=
  s.ledger.released.count b + (s.tasks.flatMap owed).count b

/-- The release that an action adds to what the buffer needs: a failed `wire_write` makes
`enqueue_module` release the packet that `write_packet_impl` or the module releases too. -/
def surplus (ch : Chain CopyCtx) (s : State) : Action → List Nat
  | .work i _ wireRet =>
      match s.tasks[i]? with
      | some t => if leavesChain ch t ∧ wireRet < 0 then [t.data] else []
      | none => []
  | _ => []

theorem claims_free (s : State) (b c : Nat) : claims (s.free b) c = claims s c + [b].count c := by
  simp only [claims, State.free, Ledger.released_free, List.count_append]
  omega

theorem claims_setPhase {i : Nat} {t : WorkTask} (ht : s.tasks[i]? = some t) (phase : Phase)
    (b : Nat) : claims (s.setPhase i t phase) b + (owed t).count b =
      claims s b + (owed { t with phase := phase }).count b := by
  have hset := Ledger.count_owed_set owed ht { t with phase := phase } b
  simp only [claims, State.setPhase]
  omega

theorem claims_taskDone {i : Nat} {t : WorkTask} (ht : s.tasks[i]? = some t) (b : Nat) :
    claims (s.taskDone i) b + (owed t).count b = claims s b := by
  have herase := Ledger.count_owed_eraseIdx owed ht b
  simp only [claims, State.taskDone]
  omega

theorem claims_enqueueModule (s : State) (mod data len : Nat) (srcIdx : Int) (dir : Dir) (b : Nat) :
    claims (s.enqueueModule mod data len srcIdx dir) b = claims s b + [data].count b := by
  by_cases halive : s.ownerAlive
  · simp only [State.enqueueModule, if_pos halive, claims, List.flatMap_append,
      List.flatMap_singleton, List.count_append, owed]
    omega
  · rw [State.enqueueModule, if_neg halive, claims_free]

/-- The counter is right, and the tasks know only buffers that were handed out. -/
structure Sound (base : Int) (s : State) : Prop where
  accounts : s.ledger.Accounts base
  known : ∀ t ∈ s.tasks, t.data < s.ledger.next ∧ ∀ b ∈ owed t, b < s.ledger.next

namespace Sound

theorem alloc (h : Sound base s) (n : Nat) :
    Sound base { s with ledger := s.ledger.alloc n } where
  accounts := h.accounts.alloc n
  known t ht := by
    obtain ⟨hdata, howed⟩ := h.known t ht
    simp only [Ledger.next_alloc]
    exact ⟨by omega, fun b hb => Nat.lt_succ_of_lt (howed b hb)⟩

theorem free (h : Sound base s) {b : Nat} (hb : b < s.ledger.next) : Sound base (s.free b) where
  accounts := h.accounts.free hb
  known := h.known

theorem setPhase (h : Sound base s) {i : Nat} {t : WorkTask} {phase : Phase}
    (ht : s.tasks[i]? = some t)
    (howed : ∀ b ∈ owed { t with phase := phase }, b < s.ledger.next) :
    Sound base (s.setPhase i t phase) where
  accounts := h.accounts
  known u hu := by
    rcases List.mem_or_eq_of_mem_set hu with hu | rfl
    · exact h.known u hu
    · exact ⟨(h.known t (List.mem_of_getElem? ht)).1, howed⟩

theorem taskDone (h : Sound base s) (i : Nat) : Sound base (s.taskDone i) where
  accounts := h.accounts
  known u hu := h.known u (List.mem_of_mem_eraseIdx hu)

theorem enqueueModule (h : Sound base s) {data : Nat} (hdata : data < s.ledger.next)
    (mod len : Nat) (srcIdx : Int) (dir : Dir) :
    Sound base (s.enqueueModule mod data len srcIdx dir) := by
  by_cases halive : s.ownerAlive
  · rw [State.enqueueModule, if_pos halive]
    refine ⟨h.accounts, fun u hu => ?_⟩
    rcases List.mem_append.mp hu with hu | hu
    · exact h.known u hu
    · obtain rfl := List.mem_singleton.mp hu
      exact ⟨hdata, fun b hb => List.mem_singleton.mp hb ▸ hdata⟩
  · rw [State.enqueueModule, if_neg halive]
    exact h.free hdata

end Sound

/-! ## One action -/

/-- What an action does to the claims on a buffer: a new buffer has one claim, and a failed
`wire_write` adds one to the packet of its task. -/
structure Booked (base : Int) (s : State) (surplus : List Nat) (s' : State) : Prop where
  sound : Sound base s'
  next : s.ledger.next ≤ s'.ledger.next
  claims : ∀ b, claims s' b = claims s b +
    (if s.ledger.next ≤ b ∧ b < s'.ledger.next then 1 else 0) + surplus.count b

/-- The number of claims after an action that hands out no buffer. -/
theorem Booked.of_same {extra : List Nat} (hs : Sound base s')
    (hnext : s'.ledger.next = s.ledger.next)
    (hclaims : ∀ b, Ownership.claims s' b = Ownership.claims s b + extra.count b) :
    Booked base s extra s' where
  sound := hs
  next := hnext.ge
  claims b := by
    rw [if_neg (by omega), hclaims]
    omega

/-- The claim that comes with the buffer `n`. -/
theorem count_next (n b : Nat) : [n].count b = if n ≤ b ∧ b < n + 1 then 1 else 0 := by
  rw [List.count_singleton]
  by_cases hb : n = b
  · simp [hb]
  · rw [if_neg (by simpa using hb), if_neg (by omega)]

theorem push_booked (h : Sound base s) {size len : Nat} {srcIdx : Int} {dir : Dir}
    (hstep : s.push ch size len srcIdx dir = some s') : Booked base s [] s' := by
  have hnew := h.alloc size
  set t : State := { s with ledger := s.ledger.alloc size } with ht
  have hlt : s.ledger.next < t.ledger.next := by simp [ht]
  have hbook : ∀ u : State, Sound base u → u.ledger.next = t.ledger.next →
      (∀ b, claims u b = claims t b + [s.ledger.next].count b) → Booked base s [] u := by
    intro u hu hnext hclaims
    refine ⟨hu, by omega, fun b => ?_⟩
    rw [hclaims, hnext, show t.ledger.next = s.ledger.next + 1 by simp [ht], ← count_next]
    rfl
  simp only [State.push, ← ht] at hstep
  split at hstep
  case h_1 | h_2 =>
      obtain rfl := Option.some.inj hstep
      exact hbook _ (hnew.free hlt) rfl (claims_free t s.ledger.next)
  case h_3 first _ =>
      obtain rfl := Option.some.inj hstep
      refine hbook _ (hnew.enqueueModule hlt first len srcIdx dir) ?_
        (claims_enqueueModule t first s.ledger.next len srcIdx dir)
      rw [State.enqueueModule]
      split <;> rfl
  case h_4 => cases hstep

section Work

variable {i : Nat} {t : WorkTask} {phase : Phase}

/-- The task goes on; what it owes grows by `extra`. -/
theorem booked_setPhase {extra : List Nat} (h : Sound base s) (ht : s.tasks[i]? = some t)
    (hnew : ∀ b ∈ owed { t with phase := phase }, b < s.ledger.next)
    (howed : ∀ b, (owed { t with phase := phase }).count b = (owed t).count b + extra.count b) :
    Booked base s extra (s.setPhase i t phase) := by
  refine .of_same (h.setPhase ht hnew) rfl fun b => ?_
  have hset := claims_setPhase ht phase b
  rw [howed b] at hset
  omega

/-- The task releases `buf` and goes on. -/
theorem booked_free_setPhase {buf : Nat} (h : Sound base s) (ht : s.tasks[i]? = some t)
    (hbuf : buf < s.ledger.next)
    (hnew : ∀ b ∈ owed { t with phase := phase }, b < s.ledger.next)
    (howed : ∀ b, (owed t).count b = (owed { t with phase := phase }).count b + [buf].count b) :
    Booked base s [] ((s.free buf).setPhase i t phase) := by
  refine .of_same ((h.free hbuf).setPhase ht hnew) rfl fun b => ?_
  have hset := claims_setPhase (s := s.free buf) ht phase b
  rw [claims_free, howed b] at hset
  rw [List.count_nil]
  omega

/-- The task ends after it has released its packet. -/
theorem booked_free_taskDone (h : Sound base s) (ht : s.tasks[i]? = some t)
    (howed : owed t = [t.data]) : Booked base s [] ((s.free t.data).taskDone i) := by
  have hdata := (h.known t (List.mem_of_getElem? ht)).1
  refine .of_same ((h.free hdata).taskDone i) rfl fun b => ?_
  have hdone := claims_taskDone (s := s.free t.data) ht b
  rw [claims_free, howed] at hdone
  rw [List.count_nil]
  omega

/-- `process` starts: the copy module fails, takes a new buffer or goes on with the packet. -/
theorem entered_booked {mallocOk : Bool} {wireRet : Int} (h : Sound base s)
    (ht : s.tasks[i]? = some t) (hphase : t.phase = .entered)
    (hstep : s.work ch i t mallocOk wireRet = some s') : Booked base s [] s' := by
  have hdata := (h.known t (List.mem_of_getElem? ht)).1
  have howed : owed t = [t.data] := by rw [owed, hphase]
  have hkeep : ∀ phase, owed { t with phase := phase } = [t.data] →
      Booked base s [] (s.setPhase i t phase) := by
    intro phase hsame
    refine booked_setPhase h ht ?_ fun b => by rw [hsame, howed, List.count_nil, add_zero]
    intro b hb
    rw [hsame, List.mem_singleton] at hb
    exact hb ▸ hdata
  simp only [State.work, hphase] at hstep
  split at hstep
  · cases hstep
  split at hstep
  · obtain rfl := Option.some.inj hstep
    exact hkeep _ rfl
  split at hstep
  · split at hstep
    · obtain rfl := Option.some.inj hstep
      set u : State := { s with ledger := s.ledger.alloc t.len } with hu
      have hnext : u.ledger.next = s.ledger.next + 1 := by simp [hu]
      refine ⟨(h.alloc t.len).setPhase ht ?_, ?_, fun b => ?_⟩
      · intro b hb
        simp only [owed, List.mem_cons, List.not_mem_nil, or_false] at hb
        rw [Ledger.next_alloc]
        rcases hb with hb | hb <;> omega
      · exact hnext ▸ Nat.le_succ s.ledger.next
      · have hset := claims_setPhase (s := u) ht (.copied s.ledger.next) b
        rw [howed, show claims u b = claims s b from rfl,
          show owed { t with phase := .copied s.ledger.next } = [t.data, s.ledger.next] from rfl,
          Ledger.count_cons_split t.data [s.ledger.next]] at hset
        change _ = _ + (if s.ledger.next ≤ b ∧ b < u.ledger.next then 1 else 0) + _
        rw [hnext, List.count_nil, ← count_next]
        omega
    · obtain rfl := Option.some.inj hstep
      exact hkeep _ rfl
  · obtain rfl := Option.some.inj hstep
    exact hkeep _ rfl

/-- `write_packet_impl`: the buffer goes to the next task, or to `wire_write`, whose failure
leaves the packet of the task with one release too many. -/
theorem writing_booked {mallocOk : Bool} {wireRet : Int} {buf : Nat} (h : Sound base s)
    (ht : s.tasks[i]? = some t) (hphase : t.phase = .writing buf)
    (hstep : s.work ch i t mallocOk wireRet = some s') :
    Booked base s (if leavesChain ch t ∧ wireRet < 0 then [t.data] else []) s' := by
  obtain ⟨hdata, hknown⟩ := h.known t (List.mem_of_getElem? ht)
  have howed : owed t = [buf] := by rw [owed, hphase]
  have hbuf : buf < s.ledger.next := hknown buf (howed ▸ List.mem_singleton.mpr rfl)
  simp only [State.work, hphase] at hstep
  simp only [leavesChain, hphase]
  split at hstep
  · cases hstep
  case h_2 m hm =>
    simp only [hm]
    split at hstep
    case h_1 next d hd =>
      obtain rfl := Option.some.inj hstep
      have hret : Sound base (s.setPhase i t (.returned 0)) := h.setPhase ht (by simp [owed])
      refine .of_same (hret.enqueueModule hbuf next t.len t.srcIdx d) ?_ fun b => ?_
      · rw [State.enqueueModule]
        split <;> rfl
      · have hset := claims_setPhase ht (.returned 0) b
        rw [howed, show owed { t with phase := .returned 0 } = [] from rfl] at hset
        rw [claims_enqueueModule]
        simpa using hset
    case h_2 dst hd =>
      obtain rfl := Option.some.inj hstep
      by_cases hneg : wireRet < 0
      · have hnew : owed { t with phase := .written buf wireRet } = [buf, t.data] := if_pos hneg
        simp only [hneg, and_self, if_true]
        refine booked_setPhase h ht ?_ fun b => ?_
        · intro b hb
          rw [hnew, List.mem_cons, List.mem_singleton] at hb
          rcases hb with rfl | rfl
          · exact hbuf
          · exact hdata
        · rw [hnew, howed, Ledger.count_cons_split]
      · have hnew : owed { t with phase := .written buf wireRet } = [buf] := if_neg hneg
        simp only [hneg, and_false, if_false]
        refine booked_setPhase h ht ?_ fun b => by rw [hnew, howed, List.count_nil, add_zero]
        intro b hb
        rw [hnew, List.mem_singleton] at hb
        exact hb ▸ hbuf

/-- An action of a worker: every branch releases what it no longer owes. -/
theorem work_booked {mallocOk : Bool} {wireRet : Int} (h : Sound base s)
    (ht : s.tasks[i]? = some t) (hstep : s.work ch i t mallocOk wireRet = some s') :
    Booked base s (if leavesChain ch t ∧ wireRet < 0 then [t.data] else []) s' := by
  obtain ⟨hdata, hknown⟩ := h.known t (List.mem_of_getElem? ht)
  cases hphase : t.phase with
  | queued =>
      have howed : owed t = [t.data] := by rw [owed, hphase]
      simp only [State.work, hphase] at hstep
      simp only [leavesChain, hphase, Bool.false_eq_true, false_and, if_false]
      split at hstep
      · obtain rfl := Option.some.inj hstep
        exact booked_free_taskDone h ht howed
      · obtain rfl := Option.some.inj hstep
        refine booked_setPhase h ht (fun b hb => hknown b (howed ▸ hb)) fun b => ?_
        rw [howed, owed, List.count_nil, add_zero]
  | entered =>
      simpa [leavesChain, hphase] using entered_booked h ht hphase hstep
  | copied cp =>
      have howed : owed t = [t.data, cp] := by rw [owed, hphase]
      simp only [State.work, hphase] at hstep
      simp only [leavesChain, hphase, Bool.false_eq_true, false_and, if_false]
      obtain rfl := Option.some.inj hstep
      refine booked_free_setPhase h ht hdata ?_ fun b => ?_
      · exact fun b hb => hknown b (howed ▸ List.mem_cons_of_mem _ hb)
      · rw [howed, Ledger.count_cons_split, Nat.add_comm]
        rfl
  | writing buf => exact writing_booked h ht hphase hstep
  | written buf ret =>
      simp only [State.work, hphase] at hstep
      simp only [leavesChain, hphase, Bool.false_eq_true, false_and, if_false]
      obtain rfl := Option.some.inj hstep
      have hsplit : owed t = buf :: owed { t with phase := .returned ret } := by
        rw [owed, hphase]
        simp only [owed]
        split <;> rfl
      refine booked_free_setPhase h ht (hknown buf (hsplit ▸ List.mem_cons_self)) ?_ fun b => ?_
      · exact fun b hb => hknown b (hsplit ▸ List.mem_cons_of_mem _ hb)
      · rw [hsplit, Ledger.count_cons_split, Nat.add_comm]
  | returned ret =>
      simp only [State.work, hphase] at hstep
      simp only [leavesChain, hphase, Bool.false_eq_true, false_and, if_false]
      split at hstep
      case isTrue hneg =>
        obtain rfl := Option.some.inj hstep
        exact booked_free_taskDone h ht (by rw [owed, hphase]; exact if_pos hneg)
      case isFalse hneg =>
        obtain rfl := Option.some.inj hstep
        have howed : owed t = [] := by rw [owed, hphase]; exact if_neg hneg
        refine .of_same (h.taskDone i) rfl fun b => ?_
        have hdone := claims_taskDone ht b
        rwa [howed] at hdone

end Work

theorem step_booked (h : Sound base s) {a : Action} (hstep : step ch s a = some s') :
    Booked base s (surplus ch s a) s' := by
  cases a with
  | push size len srcIdx dir => exact push_booked h hstep
  | cancel =>
      obtain rfl := Option.some.inj hstep
      exact .of_same ⟨h.accounts, h.known⟩ rfl fun b => rfl
  | expire =>
      obtain rfl := Option.some.inj hstep
      exact .of_same ⟨h.accounts, h.known⟩ rfl fun b => rfl
  | work i mallocOk wireRet =>
      simp only [step] at hstep
      split at hstep
      · cases hstep
      case h_2 t ht =>
        simp only [surplus, ht]
        exact work_booked h ht hstep

theorem surplus_eq_nil_iff {a : Action} : surplus ch s a = [] ↔ WriteSucceeds ch s a := by
  cases a with
  | push _ _ _ _ => simp [surplus, WriteSucceeds]
  | cancel => simp [surplus, WriteSucceeds]
  | expire => simp [surplus, WriteSucceeds]
  | work i _ wireRet =>
      simp only [surplus, WriteSucceeds, Option.mem_def]
      cases ht : s.tasks[i]? with
      | none => simp
      | some t => simp

theorem Sound.surplus_known (h : Sound base s) {a : Action} {b : Nat} (hb : b ∈ surplus ch s a) :
    b < s.ledger.next := by
  cases a with
  | push _ _ _ _ => cases hb
  | cancel => cases hb
  | expire => cases hb
  | work i _ wireRet =>
      simp only [surplus] at hb
      split at hb
      case h_1 t ht =>
        split at hb
        · obtain rfl := List.mem_singleton.mp hb
          exact (h.known t (List.mem_of_getElem? ht)).1
        · cases hb
      case h_2 => cases hb

/-- Nobody has a claim on a buffer that was not handed out. -/
theorem Sound.claims_eq_zero (h : Sound base s) {b : Nat} (hb : s.ledger.next ≤ b) :
    claims s b = 0 := by
  have hreleased : b ∉ s.ledger.released := fun hmem => absurd (h.accounts.known b hmem) (by omega)
  have howed : b ∉ s.tasks.flatMap owed := by
    intro hmem
    obtain ⟨t, ht, hbt⟩ := List.mem_flatMap.mp hmem
    have := (h.known t ht).2 b hbt
    omega
  rw [claims, List.count_eq_zero_of_not_mem hreleased, List.count_eq_zero_of_not_mem howed]

/-! ## Runs -/

/-- Every buffer has exactly one claim: a release that was made or one that is owed. -/
structure Single (base : Int) (s : State) : Prop where
  sound : Sound base s
  single : ∀ b < s.ledger.next, claims s b = 1

theorem Sound.start (base : Int) : Sound base (.start base) :=
  ⟨.empty base, by simp [State.start]⟩

theorem Single.start (base : Int) : Single base (.start base) :=
  ⟨.start base, fun b hb => absurd hb (Nat.not_lt_zero b)⟩

theorem Single.step (h : Single base s) {a : Action} (hok : WriteSucceeds ch s a)
    (hstep : step ch s a = some s') : Single base s' := by
  have hbook := step_booked h.sound hstep
  rw [surplus_eq_nil_iff.mpr hok] at hbook
  refine ⟨hbook.sound, fun b hb => ?_⟩
  have hclaims := hbook.claims b
  rw [List.count_nil, add_zero] at hclaims
  by_cases hold : b < s.ledger.next
  · rw [hclaims, h.single b hold, if_neg (by omega)]
  · rw [hclaims, h.sound.claims_eq_zero (by omega), if_pos (by omega)]

theorem Single.base_le (h : Single base s) : base ≤ s.ledger.bytes := by
  apply h.sound.accounts.base_le
  intro b
  have hle : s.ledger.released.count b ≤ claims s b := Nat.le_add_right _ _
  by_cases hb : b < s.ledger.next
  · exact h.single b hb ▸ hle
  · have := h.sound.claims_eq_zero (b := b) (by omega)
    omega

/-- Claims do not go away, so a run that ends with one claim on every buffer has had no
failed write. -/
theorem meets_of_single {acts : List Action} (h : Sound base s)
    (hclaimed : ∀ b < s.ledger.next, 1 ≤ claims s b)
    (hrun : run (step ch) s acts = some s') (hone : ∀ b < s'.ledger.next, claims s' b = 1) :
    Meets (step ch) (WriteSucceeds ch) s acts ∧ ∀ b < s.ledger.next, claims s b = 1 := by
  induction acts generalizing s with
  | nil =>
      obtain rfl := Option.some.inj hrun
      exact ⟨trivial, hone⟩
  | cons a acts ih =>
      obtain ⟨t, ht, hrest⟩ := run_cons_some hrun
      have hbook := step_booked h ht
      have hnext := hbook.next
      have hclaimed' : ∀ b < t.ledger.next, 1 ≤ claims t b := by
        intro b hb
        rw [hbook.claims b]
        by_cases hold : b < s.ledger.next
        · have := hclaimed b hold
          omega
        · rw [if_pos (by omega)]
          omega
      obtain ⟨hmeets, hsingle⟩ := ih hbook.sound hclaimed' hrest
      have hnone : ∀ b < s.ledger.next, (surplus ch s a).count b = 0 ∧ claims s b = 1 := by
        intro b hb
        have hclaims := hbook.claims b
        have hge := hclaimed b hb
        rw [hsingle b (by omega)] at hclaims
        omega
      have hnil : surplus ch s a = [] := by
        rw [List.eq_nil_iff_forall_not_mem]
        intro b hb
        exact List.count_eq_zero.mp (hnone b (h.surplus_known hb)).1 hb
      refine ⟨⟨surplus_eq_nil_iff.mp hnil, fun t' ht' => ?_⟩, fun b hb => (hnone b hb).2⟩
      obtain rfl := Option.some.inj (ht.symm.trans ht')
      exact hmeets

theorem claims_of_drained (h : s.Drained) (b : Nat) : claims s b = s.ledger.released.count b := by
  rw [claims, show s.tasks = [] from h]
  rfl

/-- In a drained chain every buffer was released exactly once, with the counter back where
it was and never below, if and only if no `wire_write` of the run failed. -/
theorem releasedOnce_iff (configs : List (List Char)) {acts : List Action}
    (hrun : run (step (copyChain configs)) (.start base) acts = some s) (hdrained : s.Drained) :
    ReleasedOnce (copyChain configs) base acts s ↔
      Meets (step (copyChain configs)) (WriteSucceeds (copyChain configs)) (.start base) acts := by
  constructor
  · intro h
    refine (meets_of_single (.start base) (fun b hb => absurd hb (Nat.not_lt_zero b)) hrun ?_).1
    intro b hb
    rw [claims_of_drained hdrained, h.once b hb]
  · intro hmeets
    have hsingle : Single base s :=
      invariant_of_meets (fun _ _ _ h hok => h.step hok) (.start base) hmeets hrun
    have honce : ∀ b < s.ledger.next, s.ledger.released.count b = 1 := fun b hb =>
      (claims_of_drained hdrained b).symm.trans (hsingle.single b hb)
    refine ⟨honce, hsingle.sound.accounts.eq_base honce, ?_⟩
    intro done s' hdone hrun'
    exact (invariant_of_meets (fun _ _ _ h hok => h.step hok) (.start base)
      (hmeets.of_prefix hdone) hrun' : Single base s').base_le

/-- A packet through a module that copies and one that moves, and one dropped by `cancel`. -/
theorem releasedOnce_iff_copy_move :
    let configs := [['m', ':', 'c'], []]
    let acts : List Action :=
      [.push 8 5 0 .encode, .work 0 true 0, .work 0 true 0, .work 0 true 0, .work 0 true 0,
        .work 0 true 0, .work 0 true 0, .work 0 true 0, .work 0 true 3, .work 0 true 0,
        .work 0 true 0, .push 4 4 1 .decode, .cancel, .work 0 true 0]
    ∃ s, run (step (copyChain configs)) (.start 7) acts = some s ∧ s.ledger.next = 3 ∧
      ReleasedOnce (copyChain configs) 7 acts s := by
  intro configs acts
  refine ⟨_, rfl, by decide, (releasedOnce_iff configs rfl (by decide)).mpr (by decide)⟩

/-- One module that moves, and a data connection that is closed: `write_packet_impl` and
`enqueue_module` both release the packet. -/
theorem closed_connection_releases_twice :
    let acts : List Action :=
      [.push 3 3 0 .encode, .work 0 true 0, .work 0 true 0, .work 0 true (-1), .work 0 true 0,
        .work 0 true 0]
    ∃ s, run (step (copyChain [[]])) (.start 0) acts = some s ∧ s.Drained ∧
      s.ledger.released = [0, 0] ∧ s.ledger.bytes = -3 ∧
      ¬ReleasedOnce (copyChain [[]]) 0 acts s := by
  intro acts
  refine ⟨_, rfl, by decide, by decide, by decide, fun h => ?_⟩
  exact absurd h.restored (by decide)

end PipelineTunnel.Ownership
