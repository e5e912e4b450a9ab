import PipelineTunnel.Lib.StepSystem
import PipelineTunnel.Core.Kernel

/-!
# Whose callback an event reaches

`core/kernel.cpp` keeps its handlers by descriptor number, and the system hands a number out
again as soon as its socket is closed. A session whose connects are cancelled, time out or fail
closes their sockets without `del_fd`, and a socket that later gets the number inherits the
callback.

## Implementation notes

`openings` counts how often a number was handed out; a callback keeps the count of the moment it
was registered. The two events of `Kernel.Events` and the hangup may be reported for any
number at any moment, also for one that was closed after `epoll_wait` returned. What the
callbacks other than the one of a pending connect do is done by steps of its own. `fired`
lists the calls of the event loop, each with the count at that moment.
-/

namespace PipelineTunnel.Callbacks

open Kernel (Descriptor Events EPOLLIN EPOLLOUT)
open StepSystem

/-- What a callback does. -/
inductive Purpose where
  /-- The callback of `setup_tunnel_target_async`. -/
  | connecting (connId reqId : UInt8)
  /-- The reader of `on_target_connected`. -/
  | target (connId : UInt8)
  /-- Any other reader or writer of a connection. -/
  | connection
deriving DecidableEq, Repr

structure Callback where
  purpose : Purpose
  opening : Nat
deriving DecidableEq, Repr

/-- `in_cb` and `out_cb` of an entry. -/
structure Slots where
  inCb : Option Callback := none
  outCb : Option Callback := none
deriving DecidableEq, Repr

/-- A call of a callback: the number, the callback and the openings of the number so far. -/
structure Fired where
  fd : Nat
  callback : Callback
  openings : Nat
deriving DecidableEq, Repr

structure PendingConnect where
  fd : Nat
  connId : UInt8
deriving DecidableEq, Repr

structure State where
  fds : Nat → Descriptor := fun _ => {}
  slots : Nat → Slots := fun _ => {}
  isOpen : Nat → Bool := fun _ => false
  openings : Nat → Nat := fun _ => 0
  pendingConnects : UInt8 → Option PendingConnect := fun _ => none
  targets : UInt8 → Option Nat := fun _ => none
  fired : List Fired := []

namespace State

/-! ## The kernel -/

/-- `add_fd_handler`; `epoll_ctl` refuses a number that is closed. -/
def addFdHandler (s : State) (fd : Nat) (purpose : Purpose) (events : Events) : State :=
  let callback : Callback := ⟨purpose, s.openings fd⟩
  let d := (s.fds fd).addFdHandler events
  { s with
    fds := Function.update s.fds fd (if s.isOpen fd then d else { d with interest := none })
    slots := Function.update s.slots fd
      { inCb := if events.epollin then some callback else (s.slots fd).inCb
        outCb := if events.epollout then some callback else (s.slots fd).outCb } }

def modFdEvents (s : State) (fd : Nat) (add remove : Events) : State :=
  { s with fds := Function.update s.fds fd ((s.fds fd).modFdEvents add remove) }

def delFd (s : State) (fd : Nat) : State :=
  { s with
    fds := Function.update s.fds fd {}
    slots := Function.update s.slots fd {} }

/-- `socket` and `accept`. -/
def openFd (s : State) (fd : Nat) : State :=
  { s with
    isOpen := Function.update s.isOpen fd true
    openings := Function.update s.openings fd (s.openings fd + 1) }

/-- `close`: `epoll` forgets the socket, `fd_to_handler_` does not. -/
def close (s : State) (fd : Nat) : State :=
  { s with
    fds := Function.update s.fds fd { s.fds fd with interest := none }
    isOpen := Function.update s.isOpen fd false }

/-! ## Connects -/

def erasePending (s : State) (reqId : UInt8) : State :=
  { s with pendingConnects := Function.update s.pendingConnects reqId none }

def onTargetConnected (s : State) (fd : Nat) (connId reqId : UInt8) : State :=
  let s := s.erasePending reqId
  let s := { s with targets := Function.update s.targets connId (some fd) }
  s.addFdHandler fd (.target connId) EPOLLIN

/-- A pending connect gives up: its socket is closed and its record erased. -/
def dropConnect (s : State) (fd : Nat) (reqId : UInt8) : State :=
  (s.close fd).erasePending reqId

/-- `handle_connect_cancel`, and `check_pending_connect_timeout` for a connect that is too
old. -/
def giveUp (s : State) (reqId : UInt8) : State :=
  match s.pendingConnects reqId with
  | none => s
  | some pending => s.dropConnect pending.fd reqId

end State

/-- The sockets of `setup_tunnel_target_async`: those whose `connect` failed at once, and the
last one. -/
inductive Attempt where
  | fails
  | connected (fd : Nat)
  | inProgress (fd : Nat)
deriving DecidableEq, Repr

namespace State

/-- A socket that is closed again at once. -/
def tryFd (s : State) (fd : Nat) : State := (s.openFd fd).close fd

def setupTunnelTargetAsync (s : State) (connId reqId : UInt8) (tried : List Nat)
    (attempt : Attempt) : State :=
  let s := tried.foldl tryFd s
  match attempt with
  | .fails => s
  | .connected fd => (s.openFd fd).onTargetConnected fd connId reqId
  | .inProgress fd =>
      let s := s.openFd fd
      let s := { s with
        pendingConnects := Function.update s.pendingConnects reqId (some ⟨fd, connId⟩) }
      s.addFdHandler fd (.connecting connId reqId) EPOLLOUT

/-! ## The event loop -/

/-- A callback is called; `ok` is the answer of `getsockopt` to a pending connect. -/
def callOut (s : State) (fd : Nat) (callback : Callback) (ok : Bool) : State :=
  let s := { s with fired := s.fired ++ [⟨fd, callback, s.openings fd⟩] }
  match callback.purpose with
  | .connecting connId reqId =>
      if ok then (s.modFdEvents fd {} EPOLLOUT).onTargetConnected fd connId reqId
      else s.dropConnect fd reqId
  | _ => s

def callIn (s : State) (fd : Nat) (callback : Callback) : State :=
  { s with fired := s.fired ++ [⟨fd, callback, s.openings fd⟩] }

def dispatchIn (s : State) (fd : Nat) : State :=
  match (s.slots fd).inCb with
  | none => s
  | some callback => s.callIn fd callback

def dispatchOut (s : State) (fd : Nat) (ok : Bool) : State :=
  match (s.slots fd).outCb with
  | none => s
  | some callback => s.callOut fd callback ok

/-- The hangup goes to one of the callbacks, and the entry is erased. -/
def dispatchHup (s : State) (fd : Nat) : State :=
  let s :=
    match (s.slots fd).inCb, (s.slots fd).outCb with
    | some callback, _ => s.callIn fd callback
    | none, some callback => s.callOut fd callback false
    | none, none => s
  s.delFd fd

/-- An event of `epoll_wait`. -/
def dispatch (s : State) (fd : Nat) (events : Events) (hup ok : Bool) : State :=
  let s := if events.epollin then s.dispatchIn fd else s
  let s := if events.epollout then s.dispatchOut fd ok else s
  if hup then s.dispatchHup fd else s

end State

inductive Step where
  | connectReq (connId reqId : UInt8) (tried : List Nat) (attempt : Attempt)
  | connectCancel (reqId : UInt8)
  | connectTimeout (reqId : UInt8)
  /-- A connection is accepted, or a target restored: a socket with a reader. -/
  | accept (fd : Nat)
  /-- A reader or a writer for a socket that is there already. -/
  | register (fd : Nat) (events : Events)
  | modEvents (fd : Nat) (add remove : Events)
  /-- `close_target`. -/
  | closeTarget (connId : UInt8)
  /-- A connection is closed, with `del_fd`. -/
  | closeConnection (fd : Nat)
  /-- `del_fd` for a connection that stays open. -/
  | release (fd : Nat)
  /-- `process_pending_data_conns` closes a connection whose slot is taken. -/
  | refuse (fd : Nat)
  | dispatch (fd : Nat) (events : Events) (hup ok : Bool)
deriving DecidableEq, Repr

/-- The system hands out numbers that are not in use. -/
def Attempt.Free (s : State) : Attempt → Prop
  | .fails => True
  | .connected fd | .inProgress fd => s.isOpen fd = false

instance (s : State) (a : Attempt) : Decidable (a.Free s) := by
  cases a <;> unfold Attempt.Free <;> infer_instance

def State.step (s : State) : Step → Option State
  | .connectReq connId reqId tried attempt =>
      if (∀ fd ∈ tried, s.isOpen fd = false) ∧ attempt.Free s then
        some (s.setupTunnelTargetAsync connId reqId tried attempt)
      else none
  | .connectCancel reqId | .connectTimeout reqId => some (s.giveUp reqId)
  | .accept fd =>
      if s.isOpen fd then none else some ((s.openFd fd).addFdHandler fd .connection EPOLLIN)
  | .register fd events => some (s.addFdHandler fd .connection events)
  | .modEvents fd add remove => some (s.modFdEvents fd add remove)
  | .closeTarget connId =>
      match s.targets connId with
      | none => some s
      | some fd =>
          some { (s.delFd fd).close fd with targets := Function.update s.targets connId none }
  | .closeConnection fd => some ((s.delFd fd).close fd)
  | .release fd => some (s.delFd fd)
  | .refuse fd => some (s.close fd)
  | .dispatch fd events hup ok => some (s.dispatch fd events hup ok)

/-- Every call went to a callback registered since the number was last handed out, and closed
numbers have no entry. -/
structure Proper (s : State) : Prop where
  fired : ∀ f ∈ s.fired, f.callback.opening = f.openings
  noneLeft : ∀ fd, s.isOpen fd = false → (s.fds fd).handler = none ∧ s.slots fd = {}

/-- The callback of a pending connect. -/
def Callback.isConnecting (callback : Callback) : Bool :=
  match callback.purpose with
  | .connecting _ _ => true
  | _ => false

/-- No socket is closed while it has an entry that stays, and none gets a handler when it is
closed. -/
def CleansUp (s : State) : Step → Prop
  | .connectCancel reqId | .connectTimeout reqId =>
      ∀ pending ∈ s.pendingConnects reqId, (s.fds pending.fd).handler = none
  | .register fd _ => s.isOpen fd = true
  | .refuse fd => (s.fds fd).handler = none
  | .dispatch fd events hup ok =>
      events.epollout = true → (s.slots fd).outCb.any Callback.isConnecting = true →
        hup = true ∨ ok = true
  | _ => True

instance (s : State) (l : Step) : Decidable (CleansUp s l) := by
  cases l <;> unfold CleansUp <;> infer_instance

/-! ## The invariant -/

/-- The callbacks of every number are of its last opening, and only open numbers have an entry;
`skip` is a number that may have been closed since. -/
structure Tidy (s : State) (skip : Option Nat) : Prop where
  fired : ∀ f ∈ s.fired, f.callback.opening = f.openings
  inCb : ∀ fd callback, (s.slots fd).inCb = some callback → callback.opening = s.openings fd
  outCb : ∀ fd callback, (s.slots fd).outCb = some callback → callback.opening = s.openings fd
  entry : ∀ fd, (s.fds fd).handler = none → s.slots fd = {}
  closed : ∀ fd, some fd ≠ skip → s.isOpen fd = false → (s.fds fd).handler = none

theorem Tidy.init : Tidy {} none where
  fired := by simp
  inCb := by simp
  outCb := by simp
  entry _ _ := rfl
  closed _ _ _ := rfl

theorem Tidy.proper {s : State} (h : Tidy s none) : Proper s where
  fired := h.fired
  noneLeft fd hclosed :=
    have hnone := h.closed fd (by simp) hclosed
    ⟨hnone, h.entry fd hnone⟩

namespace Tidy

variable {s s' : State} {skip : Option Nat} {fd : Nat}

/-- The invariant does not depend on the session's records. -/
theorem congr (h : Tidy s skip) (hfds : s'.fds = s.fds) (hslots : s'.slots = s.slots)
    (hopen : s'.isOpen = s.isOpen) (hopenings : s'.openings = s.openings)
    (hfired : s'.fired = s.fired) : Tidy s' skip := by
  constructor
  case fired =>
    rw [hfired]
    exact h.fired
  case inCb =>
    rw [hslots, hopenings]
    exact h.inCb
  case outCb =>
    rw [hslots, hopenings]
    exact h.outCb
  case entry =>
    rw [hfds, hslots]
    exact h.entry
  case closed =>
    rw [hopen, hfds]
    exact h.closed

theorem erasePending (h : Tidy s skip) (reqId : UInt8) : Tidy (s.erasePending reqId) skip :=
  h.congr rfl rfl rfl rfl rfl

theorem skipping (h : Tidy s none) (fd : Nat) : Tidy s (some fd) where
  fired := h.fired
  inCb := h.inCb
  outCb := h.outCb
  entry := h.entry
  closed n _ hclosed := h.closed n (by simp) hclosed

/-- A number with a callback is open. -/
theorem open_of_slots (h : Tidy s none) (hslots : s.slots fd ≠ {}) : s.isOpen fd = true := by
  by_contra hclosed
  exact hslots (h.entry fd (h.closed fd (by simp) (by simpa using hclosed)))

/-- A handler for a number that is open. -/
theorem addFdHandler (h : Tidy s skip) (hopen : s.isOpen fd = true) (purpose : Purpose)
    (events : Events) : Tidy (s.addFdHandler fd purpose events) skip := by
  constructor
  case fired =>
    exact h.fired
  case inCb =>
    intro n callback hcb
    by_cases hn : n = fd
    · subst hn
      simp only [State.addFdHandler, Function.update_self] at hcb
      split_ifs at hcb
      · obtain rfl := Option.some.inj hcb
        rfl
      · exact h.inCb n callback hcb
    · apply h.inCb n callback
      simpa [State.addFdHandler, hn] using hcb
  case outCb =>
    intro n callback hcb
    by_cases hn : n = fd
    · subst hn
      simp only [State.addFdHandler, Function.update_self] at hcb
      split_ifs at hcb
      · obtain rfl := Option.some.inj hcb
        rfl
      · exact h.outCb n callback hcb
    · apply h.outCb n callback
      simpa [State.addFdHandler, hn] using hcb
  case entry =>
    intro n hnone
    by_cases hn : n = fd
    · subst hn
      simp [State.addFdHandler, hopen, Descriptor.handler_addFdHandler] at hnone
    · simp only [State.addFdHandler, Function.update_of_ne hn] at hnone ⊢
      exact h.entry n hnone
  case closed =>
    intro n hskip hclosed
    have hn : n ≠ fd := by
      rintro rfl
      rw [State.addFdHandler, hopen] at hclosed
      cases hclosed
    simp only [State.addFdHandler, Function.update_of_ne hn]
    exact h.closed n hskip hclosed

theorem modFdEvents (h : Tidy s skip) (fd : Nat) (add remove : Events) :
    Tidy (s.modFdEvents fd add remove) skip := by
  have hhandler : ∀ n, ((s.modFdEvents fd add remove).fds n).handler = none ↔
      (s.fds n).handler = none := by
    intro n
    by_cases hn : n = fd
    · subst hn
      simp [State.modFdEvents, Descriptor.handler_modFdEvents]
    · simp [State.modFdEvents, hn]
  exact ⟨h.fired, h.inCb, h.outCb, fun n hn => h.entry n ((hhandler n).mp hn),
    fun n hskip hclosed => (hhandler n).mpr (h.closed n hskip hclosed)⟩

/-- `del_fd` clears up behind a socket that was closed. -/
theorem delFd (h : Tidy s (some fd)) : Tidy (s.delFd fd) none := by
  constructor
  case fired =>
    exact h.fired
  case inCb =>
    intro n callback hcb
    by_cases hn : n = fd
    · subst hn
      simp [State.delFd] at hcb
    · apply h.inCb n callback
      simpa [State.delFd, hn] using hcb
  case outCb =>
    intro n callback hcb
    by_cases hn : n = fd
    · subst hn
      simp [State.delFd] at hcb
    · apply h.outCb n callback
      simpa [State.delFd, hn] using hcb
  case entry =>
    intro n hnone
    by_cases hn : n = fd
    · subst hn
      simp [State.delFd]
    · simp only [State.delFd, Function.update_of_ne hn] at hnone ⊢
      exact h.entry n hnone
  case closed =>
    intro n _ hclosed
    by_cases hn : n = fd
    · subst hn
      simp [State.delFd]
    · simp only [State.delFd, Function.update_of_ne hn]
      exact h.closed n (by simpa using hn) hclosed

/-- A number that was closed, and so has no entry, is handed out again. -/
theorem openFd (h : Tidy s none) (hclosed : s.isOpen fd = false) : Tidy (s.openFd fd) none := by
  have hslots : s.slots fd = {} := h.entry fd (h.closed fd (by simp) hclosed)
  constructor
  case fired =>
    exact h.fired
  case inCb =>
    intro n callback hcb
    have hn : n ≠ fd := by
      rintro rfl
      have hcb' : (s.slots n).inCb = some callback := hcb
      rw [hslots] at hcb'
      cases hcb'
    simp only [State.openFd, Function.update_of_ne hn]
    exact h.inCb n callback hcb
  case outCb =>
    intro n callback hcb
    have hn : n ≠ fd := by
      rintro rfl
      have hcb' : (s.slots n).outCb = some callback := hcb
      rw [hslots] at hcb'
      cases hcb'
    simp only [State.openFd, Function.update_of_ne hn]
    exact h.outCb n callback hcb
  case entry =>
    exact h.entry
  case closed =>
    intro n hskip hn
    have hne : n ≠ fd := by
      rintro rfl
      simp [State.openFd] at hn
    exact h.closed n hskip (by simpa [State.openFd, hne] using hn)

theorem close (h : Tidy s skip) (fd : Nat) (hskip : skip = none ∨ skip = some fd) :
    Tidy (s.close fd) (some fd) := by
  have hhandler : ∀ n, ((s.close fd).fds n).handler = (s.fds n).handler := by
    intro n
    by_cases hn : n = fd
    · subst hn
      simp [State.close]
    · simp [State.close, hn]
  refine ⟨h.fired, h.inCb, h.outCb, fun n hn => h.entry n (by rw [← hhandler n, hn]), ?_⟩
  intro n hn hclosed
  have hne : n ≠ fd := by simpa using hn
  rw [hhandler n]
  refine h.closed n ?_ (by simpa [State.close, hne] using hclosed)
  rcases hskip with rfl | rfl
  · simp
  · exact hn

/-- A number without an entry is closed. -/
theorem settled (h : Tidy s (some fd)) (hnone : (s.fds fd).handler = none) : Tidy s none where
  fired := h.fired
  inCb := h.inCb
  outCb := h.outCb
  entry := h.entry
  closed n _ hclosed := by
    by_cases hn : n = fd
    · rw [hn, hnone]
    · exact h.closed n (by simpa using hn) hclosed

/-- `close` for a number without an entry. -/
theorem closeBare (h : Tidy s none) (hnone : (s.fds fd).handler = none) :
    Tidy (s.close fd) none := by
  refine (h.close fd (Or.inl rfl)).settled ?_
  simpa [State.close] using hnone

theorem tryFd (h : Tidy s none) (hclosed : s.isOpen fd = false) : Tidy (s.tryFd fd) none :=
  (h.openFd hclosed).closeBare (h.closed fd (by simp) hclosed)

theorem tryFds (tried : List Nat) (h : Tidy s none) (hfree : ∀ fd ∈ tried, s.isOpen fd = false) :
    Tidy (tried.foldl State.tryFd s) none ∧ (tried.foldl State.tryFd s).isOpen = s.isOpen := by
  induction tried generalizing s with
  | nil => exact ⟨h, rfl⟩
  | cons fd tried ih =>
      have hfd : s.isOpen fd = false := hfree fd List.mem_cons_self
      have hsame : (s.tryFd fd).isOpen = s.isOpen := by
        simp only [State.tryFd, State.close, State.openFd, Function.update_idem]
        rw [← hfd, Function.update_eq_self]
      obtain ⟨htidy, hopen⟩ := ih (h.tryFd hfd) fun n hn => by
        rw [hsame]
        exact hfree n (List.mem_cons_of_mem fd hn)
      exact ⟨htidy, hopen.trans hsame⟩

theorem onTargetConnected (h : Tidy s none) (hopen : s.isOpen fd = true) (connId reqId : UInt8) :
    Tidy (s.onTargetConnected fd connId reqId) none := by
  have hrecord : Tidy { s.erasePending reqId with
      targets := Function.update s.targets connId (some fd) } none :=
    h.congr rfl rfl rfl rfl rfl
  exact hrecord.addFdHandler hopen _ _

/-- A call of a callback of this number. -/
theorem callIn (h : Tidy s skip) {callback : Callback} (hcb : callback.opening = s.openings fd) :
    Tidy (s.callIn fd callback) skip := by
  refine ⟨fun f hf => ?_, h.inCb, h.outCb, h.entry, h.closed⟩
  rcases List.mem_append.mp hf with hf | hf
  · exact h.fired f hf
  · rw [List.mem_singleton.mp hf]
    exact hcb

/-- A call that does not close its number. -/
theorem callOut (h : Tidy s none) {callback : Callback} (hcb : callback.opening = s.openings fd)
    (hopen : s.isOpen fd = true) {ok : Bool} (hok : callback.isConnecting = true → ok = true) :
    Tidy (s.callOut fd callback ok) none := by
  have hcalled : Tidy (s.callIn fd callback) none := h.callIn hcb
  unfold State.callOut
  dsimp only
  split
  · rename_i connId reqId hpurpose
    have hok' : ok = true := hok (by simp [Callback.isConnecting, hpurpose])
    rw [if_pos hok']
    exact (hcalled.modFdEvents fd {} EPOLLOUT).onTargetConnected hopen connId reqId
  · exact hcalled

/-- One that may. -/
theorem callOut_false (h : Tidy s (some fd)) {callback : Callback}
    (hcb : callback.opening = s.openings fd) : Tidy (s.callOut fd callback false) (some fd) := by
  have hcalled : Tidy (s.callIn fd callback) (some fd) := h.callIn hcb
  unfold State.callOut
  dsimp only
  split
  · exact (hcalled.close fd (Or.inr rfl)).erasePending _
  · exact hcalled

theorem dispatchIn (h : Tidy s none) (fd : Nat) : Tidy (s.dispatchIn fd) none := by
  unfold State.dispatchIn
  split
  · exact h
  · rename_i callback hcb
    exact h.callIn (h.inCb fd callback hcb)

theorem dispatchOut (h : Tidy s none) {ok : Bool}
    (hok : (s.slots fd).outCb.any Callback.isConnecting = true → ok = true) :
    Tidy (s.dispatchOut fd ok) none := by
  unfold State.dispatchOut
  split
  · exact h
  · rename_i callback hcb
    have hopen : s.isOpen fd = true := h.open_of_slots fun hempty => by simp [hempty] at hcb
    refine h.callOut (h.outCb fd callback hcb) hopen fun hconnecting => ?_
    exact hok (by simp [hcb, hconnecting])

theorem dispatchOut_false (h : Tidy s none) (fd : Nat) :
    Tidy (s.dispatchOut fd false) (some fd) := by
  unfold State.dispatchOut
  split
  · exact h.skipping fd
  · rename_i callback hcb
    exact (h.skipping fd).callOut_false (h.outCb fd callback hcb)

theorem dispatchHup (h : Tidy s (some fd)) : Tidy (s.dispatchHup fd) none := by
  unfold State.dispatchHup
  apply Tidy.delFd
  split
  · rename_i callback hcb
    exact h.callIn (h.inCb fd callback hcb)
  · rename_i callback _ hcb
    exact h.callOut_false (h.outCb fd callback hcb)
  · exact h

theorem slots_dispatchIn (s : State) (fd : Nat) : (s.dispatchIn fd).slots = s.slots := by
  unfold State.dispatchIn
  split <;> rfl

/-- An event is dispatched; a connect that fails is reported together with the hangup. -/
theorem dispatch (h : Tidy s none) {events : Events} {hup ok : Bool}
    (hclean : CleansUp s (.dispatch fd events hup ok)) :
    Tidy (s.dispatch fd events hup ok) none := by
  have hin : Tidy (if events.epollin then s.dispatchIn fd else s) none := by
    split_ifs
    · exact h.dispatchIn fd
    · exact h
  have hslots : (if events.epollin then s.dispatchIn fd else s).slots = s.slots := by
    split_ifs
    · exact slots_dispatchIn s fd
    · rfl
  unfold State.dispatch
  generalize (if events.epollin then s.dispatchIn fd else s) = s₁ at hin hslots ⊢
  dsimp only
  cases hout : events.epollout with
  | false =>
      simp only [Bool.false_eq_true, if_false]
      split_ifs
      · exact (hin.skipping fd).dispatchHup
      · exact hin
  | true =>
      simp only [if_true]
      cases hok : ok with
      | true =>
          have hnext : Tidy (s₁.dispatchOut fd true) none := hin.dispatchOut fun _ => rfl
          split_ifs
          · exact (hnext.skipping fd).dispatchHup
          · exact hnext
      | false =>
          split_ifs with hhup
          · exact (hin.dispatchOut_false fd).dispatchHup
          · refine hin.dispatchOut fun hconnecting => ?_
            rw [hslots] at hconnecting
            rcases hclean hout hconnecting with hhup' | hok'
            · exact absurd hhup' hhup
            · rw [hok] at hok'
              cases hok'

theorem giveUp (h : Tidy s none) {reqId : UInt8}
    (hclean : ∀ pending ∈ s.pendingConnects reqId, (s.fds pending.fd).handler = none) :
    Tidy (s.giveUp reqId) none := by
  unfold State.giveUp
  split
  · exact h
  · rename_i pending hpending
    exact (h.closeBare (hclean pending hpending)).erasePending reqId

theorem setupTunnelTargetAsync (h : Tidy s none) (connId reqId : UInt8) {tried : List Nat}
    (htried : ∀ fd ∈ tried, s.isOpen fd = false) {attempt : Attempt} (hfree : attempt.Free s) :
    Tidy (s.setupTunnelTargetAsync connId reqId tried attempt) none := by
  obtain ⟨htidy, hsame⟩ := Tidy.tryFds tried h htried
  unfold State.setupTunnelTargetAsync
  generalize tried.foldl State.tryFd s = s₁ at htidy hsame ⊢
  cases attempt with
  | fails => exact htidy
  | connected fd =>
      have hclosed : s₁.isOpen fd = false := by rw [hsame]; exact hfree
      exact (htidy.openFd hclosed).onTargetConnected (by simp [State.openFd]) connId reqId
  | inProgress fd =>
      have hclosed : s₁.isOpen fd = false := by rw [hsame]; exact hfree
      refine Tidy.addFdHandler ?_ (by simp [State.openFd]) _ _
      exact (htidy.openFd hclosed).congr rfl rfl rfl rfl rfl

/-- `del_fd` and `close`. -/
theorem delClose (h : Tidy s none) (fd : Nat) : Tidy ((s.delFd fd).close fd) none :=
  (h.skipping fd).delFd.closeBare (by simp [State.delFd])

theorem step (h : Tidy s none) {l : Step} (hclean : CleansUp s l) (hstep : s.step l = some s') :
    Tidy s' none := by
  cases l with
  | connectReq connId reqId tried attempt =>
      simp only [State.step] at hstep
      split_ifs at hstep with hfree
      cases hstep
      exact h.setupTunnelTargetAsync connId reqId hfree.1 hfree.2
  | connectCancel reqId =>
      cases hstep
      exact h.giveUp hclean
  | connectTimeout reqId =>
      cases hstep
      exact h.giveUp hclean
  | accept fd =>
      simp only [State.step] at hstep
      split_ifs at hstep with hopen
      cases hstep
      exact (h.openFd (by simpa using hopen)).addFdHandler (by simp [State.openFd]) _ _
  | register fd events =>
      cases hstep
      exact h.addFdHandler hclean _ _
  | modEvents fd add remove =>
      cases hstep
      exact h.modFdEvents fd add remove
  | closeTarget connId =>
      simp only [State.step] at hstep
      split at hstep
      · cases hstep
        exact h
      · cases hstep
        exact (h.delClose _).congr rfl rfl rfl rfl rfl
  | closeConnection fd =>
      cases hstep
      exact h.delClose fd
  | release fd =>
      cases hstep
      exact (h.skipping fd).delFd
  | refuse fd =>
      cases hstep
      exact h.closeBare hclean
  | dispatch fd events hup ok =>
      cases hstep
      exact h.dispatch hclean

end Tidy

/-- In every run that cleans up behind each socket, the event loop calls no callback of an
earlier socket, and no closed number keeps a handler. -/
theorem callbacks_proper (ls : List Step) (s : State) (hrun : run State.step {} ls = some s)
    (hclean : Meets State.step CleansUp {} ls) : Proper s := by
  have htidy : Tidy s none := invariant_of_meets (I := fun s => Tidy s none)
    (fun _ _ _ h hok => h.step hok) Tidy.init hclean hrun
  exact htidy.proper

/-- A connect succeeds, its target is closed and another connection gets the number. -/
theorem callbacks_proper_reused :
    let ls : List Step := [.connectReq 0 4 [7] (.inProgress 7), .dispatch 7 EPOLLOUT false true,
      .dispatch 7 EPOLLIN false true, .closeTarget 0, .accept 7, .dispatch 7 EPOLLIN false true]
    ∃ s, run State.step {} ls = some s ∧ s.fired.length = 3 ∧ Proper s := by
  intro ls
  have hsome : (run State.step {} ls).isSome := by decide
  have hend : (run State.step {} ls).all fun s => s.fired.length = 3 := by decide
  obtain ⟨s, hrun⟩ := Option.isSome_iff_exists.mp hsome
  rw [hrun, Option.all_some, decide_eq_true_eq] at hend
  exact ⟨s, hrun, hend, callbacks_proper ls s hrun (by decide)⟩

/-- A connect is cancelled and a new connection gets its number: the system watches it for
output, and the callback of the connect makes it a target. -/
theorem callbacks_not_proper :
    let ls : List Step := [.connectReq 0 4 [] (.inProgress 7), .connectCancel 4, .accept 7]
    ∃ s s', run State.step {} ls = some s ∧ (s.fds 7).drains = true ∧
      s.step (.dispatch 7 EPOLLOUT false true) = some s' ∧ s'.targets 0 = some 7 ∧
      ¬ Proper s' := by
  intro ls
  have hsome : (run State.step {} ls).isSome := by decide
  have hend : (run State.step {} ls).all fun s => (s.fds 7).drains = true ∧
      (s.dispatch 7 EPOLLOUT false true).fired = [⟨7, ⟨.connecting 0 4, 1⟩, 2⟩] ∧
      (s.dispatch 7 EPOLLOUT false true).targets 0 = some 7 := by decide
  obtain ⟨s, hrun⟩ := Option.isSome_iff_exists.mp hsome
  rw [hrun, Option.all_some, decide_eq_true_eq] at hend
  obtain ⟨hwatched, hfired, htarget⟩ := hend
  refine ⟨s, _, hrun, hwatched, rfl, htarget, fun hproper => ?_⟩
  have hstale := hproper.fired ⟨7, ⟨.connecting 0 4, 1⟩, 2⟩ (by simp [hfired])
  exact absurd hstale (by decide)

end PipelineTunnel.Callbacks
