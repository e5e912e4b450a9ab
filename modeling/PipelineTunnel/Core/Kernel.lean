import Mathlib.Logic.Function.Basic
import Mathlib.Tactic.SplitIfs

/-!
# The interest set

`core/kernel.cpp`: for each descriptor, the handlers of `fd_to_handler_` with the events they
ask for, and the events the system watches.

## Implementation notes

A callback is there or not. `epoll_ctl` refuses to add a descriptor that is watched and to
modify one that is not.
-/

namespace PipelineTunnel.Kernel

/-- A set of events. -/
structure Events where
  epollin : Bool := false
  epollout : Bool := false
deriving DecidableEq, Repr

def EPOLLIN : Events := { epollin := true }
def EPOLLOUT : Events := { epollout := true }

namespace Events

def union (ev ev' : Events) : Events := ⟨ev.epollin || ev'.epollin, ev.epollout || ev'.epollout⟩

def without (ev ev' : Events) : Events :=
  ⟨ev.epollin && !ev'.epollin, ev.epollout && !ev'.epollout⟩

end Events

structure Handler where
  inCb : Bool := false
  outCb : Bool := false
  events : Events := {}
deriving DecidableEq, Repr

/-- A descriptor: its entry in `fd_to_handler_` and what `epoll` watches. -/
structure Descriptor where
  handler : Option Handler := none
  interest : Option Events := none
deriving DecidableEq, Repr

namespace Descriptor

/-- `EPOLL_CTL_ADD`; `none` is `EEXIST`. -/
def ctlAdd (d : Descriptor) (ev : Events) : Option Descriptor :=
  if d.interest.isSome then none else some { d with interest := some ev }

/-- `EPOLL_CTL_MOD`, without effect on a descriptor that is not watched. -/
def ctlMod (d : Descriptor) (ev : Events) : Descriptor :=
  if d.interest.isSome then { d with interest := some ev } else d

def ctlDel (d : Descriptor) : Descriptor := { d with interest := none }

def addFdHandler (d : Descriptor) (events : Events) : Descriptor :=
  let state := d.handler.getD {}
  let state : Handler :=
    { inCb := state.inCb || events.epollin
      outCb := state.outCb || events.epollout
      events := state.events.union events }
  let d := { d with handler := some state }
  (d.ctlAdd state.events).getD (d.ctlMod state.events)

def modFdEvents (d : Descriptor) (add remove : Events) : Descriptor :=
  match d.handler with
  | none => d
  | some state =>
      let events := (state.events.union add).without remove
      let d := { d with handler := some { state with events := events } }
      if events = {} ∨ !state.inCb ∧ !state.outCb then d.ctlDel
      else if state.events = {} then (d.ctlAdd events).getD d
      else d.ctlMod events

/-- `del_fd`, and `close`. -/
def delFd (_ : Descriptor) : Descriptor := {}

/-- Is the descriptor watched for input? -/
def reads (d : Descriptor) : Bool := d.interest.any Events.epollin

/-- Is the descriptor watched for room in its socket? -/
def drains (d : Descriptor) : Bool := d.interest.any Events.epollout

/-- A descriptor with a handler for input: the system watches the events of its entry, and
does not watch it at all when there are none. -/
def Watched (d : Descriptor) (ev : Events) : Prop :=
  ∃ outCb, d.handler = some ⟨true, outCb, ev⟩ ∧ d.interest = if ev = {} then none else some ev

variable {d : Descriptor} {ev : Events}

theorem Watched.reads_eq (h : d.Watched ev) : d.reads = ev.epollin := by
  obtain ⟨outCb, -, hinterest⟩ := h
  rw [reads, hinterest]
  split_ifs with hempty
  · rw [hempty]
    rfl
  · rfl

theorem Watched.drains_eq (h : d.Watched ev) : d.drains = ev.epollout := by
  obtain ⟨outCb, -, hinterest⟩ := h
  rw [drains, hinterest]
  split_ifs with hempty
  · rw [hempty]
    rfl
  · rfl

theorem union_ne_empty (ev : Events) {new : Events} (hnew : new ≠ {}) : ev.union new ≠ {} := by
  rcases ev with ⟨i, o⟩
  rcases new with ⟨i', o'⟩
  cases i' <;> cases o' <;> simp_all [Events.union]

/-- A new handler is watched, whatever the entry was before. -/
theorem interest_addFdHandler (d : Descriptor) (new : Events) :
    (d.addFdHandler new).interest = some (((d.handler.getD {}).events).union new) := by
  rw [addFdHandler]
  cases hinterest : d.interest <;> simp [ctlAdd, ctlMod]

theorem handler_addFdHandler (d : Descriptor) (new : Events) :
    (d.addFdHandler new).handler = some
      { inCb := (d.handler.getD {}).inCb || new.epollin
        outCb := (d.handler.getD {}).outCb || new.epollout
        events := (d.handler.getD {}).events.union new } := by
  rw [addFdHandler]
  cases hinterest : d.interest <;> simp [ctlAdd, ctlMod]

/-- An entry stays, with other events. -/
theorem handler_modFdEvents (d : Descriptor) (add remove : Events) :
    (d.modFdEvents add remove).handler = d.handler.map fun state =>
      { state with events := (state.events.union add).without remove } := by
  rw [modFdEvents]
  cases hhandler : d.handler with
  | none => simp [hhandler]
  | some state =>
      dsimp only [Option.map_some]
      split_ifs
      · rfl
      · rw [ctlAdd]
        split_ifs <;> rfl
      · rw [ctlMod]
        split_ifs <;> rfl

/-- Registering for input works from any state. -/
theorem watched_addFdHandler_epollin (d : Descriptor) :
    (d.addFdHandler EPOLLIN).Watched ((d.handler.getD {}).events.union EPOLLIN) := by
  refine ⟨(d.handler.getD {}).outCb, ?_, ?_⟩
  · simp [handler_addFdHandler, EPOLLIN]
  · rw [interest_addFdHandler, if_neg (union_ne_empty _ (by decide))]

theorem Watched.addFdHandler (h : d.Watched ev) {new : Events} (hnew : new ≠ {}) :
    (d.addFdHandler new).Watched (ev.union new) := by
  obtain ⟨outCb, hhandler, -⟩ := h
  refine ⟨outCb || new.epollout, ?_, ?_⟩
  · simp [handler_addFdHandler, hhandler]
  · rw [interest_addFdHandler, hhandler, if_neg (union_ne_empty _ hnew)]
    rfl

theorem Watched.modFdEvents (h : d.Watched ev) (add remove : Events) :
    (d.modFdEvents add remove).Watched ((ev.union add).without remove) := by
  obtain ⟨outCb, hhandler, hinterest⟩ := h
  rw [Descriptor.modFdEvents, hhandler]
  dsimp only
  by_cases hempty : (ev.union add).without remove = {}
  · rw [if_pos (.inl hempty)]
    exact ⟨outCb, rfl, by rw [if_pos hempty]; rfl⟩
  · rw [if_neg (by simp [hempty])]
    split_ifs with hwas
    · have hunwatched : d.interest = none := by rw [hinterest, if_pos hwas]
      refine ⟨outCb, ?_, ?_⟩ <;> simp [ctlAdd, hunwatched, hempty]
    · have hwatched : d.interest = some ev := by rw [hinterest, if_neg hwas]
      refine ⟨outCb, ?_, ?_⟩ <;> simp [ctlMod, hwatched, hempty]

/-! ## Entries in step with the system -/

/-- The events that the entry of a descriptor asks for. -/
def events (d : Descriptor) : Events := (d.handler.getD {}).events

/-- Each event has a callback, and the system watches the events of the entry. -/
structure Synced (d : Descriptor) : Prop where
  epollin : d.events.epollin = true → (d.handler.getD {}).inCb = true
  epollout : d.events.epollout = true → (d.handler.getD {}).outCb = true
  interest : d.interest = if d.events = {} then none else some d.events

theorem synced_empty : Synced {} := ⟨nofun, nofun, rfl⟩

theorem Synced.drains_eq (h : d.Synced) : d.drains = d.events.epollout := by
  rw [drains, h.interest]
  split_ifs with hempty
  · rw [hempty]
    rfl
  · rfl

theorem events_addFdHandler (d : Descriptor) (new : Events) :
    (d.addFdHandler new).events = d.events.union new := by
  simp [events, handler_addFdHandler]

theorem Synced.addFdHandler (h : d.Synced) {new : Events} (hnew : new ≠ {}) :
    (d.addFdHandler new).Synced := by
  refine ⟨?_, ?_, ?_⟩
  · rw [events_addFdHandler, handler_addFdHandler]
    simp only [Events.union, Option.getD_some, Bool.or_eq_true]
    exact Or.imp_left h.epollin
  · rw [events_addFdHandler, handler_addFdHandler]
    simp only [Events.union, Option.getD_some, Bool.or_eq_true]
    exact Or.imp_left h.epollout
  · rw [interest_addFdHandler, events_addFdHandler, if_neg (union_ne_empty _ hnew)]
    rfl

theorem union_empty (ev : Events) : ev.union {} = ev := by simp [Events.union]

theorem events_modFdEvents (d : Descriptor) (remove : Events) :
    (d.modFdEvents {} remove).events = d.events.without remove := by
  rw [events, handler_modFdEvents, events]
  cases d.handler with
  | none => simp [Events.without]
  | some state => simp [union_empty]

theorem Synced.modFdEvents (h : d.Synced) (remove : Events) :
    (d.modFdEvents {} remove).Synced := by
  cases hhandler : d.handler with
  | none =>
      rw [Descriptor.modFdEvents, hhandler]
      exact h
  | some state =>
      obtain ⟨hin, hout, hinterest⟩ := h
      simp only [events, hhandler, Option.getD_some] at hin hout hinterest
      have hsome : (d.modFdEvents {} remove).handler =
          some { state with events := state.events.without remove } := by
        rw [handler_modFdEvents, hhandler, Option.map_some, union_empty]
      refine ⟨?_, ?_, ?_⟩
      · rw [events, hsome]
        intro hkept
        exact hin (Bool.and_eq_true_iff.mp hkept).1
      · rw [events, hsome]
        intro hkept
        exact hout (Bool.and_eq_true_iff.mp hkept).1
      · rw [events, hsome, Option.getD_some, Descriptor.modFdEvents, hhandler]
        dsimp only
        rw [union_empty]
        by_cases hempty : state.events.without remove = {}
        · rw [if_pos (.inl hempty), if_pos hempty]
          rfl
        · have hasked : state.events ≠ {} := by
            intro hnone
            exact hempty (by rw [hnone]; rfl)
          -- an event that is asked for has a callback
          have hcb : ¬ (!state.inCb ∧ !state.outCb) := by
            rintro ⟨hnoin, hnoout⟩
            apply hasked
            rcases hev : state.events with ⟨i, o⟩
            rw [hev] at hin hout
            cases i <;> cases o <;> simp_all
          rw [if_neg (not_or.mpr ⟨hempty, hcb⟩), if_neg hasked, if_neg hempty, ctlMod]
          rw [if_neg hasked] at hinterest
          simp [hinterest]

end Descriptor

end PipelineTunnel.Kernel
