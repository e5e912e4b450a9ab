import PipelineTunnel.Core.Kernel
import Mathlib.Data.List.Induction

/-!
# The handlers and the interest set

`core/kernel.cpp` with all its descriptors: the entries of `fd_to_handler_`, and the set that
`epoll_ctl` works on. Each operation chooses between `ADD`, `MOD` and `DEL` from what the entry
remembers, and errors are dropped.

## Implementation notes

A mask is the `uint32_t` of the source. `κ` is the type of the callbacks; callers always pass one
that can be called. `wake_fd_` is watched from the beginning and has no entry. A descriptor stays
open from call to call.
-/

namespace PipelineTunnel.Interest

abbrev Mask := BitVec 32

def EPOLLIN : Mask := 0x001
def EPOLLOUT : Mask := 0x004

structure FdState (κ : Type*) where
  inCb : Option κ := none
  outCb : Option κ := none
  events : Mask := 0

/-- `fd_to_handler_` and the interest set of `epoll_fd_`. -/
structure State (κ : Type*) where
  fdToHandler : Nat → Option (FdState κ) := fun _ => none
  interest : Nat → Option Mask := fun _ => none

inductive Ctl where
  | add
  | mod
  | del
deriving DecidableEq, Repr

inductive Errno where
  | EEXIST
  | ENOENT
deriving DecidableEq, Repr

/-- `epoll_ctl` on the interest set. -/
def epollCtl (interest : Nat → Option Mask) (op : Ctl) (fd : Nat) (ev : Mask) :
    Except Errno (Nat → Option Mask) :=
  match op, interest fd with
  | .add, none => .ok (Function.update interest fd (some ev))
  | .add, some _ => .error .EEXIST
  | .mod, some _ => .ok (Function.update interest fd (some ev))
  | .mod, none => .error .ENOENT
  | .del, some _ => .ok (Function.update interest fd none)
  | .del, none => .error .ENOENT

variable {κ : Type*}

namespace State

/-- The state that the constructor leaves: the descriptor for wakeups is watched. -/
def start (wakeFd : Nat) : State κ where
  interest := Function.update (fun _ => none) wakeFd (some EPOLLIN)

/-- A call of `epoll_ctl` whose result nobody looks at. -/
def ctl (s : State κ) (op : Ctl) (fd : Nat) (ev : Mask) : State κ :=
  match epollCtl s.interest op fd ev with
  | .ok interest => { s with interest := interest }
  | .error _ => s

def addFdHandler (s : State κ) (fd : Nat) (callback : κ) (events : Mask) : State κ :=
  let state := (s.fdToHandler fd).getD {}
  let state : FdState κ :=
    { inCb := if events &&& EPOLLIN ≠ 0 then some callback else state.inCb
      outCb := if events &&& EPOLLOUT ≠ 0 then some callback else state.outCb
      events := state.events ||| events }
  let s := { s with fdToHandler := Function.update s.fdToHandler fd (some state) }
  match epollCtl s.interest .add fd state.events with
  | .ok interest => { s with interest := interest }
  | .error .EEXIST => s.ctl .mod fd state.events
  | .error .ENOENT => s

def modFdEvents (s : State κ) (fd : Nat) (add remove : Mask) : State κ :=
  match s.fdToHandler fd with
  | none => s
  | some state =>
      let wasEmpty := state.events == 0
      let state : FdState κ := { state with events := (state.events ||| add) &&& ~~~remove }
      let s := { s with fdToHandler := Function.update s.fdToHandler fd (some state) }
      if state.events = 0 ∨ state.inCb.isNone ∧ state.outCb.isNone then s.ctl .del fd 0
      else if wasEmpty then s.ctl .add fd state.events
      else s.ctl .mod fd state.events

def delFd (s : State κ) (fd : Nat) : State κ :=
  let s := s.ctl .del fd 0
  { s with fdToHandler := Function.update s.fdToHandler fd none }

end State

inductive Call (κ : Type*) where
  | addFdHandler (fd : Nat) (callback : κ) (events : Mask)
  | modFdEvents (fd : Nat) (add remove : Mask)
  | delFd (fd : Nat)
deriving DecidableEq

def Call.fd : Call κ → Nat
  | .addFdHandler fd _ _ | .modFdEvents fd _ _ | .delFd fd => fd

def State.call (s : State κ) : Call κ → State κ
  | .addFdHandler fd callback events => s.addFdHandler fd callback events
  | .modFdEvents fd add remove => s.modFdEvents fd add remove
  | .delFd fd => s.delFd fd

/-- A handler is added for input, for output or for both. -/
def Call.Proper : Call κ → Prop
  | .addFdHandler _ _ events => events &&& EPOLLIN ≠ 0 ∨ events &&& EPOLLOUT ≠ 0
  | .modFdEvents _ _ _ | .delFd _ => True

instance : ∀ c : Call κ, Decidable c.Proper
  | .addFdHandler _ _ _ => inferInstanceAs (Decidable (_ ∨ _))
  | .modFdEvents _ _ _ | .delFd _ => isTrue trivial

/-! ## What was asked for -/

/-- What a call asks for on a descriptor; `none` stands for no handler. Events of a descriptor
without a handler cannot be changed. -/
def Call.request (fd : Nat) (asked : Option Mask) (c : Call κ) : Option Mask :=
  if c.fd = fd then
    match c with
    | .addFdHandler _ _ events => some (asked.getD 0 ||| events)
    | .modFdEvents _ add remove => asked.map fun ev => (ev ||| add) &&& ~~~remove
    | .delFd _ => none
  else asked

/-- The events that a sequence of calls has asked for, each call in its turn. -/
def asked (fd : Nat) (calls : List (Call κ)) : Option Mask := calls.foldl (Call.request fd) none

/-! ## What the operations do -/

/-- The entry of a descriptor has a callback, and the set holds its events, unless there are
none. -/
structure Mirrors (s : State κ) (fd : Nat) : Prop where
  callback : ∀ state ∈ s.fdToHandler fd, state.inCb.isSome ∨ state.outCb.isSome
  interest : s.interest fd =
    (s.fdToHandler fd).bind fun state => if state.events = 0 then none else some state.events

namespace State

variable (s : State κ) (fd : Nat)

@[simp] theorem fdToHandler_ctl (op : Ctl) (fd' : Nat) (ev : Mask) :
    (s.ctl op fd' ev).fdToHandler = s.fdToHandler := by
  rw [ctl]
  cases epollCtl s.interest op fd' ev <;> rfl

theorem interest_ctl_of_ne {fd' : Nat} (hne : fd' ≠ fd) (op : Ctl) (ev : Mask) :
    (s.ctl op fd' ev).interest fd = s.interest fd := by
  cases op <;> cases h : s.interest fd' <;> simp [ctl, epollCtl, h, Ne.symm hne]

theorem interest_ctl_add (ev : Mask) :
    (s.ctl .add fd ev).interest fd = some ((s.interest fd).getD ev) := by
  cases h : s.interest fd <;> simp [ctl, epollCtl, h]

theorem interest_ctl_mod (ev : Mask) :
    (s.ctl .mod fd ev).interest fd = (s.interest fd).map fun _ => ev := by
  cases h : s.interest fd <;> simp [ctl, epollCtl, h]

theorem interest_ctl_del (ev : Mask) : (s.ctl .del fd ev).interest fd = none := by
  cases h : s.interest fd <;> simp [ctl, epollCtl, h]

/-- The other descriptors. -/
theorem call_of_ne {c : Call κ} (hne : c.fd ≠ fd) :
    (s.call c).fdToHandler fd = s.fdToHandler fd ∧ (s.call c).interest fd = s.interest fd := by
  have hfd : fd ≠ c.fd := Ne.symm hne
  cases c with
  | addFdHandler fd' callback events =>
      rw [Call.fd] at hne hfd
      simp only [call, addFdHandler]
      split
      · rename_i interest hctl
        refine ⟨Function.update_of_ne hfd _ _, ?_⟩
        rw [epollCtl.eq_def] at hctl
        cases h : s.interest fd' with
        | none =>
            simp only [h, Except.ok.injEq] at hctl
            rw [← hctl]
            exact Function.update_of_ne hfd _ _
        | some old => simp [h] at hctl
      · rw [interest_ctl_of_ne _ _ hne, fdToHandler_ctl]
        exact ⟨Function.update_of_ne hfd _ _, rfl⟩
      · exact ⟨Function.update_of_ne hfd _ _, rfl⟩
  | modFdEvents fd' add remove =>
      rw [Call.fd] at hne hfd
      simp only [call, modFdEvents]
      cases s.fdToHandler fd' with
      | none => exact ⟨rfl, rfl⟩
      | some state =>
          dsimp only
          split_ifs <;> rw [interest_ctl_of_ne _ _ hne, fdToHandler_ctl] <;>
            exact ⟨Function.update_of_ne hfd _ _, rfl⟩
  | delFd fd' =>
      rw [Call.fd] at hne hfd
      simp only [call, delFd]
      rw [interest_ctl_of_ne _ _ hne, fdToHandler_ctl]
      exact ⟨Function.update_of_ne hfd _ _, rfl⟩

/-- `MOD` follows where `ADD` finds the descriptor in the set. -/
theorem interest_addFdHandler (callback : κ) (events : Mask) :
    (s.addFdHandler fd callback events).interest fd =
      some (((s.fdToHandler fd).getD {}).events ||| events) := by
  cases h : s.interest fd with
  | none => simp [addFdHandler, epollCtl, h]
  | some old => simp [addFdHandler, ctl, epollCtl, h]

theorem fdToHandler_addFdHandler (callback : κ) (events : Mask) :
    (s.addFdHandler fd callback events).fdToHandler fd = some
      { inCb := if events &&& EPOLLIN ≠ 0 then some callback else
          ((s.fdToHandler fd).getD {}).inCb
        outCb := if events &&& EPOLLOUT ≠ 0 then some callback else
          ((s.fdToHandler fd).getD {}).outCb
        events := ((s.fdToHandler fd).getD {}).events ||| events } := by
  cases h : s.interest fd with
  | none => simp [addFdHandler, epollCtl, h]
  | some old => simp [addFdHandler, ctl, epollCtl, h]

theorem fdToHandler_modFdEvents (add remove : Mask) :
    (s.modFdEvents fd add remove).fdToHandler fd = (s.fdToHandler fd).map fun state =>
      { state with events := (state.events ||| add) &&& ~~~remove } := by
  rw [modFdEvents]
  cases h : s.fdToHandler fd with
  | none => simp [h]
  | some state =>
      dsimp only
      split_ifs <;> simp

end State

/-! ## The set mirrors the entries -/

variable {s : State κ} {fd : Nat}

theorem Mirrors.interest_isSome_iff (h : Mirrors s fd) :
    (s.interest fd).isSome ↔ ∃ state, s.fdToHandler fd = some state ∧ state.events ≠ 0 := by
  rw [h.interest]
  cases s.fdToHandler fd with
  | none => simp
  | some state =>
      rw [Option.bind_some]
      by_cases hempty : state.events = 0
      · rw [if_pos hempty]
        simp [hempty]
      · rw [if_neg hempty]
        simpa using hempty

theorem Mirrors.interest_eq (h : Mirrors s fd) {state : FdState κ}
    (hstate : s.fdToHandler fd = some state) (hevents : state.events ≠ 0) :
    s.interest fd = some state.events := by
  rw [h.interest, hstate, Option.bind_some, if_neg hevents]

theorem Mirrors.congr {s' : State κ} (h : Mirrors s fd)
    (hhandler : s'.fdToHandler fd = s.fdToHandler fd) (hinterest : s'.interest fd = s.interest fd) :
    Mirrors s' fd := by
  constructor
  · rw [hhandler]
    exact h.callback
  · rw [hinterest, hhandler]
    exact h.interest

theorem or_ne_zero {old events : Mask} (h : events &&& EPOLLIN ≠ 0 ∨ events &&& EPOLLOUT ≠ 0) :
    old ||| events ≠ 0 := by
  intro hzero
  obtain ⟨-, rfl⟩ := BitVec.or_eq_zero_iff.mp hzero
  simp at h

theorem mirrors_addFdHandler (s : State κ) (fd : Nat) (callback : κ) {events : Mask}
    (hevents : events &&& EPOLLIN ≠ 0 ∨ events &&& EPOLLOUT ≠ 0) :
    Mirrors (s.addFdHandler fd callback events) fd := by
  constructor
  · intro state hstate
    rw [State.fdToHandler_addFdHandler] at hstate
    cases hstate
    dsimp only
    rcases hevents with hin | hout
    · left
      rw [if_pos hin, Option.isSome_some]
    · right
      rw [if_pos hout, Option.isSome_some]
  · rw [State.interest_addFdHandler, State.fdToHandler_addFdHandler, Option.bind_some,
      if_neg (or_ne_zero hevents)]

theorem Mirrors.modFdEvents (h : Mirrors s fd) (add remove : Mask) :
    Mirrors (s.modFdEvents fd add remove) fd := by
  have hentry := State.fdToHandler_modFdEvents s fd add remove
  cases hstate : s.fdToHandler fd with
  | none =>
      rw [State.modFdEvents, hstate]
      exact h
  | some state =>
      rw [hstate, Option.map_some] at hentry
      have hcallback := h.callback state hstate
      constructor
      · intro state' hstate'
        rw [hentry] at hstate'
        cases hstate'
        exact hcallback
      · have hasked : ¬ (state.inCb.isNone ∧ state.outCb.isNone) := by
          rintro ⟨hin, hout⟩
          rw [Option.isNone_iff_eq_none.mp hin, Option.isNone_iff_eq_none.mp hout] at hcallback
          simp at hcallback
        rw [hentry, Option.bind_some, State.modFdEvents, hstate]
        dsimp only
        by_cases hnone : (state.events ||| add) &&& ~~~remove = 0
        · rw [if_pos (.inl hnone), if_pos hnone, State.interest_ctl_del]
        · rw [if_neg (not_or.mpr ⟨hnone, hasked⟩), if_neg hnone]
          by_cases hempty : state.events = 0
          · -- the set was left when the mask ran empty
            rw [if_pos (beq_iff_eq.mpr hempty)]
            rw [State.interest_ctl_add]
            dsimp only
            rw [h.interest, hstate, Option.bind_some, if_pos hempty, Option.getD_none]
          · rw [if_neg (by simpa using hempty)]
            rw [State.interest_ctl_mod]
            dsimp only
            rw [h.interest_eq hstate hempty, Option.map_some]

theorem mirrors_delFd (s : State κ) (fd : Nat) : Mirrors (s.delFd fd) fd := by
  have hentry : (s.delFd fd).fdToHandler fd = none := Function.update_self _ _ _
  constructor
  · intro state hstate
    rw [hentry] at hstate
    cases hstate
  · rw [hentry, State.delFd]
    exact State.interest_ctl_del s fd 0

theorem Mirrors.call (h : Mirrors s fd) {c : Call κ} (hc : c.Proper) :
    Mirrors (s.call c) fd := by
  by_cases hfd : c.fd = fd
  · subst hfd
    cases c with
    | addFdHandler fd callback events => exact mirrors_addFdHandler s fd callback hc
    | modFdEvents fd add remove => exact h.modFdEvents add remove
    | delFd fd => exact mirrors_delFd s fd
  · obtain ⟨hhandler, hinterest⟩ := State.call_of_ne s fd hfd
    exact h.congr hhandler hinterest

/-- The events of an entry are those that the calls have asked for. -/
theorem events_call (s : State κ) (fd : Nat) (c : Call κ) :
    ((s.call c).fdToHandler fd).map FdState.events =
      c.request fd ((s.fdToHandler fd).map FdState.events) := by
  by_cases hfd : c.fd = fd
  · subst hfd
    rw [Call.request.eq_def, if_pos rfl]
    cases c with
    | addFdHandler fd callback events =>
        rw [State.call, Call.fd, State.fdToHandler_addFdHandler, Option.map_some]
        cases s.fdToHandler fd <;> rfl
    | modFdEvents fd add remove =>
        rw [State.call, Call.fd, State.fdToHandler_modFdEvents]
        cases s.fdToHandler fd <;> rfl
    | delFd fd => simp [State.call, State.delFd, Call.fd]
  · rw [Call.request.eq_def, if_neg hfd, (State.call_of_ne s fd hfd).1]

/-! ## One descriptor by itself -/

/-- A set of events as a mask. -/
def maskOf (ev : Kernel.Events) : Mask :=
  (if ev.epollin then EPOLLIN else 0) ||| if ev.epollout then EPOLLOUT else 0

theorem maskOf_union (ev ev' : Kernel.Events) :
    maskOf (ev.union ev') = maskOf ev ||| maskOf ev' := by
  rcases ev with ⟨i, o⟩
  rcases ev' with ⟨i', o'⟩
  revert i o i' o'
  decide

theorem maskOf_without (ev ev' : Kernel.Events) :
    maskOf (ev.without ev') = maskOf ev &&& ~~~maskOf ev' := by
  rcases ev with ⟨i, o⟩
  rcases ev' with ⟨i', o'⟩
  revert i o i' o'
  decide

theorem maskOf_eq_zero_iff (ev : Kernel.Events) : maskOf ev = 0 ↔ ev = {} := by
  rcases ev with ⟨i, o⟩
  revert i o
  decide

theorem maskOf_and_epollin (ev : Kernel.Events) : maskOf ev &&& EPOLLIN ≠ 0 ↔ ev.epollin = true := by
  rcases ev with ⟨i, o⟩
  revert i o
  decide

theorem maskOf_and_epollout (ev : Kernel.Events) :
    maskOf ev &&& EPOLLOUT ≠ 0 ↔ ev.epollout = true := by
  rcases ev with ⟨i, o⟩
  revert i o
  decide

/-- The presence of the callbacks and the events. -/
def FdState.summary (state : FdState κ) : Bool × Bool × Mask :=
  (state.inCb.isSome, state.outCb.isSome, state.events)

def summaryOf (h : Kernel.Handler) : Bool × Bool × Mask := (h.inCb, h.outCb, maskOf h.events)

/-- The model of a single descriptor is in step with the maps. -/
structure Shows (s : State κ) (fd : Nat) (d : Kernel.Descriptor) : Prop where
  handler : (s.fdToHandler fd).map FdState.summary = d.handler.map summaryOf
  interest : s.interest fd = d.interest.map maskOf

variable {d : Kernel.Descriptor}

theorem Shows.getD (h : Shows s fd d) :
    ((s.fdToHandler fd).getD {}).summary = summaryOf (d.handler.getD {}) := by
  have hhandler := h.handler
  cases hstate : s.fdToHandler fd with
  | none =>
      rw [hstate] at hhandler
      rw [Option.map_eq_none_iff.mp hhandler.symm]
      rfl
  | some state =>
      rw [hstate] at hhandler
      obtain ⟨old, hold, heq⟩ := Option.map_eq_some_iff.mp hhandler.symm
      rw [hold]
      exact heq.symm

theorem Shows.addFdHandler (h : Shows s fd d) (callback : κ) (ev : Kernel.Events) :
    Shows (s.addFdHandler fd callback (maskOf ev)) fd (d.addFdHandler ev) := by
  have hold := h.getD
  simp only [FdState.summary, summaryOf, Prod.mk.injEq] at hold
  obtain ⟨hin, hout, hevents⟩ := hold
  constructor
  · rw [State.fdToHandler_addFdHandler, Kernel.Descriptor.handler_addFdHandler, Option.map_some,
      Option.map_some]
    simp only [FdState.summary, summaryOf, maskOf_and_epollin, maskOf_and_epollout, hevents,
      maskOf_union]
    congr 2
    · cases ev.epollin with
      | true => simp
      | false => simpa using hin
    · cases ev.epollout with
      | true => simp
      | false => simpa using hout
  · rw [State.interest_addFdHandler, Kernel.Descriptor.interest_addFdHandler, Option.map_some,
      maskOf_union, hevents]

theorem Shows.modFdEvents (h : Shows s fd d) (add remove : Kernel.Events) :
    Shows (s.modFdEvents fd (maskOf add) (maskOf remove)) fd (d.modFdEvents add remove) := by
  have hhandler := h.handler
  cases hstate : s.fdToHandler fd with
  | none =>
      rw [hstate] at hhandler
      have hnone := Option.map_eq_none_iff.mp hhandler.symm
      rw [State.modFdEvents, hstate, Kernel.Descriptor.modFdEvents, hnone]
      exact h
  | some state =>
      rw [hstate] at hhandler
      obtain ⟨old, hold, heq⟩ := Option.map_eq_some_iff.mp hhandler.symm
      simp only [FdState.summary, summaryOf, Prod.mk.injEq] at heq
      obtain ⟨hin, hout, hevents⟩ := heq
      have hmask : (state.events ||| maskOf add) &&& ~~~maskOf remove =
          maskOf ((old.events.union add).without remove) := by
        rw [← hevents, maskOf_without, maskOf_union]
      constructor
      · rw [State.fdToHandler_modFdEvents, Kernel.Descriptor.handler_modFdEvents, hstate, hold]
        simp only [Option.map_some, FdState.summary, summaryOf, hmask, hin, hout]
      · have hinterest := h.interest
        have hnocb : (state.inCb.isNone ∧ state.outCb.isNone) ↔ (!old.inCb ∧ !old.outCb) := by
          rw [hin, hout]
          cases state.inCb <;> cases state.outCb <;> simp
        have hempty : (state.events == 0) = true ↔ old.events = {} := by
          rw [beq_iff_eq, ← hevents, maskOf_eq_zero_iff]
        rw [State.modFdEvents, hstate, Kernel.Descriptor.modFdEvents, hold]
        dsimp only
        rw [hmask]
        simp only [maskOf_eq_zero_iff, hnocb, hempty]
        split_ifs
        · rw [State.interest_ctl_del]
          rfl
        · rw [State.interest_ctl_add]
          dsimp only
          rw [hinterest]
          cases d.interest <;> simp [Kernel.Descriptor.ctlAdd]
        · rw [State.interest_ctl_mod]
          dsimp only
          rw [hinterest]
          cases d.interest <;> simp [Kernel.Descriptor.ctlMod]

theorem shows_delFd (s : State κ) (fd : Nat) (d : Kernel.Descriptor) :
    Shows (s.delFd fd) fd d.delFd := by
  constructor
  · simp [State.delFd, Kernel.Descriptor.delFd]
  · rw [State.delFd]
    exact State.interest_ctl_del s fd 0

theorem Shows.call_of_ne (h : Shows s fd d) {c : Call κ} (hne : c.fd ≠ fd) :
    Shows (s.call c) fd d := by
  obtain ⟨hhandler, hinterest⟩ := State.call_of_ne s fd hne
  constructor
  · rw [hhandler]
    exact h.handler
  · rw [hinterest]
    exact h.interest

/-! ## Sequences of calls -/

theorem Mirrors.calls {calls : List (Call κ)} (h : Mirrors s fd)
    (hproper : ∀ c ∈ calls, c.Proper) : Mirrors (calls.foldl State.call s) fd := by
  induction calls generalizing s with
  | nil => exact h
  | cons c calls ih =>
      rw [List.foldl_cons]
      apply ih
      · exact h.call (hproper c List.mem_cons_self)
      · exact fun c' hc' => hproper c' (List.mem_cons_of_mem c hc')

theorem events_calls (s : State κ) (fd : Nat) (calls : List (Call κ)) :
    ((calls.foldl State.call s).fdToHandler fd).map FdState.events =
      calls.foldl (Call.request fd) ((s.fdToHandler fd).map FdState.events) := by
  induction calls generalizing s with
  | nil => rfl
  | cons c calls ih => rw [List.foldl_cons, List.foldl_cons, ih, events_call]

theorem mirrors_start {wakeFd fd : Nat} (hfd : fd ≠ wakeFd) :
    Mirrors (State.start wakeFd : State κ) fd := by
  refine ⟨nofun, ?_⟩
  simp [State.start, hfd]

/-- After any calls the set holds a descriptor exactly when its entry asks for events, with these
events; and they are the ones that the calls have asked for. -/
theorem interest_mirrors_handlers (wakeFd : Nat) (calls : List (Call κ))
    (hproper : ∀ c ∈ calls, c.Proper) {fd : Nat} (hfd : fd ≠ wakeFd) :
    let s := calls.foldl State.call (State.start wakeFd)
    ((s.interest fd).isSome ↔ ∃ state, s.fdToHandler fd = some state ∧ state.events ≠ 0) ∧
      (∀ state, s.fdToHandler fd = some state → state.events ≠ 0 →
        s.interest fd = some state.events) ∧
      (s.fdToHandler fd).map FdState.events = asked fd calls := by
  intro s
  have hmirrors : Mirrors s fd := (mirrors_start hfd).calls hproper
  refine ⟨hmirrors.interest_isSome_iff, fun state => hmirrors.interest_eq, ?_⟩
  exact events_calls (State.start wakeFd) fd calls

/-- A target is registered for input, paused, and then waits for room in its socket. -/
theorem interest_mirrors_handlers_paused :
    let calls : List (Call Unit) :=
      [.addFdHandler 7 () EPOLLIN, .modFdEvents 7 0 EPOLLIN, .addFdHandler 7 () EPOLLOUT]
    let s := calls.foldl State.call (State.start 3)
    s.interest 7 = some EPOLLOUT ∧ (s.fdToHandler 7).map FdState.events = asked 7 calls := by
  intro calls s
  obtain ⟨-, hinterest, hasked⟩ := interest_mirrors_handlers 3 calls (by decide)
    (show 7 ≠ 3 by decide)
  exact ⟨hinterest _ rfl (by decide), hasked⟩

end PipelineTunnel.Interest
