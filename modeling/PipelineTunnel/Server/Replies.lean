import PipelineTunnel.Core.Kernel
import PipelineTunnel.Lib.StepSystem

/-!
# The replies to a connect request

A connect in progress has one callback for `EPOLLOUT` and for a hangup, and each of its
branches ends the connect: it replies, and a failure also closes the socket. The socket keeps
its entry in `fd_to_handler_`, so one result of `epoll_wait` that reports both calls the
callback twice. `handle_connect_cancel` and `check_pending_connect_timeout` close the socket
too, also when a result for it waits to be dispatched.

## Implementation notes

The state is that of one request and its socket; the number of the socket is not given to
another one. `pending` and `isTarget` tell whether the entries of `pending_connects_` and
`targets_` are those of this request: another request with the same id can take them over.
`waiting` is the result of the last `epoll_wait` for the socket until it is dispatched; the
control messages and the tick of the same round come before it.
-/

namespace PipelineTunnel.Replies

open Kernel (Descriptor Events EPOLLIN EPOLLOUT)
open StepSystem

/-- Whose callback it is: that of a connect in progress, the reader of a target, or the writer
of `register_target_epollout`. -/
inductive Role where
  | connecting
  | target
  | writer
deriving DecidableEq, Repr

inductive Reply where
  | connectOk
  | connectFail
deriving DecidableEq, Repr

/-- The events of one result of `epoll_wait`. -/
structure Ready where
  events : Events
  hup : Bool
deriving DecidableEq, Repr

structure Request where
  descriptor : Descriptor := {}
  inCb : Option Role := none
  outCb : Option Role := none
  isOpen : Bool := false
  pending : Bool := false
  isTarget : Bool := false
  waiting : Option Ready := none
  replies : List Reply := []
  closes : Nat := 0
deriving DecidableEq, Repr

namespace Request

/-! ## The kernel -/

/-- `add_fd_handler`; `epoll_ctl` refuses a descriptor that is closed. -/
def addFdHandler (r : Request) (role : Role) (events : Events) : Request :=
  let d := r.descriptor.addFdHandler events
  { r with
    descriptor := if r.isOpen then d else { d with interest := none }
    inCb := if events.epollin then some role else r.inCb
    outCb := if events.epollout then some role else r.outCb }

def modFdEvents (r : Request) (add remove : Events) : Request :=
  let d := r.descriptor.modFdEvents add remove
  { r with descriptor := if r.isOpen then d else { d with interest := none } }

def delFd (r : Request) : Request := { r with descriptor := {}, inCb := none, outCb := none }

/-- `close`: `epoll` forgets the socket, `fd_to_handler_` does not. -/
def close (r : Request) : Request :=
  { r with
    descriptor := { r.descriptor with interest := none }
    isOpen := false
    closes := r.closes + 1 }

/-! ## The session -/

def send (r : Request) (reply : Reply) : Request := { r with replies := r.replies ++ [reply] }

def onTargetConnected (r : Request) : Request :=
  ({ r with pending := false, isTarget := true }.addFdHandler .target EPOLLIN).send .connectOk

/-- The branches of the callback that fail. -/
def connectFails (r : Request) : Request :=
  { r.close with pending := false }.send .connectFail

/-- The branch for `EPOLLOUT`; `ok` tells that `SO_ERROR` is 0. A closed descriptor has none. -/
def connectOut (r : Request) (ok : Bool) : Request :=
  if ok && r.isOpen then (r.modFdEvents {} EPOLLOUT).onTargetConnected else r.connectFails

def handleConnectCancel (r : Request) : Request :=
  if r.pending then { r.close with pending := false } else r

/-- The request is found too old. -/
def checkPendingConnectTimeout (r : Request) : Request :=
  if r.pending then { r.close with pending := false }.send .connectFail else r

def closeTarget (r : Request) : Request :=
  if r.isTarget then { r.delFd.close with isTarget := false } else r

def registerTargetEpollout (r : Request) : Request :=
  if r.isTarget then r.addFdHandler .writer EPOLLOUT else r

end Request

/-- How `handle_connect_req` ends: it drops the message, or fails at once, or a `connect`
succeeds at once or goes on. -/
inductive Attempt where
  | dropped
  | fails
  | connected
  | inProgress
deriving DecidableEq, Repr

namespace Request

def handleConnectReq : Attempt → Request
  | .dropped => {}
  | .fails => ({} : Request).send .connectFail
  | .connected => { isOpen := true : Request }.onTargetConnected
  | .inProgress =>
      { isOpen := true, pending := true : Request }.addFdHandler .connecting EPOLLOUT

/-! ## The event loop -/

/-- `eof` tells that the reader closes its target. -/
def dispatchIn (r : Request) (eof : Bool) : Request :=
  match r.inCb with
  | some .target => if eof then r.closeTarget else r
  | _ => r

def dispatchOut (r : Request) (ok : Bool) : Request :=
  match r.outCb with
  | some .connecting => r.connectOut ok
  | _ => r

/-- The hangup goes to one of the callbacks, and the entry is erased. -/
def dispatchHup (r : Request) (eof : Bool) : Request :=
  let r :=
    match r.inCb, r.outCb with
    | some .target, _ => if eof then r.closeTarget else r
    | none, some .connecting => r.connectFails
    | none, some .writer => { r with isTarget := false }
    | _, _ => r
  r.delFd

def dispatch (r : Request) (ready : Ready) (ok eof : Bool) : Request :=
  let r := { r with waiting := none }
  let r := if ready.events.epollin then r.dispatchIn eof else r
  let r := if ready.events.epollout then r.dispatchOut ok else r
  if ready.hup then r.dispatchHup eof else r

end Request

inductive Label where
  /-- A result of `epoll_wait` for the socket. -/
  | report (ready : Ready)
  | dispatch (ok eof : Bool)
  | connectCancel
  | connectTimeout
  /-- Another request with the same `req_id` takes over the entry, or erases it. -/
  | pendingLost
  | closeTarget
  /-- The entry of the target is overwritten, or erased without a close. -/
  | targetLost
  | registerWriter
  /-- Interest in input is given up and taken again; that in room is only ever given up. -/
  | modEvents (epollin : Bool) (remove : Events)
deriving DecidableEq, Repr

/-- The system reports events that are watched, and a hangup for whatever is watched. -/
def Reports (r : Request) (ready : Ready) : Prop :=
  r.waiting = none ∧ ∃ interest ∈ r.descriptor.interest,
    ready.events.without interest = {} ∧ (ready.events ≠ {} ∨ ready.hup = true)

instance (r : Request) (ready : Ready) : Decidable (Reports r ready) :=
  inferInstanceAs (Decidable (_ ∧ ∃ interest ∈ r.descriptor.interest, _))

def step (r : Request) : Label → Option Request
  | .report ready => if Reports r ready then some { r with waiting := some ready } else none
  | .dispatch ok eof => r.waiting.map fun ready => r.dispatch ready ok eof
  | .connectCancel => some r.handleConnectCancel
  | .connectTimeout => some r.checkPendingConnectTimeout
  | .pendingLost => some { r with pending := false }
  | .closeTarget => some r.closeTarget
  | .targetLost => some { r with isTarget := false }
  | .registerWriter => some r.registerTargetEpollout
  | .modEvents epollin remove => some (r.modFdEvents ⟨epollin, false⟩ remove)

/-! ## What is asked for -/

/-- Neither the entry nor the system asks for room in the socket. -/
structure NoRoom (d : Descriptor) : Prop where
  entry : d.events.epollout = false
  interest : ∀ events ∈ d.interest, events.epollout = false

theorem NoRoom.unwatched {d : Descriptor} (h : NoRoom d) : NoRoom { d with interest := none } :=
  ⟨h.entry, nofun⟩

/-- `epoll_ctl` leaves the watched events, drops them, or takes those of the entry. -/
theorem interest_modFdEvents (d : Descriptor) (add remove : Events) :
    (d.modFdEvents add remove).interest = d.interest ∨
      (d.modFdEvents add remove).interest = none ∨
      (d.modFdEvents add remove).interest = some ((d.events.union add).without remove) := by
  rw [Descriptor.modFdEvents, Descriptor.events]
  cases hhandler : d.handler with
  | none => exact .inl rfl
  | some state =>
      dsimp only [Option.getD_some]
      split_ifs
      · exact .inr (.inl rfl)
      · rw [Descriptor.ctlAdd]
        split_ifs
        · exact .inl rfl
        · exact .inr (.inr rfl)
      · rw [Descriptor.ctlMod]
        split_ifs
        · exact .inr (.inr rfl)
        · exact .inl rfl

theorem NoRoom.modFdEvents {d : Descriptor} (h : NoRoom d) (epollin : Bool) (remove : Events) :
    NoRoom (d.modFdEvents ⟨epollin, false⟩ remove) := by
  have hnone : ((d.events.union ⟨epollin, false⟩).without remove).epollout = false := by
    simp [Events.union, Events.without, h.entry]
  constructor
  · rw [Descriptor.events, Descriptor.handler_modFdEvents]
    cases hhandler : d.handler with
    | none => rfl
    | some state => simpa [Descriptor.events, hhandler] using hnone
  · rcases interest_modFdEvents d ⟨epollin, false⟩ remove with hsame | hdrop | hnew
    · rw [hsame]
      exact h.interest
    · rw [hdrop]
      intro events hevents
      cases hevents
    · rw [hnew]
      intro events hevents
      cases hevents
      exact hnone

/-- A connect that succeeded asks for input alone. -/
theorem noRoom_connected (d : Descriptor) :
    NoRoom ((d.modFdEvents {} EPOLLOUT).addFdHandler EPOLLIN) := by
  have hnone : ((d.modFdEvents {} EPOLLOUT).events.union EPOLLIN).epollout = false := by
    rw [Descriptor.events_modFdEvents]
    simp [Events.union, Events.without, EPOLLIN, EPOLLOUT]
  constructor
  · rw [Descriptor.events_addFdHandler]
    exact hnone
  · rw [Descriptor.interest_addFdHandler]
    intro events hevents
    cases hevents
    exact hnone

/-! ## One reply and one close -/

/-- The socket has the callback of a connect in progress alone. -/
def Connecting (r : Request) : Prop := r.inCb = none ∧ r.outCb = some .connecting

instance (r : Request) : Decidable (Connecting r) := inferInstanceAs (Decidable (_ ∧ _))

/-- The request was answered at most once and its socket closed at most once. -/
structure Once (r : Request) : Prop where
  replies : r.replies.length ≤ 1
  closes : r.closes ≤ 1

/-- A result that comes to the callback of a connect finds its socket open, and it does not
report a hangup together with room for a connect that failed. -/
def Clean (r : Request) : Label → Prop
  | .dispatch ok _ =>
      ∀ ready ∈ r.waiting, Connecting r → (ready.events.epollout = true ∨ ready.hup = true) →
        r.isOpen = true ∧ ¬ (ready.events.epollout = true ∧ ready.hup = true ∧ ok = false)
  | _ => True

instance (r : Request) : ∀ l, Decidable (Clean r l)
  | .dispatch _ _ => inferInstanceAs (Decidable (∀ ready ∈ r.waiting, _ → _ → _ ∧ ¬ _))
  | .report _ | .connectCancel | .connectTimeout | .pendingLost | .closeTarget | .targetLost
  | .registerWriter | .modEvents .. => isTrue trivial

/-- What holds of a request as long as its events are clean. -/
structure Settles (r : Request) : Prop extends Once r where
  pending : r.pending = true → Connecting r ∧ r.isOpen = true
  fresh : Connecting r → r.isOpen = true → r.replies = [] ∧ r.closes = 0
  target : r.isTarget = true → r.closes = 0 ∧ ¬ Connecting r
  /-- The callback of the connect stays behind the reader, but it is not called again. -/
  stale : r.outCb = some .connecting → r.inCb ≠ none →
    NoRoom r.descriptor ∧ ∀ ready ∈ r.waiting, ready.events.epollout = false

variable {r r' : Request}

theorem settles_handleConnectReq (attempt : Attempt) :
    Settles (Request.handleConnectReq attempt) := by
  cases attempt with
  | dropped => exact ⟨⟨by decide, by decide⟩, nofun, by decide, nofun, nofun⟩
  | fails => exact ⟨⟨by decide, by decide⟩, nofun, by decide, nofun, nofun⟩
  | connected => exact ⟨⟨by decide, by decide⟩, nofun, by decide, by decide, nofun⟩
  | inProgress =>
      exact ⟨⟨by decide, by decide⟩, by decide, by decide, nofun, fun _ hne => absurd rfl hne⟩

/-- A socket that is no connect in progress has no entry in `pending_connects_`. -/
theorem Settles.not_pending (h : Settles r) (hidle : ¬ Connecting r) : r.pending = false := by
  cases hpending : r.pending with
  | false => rfl
  | true => exact absurd (h.pending hpending).1 hidle

theorem Settles.delFd (h : Settles r) (hpending : r.pending = false) : Settles r.delFd where
  replies := h.replies
  closes := h.closes
  pending hp := absurd (hp.symm.trans hpending) (by decide)
  fresh hc := nomatch hc.2
  target ht := ⟨(h.target ht).1, fun hc => nomatch hc.2⟩
  stale hout := nomatch hout

theorem Settles.closeTarget (h : Settles r) : Settles r.closeTarget := by
  unfold Request.closeTarget
  split_ifs with htarget
  · obtain ⟨hcloses, hidle⟩ := h.target htarget
    have hpending := h.not_pending hidle
    constructor
    · refine ⟨h.replies, ?_⟩
      change r.closes + 1 ≤ 1
      omega
    · exact fun hp => absurd (hp.symm.trans hpending) (by decide)
    · exact fun hc => nomatch hc.2
    · exact nofun
    · exact fun hout => nomatch hout
  · exact h

/-- The connect succeeds: the callback of the target stands before that of the connect. -/
theorem Settles.connected (h : Settles r) (hc : Connecting r) (hopen : r.isOpen = true)
    (hwaiting : r.waiting = none) :
    Settles (r.modFdEvents {} EPOLLOUT).onTargetConnected := by
  obtain ⟨hreplies, hcloses⟩ := h.fresh hc hopen
  have hroom : NoRoom (r.modFdEvents {} EPOLLOUT).onTargetConnected.descriptor := by
    simp only [Request.onTargetConnected, Request.send, Request.addFdHandler, Request.modFdEvents,
      hopen, if_true]
    exact noRoom_connected r.descriptor
  constructor
  · constructor
    · simp [Request.onTargetConnected, Request.send, Request.addFdHandler, Request.modFdEvents,
        hreplies]
    · exact h.closes
  · exact nofun
  · exact fun hc => nomatch hc.1
  · exact fun _ => ⟨hcloses, fun hc => nomatch hc.1⟩
  · intro _ _
    refine ⟨hroom, fun ready hready => ?_⟩
    have hnone : (r.modFdEvents {} EPOLLOUT).onTargetConnected.waiting = none := hwaiting
    rw [hnone] at hready
    cases hready

theorem Settles.connectFails (h : Settles r) (hc : Connecting r) (hopen : r.isOpen = true) :
    Settles r.connectFails := by
  obtain ⟨hreplies, hcloses⟩ := h.fresh hc hopen
  constructor
  · constructor
    · simp [Request.connectFails, Request.send, Request.close, hreplies]
    · change r.closes + 1 ≤ 1
      omega
  · exact nofun
  · exact nofun
  · exact fun ht => absurd hc (h.target ht).2
  · exact fun _ hin => absurd hc.1 hin

/-! ## The steps -/

theorem Settles.dispatchIn (h : Settles r) (eof : Bool) : Settles (r.dispatchIn eof) := by
  unfold Request.dispatchIn
  split
  · split_ifs
    · exact h.closeTarget
    · exact h
  · exact h

theorem dispatchIn_eq_or (r : Request) (eof : Bool) :
    r.dispatchIn eof = r ∨ (r.dispatchIn eof).outCb = none := by
  unfold Request.dispatchIn Request.closeTarget
  split
  · split_ifs
    · exact .inr rfl
    · exact .inl rfl
    · exact .inl rfl
  · exact .inl rfl

theorem Settles.dispatchHup (h : Settles r) (hidle : ¬ Connecting r) (eof : Bool) :
    Settles (r.dispatchHup eof) := by
  have hpending := h.not_pending hidle
  unfold Request.dispatchHup
  split
  · apply Settles.delFd
    · split_ifs
      · exact h.closeTarget
      · exact h
    · unfold Request.closeTarget
      split_ifs <;> exact hpending
  · rename_i hin hout
    exact absurd ⟨hin, hout⟩ hidle
  · refine Settles.delFd ?_ hpending
    exact ⟨⟨h.replies, h.closes⟩, h.pending, h.fresh, nofun, h.stale⟩
  · exact h.delFd hpending

theorem Settles.dispatched (h : Settles r) : Settles { r with waiting := none } :=
  ⟨⟨h.replies, h.closes⟩, h.pending, h.fresh, h.target,
    fun hout hin => ⟨(h.stale hout hin).1, nofun⟩⟩

/-- A result for a socket that is no connect in progress calls no callback of a connect. -/
theorem Settles.dispatch_of_idle (h : Settles r) (hidle : ¬ Connecting r) {ready : Ready}
    (hready : ready ∈ r.waiting) (ok eof : Bool) : Settles (r.dispatch ready ok eof) := by
  set r₁ := if ready.events.epollin then Request.dispatchIn { r with waiting := none } eof
    else { r with waiting := none } with hr₁
  have hr₁' : r₁ = { r with waiting := none } ∨ r₁.outCb = none := by
    rw [hr₁]
    split_ifs
    · exact dispatchIn_eq_or _ eof
    · exact .inl rfl
  have h₁ : Settles r₁ := by
    rw [hr₁]
    split_ifs
    · exact h.dispatched.dispatchIn eof
    · exact h.dispatched
  have hidle₁ : ¬ Connecting r₁ := by
    rintro ⟨hin, hout⟩
    rcases hr₁' with hsame | hnone
    · rw [hsame] at hin hout
      exact hidle ⟨hin, hout⟩
    · rw [hnone] at hout
      cases hout
  -- room is reported only where the callback for it is not that of the connect
  have hr₂ : (if ready.events.epollout then r₁.dispatchOut ok else r₁) = r₁ := by
    split_ifs with hroom
    · unfold Request.dispatchOut
      split
      · rename_i hout
        rcases hr₁' with hsame | hnone
        · have hin : r.inCb ≠ none := by
            rw [hsame] at hout
            exact fun hin => hidle ⟨hin, hout⟩
          rw [hsame] at hout
          have hquiet := (h.stale hout hin).2 ready hready
          rw [hroom] at hquiet
          cases hquiet
        · rw [hnone] at hout
          cases hout
      · rfl
    · rfl
  change Settles (if ready.hup then Request.dispatchHup
    (if ready.events.epollout then r₁.dispatchOut ok else r₁) eof
    else if ready.events.epollout then r₁.dispatchOut ok else r₁)
  rw [hr₂]
  split_ifs
  · exact h₁.dispatchHup hidle₁ eof
  · exact h₁

/-- A result for a connect in progress calls its callback for room, and for a hangup. -/
theorem dispatch_connecting (hc : Connecting r) (ready : Ready) (ok eof : Bool) :
    r.dispatch ready ok eof =
      let r := { r with waiting := none }
      let r := if ready.events.epollout then r.connectOut ok else r
      if ready.hup then r.dispatchHup eof else r := by
  have hin : Request.dispatchIn { r with waiting := none } eof = { r with waiting := none } := by
    simp only [Request.dispatchIn, hc.1]
  have hout : Request.dispatchOut { r with waiting := none } ok =
      Request.connectOut { r with waiting := none } ok := by
    simp only [Request.dispatchOut, hc.2]
  simp only [Request.dispatch, hin, ite_self, hout]

/-- The hangup ends a connect in progress, once more if it has ended already. -/
theorem dispatchHup_connecting (hc : Connecting r) (eof : Bool) :
    r.dispatchHup eof = r.connectFails.delFd := by
  simp only [Request.dispatchHup, hc.1, hc.2]

/-- A clean result ends the connect once. -/
theorem Settles.dispatch_of_connecting (h : Settles r) (hc : Connecting r) {ready : Ready}
    {ok eof : Bool}
    (hclean : (ready.events.epollout = true ∨ ready.hup = true) →
      r.isOpen = true ∧ ¬ (ready.events.epollout = true ∧ ready.hup = true ∧ ok = false)) :
    Settles (r.dispatch ready ok eof) := by
  have h₀ := h.dispatched
  have hc₀ : Connecting { r with waiting := none } := hc
  rw [dispatch_connecting hc]
  dsimp only
  by_cases hroom : ready.events.epollout = true
  · obtain ⟨hopen, hfail⟩ := hclean (.inl hroom)
    rw [if_pos hroom, Request.connectOut]
    cases ok with
    | true =>
        have hok : (true && r.isOpen) = true := by rw [hopen]; rfl
        have hconnected := h₀.connected hc hopen rfl
        rw [if_pos hok]
        split_ifs
        · exact hconnected.dispatchHup (fun hcon => nomatch hcon.1) eof
        · exact hconnected
    | false =>
        have hquiet : ¬ ready.hup = true := fun hhup => hfail ⟨hroom, hhup, rfl⟩
        rw [if_neg hquiet, if_neg (show ¬ (false && r.isOpen) = true from Bool.false_ne_true)]
        exact h₀.connectFails hc hopen
  · rw [if_neg hroom]
    split_ifs with hhup
    · rw [dispatchHup_connecting hc₀]
      exact (h₀.connectFails hc (hclean (.inr hhup)).1).delFd rfl
    · exact h₀

theorem Settles.step {l : Label} (h : Settles r) (hclean : Clean r l)
    (hstep : step r l = some r') : Settles r' := by
  cases l with
  | report ready =>
      rw [Replies.step] at hstep
      split_ifs at hstep with hreports
      cases hstep
      refine ⟨⟨h.replies, h.closes⟩, h.pending, h.fresh, h.target, fun hout hin => ?_⟩
      obtain ⟨hquiet, -⟩ := h.stale hout hin
      refine ⟨hquiet, fun ready' hready' => ?_⟩
      cases hready'
      obtain ⟨-, interest, hinterest, hwithin, -⟩ := hreports
      have hroom := congrArg Events.epollout hwithin
      simpa [Events.without, hquiet.interest interest hinterest] using hroom
  | dispatch ok eof =>
      obtain ⟨ready, hready, rfl⟩ := Option.map_eq_some_iff.mp hstep
      by_cases hc : Connecting r
      · exact h.dispatch_of_connecting hc (hclean ready hready hc)
      · exact h.dispatch_of_idle hc hready ok eof
  | connectCancel =>
      cases hstep
      unfold Request.handleConnectCancel
      split_ifs with hpending
      · obtain ⟨hc, hopen⟩ := h.pending hpending
        obtain ⟨hreplies, hcloses⟩ := h.fresh hc hopen
        refine ⟨⟨h.replies, ?_⟩, ?_, ?_, fun ht => absurd hc (h.target ht).2,
          fun _ hin => absurd hc.1 hin⟩
        · change r.closes + 1 ≤ 1
          omega
        · intro hp
          cases hp
        · intro _ hopen'
          cases hopen'
      · exact h
  | connectTimeout =>
      cases hstep
      unfold Request.checkPendingConnectTimeout
      split_ifs with hpending
      · obtain ⟨hc, hopen⟩ := h.pending hpending
        exact h.connectFails hc hopen
      · exact h
  | pendingLost =>
      cases hstep
      refine ⟨⟨h.replies, h.closes⟩, fun hp => ?_, h.fresh, h.target, h.stale⟩
      cases hp
  | closeTarget =>
      cases hstep
      exact h.closeTarget
  | targetLost =>
      cases hstep
      refine ⟨⟨h.replies, h.closes⟩, h.pending, h.fresh, fun ht => ?_, h.stale⟩
      cases ht
  | registerWriter =>
      cases hstep
      unfold Request.registerTargetEpollout
      split_ifs with htarget
      · obtain ⟨hcloses, hidle⟩ := h.target htarget
        have hpending := h.not_pending hidle
        constructor
        · exact ⟨h.replies, h.closes⟩
        · exact fun hp => absurd (hp.symm.trans hpending) (by decide)
        · rintro ⟨-, hout⟩
          cases hout
        · refine fun _ => ⟨hcloses, ?_⟩
          rintro ⟨-, hout⟩
          cases hout
        · intro hout
          cases hout
      · exact h
  | modEvents epollin remove =>
      cases hstep
      refine ⟨⟨h.replies, h.closes⟩, h.pending, h.fresh, h.target, fun hout hin => ?_⟩
      obtain ⟨hquiet, hwaiting⟩ := h.stale hout hin
      refine ⟨?_, hwaiting⟩
      unfold Request.modFdEvents
      dsimp only
      split_ifs
      · exact hquiet.modFdEvents epollin remove
      · exact (hquiet.modFdEvents epollin remove).unwatched

/-! ## Results that are not clean -/

/-- Closes are counted, a socket is closed by one of them, and the callback of a connect is
registered at the beginning alone. -/
structure Grows (r r' : Request) : Prop where
  closes : r.closes ≤ r'.closes
  closed : r'.isOpen = false → r.isOpen = false ∨ r.closes < r'.closes
  callback : r'.outCb = some .connecting → r.outCb = some .connecting

theorem Grows.refl (r : Request) : Grows r r := ⟨Nat.le_refl _, .inl, id⟩

theorem Grows.trans {s : Request} (h : Grows r r') (h' : Grows r' s) : Grows r s where
  closes := Nat.le_trans h.closes h'.closes
  closed hs := by
    have hle := h.closes
    have hle' := h'.closes
    rcases h'.closed hs with hr' | hlt
    · rcases h.closed hr' with hr | hlt
      · exact .inl hr
      · exact .inr (by omega)
    · exact .inr (by omega)
  callback hs := h.callback (h'.callback hs)

theorem grows_delFd (r : Request) : Grows r r.delFd := ⟨Nat.le_refl _, .inl, nofun⟩

theorem grows_close (r : Request) : Grows r r.close :=
  ⟨Nat.le_succ _, fun _ => .inr (Nat.lt_succ_self _), id⟩

theorem grows_connectFails (r : Request) : Grows r r.connectFails :=
  ⟨Nat.le_succ _, fun _ => .inr (Nat.lt_succ_self _), id⟩

theorem grows_closeTarget (r : Request) : Grows r r.closeTarget := by
  unfold Request.closeTarget
  split_ifs
  · exact ⟨Nat.le_succ _, fun _ => .inr (Nat.lt_succ_self _), nofun⟩
  · exact .refl r

theorem grows_connectOut (r : Request) (ok : Bool) : Grows r (r.connectOut ok) := by
  unfold Request.connectOut
  split_ifs
  · exact ⟨Nat.le_refl _, .inl, id⟩
  · exact grows_connectFails r

theorem grows_dispatchIn (r : Request) (eof : Bool) : Grows r (r.dispatchIn eof) := by
  unfold Request.dispatchIn
  split
  · split_ifs
    · exact grows_closeTarget r
    · exact .refl r
  · exact .refl r

theorem grows_dispatchOut (r : Request) (ok : Bool) : Grows r (r.dispatchOut ok) := by
  unfold Request.dispatchOut
  split
  · exact grows_connectOut r ok
  · exact .refl r

theorem grows_dispatchHup (r : Request) (eof : Bool) : Grows r (r.dispatchHup eof) := by
  unfold Request.dispatchHup
  refine Grows.trans ?_ (grows_delFd _)
  split
  · split_ifs
    · exact grows_closeTarget r
    · exact .refl r
  · exact grows_connectFails r
  · exact ⟨Nat.le_refl _, .inl, id⟩
  · exact .refl r

theorem grows_dispatch (r : Request) (ready : Ready) (ok eof : Bool) :
    Grows r (r.dispatch ready ok eof) := by
  have hif : ∀ (b : Bool) (s : Request) (f : Request → Request), (∀ s, Grows s (f s)) →
      Grows s (if b then f s else s) := by
    intro b s f hf
    split_ifs
    · exact hf s
    · exact .refl s
  have hstart : Grows r { r with waiting := none } := ⟨Nat.le_refl _, .inl, id⟩
  exact ((hstart.trans (hif _ _ _ fun s => grows_dispatchIn s eof)).trans
    (hif _ _ _ fun s => grows_dispatchOut s ok)).trans (hif _ _ _ fun s => grows_dispatchHup s eof)

theorem grows_step {l : Label} (hstep : step r l = some r') : Grows r r' := by
  cases l with
  | report ready =>
      rw [step] at hstep
      split_ifs at hstep
      cases hstep
      exact ⟨Nat.le_refl _, .inl, id⟩
  | dispatch ok eof =>
      obtain ⟨ready, -, rfl⟩ := Option.map_eq_some_iff.mp hstep
      exact grows_dispatch r ready ok eof
  | connectCancel =>
      cases hstep
      unfold Request.handleConnectCancel
      split_ifs
      · exact (grows_close r).trans ⟨Nat.le_refl _, .inl, id⟩
      · exact .refl r
  | connectTimeout =>
      cases hstep
      unfold Request.checkPendingConnectTimeout
      split_ifs
      · exact grows_connectFails r
      · exact .refl r
  | closeTarget =>
      cases hstep
      exact grows_closeTarget r
  | registerWriter =>
      cases hstep
      unfold Request.registerTargetEpollout
      split_ifs
      · exact ⟨Nat.le_refl _, .inl, nofun⟩
      · exact .refl r
  | pendingLost | targetLost | modEvents _ _ =>
      cases hstep
      exact ⟨Nat.le_refl _, .inl, id⟩

/-- A connect whose socket is closed was closed by a counted close. -/
def Counted (r : Request) : Prop :=
  r.outCb = some .connecting → r.isOpen = false → 1 ≤ r.closes

theorem Counted.step {l : Label} (h : Counted r) (hstep : step r l = some r') : Counted r' := by
  intro hout hclosed
  have hgrows := grows_step hstep
  have hle := hgrows.closes
  rcases hgrows.closed hclosed with hold | hlt
  · exact Nat.le_trans (h (hgrows.callback hout) hold) hle
  · omega

/-- A result that finds the socket closed closes it again. -/
theorem closes_of_closed (h : Counted r) (hc : Connecting r) (hclosed : r.isOpen = false)
    {ready : Ready} (hcalled : ready.events.epollout = true ∨ ready.hup = true) (ok eof : Bool) :
    2 ≤ (r.dispatch ready ok eof).closes := by
  have hone : 1 ≤ r.closes := h hc.2 hclosed
  have hc₀ : Connecting { r with waiting := none } := hc
  have hfails : ∀ {t : Request}, Grows (Request.connectFails { r with waiting := none }) t →
      2 ≤ t.closes := fun ht => Nat.le_trans (Nat.succ_le_succ hone) ht.closes
  rw [dispatch_connecting hc]
  dsimp only
  by_cases hroom : ready.events.epollout = true
  · have hout : Request.connectOut { r with waiting := none } ok =
        Request.connectFails { r with waiting := none } := by
      apply if_neg
      rw [hclosed, Bool.and_false]
      decide
    rw [if_pos hroom, hout]
    split_ifs
    · exact hfails (grows_dispatchHup _ eof)
    · exact hfails (.refl _)
  · rw [if_neg hroom, if_pos (hcalled.resolve_left hroom), dispatchHup_connecting hc₀]
    exact hfails (grows_delFd _)

/-- A failure that is reported with a hangup closes the socket twice. -/
theorem closes_of_hangup (hc : Connecting r) {ready : Ready} (hroom : ready.events.epollout = true)
    (hhup : ready.hup = true) (eof : Bool) : 2 ≤ (r.dispatch ready false eof).closes := by
  have hc₁ : Connecting (Request.connectFails { r with waiting := none }) := hc
  have hout : Request.connectOut { r with waiting := none } false =
      Request.connectFails { r with waiting := none } := if_neg (by simp)
  rw [dispatch_connecting hc]
  dsimp only
  rw [if_pos hroom, if_pos hhup, hout, dispatchHup_connecting hc₁]
  change 2 ≤ r.closes + 1 + 1
  omega

/-- Every result that is not clean closes the socket a second time. -/
theorem clean_of_once {l : Label} (h : Counted r)
    (honce : ∀ r', step r l = some r' → Once r') : Clean r l := by
  cases l with
  | dispatch ok eof =>
      intro ready hready hc hcalled
      have hcloses : (r.dispatch ready ok eof).closes ≤ 1 := by
        refine (honce _ ?_).closes
        rw [step, Option.mem_def.mp hready]
        rfl
      constructor
      · by_contra hopen
        have htwo := closes_of_closed h hc (Bool.eq_false_iff.mpr hopen) hcalled ok eof
        omega
      · rintro ⟨hroom, hhup, rfl⟩
        have htwo := closes_of_hangup hc hroom hhup eof
        omega
  | _ => trivial

/-- In a run that begins with a connect request no state has two replies or two closes exactly
when every result that comes to the callback of the connect finds its socket open, and none
reports room and a hangup for a connect that failed. -/
theorem replies_once_iff (attempt : Attempt) (ls : List Label) :
    (∀ ms r, ms <+: ls → run step (Request.handleConnectReq attempt) ms = some r → Once r) ↔
      Meets step Clean (Request.handleConnectReq attempt) ls := by
  have hstart : Counted (Request.handleConnectReq attempt) := by
    cases attempt <;> exact nofun
  constructor
  · intro hall
    exact meets_of_reached (J := Counted) (fun _ _ hcounted honce => clean_of_once hcounted honce)
      (fun _ _ _ hcounted hstep => hcounted.step hstep) hstart hall
  · intro hmeets ms r hle hrun
    have hsettles : Settles r :=
      invariant_of_meets (fun _ _ _ h hclean hstep => h.step hclean hstep)
        (settles_handleConnectReq attempt) (hmeets.of_prefix hle) hrun
    exact hsettles.toOnce

/-- A connect that succeeds, and its target, which the peer closes. -/
def quickConnect : List Label :=
  [.report ⟨EPOLLOUT, false⟩, .dispatch true false, .connectCancel, .registerWriter,
    .report ⟨⟨true, true⟩, true⟩, .closeTarget, .dispatch true true, .connectTimeout]

example : ∃ r, run step (Request.handleConnectReq .inProgress) quickConnect = some r ∧
    r.replies = [.connectOk] ∧ r.closes = 1 :=
  ⟨_, rfl, rfl, rfl⟩

/-- The system reports a refused connect with all its events at once; or the request times out
between the result of `epoll_wait` and its dispatch. -/
theorem replies_twice :
    (∃ r, run step (Request.handleConnectReq .inProgress)
        [.report ⟨EPOLLOUT, true⟩, .dispatch false false] = some r ∧
      r.replies = [.connectFail, .connectFail] ∧ r.closes = 2) ∧
    ∃ r, run step (Request.handleConnectReq .inProgress)
        [.report ⟨EPOLLOUT, false⟩, .connectTimeout, .dispatch true false] = some r ∧
      r.replies = [.connectFail, .connectFail] ∧ r.closes = 2 :=
  ⟨⟨_, rfl, rfl, rfl⟩, _, rfl, rfl, rfl⟩

end PipelineTunnel.Replies
