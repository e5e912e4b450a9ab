import PipelineTunnel.Core.Kernel
import PipelineTunnel.Core.Protocol
import Mathlib.Data.List.Nodup

/-!
# Flow control at one end of the tunnel

What stops and restarts reading from the connections of a session (`targets_` in
`server/session.cpp`) or of a client (`conns_` in `client/client.cpp`): the pause messages of
the other end, too much data waiting for the tunnel, and the backpressure of the module chain.

## Implementation notes

Both programs do the same here, up to what `Role` tells apart. `on_data` and
`process_wire_buffer` repeat the cases of `apply_control`. A connection has an open
descriptor, so the tests for `fd >= 0` are left out; the descriptors of connections differ,
since the system gives no number twice. What a tick finds is in `Tick`: the bytes in the
writers of the data connections, the registrations in `pending_io_`, the two backpressure
flags of the chain, the clock, and the deferred disconnects that it can carry out, each with
whether its writer is empty.
-/

namespace PipelineTunnel.Flow

open Protocol Kernel

inductive Role where
  | server
  | client
deriving DecidableEq, Repr

def Role.other : Role → Role
  | .server => .client
  | .client => .server

theorem Role.ne_other (role : Role) : role ≠ role.other := by
  cases role <;> decide

/-- The flags of a connection. -/
structure Flags where
  writerPaused : Bool := false
  chainPaused : Bool := false
  extOverflowPaused : Bool := false
  localChainSent : Bool := false
  epollinRemoved : Bool := false
  registered : Bool := false
deriving DecidableEq, Repr

structure Conn where
  fd : Nat
  flags : Flags := {}
deriving DecidableEq, Repr

structure End where
  conns : UInt8 → Option Conn := fun _ => none
  kernel : Nat → Descriptor := fun _ => {}
  dcPaused : Bool := false
  bp1Since : Option Nat := none

/-- The ids of connections, in the order of the loops. -/
def connIds : List UInt8 := (List.range 256).map UInt8.ofNat

/-- What a handler does to the flags of a connection and to its descriptor. -/
abbrev Visit := Flags × Descriptor → Flags × Descriptor

namespace End

def visit (e : End) (connId : UInt8) (f : Visit) : End :=
  match e.conns connId with
  | none => e
  | some conn =>
      let (flags, d) := f (conn.flags, e.kernel conn.fd)
      { e with
        conns := Function.update e.conns connId (some { conn with flags := flags })
        kernel := Function.update e.kernel conn.fd d }

/-- A loop over all connections. -/
def visitAll (e : End) (f : Visit) : End := connIds.foldl (fun e connId => e.visit connId f) e

end End

/-! ## Pause messages -/

def stopReading (d : Descriptor) : Descriptor := d.modFdEvents {} EPOLLIN
def startReading (d : Descriptor) : Descriptor := d.modFdEvents EPOLLIN {}

/-- A flag is set and the connection is no longer read. -/
def pauseVisit (set : Flags → Flags) : Visit := fun (fl, d) => (set fl, stopReading d)

/-- A flag is cleared, and the connection is read again when `free` allows it. -/
def resumeVisit (clear : Flags → Flags) (free : Flags → Bool) : Visit := fun (fl, d) =>
  (clear fl, if free fl then startReading d else d)

def writerPause : Visit := pauseVisit fun fl => { fl with writerPaused := true }

def writerResume : Visit :=
  resumeVisit (fun fl => { fl with writerPaused := false }) fun fl =>
    !fl.chainPaused && !fl.extOverflowPaused

def chainPause : Visit := pauseVisit fun fl => { fl with chainPaused := true }

def chainResume : Visit :=
  resumeVisit (fun fl => { fl with chainPaused := false }) fun fl =>
    !fl.writerPaused && !fl.extOverflowPaused

/-- The connection that `MSG_WRITER_PAUSE` or `MSG_WRITER_RESUME` is about. -/
def writerConnId : Role → Bytes → Option UInt8
  | .server, payload => some (payload.headD 0)
  | .client, payload => payload.head?

/-- The pause messages of `apply_control`. -/
def applyControl (role : Role) (e : End) (pkt : Packet) : End :=
  if pkt.type = MSG_WRITER_PAUSE then
    match writerConnId role pkt.payload with
    | none => e
    | some connId => e.visit connId writerPause
  else if pkt.type = MSG_WRITER_RESUME then
    match writerConnId role pkt.payload with
    | none => e
    | some connId => e.visit connId writerResume
  else if pkt.type = MSG_CHAIN_PAUSE then e.visitAll chainPause
  else if pkt.type = MSG_CHAIN_RESUME then e.visitAll chainResume
  else e

/-! ## Connections -/

/-- `register_target_epollout` and `register_external_epollout`. -/
def registerEpollout : Visit := fun (fl, d) =>
  if fl.registered then (fl, d)
  else ({ fl with registered := true }, d.addFdHandler EPOLLOUT)

/-- The handler for `EPOLLOUT`, when the writer is drained. -/
def unregisterEpollout : Visit := fun (fl, d) =>
  ({ fl with registered := false }, d.modFdEvents {} EPOLLOUT)

/-- `on_target_connected` and `handle_connect_ok`. The server assigns the entry, the client
leaves one that is there. -/
def openConn (role : Role) (e : End) (connId : UInt8) (fd : Nat) : End :=
  { e with
    conns :=
      if role = .client ∧ (e.conns connId).isSome then e.conns
      else Function.update e.conns connId (some { fd := fd })
    kernel := Function.update e.kernel fd ((e.kernel fd).addFdHandler EPOLLIN) }

def closeConn (e : End) (connId : UInt8) : End :=
  match e.conns connId with
  | none => e
  | some conn =>
      { e with
        conns := Function.update e.conns connId none
        kernel := Function.update e.kernel conn.fd (e.kernel conn.fd).delFd }

/-! ## `process_pending_io` -/

structure Tick where
  dcSize : Nat := 0
  batch : List UInt8 := []
  bp0 : Bool := false
  bp1 : Bool := false
  now : Nat := 0
  departs : List (UInt8 × Bool) := []
deriving DecidableEq, Repr

def DC_HIGH : Nat := 1024 * 1024
def DC_LOW : Nat := 256 * 1024

def overflowPause : Visit := pauseVisit fun fl => { fl with extOverflowPaused := true }

def overflowResume : Visit :=
  resumeVisit (fun fl => { fl with extOverflowPaused := false }) fun fl =>
    !fl.writerPaused && !fl.chainPaused

def overflow (e : End) (dcSize : Nat) : End :=
  if dcSize > DC_HIGH then
    if e.dcPaused then e else { e with dcPaused := true }.visitAll overflowPause
  else if dcSize < DC_LOW ∧ e.dcPaused then
    { e with dcPaused := false }.visitAll overflowResume
  else e

def runBatch (e : End) (batch : List UInt8) : End :=
  batch.foldl (fun e connId => e.visit connId registerEpollout) e

/-- Some connection remembers that `MSG_CHAIN_PAUSE` was sent. -/
def localSent (e : End) : Bool :=
  connIds.any fun connId => (e.conns connId).any fun conn => conn.flags.localChainSent

def setLocalChainSent (sent : Bool) : Visit :=
  fun (fl, d) => ({ fl with localChainSent := sent }, d)

def CHAIN_PAUSE_MS : Nat := 50

/-- `MSG_CHAIN_PAUSE` is sent when the backpressure has lasted. -/
def debounce (e : End) (bp1 : Bool) (now : Nat) : End × List Packet :=
  let sent := localSent e
  if bp1 then
    let since := e.bp1Since.getD now
    let e := { e with bp1Since := some since }
    if !sent && now - since ≥ CHAIN_PAUSE_MS then
      (e.visitAll (setLocalChainSent true), [⟨MSG_CHAIN_PAUSE, []⟩])
    else (e, [])
  else
    let e := { e with bp1Since := none }
    if sent then (e.visitAll (setLocalChainSent false), [⟨MSG_CHAIN_RESUME, []⟩]) else (e, [])

def Flags.shouldPause (fl : Flags) (bp0 : Bool) : Bool :=
  fl.writerPaused || fl.chainPaused || fl.extOverflowPaused || bp0

/-- The gate looks at its own flag, not at what is watched. -/
def gate (bp0 : Bool) : Visit := fun (fl, d) =>
  if fl.shouldPause bp0 then
    if !fl.epollinRemoved then ({ fl with epollinRemoved := true }, stopReading d) else (fl, d)
  else
    if fl.epollinRemoved then ({ fl with epollinRemoved := false }, startReading d) else (fl, d)

/-- A deferred disconnect. The client keeps the connection until its writer is empty. -/
def depart (role : Role) (e : End) (due : UInt8 × Bool) : End :=
  if role = .server ∨ due.2 then closeConn e due.1 else e.visit due.1 registerEpollout

def processPendingIo (role : Role) (t : Tick) (e : End) : End × List Packet :=
  let e := runBatch (overflow e t.dcSize) t.batch
  let (e, sent) := debounce e t.bp1 t.now
  (t.departs.foldl (depart role) (e.visitAll (gate t.bp0)), sent)

/-! ## What a visit changes -/

theorem mem_connIds (connId : UInt8) : connId ∈ connIds := by
  refine List.mem_map.mpr ⟨connId.toNat, List.mem_range.mpr connId.toNat_lt, ?_⟩
  exact UInt8.ofNat_toNat

theorem nodup_connIds : connIds.Nodup := by
  refine List.Nodup.map_on ?_ List.nodup_range
  intro i hi j hj heq
  have hlt {n : Nat} (h : n ∈ List.range 256) : (UInt8.ofNat n).toNat = n := by
    rw [UInt8.toNat_ofNat', Nat.mod_eq_of_lt (List.mem_range.mp h)]
  rw [← hlt hi, ← hlt hj, heq]

namespace End

variable (e : End) (f : Visit) (connId connId' : UInt8)

def fdOf : Option Nat := (e.conns connId).map Conn.fd

def flagsOf : Option Flags := (e.conns connId).map Conn.flags

/-- The flags of a connection and its descriptor. -/
def port : Option (Flags × Descriptor) :=
  (e.conns connId).map fun conn => (conn.flags, e.kernel conn.fd)

/-- No two connections share a descriptor. -/
def Distinct : Prop :=
  ∀ connId connId' fd, e.fdOf connId = some fd → e.fdOf connId' = some fd → connId = connId'

variable {e connId connId'} in
theorem visit_none (h : e.conns connId = none) : e.visit connId f = e := by
  rw [visit, h]

@[simp] theorem visit_fdOf : (e.visit connId f).fdOf connId' = e.fdOf connId' := by
  cases hconn : e.conns connId with
  | none => rw [visit_none f hconn]
  | some conn =>
      by_cases hid : connId' = connId
      · subst hid
        simp [visit, fdOf, hconn]
      · simp [visit, fdOf, hconn, Function.update_of_ne hid]

theorem visit_flagsOf {g : Flags → Flags} (hf : ∀ p, (f p).1 = g p.1) :
    (e.visit connId f).flagsOf connId' =
      if connId' = connId then (e.flagsOf connId').map g else e.flagsOf connId' := by
  cases hconn : e.conns connId with
  | none =>
      rw [visit_none f hconn]
      split_ifs with hid
      · simp [flagsOf, hid, hconn]
      · rfl
  | some conn =>
      split_ifs with hid
      · subst hid
        simp [visit, flagsOf, hconn, hf]
      · simp [visit, flagsOf, hconn, Function.update_of_ne hid]

variable {e} in
theorem visit_port (h : e.Distinct) :
    (e.visit connId f).port connId' =
      if connId' = connId then (e.port connId').map f else e.port connId' := by
  cases hconn : e.conns connId with
  | none =>
      rw [visit_none f hconn]
      split_ifs with hid
      · simp [port, hid, hconn]
      · rfl
  | some conn =>
      split_ifs with hid
      · subst hid
        simp [visit, port, hconn]
      · cases hconn' : e.conns connId' with
        | none => simp [visit, port, hconn, hconn', Function.update_of_ne hid]
        | some conn' =>
            have hfd : conn'.fd ≠ conn.fd := by
              intro heq
              exact hid (h connId' connId conn.fd (by simp [fdOf, hconn', heq])
                (by simp [fdOf, hconn]))
            simp [visit, port, hconn, hconn', Function.update_of_ne hid,
              Function.update_of_ne hfd]

variable {e} in
theorem Distinct.visit (h : e.Distinct) : (e.visit connId f).Distinct := by
  intro c c' fd hc hc'
  exact h c c' fd (by simpa using hc) (by simpa using hc')

/-! A loop visits each connection once. -/

theorem foldl_visit_fdOf (ids : List UInt8) :
    (ids.foldl (fun e connId => e.visit connId f) e).fdOf connId = e.fdOf connId := by
  induction ids generalizing e with
  | nil => rfl
  | cons next ids ih => rw [List.foldl_cons, ih, visit_fdOf]

@[simp] theorem visitAll_fdOf : (e.visitAll f).fdOf connId = e.fdOf connId :=
  e.foldl_visit_fdOf f connId connIds

variable {e} in
theorem Distinct.visitAll (h : e.Distinct) : (e.visitAll f).Distinct := by
  intro c c' fd hc hc'
  exact h c c' fd (by simpa using hc) (by simpa using hc')

theorem foldl_visit_flagsOf {g : Flags → Flags} (hf : ∀ p, (f p).1 = g p.1) {ids : List UInt8}
    (hids : ids.Nodup) :
    (ids.foldl (fun e connId => e.visit connId f) e).flagsOf connId =
      if connId ∈ ids then (e.flagsOf connId).map g else e.flagsOf connId := by
  induction ids generalizing e with
  | nil => rfl
  | cons next ids ih =>
      obtain ⟨hnext, hids⟩ := List.nodup_cons.mp hids
      rw [List.foldl_cons, ih _ hids, visit_flagsOf _ _ _ _ hf]
      by_cases hid : connId = next
      · subst hid
        simp [hnext]
      · simp [hid]

theorem visitAll_flagsOf {g : Flags → Flags} (hf : ∀ p, (f p).1 = g p.1) :
    (e.visitAll f).flagsOf connId = (e.flagsOf connId).map g := by
  rw [visitAll, foldl_visit_flagsOf e f connId hf nodup_connIds, if_pos (mem_connIds connId)]

variable {e} in
theorem foldl_visit_port (h : e.Distinct) {ids : List UInt8} (hids : ids.Nodup) :
    (ids.foldl (fun e connId => e.visit connId f) e).port connId =
      if connId ∈ ids then (e.port connId).map f else e.port connId := by
  induction ids generalizing e with
  | nil => rfl
  | cons next ids ih =>
      obtain ⟨hnext, hids⟩ := List.nodup_cons.mp hids
      rw [List.foldl_cons, ih (h.visit f next) hids, visit_port f _ _ h]
      by_cases hid : connId = next
      · subst hid
        simp [hnext]
      · simp [hid]

variable {e} in
theorem visitAll_port (h : e.Distinct) :
    (e.visitAll f).port connId = (e.port connId).map f := by
  rw [visitAll, foldl_visit_port f connId h nodup_connIds, if_pos (mem_connIds connId)]

/-! Connections that come and go. -/

theorem closeConn_conns :
    (closeConn e connId).conns connId' = if connId' = connId then none else e.conns connId' := by
  cases hconn : e.conns connId with
  | none =>
      rw [closeConn, hconn]
      split_ifs with hid
      · rw [hid, hconn]
      · rfl
  | some conn =>
      rw [closeConn, hconn]
      split_ifs with hid
      · simp [hid]
      · simp [Function.update_of_ne hid]

theorem closeConn_fdOf :
    (closeConn e connId).fdOf connId' = if connId' = connId then none else e.fdOf connId' := by
  rw [fdOf, closeConn_conns]
  split_ifs <;> rfl

variable {e} in
theorem closeConn_port (h : e.Distinct) :
    (closeConn e connId).port connId' = if connId' = connId then none else e.port connId' := by
  rw [port, closeConn_conns]
  split_ifs with hid
  · rfl
  · cases hconn' : e.conns connId' with
    | none => simp [port, hconn']
    | some conn' =>
        have hkernel : (closeConn e connId).kernel conn'.fd = e.kernel conn'.fd := by
          cases hconn : e.conns connId with
          | none => simp [closeConn, hconn]
          | some conn =>
              have hfd : conn'.fd ≠ conn.fd := by
                intro heq
                exact hid (h connId' connId conn.fd (by simp [fdOf, hconn', heq])
                  (by simp [fdOf, hconn]))
              simp [closeConn, hconn, Function.update_of_ne hfd]
        simp [port, hconn', hkernel]

variable {e} in
theorem Distinct.closeConn (h : e.Distinct) : (Flow.closeConn e connId).Distinct := by
  intro c c' fd hc hc'
  rw [closeConn_fdOf] at hc hc'
  split_ifs at hc hc'
  exact h c c' fd hc hc'

/-- The client keeps a connection that is there already. -/
def Keeps (role : Role) (e : End) (connId : UInt8) : Prop :=
  role = .client ∧ (e.conns connId).isSome

instance (role : Role) : Decidable (Keeps role e connId) :=
  inferInstanceAs (Decidable (role = .client ∧ (e.conns connId).isSome))

variable (role : Role) (fd : Nat)

theorem openConn_conns :
    (openConn role e connId fd).conns connId' =
      if connId' = connId ∧ ¬ Keeps role e connId then some { fd := fd } else e.conns connId' := by
  unfold openConn Keeps
  dsimp only
  by_cases hkept : role = .client ∧ (e.conns connId).isSome
  · simp [hkept]
  · rw [if_neg hkept]
    by_cases hid : connId' = connId
    · simp only [hid, Function.update_self, hkept, not_false_eq_true, and_self, if_true]
    · simp [hid]

theorem openConn_fdOf :
    (openConn role e connId fd).fdOf connId' =
      if connId' = connId ∧ ¬ Keeps role e connId then some fd else e.fdOf connId' := by
  rw [fdOf, openConn_conns]
  split_ifs <;> rfl

variable {e fd} in
theorem openConn_port (hfd : ∀ connId, e.fdOf connId ≠ some fd) :
    (openConn role e connId fd).port connId' =
      if connId' = connId ∧ ¬ Keeps role e connId then
        some ({}, (e.kernel fd).addFdHandler EPOLLIN)
      else e.port connId' := by
  rw [port, openConn_conns]
  split_ifs with hnew
  · simp [openConn]
  · cases hconn : e.conns connId' with
    | none => simp [port, hconn]
    | some conn =>
        have hne : conn.fd ≠ fd := by
          intro heq
          exact hfd connId' (by simp [fdOf, hconn, heq])
        simp [port, hconn, openConn, Function.update_of_ne hne]

variable {e fd} in
theorem Distinct.openConn (h : e.Distinct) (hfd : ∀ connId, e.fdOf connId ≠ some fd) :
    (Flow.openConn role e connId fd).Distinct := by
  intro c c' fd' hc hc'
  rw [openConn_fdOf] at hc hc'
  split_ifs at hc hc' with hnew hnew' hnew'
  · exact hnew.1.trans hnew'.1.symm
  · exact absurd (hc ▸ hc') (hfd c')
  · exact absurd (hc' ▸ hc) (hfd c)
  · exact h c c' fd' hc hc'

end End

end PipelineTunnel.Flow
