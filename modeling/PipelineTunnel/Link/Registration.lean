import PipelineTunnel.Common.WriteBuffer
import PipelineTunnel.Core.Kernel
import PipelineTunnel.Link.Model

/-!
# The flag of a registered writer

The writer of a data connection remembers in `registered` that the event loop waits for room in
its socket, so that `register_data_conn_epollout` installs the handler once. The flag lives in
the write buffer and the handler in the kernel; connections are closed and opened again by
several functions, none of which resets the flag.

## Implementation notes

One session or one client, from the time its primary connection speaks the wire format. `desc`
is what the kernel knows of each descriptor, `inCb` and `outCb` name the data connections whose
handlers are installed. The system hands out descriptors that are not open; a new one may have
the input handler of its handshake. Descriptors of targets and of external connections are left
out, since two open descriptors never share a number. Workers only write; a closure of
`pending_io_` may run in any order. The frames that a secondary connection sends again after its
reconnect are writes and a registration like others. `connect` is the moment when a slot without
descriptor gets its first one.
-/

namespace PipelineTunnel.Registration

open Protocol StepSystem Kernel
open Common (Channel Socket)
open Link (Role)

structure Conn where
  fd : Option Nat := none
  writer : Channel := {}
  registered : Bool := false
  reconnectPending : Bool := false
deriving DecidableEq, Repr

/-- The closures of `wire_write`: the server registers the descriptor that was written to, the
client the current one; after a hard error the server closes the connection. -/
inductive Closure where
  | registerWritten (i fd : Nat)
  | registerCurrent (i : Nat)
  | disconnect (i : Nat)
deriving DecidableEq, Repr

structure Table where
  desc : Nat → Descriptor := fun _ => {}
  inCb : Nat → Option Nat := fun _ => none
  outCb : Nat → Option Nat := fun _ => none
  opened : Nat → Bool := fun _ => false

namespace Table

/-- The entry of a descriptor that is not open is made all the same. -/
def addFdHandler (k : Table) (fd i : Nat) (ev : Events) : Table :=
  let d := (k.desc fd).addFdHandler ev
  { k with
    desc := Function.update k.desc fd
      (if k.opened fd then d else { k.desc fd with handler := d.handler })
    inCb := if ev.epollin then Function.update k.inCb fd (some i) else k.inCb
    outCb := if ev.epollout then Function.update k.outCb fd (some i) else k.outCb }

def modFdEvents (k : Table) (fd : Nat) (add remove : Events) : Table :=
  { k with desc := Function.update k.desc fd ((k.desc fd).modFdEvents add remove) }

def delFd (k : Table) (fd : Nat) : Table :=
  { k with
    desc := Function.update k.desc fd {}
    inCb := Function.update k.inCb fd none
    outCb := Function.update k.outCb fd none }

def close (k : Table) (fd : Nat) : Table :=
  { k with opened := Function.update k.opened fd false }

/-- A new descriptor, watched for its handshake or not. -/
def accept (k : Table) (fd : Nat) (watched : Bool) : Table :=
  { k with
    opened := Function.update k.opened fd true
    desc := if watched then Function.update k.desc fd ((k.desc fd).addFdHandler EPOLLIN)
      else k.desc }

end Table

structure State where
  kernel : Table := {}
  conns : Nat → Conn := fun _ => {}
  size : Nat := 0
  clientFd : Nat := 0
  running : Bool := false
  paused : Bool := false
  pendingIo : List Closure := []

namespace State

def setConn (s : State) (i : Nat) (c : Conn) : State :=
  { s with conns := Function.update s.conns i c }

def clear (w : Channel) : Channel := { w with buf := {} }

def registerDataConnEpollout (s : State) (i fd : Nat) : State :=
  if s.size ≤ i ∨ (s.conns i).registered then s
  else { s.setConn i { s.conns i with registered := true } with
    kernel := s.kernel.addFdHandler fd i EPOLLOUT }

/-- A connection gets a new descriptor, with its reader, and needs no reconnect. -/
def attach (s : State) (i fd : Nat) (watched : Bool) (c : Conn) : State :=
  { s.setConn i { c with fd := some fd, reconnectPending := false } with
    kernel := (s.kernel.accept fd watched).addFdHandler fd i EPOLLIN }

/-- A connection loses its descriptor, which is closed or not. -/
def detach (s : State) (i fd : Nat) (closes : Bool) (c : Conn) : State :=
  let kernel := s.kernel.delFd fd
  { s.setConn i { c with fd := none } with kernel := if closes then kernel.close fd else kernel }

/-- `add_data_connection`. -/
def addDataConnection (s : State) (i fd : Nat) (watched : Bool) : State :=
  match (s.conns i).fd with
  | none => s.attach i fd watched (s.conns i)
  | some old => (s.detach i old true {}).attach i fd watched {}

/-- The round of `on_disconnect` for one connection. -/
def disconnectConn (s : State) (i : Nat) : State :=
  match (s.conns i).fd with
  | none => s
  | some fd => s.detach i fd (i ≠ 0) { s.conns i with writer := clear (s.conns i).writer }

def onDisconnect (s : State) : State :=
  if s.paused ∨ !s.running then s
  else { (List.range s.size).foldl disconnectConn s with paused := true }

/-- `reconnect` closes the primary descriptor that it replaces. -/
def dropClientFd (s : State) (fd : Nat) : State :=
  if s.clientFd = fd then s
  else { s with kernel := (s.kernel.delFd s.clientFd).close s.clientFd }

/-- `Session::reconnect`; `none` when the session is not paused. -/
def reconnect (s : State) (fd : Nat) (watched : Bool) : Option State :=
  if s.paused then
    some { (s.dropClientFd fd).attach 0 fd watched
        { s.conns 0 with writer := clear (s.conns 0).writer } with
      clientFd := fd
      paused := false }
  else none

def runClosure (s : State) : Closure → State
  | .registerWritten i fd =>
      if (s.conns i).fd.isSome then s.registerDataConnEpollout i fd else s
  | .registerCurrent i =>
      match (s.conns i).fd with
      | none => s
      | some fd => s.registerDataConnEpollout i fd
  | .disconnect i =>
      match (s.conns i).fd with
      | none => s.setConn i { s.conns i with writer := clear (s.conns i).writer }
      | some fd => s.detach i fd true { s.conns i with writer := clear (s.conns i).writer }

/-- The closures that follow a write to a connection. -/
def pushes (role : Role) (i fd : Nat) (ret : Int) : List Closure :=
  match role with
  | .server =>
      if ret > 0 then [.registerWritten i fd] else if ret < 0 then [.disconnect i] else []
  | .client => if ret > 0 then [.registerCurrent i] else []

def wireWrite (role : Role) (sock : Socket) (s : State) (i : Nat) (data : Bytes) : Option State :=
  match (s.conns i).fd with
  | none => none
  | some fd => (Common.write sock (s.conns i).writer data).map fun r =>
      { s.setConn i { s.conns i with writer := r.1 } with
        pendingIo := s.pendingIo ++ pushes role i fd r.2 }

/-- The flushes of the handler for `EPOLLOUT`: a second one when the first finds no room. -/
def flushTwice (sock : Socket) (w : Channel) : Option Channel :=
  match Common.flush sock w with
  | none => none
  | some (w, true) => some w
  | some (w, false) => (Common.flush sock w).map Prod.fst

def writerEmpty (w : Channel) : Bool := w.buf.chunks = [] ∧ w.buf.priorityChunks = []

/-- The handler for `EPOLLOUT` behind its flushes. -/
def drained (s : State) (i fd : Nat) (w : Channel) : State :=
  if writerEmpty w then
    { s.setConn i { s.conns i with writer := w, registered := false } with
      kernel := s.kernel.modFdEvents fd {} EPOLLOUT }
  else s.setConn i { s.conns i with writer := w }

/-- An event `EPOLLOUT`. The handler works on the descriptor that its connection has now; `-1`
takes nothing and has no entry. -/
def epollout (sock : Nat → Socket) (s : State) (ev : Nat) : Option State :=
  if (s.kernel.desc ev).drains then
    match s.kernel.outCb ev with
    | none => none
    | some i =>
        match (s.conns i).fd with
        | some fd => (flushTwice (sock i) (s.conns i).writer).map (s.drained i fd)
        | none =>
            if writerEmpty (s.conns i).writer then
              some (s.setConn i { s.conns i with registered := false })
            else some s
  else none

/-- Does the reader of this connection close it when it is hung up? -/
def closesOnHangup (role : Role) (i : Nat) : Bool := role = .client ∧ i ≠ 0

/-- The callback for `EPOLLHUP` or `EPOLLERR`: the reader, or else the handler for `EPOLLOUT`. -/
def hangupCb (role : Role) (s : State) (ev : Nat) : State :=
  match s.kernel.inCb ev with
  | some i =>
      match (s.conns i).fd with
      | none => s
      | some fd =>
          if closesOnHangup role i then
            s.detach i fd true { s.conns i with reconnectPending := true }
          else s
  | none =>
      match s.kernel.outCb ev with
      | none => s
      | some i => s.setConn i { s.conns i with writer := clear (s.conns i).writer }

/-- The event loop handles a hangup: the callback, and then `del_fd`. -/
def hangup (role : Role) (s : State) (ev : Nat) : Option State :=
  if (s.kernel.desc ev).interest.isSome then
    let s := s.hangupCb role ev
    some { s with kernel := s.kernel.delFd ev }
  else none

end State

inductive Label where
  /-- `handle_chain_create` and `open_secondary_connections` make the table larger. -/
  | resize (n : Nat)
  | become (running : Bool)
  | connect (i fd : Nat) (watched : Bool)
  | addDataConnection (i fd : Nat) (watched : Bool)
  | wireWrite (i : Nat) (data : Bytes)
  | write (i : Nat) (data : Bytes)
  | writePriority (i : Nat) (data : Bytes)
  | register (i : Nat)
  | runClosure (k : Nat)
  | epollout (fd : Nat)
  | hangup (fd : Nat)
  /-- The reader of the server finds the end of the stream or an error. -/
  | readEnd (i : Nat)
  | reconnect (fd : Nat) (watched : Bool)
  | reconnectSecondary (i fd : Nat)
deriving DecidableEq, Repr

/-- Can a slot of the table take a new descriptor? -/
def State.takes (s : State) (i fd : Nat) : Bool := i < s.size ∧ !s.kernel.opened fd

theorem State.takes_iff {s : State} {i fd : Nat} :
    s.takes i fd = true ↔ i < s.size ∧ s.kernel.opened fd = false := by
  simp [State.takes]

def step (role : Role) (sock : Nat → Socket) (s : State) : Label → Option State
  | .resize n => some { s with size := max s.size n }
  | .become running => some { s with running := running }
  | .connect i fd watched =>
      if s.takes i fd ∧ (s.conns i).fd = none ∧ !(s.conns i).reconnectPending then
        some (s.attach i fd watched (s.conns i))
      else none
  | .addDataConnection i fd watched =>
      if role = .server ∧ s.takes i fd then some (s.addDataConnection i fd watched) else none
  | .wireWrite i data => s.wireWrite role (sock i) i data
  | .write i data =>
      if (s.conns i).fd.isSome then
        (Common.write (sock i) (s.conns i).writer data).map fun r =>
          s.setConn i { s.conns i with writer := r.1 }
      else none
  | .writePriority i data =>
      if (s.conns i).fd.isSome then
        some (s.setConn i { s.conns i with
          writer := Common.writePriority (s.conns i).writer data })
      else none
  | .register i => (s.conns i).fd.map fun fd => s.registerDataConnEpollout i fd
  | .runClosure k => s.pendingIo[k]?.map fun closure =>
      State.runClosure { s with pendingIo := s.pendingIo.eraseIdx k } closure
  | .epollout fd => s.epollout sock fd
  | .hangup fd => s.hangup role fd
  | .readEnd i =>
      if role = .server then
        (s.conns i).fd.map fun fd => (s.detach i fd false (s.conns i)).onDisconnect
      else none
  | .reconnect fd watched =>
      if role = .server ∧ s.takes 0 fd then s.reconnect fd watched else none
  | .reconnectSecondary i fd =>
      if role = .client ∧ s.takes i fd ∧ 0 < i ∧ (s.conns i).reconnectPending then
        some (s.attach i fd false { s.conns i with writer := State.clear (s.conns i).writer })
      else none

/-- The primary connection gets its reader. -/
def start (fd : Nat) (watched : Bool) : State :=
  { State.attach { size := 1 } 0 fd watched {} with clientFd := fd }

/-! ## What should hold -/

/-- An event `EPOLLOUT` for the descriptor makes the kernel flush the connection. -/
def Installed (s : State) (fd i : Nat) : Prop :=
  (s.kernel.desc fd).drains = true ∧ s.kernel.outCb fd = some i

/-- The flag of an open connection tells whether the handler is installed for its descriptor,
and a writer that has been registered will be flushed. -/
structure Truthful (s : State) : Prop where
  flag : ∀ i fd, (s.conns i).fd = some fd →
    ((s.conns i).registered = true ↔ Installed s fd i)
  flushed : ∀ i fd, (s.conns i).fd = some fd →
    Installed (s.registerDataConnEpollout i fd) fd i

/-- A closure that would register does it for the descriptor that its connection has. -/
def Closure.Fresh (s : State) : Closure → Prop
  | .registerWritten i fd => (s.conns i).registered = true ∨ (s.conns i).fd = none ∨
      (s.conns i).fd = some fd
  | .registerCurrent _ | .disconnect _ => True

instance (s : State) : ∀ closure : Closure, Decidable (closure.Fresh s)
  | .registerWritten _ _ => inferInstanceAs (Decidable (_ ∨ _ ∨ _))
  | .registerCurrent _ | .disconnect _ => isTrue trivial

/-- A connection without descriptor gets a new one only when its flag is off; the descriptor that
`reconnect` closes belongs to no open connection; a descriptor that hangs up and whose connection
stays open is not registered; and closures are fresh. -/
def Guarded (role : Role) (s : State) : Label → Prop
  | .connect i _ _ | .reconnectSecondary i _ => (s.conns i).registered = false
  | .addDataConnection i _ _ => (s.conns i).fd = none → (s.conns i).registered = false
  | .reconnect _ _ => (s.conns 0).registered = false ∧
      ∀ j < s.size, (s.conns j).fd ≠ some s.clientFd
  | .hangup fd => (s.kernel.inCb fd).any (State.closesOnHangup role) = false →
      (s.kernel.desc fd).drains = false
  | .runClosure k => ∀ closure ∈ s.pendingIo[k]?, closure.Fresh s
  | _ => True

instance (role : Role) (s : State) : ∀ l, Decidable (Guarded role s l)
  | .connect _ _ _ | .reconnectSecondary _ _ => inferInstanceAs (Decidable (_ = _))
  | .addDataConnection i _ _ =>
      inferInstanceAs (Decidable ((s.conns i).fd = none → (s.conns i).registered = false))
  | .reconnect _ _ => inferInstanceAs (Decidable ((s.conns 0).registered = false ∧
      ∀ j < s.size, (s.conns j).fd ≠ some s.clientFd))
  | .hangup fd =>
      inferInstanceAs (Decidable ((s.kernel.inCb fd).any (State.closesOnHangup role) = false →
        (s.kernel.desc fd).drains = false))
  | .runClosure k => inferInstanceAs (Decidable (∀ closure ∈ s.pendingIo[k]?, closure.Fresh s))
  | .resize _ | .become _ | .wireWrite _ _ | .write _ _ | .writePriority _ _ | .register _
  | .epollout _ | .readEnd _ => isTrue trivial

/-- The handlers for `EPOLLOUT` are those of the registered connections. -/
structure Sound (s : State) : Prop where
  synced : ∀ fd, (s.kernel.desc fd).Synced
  opened : ∀ i fd, (s.conns i).fd = some fd → s.kernel.opened fd = true
  within : ∀ i fd, (s.conns i).fd = some fd → i < s.size
  distinct : ∀ i j fd, (s.conns i).fd = some fd → (s.conns j).fd = some fd → i = j
  pending : ∀ i, (s.conns i).reconnectPending = true → (s.conns i).fd = none
  readers : ∀ i fd, 0 < i → s.kernel.inCb fd = some i → (s.conns i).fd = some fd
  installed : ∀ i fd, (s.conns i).fd = some fd → (s.conns i).registered = true →
    (s.kernel.desc fd).events.epollout = true ∧ s.kernel.outCb fd = some i
  owned : ∀ fd, (s.kernel.desc fd).events.epollout = true →
    ∃ i, (s.conns i).fd = some fd ∧ (s.conns i).registered = true

/-! ## One connection -/

section Moves

variable {s : State} {i fd : Nat}

theorem Installed.registered (h : Sound s) (hinstalled : Installed s fd i) :
    (s.conns i).fd = some fd ∧ (s.conns i).registered = true := by
  obtain ⟨hdrains, hcb⟩ := hinstalled
  rw [(h.synced fd).drains_eq] at hdrains
  obtain ⟨j, hj, hreg⟩ := h.owned fd hdrains
  obtain rfl : j = i := Option.some.inj ((h.installed j fd hj hreg).2.symm.trans hcb)
  exact ⟨hj, hreg⟩

theorem Sound.isInstalled (h : Sound s) (hfd : (s.conns i).fd = some fd)
    (hreg : (s.conns i).registered = true) : Installed s fd i := by
  obtain ⟨hout, hcb⟩ := h.installed i fd hfd hreg
  exact ⟨(h.synced fd).drains_eq.trans hout, hcb⟩

@[simp] theorem conns_setConn (s : State) (i : Nat) (c : Conn) (j : Nat) :
    (s.setConn i c).conns j = if j = i then c else s.conns j := by
  simp only [State.setConn, Function.update_apply]

theorem Sound.unowned (h : Sound s) (hfree : ∀ j, (s.conns j).fd ≠ some fd) :
    (s.kernel.desc fd).events.epollout = false := by
  by_contra hout
  obtain ⟨j, hj, -⟩ := h.owned fd (by simpa using hout)
  exact hfree j hj

/-- The writers of the connections play no role. -/
theorem Sound.of_eq {s' : State} (h : Sound s) (hkernel : s'.kernel = s.kernel)
    (hsize : s.size ≤ s'.size)
    (hconns : ∀ j, (s'.conns j).fd = (s.conns j).fd ∧
      (s'.conns j).registered = (s.conns j).registered ∧
      (s'.conns j).reconnectPending = (s.conns j).reconnectPending) : Sound s' := by
  have hfd := fun j => (hconns j).1
  have hreg := fun j => (hconns j).2.1
  have hpending := fun j => (hconns j).2.2
  constructor <;> simp only [hkernel, hfd, hreg, hpending]
  · exact h.synced
  · exact h.opened
  · exact fun i fd hi => Nat.lt_of_lt_of_le (h.within i fd hi) hsize
  · exact h.distinct
  · exact h.pending
  · exact h.readers
  · exact h.installed
  · exact h.owned

/-- Neither do the fields beside the table. -/
theorem Sound.beside {s' : State} (h : Sound s) (hkernel : s'.kernel = s.kernel)
    (hsize : s.size ≤ s'.size) (hconns : s'.conns = s.conns) : Sound s' := by
  refine h.of_eq hkernel hsize fun j => ?_
  rw [hconns]
  exact ⟨rfl, rfl, rfl⟩

theorem Sound.setWriter (h : Sound s) (i : Nat) (w : Channel) :
    Sound (s.setConn i { s.conns i with writer := w }) := by
  refine h.of_eq rfl (Nat.le_refl _) fun j => ?_
  rw [conns_setConn]
  split_ifs with hj
  · rw [hj]
    exact ⟨rfl, rfl, rfl⟩
  · exact ⟨rfl, rfl, rfl⟩

/-- The handlers of a descriptor go, and the connection that has it may give it up; if it does
not, it is not registered. -/
theorem Sound.forget (h : Sound s) {conns : Nat → Conn}
    (hkeep : ∀ j, (conns j).fd = none ∨ conns j = s.conns j)
    (hothers : ∀ j, (s.conns j).fd ≠ some fd → conns j = s.conns j)
    (hquiet : ∀ j, (conns j).fd = some fd → (conns j).registered = false) :
    Sound { s with conns := conns, kernel := s.kernel.delFd fd } := by
  have hopen : ∀ j fd', (conns j).fd = some fd' → conns j = s.conns j := by
    intro j fd' hj
    exact (hkeep j).resolve_left (by simp [hj])
  have hothers' : ∀ j fd', fd' ≠ fd → (s.conns j).fd = some fd' → conns j = s.conns j := by
    intro j fd' hne hj
    exact hothers j (by simp [hj, hne])
  constructor <;> dsimp only
  · intro fd'
    simp only [Table.delFd, Function.update_apply]
    split_ifs
    · exact Descriptor.synced_empty
    · exact h.synced fd'
  · intro j fd' hj
    rw [hopen j fd' hj] at hj
    exact h.opened j fd' hj
  · intro j fd' hj
    rw [hopen j fd' hj] at hj
    exact h.within j fd' hj
  · intro j k fd' hj hk
    rw [hopen j fd' hj] at hj
    rw [hopen k fd' hk] at hk
    exact h.distinct j k fd' hj hk
  · intro j hj
    rcases hkeep j with hnone | hsame
    · exact hnone
    · rw [hsame] at hj ⊢
      exact h.pending j hj
  · intro j fd' hpos hcb
    simp only [Table.delFd, Function.update_apply] at hcb
    split_ifs at hcb with hne
    have hj := h.readers j fd' hpos hcb
    rw [hothers' j fd' hne hj]
    exact hj
  · intro j fd' hj hreg
    have hne : fd' ≠ fd := by
      rintro rfl
      exact absurd ((hquiet j hj).symm.trans hreg) (by decide)
    have hsame := hopen j fd' hj
    rw [hsame] at hj hreg
    simpa [Table.delFd, Function.update_apply, hne] using h.installed j fd' hj hreg
  · intro fd' hout
    simp only [Table.delFd, Function.update_apply] at hout
    split_ifs at hout with hne
    · exact absurd hout (by decide)
    · obtain ⟨j, hj, hreg⟩ := h.owned fd' hout
      exact ⟨j, by rw [hothers' j fd' hne hj]; exact ⟨hj, hreg⟩⟩

theorem Sound.delFd (h : Sound s) (hquiet : (s.kernel.desc fd).events.epollout = false) :
    Sound { s with kernel := s.kernel.delFd fd } := by
  refine h.forget (fun j => .inr rfl) (fun j _ => rfl) fun j hj => ?_
  by_contra hreg
  have hout := (h.installed j fd hj (by simpa using hreg)).1
  exact absurd (hquiet.symm.trans hout) (by decide)

/-- A descriptor that no connection has is closed. -/
theorem Sound.close (h : Sound s) (hfree : ∀ j, (s.conns j).fd ≠ some fd) :
    Sound { s with kernel := s.kernel.close fd } := by
  refine ⟨h.synced, fun j fd' hj => ?_, h.within, h.distinct, h.pending, h.readers, h.installed,
    h.owned⟩
  have hne : fd' ≠ fd := by
    rintro rfl
    exact hfree j hj
  simpa [Table.close, Function.update_apply, hne] using h.opened j fd' hj

theorem Sound.detach (h : Sound s) (hfd : (s.conns i).fd = some fd) (closes : Bool) (c : Conn) :
    Sound (s.detach i fd closes c) := by
  have hfree : ∀ j, ((s.setConn i { c with fd := none }).conns j).fd ≠ some fd := by
    intro j hj
    rw [conns_setConn] at hj
    split_ifs at hj with hne
    exact hne (h.distinct j i fd hj hfd)
  have hrelease : Sound { s.setConn i { c with fd := none } with kernel := s.kernel.delFd fd } := by
    refine h.forget (fun j => ?_) (fun j hj => ?_) fun j hj => absurd hj (hfree j)
    · rw [conns_setConn]
      split_ifs
      · exact .inl rfl
      · exact .inr rfl
    · rw [conns_setConn, if_neg]
      rintro rfl
      exact hj hfd
  cases closes with
  | false => exact hrelease
  | true => exact hrelease.close hfree

/-- Nobody waits for room in the socket. -/
def Quiet (d : Descriptor) : Prop := d.Synced ∧ d.events.epollout = false

theorem Quiet.addReader {d : Descriptor} (h : Quiet d) : Quiet (d.addFdHandler EPOLLIN) := by
  refine ⟨h.1.addFdHandler (by decide), ?_⟩
  rw [Descriptor.events_addFdHandler, Events.union, h.2]
  rfl

theorem desc_attach_self (s : State) (i fd : Nat) (watched : Bool) (c : Conn) :
    (s.attach i fd watched c).kernel.desc fd =
      (if watched then (s.kernel.desc fd).addFdHandler EPOLLIN
        else s.kernel.desc fd).addFdHandler EPOLLIN := by
  cases watched <;> simp [State.attach, Table.addFdHandler, Table.accept]

theorem Quiet.attach (h : Quiet (s.kernel.desc fd)) (i : Nat) (watched : Bool) (c : Conn) :
    Quiet ((s.attach i fd watched c).kernel.desc fd) := by
  rw [desc_attach_self]
  cases watched with
  | false => exact h.addReader
  | true => exact h.addReader.addReader

/-- Other descriptors and their handlers are as they were. -/
theorem attach_others (s : State) (i : Nat) (watched : Bool) (c : Conn) {fd' : Nat}
    (hne : fd' ≠ fd) :
    (s.attach i fd watched c).kernel.desc fd' = s.kernel.desc fd' ∧
      (s.attach i fd watched c).kernel.inCb fd' = s.kernel.inCb fd' ∧
      (s.attach i fd watched c).kernel.outCb fd' = s.kernel.outCb fd' ∧
      (s.attach i fd watched c).kernel.opened fd' = s.kernel.opened fd' := by
  cases watched <;>
    simp [State.attach, Table.addFdHandler, Table.accept, hne, EPOLLIN]

theorem conns_attach (s : State) (i : Nat) (watched : Bool) (c : Conn) (j : Nat) :
    (s.attach i fd watched c).conns j =
      if j = i then { c with fd := some fd, reconnectPending := false } else s.conns j :=
  conns_setConn s i _ j

/-- A connection that is closed, or not registered, gets a descriptor that was not open. -/
theorem Sound.attach (h : Sound s) (hi : i < s.size) (hnew : s.kernel.opened fd = false)
    (hfree : (s.conns i).fd = none ∨ i = 0 ∧ (s.conns i).registered = false) (watched : Bool)
    {c : Conn} (hc : c.registered = false) : Sound (s.attach i fd watched c) := by
  have hunused : ∀ j, (s.conns j).fd ≠ some fd := by
    intro j hj
    exact absurd ((h.opened j fd hj).symm.trans hnew) (by decide)
  have hquiet : Quiet ((s.attach i fd watched c).kernel.desc fd) :=
    Quiet.attach ⟨h.synced fd, h.unowned hunused⟩ i watched c
  have hother : ∀ j fd', j ≠ i → ((s.attach i fd watched c).conns j).fd = some fd' →
      (s.conns j).fd = some fd' ∧ fd' ≠ fd := by
    intro j fd' hne hj
    rw [conns_attach, if_neg hne] at hj
    refine ⟨hj, ?_⟩
    rintro rfl
    exact hunused j hj
  have hself : ∀ fd', ((s.attach i fd watched c).conns i).fd = some fd' → fd' = fd := by
    intro fd' hfd'
    rw [conns_attach, if_pos rfl] at hfd'
    exact (Option.some.inj hfd').symm
  constructor
  case synced =>
    intro fd'
    by_cases hfd' : fd' = fd
    · rw [hfd']
      exact hquiet.1
    · rw [(attach_others s i watched c hfd').1]
      exact h.synced fd'
  case opened =>
    intro j fd' hj
    by_cases hji : j = i
    · rw [hji] at hj
      rw [hself fd' hj]
      cases watched <;> simp [State.attach, Table.addFdHandler, Table.accept]
    · obtain ⟨hold, hne⟩ := hother j fd' hji hj
      rw [(attach_others s i watched c hne).2.2.2]
      exact h.opened j fd' hold
  case within =>
    intro j fd' hj
    by_cases hji : j = i
    · rw [hji]
      exact hi
    · exact h.within j fd' (hother j fd' hji hj).1
  case distinct =>
    intro j k fd' hj hk
    by_cases hji : j = i
    · rw [hji] at hj ⊢
      by_contra hki
      exact (hother k fd' (Ne.symm hki) hk).2 (hself fd' hj)
    · by_cases hki : k = i
      · rw [hki] at hk
        exact absurd (hself fd' hk) (hother j fd' hji hj).2
      · exact h.distinct j k fd' (hother j fd' hji hj).1 (hother k fd' hki hk).1
  case pending =>
    intro j hj
    rw [conns_attach] at hj ⊢
    split_ifs at hj with hji
    rw [if_neg hji]
    exact h.pending j hj
  case readers =>
    intro j fd' hpos hcb
    by_cases hfd' : fd' = fd
    · have hji : j = i := by
        rw [hfd'] at hcb
        simpa [State.attach, Table.addFdHandler, Table.accept, EPOLLIN, eq_comm] using hcb
      rw [conns_attach, if_pos hji, hfd']
    · rw [(attach_others s i watched c hfd').2.1] at hcb
      have hj := h.readers j fd' hpos hcb
      have hji : j ≠ i := by
        rintro rfl
        rcases hfree with hnone | ⟨hzero, -⟩
        · simp [hnone] at hj
        · omega
      rw [conns_attach, if_neg hji]
      exact hj
  case installed =>
    intro j fd' hj hreg
    by_cases hji : j = i
    · rw [hji, conns_attach, if_pos rfl] at hreg
      exact absurd (hc.symm.trans hreg) (by decide)
    · obtain ⟨hold, hne⟩ := hother j fd' hji hj
      rw [conns_attach, if_neg hji] at hreg
      rw [(attach_others s i watched c hne).1, (attach_others s i watched c hne).2.2.1]
      exact h.installed j fd' hold hreg
  case owned =>
    intro fd' hout
    by_cases hfd' : fd' = fd
    · rw [hfd', hquiet.2] at hout
      exact absurd hout (by decide)
    · rw [(attach_others s i watched c hfd').1] at hout
      obtain ⟨j, hj, hreg⟩ := h.owned fd' hout
      have hji : j ≠ i := by
        rintro rfl
        rcases hfree with hnone | ⟨-, hoff⟩
        · simp [hnone] at hj
        · exact absurd (hoff.symm.trans hreg) (by decide)
      refine ⟨j, ?_⟩
      rw [conns_attach, if_neg hji]
      exact ⟨hj, hreg⟩

/-- The flag and the events of one descriptor change together. -/
theorem Sound.flip (h : Sound s) (hfd : (s.conns i).fd = some fd) {c : Conn} {k : Table}
    (hcfd : c.fd = some fd) (hpending : c.reconnectPending = (s.conns i).reconnectPending)
    (hothers : ∀ fd' ≠ fd, k.desc fd' = s.kernel.desc fd' ∧ k.outCb fd' = s.kernel.outCb fd')
    (hin : k.inCb = s.kernel.inCb) (hopened : k.opened = s.kernel.opened)
    (hsynced : (k.desc fd).Synced) (hout : (k.desc fd).events.epollout = c.registered)
    (hcb : c.registered = true → k.outCb fd = some i) :
    Sound { s.setConn i c with kernel := k } := by
  have hfds : ∀ j, ((s.setConn i c).conns j).fd = (s.conns j).fd := by
    intro j
    rw [conns_setConn]
    split_ifs with hji
    · rw [hcfd, hji, hfd]
    · rfl
  constructor <;> simp only [hfds, hopened, hin]
  · intro fd'
    by_cases hfd' : fd' = fd
    · rw [hfd']
      exact hsynced
    · rw [(hothers fd' hfd').1]
      exact h.synced fd'
  · exact h.opened
  · exact h.within
  · exact h.distinct
  · intro j hj
    rw [conns_setConn] at hj
    split_ifs at hj with hji
    · rw [hji]
      exact h.pending i (hpending.symm.trans hj)
    · exact h.pending j hj
  · exact h.readers
  · intro j fd' hj hreg
    rw [conns_setConn] at hreg
    split_ifs at hreg with hji
    · obtain rfl : fd' = fd := by
        rw [hji, hfd] at hj
        exact (Option.some.inj hj).symm
      rw [hji]
      exact ⟨hout.trans hreg, hcb hreg⟩
    · have hne : fd' ≠ fd := by
        rintro rfl
        exact hji (h.distinct j i fd' hj hfd)
      rw [(hothers fd' hne).1, (hothers fd' hne).2]
      exact h.installed j fd' hj hreg
  · intro fd' hepollout
    by_cases hfd' : fd' = fd
    · rw [hfd'] at hepollout ⊢
      refine ⟨i, hfd, ?_⟩
      rw [conns_setConn, if_pos rfl]
      exact hout.symm.trans hepollout
    · rw [(hothers fd' hfd').1] at hepollout
      obtain ⟨j, hj, hreg⟩ := h.owned fd' hepollout
      refine ⟨j, hj, ?_⟩
      rw [conns_setConn, if_neg]
      · exact hreg
      · rintro rfl
        exact hfd' (Option.some.inj (hj.symm.trans hfd))

theorem Sound.register (h : Sound s) (hfd : (s.conns i).fd = some fd) :
    Sound (s.registerDataConnEpollout i fd) := by
  rw [State.registerDataConnEpollout]
  split_ifs with hskip
  · exact h
  · have hopened := h.opened i fd hfd
    refine h.flip hfd hfd rfl ?_ ?_ rfl ?_ ?_ ?_
    · intro fd' hne
      simp [Table.addFdHandler, hne, EPOLLOUT]
    · simp [Table.addFdHandler, EPOLLOUT]
    · simp only [Table.addFdHandler, Function.update_self, hopened, if_true]
      exact (h.synced fd).addFdHandler (by decide)
    · simp [Table.addFdHandler, hopened, Descriptor.events_addFdHandler, Events.union, EPOLLOUT]
    · simp [Table.addFdHandler, EPOLLOUT]

theorem Sound.drained (h : Sound s) (hfd : (s.conns i).fd = some fd) (w : Channel) :
    Sound (s.drained i fd w) := by
  rw [State.drained]
  split_ifs with hempty
  · refine h.flip hfd hfd rfl ?_ rfl rfl ?_ ?_ nofun
    · intro fd' hne
      simp [Table.modFdEvents, hne]
    · simp only [Table.modFdEvents, Function.update_self]
      exact (h.synced fd).modFdEvents EPOLLOUT
    · simp [Table.modFdEvents, Descriptor.events_modFdEvents, Events.without, EPOLLOUT]
  · exact h.setWriter i w

end Moves

/-! ## The functions -/

section Functions

variable {role : Role} {sock : Nat → Socket} {s s' : State} {i fd : Nat}

theorem Sound.addDataConnection (h : Sound s) (hi : i < s.size)
    (hnew : s.kernel.opened fd = false)
    (hguard : (s.conns i).fd = none → (s.conns i).registered = false) (watched : Bool) :
    Sound (s.addDataConnection i fd watched) := by
  rw [State.addDataConnection]
  cases hold : (s.conns i).fd with
  | none => exact h.attach hi hnew (.inl hold) watched (hguard hold)
  | some old =>
      -- the slot is made anew, with its flag off
      have hne : fd ≠ old := by
        rintro rfl
        exact absurd ((h.opened i fd hold).symm.trans hnew) (by decide)
      refine (h.detach hold true {}).attach hi ?_ (.inl ?_) watched rfl
      · simpa [State.detach, Table.close, Table.delFd, hne] using hnew
      · simp [State.detach]

theorem Sound.disconnectConn (h : Sound s) (i : Nat) : Sound (s.disconnectConn i) := by
  rw [State.disconnectConn]
  split
  · exact h
  · rename_i hfd
    exact h.detach hfd _ _

theorem Sound.onDisconnect (h : Sound s) : Sound s.onDisconnect := by
  have hall : ∀ (indices : List Nat) {s : State}, Sound s →
      Sound (indices.foldl State.disconnectConn s) := by
    intro indices
    induction indices with
    | nil => exact fun h => h
    | cons i indices ih => exact fun h => ih (h.disconnectConn i)
  rw [State.onDisconnect]
  split_ifs
  · exact h
  · exact (hall _ h).beside rfl (Nat.le_refl _) rfl

theorem Sound.reconnect (h : Sound s) (hsize : 0 < s.size) (hnew : s.kernel.opened fd = false)
    (hflag : (s.conns 0).registered = false)
    (hfree : ∀ j < s.size, (s.conns j).fd ≠ some s.clientFd) {watched : Bool}
    (hreconnect : s.reconnect fd watched = some s') : Sound s' := by
  rw [State.reconnect] at hreconnect
  split_ifs at hreconnect with hpaused
  cases hreconnect
  have hunused : ∀ j, (s.conns j).fd ≠ some s.clientFd := by
    intro j hj
    exact hfree j (h.within j _ hj) hj
  have hdropped : Sound (s.dropClientFd fd) := by
    rw [State.dropClientFd]
    split_ifs
    · exact h
    · exact (h.delFd (h.unowned hunused)).close hunused
  have hsame : (s.dropClientFd fd).size = s.size ∧ (s.dropClientFd fd).conns = s.conns ∧
      (s.dropClientFd fd).kernel.opened fd = false := by
    rw [State.dropClientFd]
    split_ifs with heq
    · exact ⟨rfl, rfl, hnew⟩
    · exact ⟨rfl, rfl, by simpa [Table.close, Table.delFd, Ne.symm heq] using hnew⟩
  obtain ⟨hsize', hconns, hnew'⟩ := hsame
  have hattach := hdropped.attach (i := 0)
    (c := { s.conns 0 with writer := State.clear (s.conns 0).writer }) (by omega) hnew'
    (.inr ⟨rfl, by rw [hconns, hflag]⟩) watched hflag
  exact hattach.beside rfl (Nat.le_refl _) rfl

theorem Sound.runClosure (h : Sound s) {closure : Closure} (hfresh : closure.Fresh s) :
    Sound (s.runClosure closure) := by
  cases closure with
  | registerWritten i fd =>
      rw [State.runClosure]
      split_ifs with hopen
      · rcases hfresh with hreg | hnone | hfd
        · rw [State.registerDataConnEpollout, if_pos (.inr hreg)]
          exact h
        · simp [hnone] at hopen
        · exact h.register hfd
      · exact h
  | registerCurrent i =>
      rw [State.runClosure]
      split
      · exact h
      · rename_i hfd
        exact h.register hfd
  | disconnect i =>
      rw [State.runClosure]
      split
      · exact h.setWriter i _
      · rename_i hfd
        exact h.detach hfd true _

theorem Sound.epollout (h : Sound s) {ev : Nat} (hepollout : s.epollout sock ev = some s') :
    Sound s' := by
  rw [State.epollout] at hepollout
  split_ifs at hepollout with hdrains
  split at hepollout
  · cases hepollout
  · rename_i i hcb
    -- the handler that is called belongs to the connection with this descriptor
    have hopen := (Installed.registered h ⟨hdrains, hcb⟩).1
    split at hepollout
    · rename_i fd hfd
      obtain ⟨w, -, rfl⟩ := Option.map_eq_some_iff.mp hepollout
      exact h.drained hfd w
    · rename_i hnone
      simp [hnone] at hopen

theorem Sound.hangup (h : Sound s) {ev : Nat}
    (hguard : (s.kernel.inCb ev).any (State.closesOnHangup role) = false →
      (s.kernel.desc ev).drains = false) (hhangup : s.hangup role ev = some s') : Sound s' := by
  rw [State.hangup] at hhangup
  split_ifs at hhangup
  cases hhangup
  suffices hcb : Sound (s.hangupCb role ev) ∧
      ((s.hangupCb role ev).kernel.desc ev).events.epollout = false from hcb.1.delFd hcb.2
  have hquiet : (s.kernel.desc ev).drains = false →
      (s.kernel.desc ev).events.epollout = false := by
    rw [(h.synced ev).drains_eq]
    exact id
  rw [State.hangupCb]
  cases hin : s.kernel.inCb ev with
  | none =>
      have hoff := hquiet (hguard (by simp [hin]))
      dsimp only
      split
      · exact ⟨h, hoff⟩
      · exact ⟨h.setWriter _ _, hoff⟩
  | some i =>
      dsimp only
      cases hclose : State.closesOnHangup role i with
      | false =>
          have hoff := hquiet (hguard (by simp [hin, hclose]))
          split
          · exact ⟨h, hoff⟩
          · exact ⟨h, hoff⟩
      | true =>
          have hpos : 0 < i := by
            simp only [State.closesOnHangup, decide_eq_true_eq] at hclose
            omega
          have hfd := h.readers i ev hpos hin
          rw [hfd]
          refine ⟨h.detach hfd true _, ?_⟩
          simp [State.detach, Table.close, Table.delFd, Descriptor.events]

theorem Sound.step {l : Label} (h : Sound s) (hguard : Guarded role s l)
    (hstep : step role sock s l = some s') : Sound s' := by
  cases l with
  | resize n =>
      cases hstep
      exact h.beside rfl (Nat.le_max_left _ _) rfl
  | become running =>
      cases hstep
      exact h.beside rfl (Nat.le_refl _) rfl
  | connect i fd watched =>
      simp only [Registration.step] at hstep
      split_ifs at hstep with hready
      cases hstep
      obtain ⟨hi, hnew⟩ := State.takes_iff.mp hready.1
      exact h.attach hi hnew (.inl hready.2.1) watched hguard
  | addDataConnection i fd watched =>
      simp only [Registration.step] at hstep
      split_ifs at hstep with hready
      cases hstep
      obtain ⟨hi, hnew⟩ := State.takes_iff.mp hready.2
      exact h.addDataConnection hi hnew hguard watched
  | wireWrite i data =>
      simp only [Registration.step, State.wireWrite] at hstep
      split at hstep
      · cases hstep
      · obtain ⟨r, -, rfl⟩ := Option.map_eq_some_iff.mp hstep
        exact (h.setWriter i r.1).beside rfl (Nat.le_refl _) rfl
  | write i data =>
      simp only [Registration.step] at hstep
      split_ifs at hstep
      obtain ⟨r, -, rfl⟩ := Option.map_eq_some_iff.mp hstep
      exact h.setWriter i r.1
  | writePriority i data =>
      simp only [Registration.step] at hstep
      split_ifs at hstep
      cases hstep
      exact h.setWriter i _
  | register i =>
      obtain ⟨fd, hfd, rfl⟩ := Option.map_eq_some_iff.mp hstep
      exact h.register hfd
  | runClosure k =>
      obtain ⟨closure, hclosure, rfl⟩ := Option.map_eq_some_iff.mp hstep
      have hrest : Sound { s with pendingIo := s.pendingIo.eraseIdx k } :=
        h.beside rfl (Nat.le_refl _) rfl
      exact hrest.runClosure (hguard closure hclosure)
  | epollout fd => exact h.epollout hstep
  | hangup fd => exact h.hangup hguard hstep
  | readEnd i =>
      simp only [Registration.step] at hstep
      split_ifs at hstep
      obtain ⟨fd, hfd, rfl⟩ := Option.map_eq_some_iff.mp hstep
      exact (h.detach hfd false _).onDisconnect
  | reconnect fd watched =>
      simp only [Registration.step] at hstep
      split_ifs at hstep with hready
      obtain ⟨hsize, hnew⟩ := State.takes_iff.mp hready.2
      exact h.reconnect hsize hnew hguard.1 hguard.2 hstep
  | reconnectSecondary i fd =>
      simp only [Registration.step] at hstep
      split_ifs at hstep with hready
      cases hstep
      obtain ⟨hi, hnew⟩ := State.takes_iff.mp hready.2.1
      exact h.attach hi hnew (.inl (h.pending i hready.2.2.2)) false hguard

theorem Sound.truthful (h : Sound s) : Truthful s := by
  refine ⟨fun i fd hfd => ⟨h.isInstalled hfd, fun hinst => (hinst.registered h).2⟩, ?_⟩
  intro i fd hfd
  have hregister := h.register hfd
  have hi := h.within i fd hfd
  rw [State.registerDataConnEpollout] at hregister ⊢
  split_ifs at hregister ⊢ with hskip
  · exact h.isInstalled hfd (hskip.resolve_left (by omega))
  · refine hregister.isInstalled ?_ ?_
    · simpa using hfd
    · simp

theorem sound_start (fd : Nat) (watched : Bool) : Sound (start fd watched) := by
  have hempty : Sound { size := 1 } :=
    ⟨fun _ => Descriptor.synced_empty, nofun, nofun, nofun, nofun, nofun, nofun, nofun⟩
  exact (hempty.attach Nat.one_pos rfl (.inl rfl) watched rfl).beside rfl (Nat.le_refl _) rfl

end Functions

/-- When connections are opened again only with their flag off, a descriptor that is dropped
while its connection stays open is not registered, and closures register the descriptor that
their connection has, then in every state the flag tells the truth and a registered writer will
be flushed. -/
theorem registered_truthful {role : Role} {sock : Nat → Socket} {fd : Nat} {watched : Bool}
    {ls : List Label} {s : State}
    (hguard : Meets (step role sock) (Guarded role) (start fd watched) ls)
    (hrun : run (step role sock) (start fd watched) ls = some s) : Truthful s := by
  have hstep : ∀ s l s', Sound s → Guarded role s l → step role sock s l = some s' → Sound s' :=
    fun s l s' h hl hs => h.step hl hs
  exact (invariant_of_meets hstep (sound_start fd watched) hguard hrun).truthful

/-- The writer of the primary connection is drained before the connection is lost; the session
comes back with another descriptor and speaks. -/
def drainedRun : List Label :=
  [.become true, .writePriority 0 [1], .register 0, .epollout 3, .readEnd 0, .reconnect 4 true,
    .writePriority 0 [2], .register 0]

theorem registered_truthful_drained :
    ∃ s, run (step .server fun _ => Common.stutter) (start 3 true) drainedRun = some s ∧
      (s.conns 0).fd = some 4 ∧ (s.conns 0).registered = true ∧ Truthful s := by
  have hguard : Meets (step .server fun _ => Common.stutter) (Guarded .server) (start 3 true)
      drainedRun := by decide +kernel
  have hend : (run (step .server fun _ => Common.stutter) (start 3 true) drainedRun).map
      (fun s => ((s.conns 0).fd, (s.conns 0).registered)) = some (some 4, true) := by
    decide +kernel
  obtain ⟨s, hrun, hs⟩ := Option.map_eq_some_iff.mp hend
  obtain ⟨hfd, hreg⟩ := Prod.mk.inj hs
  exact ⟨s, hrun, hfd, hreg, registered_truthful hguard hrun⟩

/-- The primary connection is lost with a message in its writer. -/
def staleServerRun : List Label :=
  [.become true, .writePriority 0 [1], .register 0, .readEnd 0, .reconnect 4 true,
    .writePriority 0 [2], .register 0]

/-- The same for a secondary connection of the client. -/
def staleClientRun : List Label :=
  [.resize 2, .connect 1 4 false, .writePriority 1 [1], .register 1, .hangup 4,
    .reconnectSecondary 1 5, .writePriority 1 [2], .register 1]

/-- A flag that says so without a handler. -/
theorem not_truthful {s : State} {i fd : Nat} (hfd : (s.conns i).fd = some fd)
    (hreg : (s.conns i).registered = true) (hout : (s.kernel.desc fd).drains = false) :
    ¬ Truthful s := by
  intro h
  exact absurd (((h.flag i fd hfd).mp hreg).1.symm.trans hout) (by decide)

/-- The flag survives, the handler does not, and the new message is never flushed. -/
theorem registered_stale :
    (∃ s, run (step .server fun _ => Common.stutter) (start 3 true) staleServerRun = some s ∧
      ¬ Truthful s) ∧
    ∃ s, run (step .client fun _ => Common.stutter) (start 3 true) staleClientRun = some s ∧
      ¬ Truthful s := by
  constructor
  · have hend : (run (step .server fun _ => Common.stutter) (start 3 true) staleServerRun).map
        (fun s => ((s.conns 0).fd, (s.conns 0).registered, (s.kernel.desc 4).drains)) =
        some (some 4, true, false) := by decide +kernel
    obtain ⟨s, hrun, hs⟩ := Option.map_eq_some_iff.mp hend
    simp only [Prod.mk.injEq] at hs
    exact ⟨s, hrun, not_truthful hs.1 hs.2.1 hs.2.2⟩
  · have hend : (run (step .client fun _ => Common.stutter) (start 3 true) staleClientRun).map
        (fun s => ((s.conns 1).fd, (s.conns 1).registered, (s.kernel.desc 5).drains)) =
        some (some 5, true, false) := by decide +kernel
    obtain ⟨s, hrun, hs⟩ := Option.map_eq_some_iff.mp hend
    simp only [Prod.mk.injEq] at hs
    exact ⟨s, hrun, not_truthful hs.1 hs.2.1 hs.2.2⟩

end PipelineTunnel.Registration
