import PipelineTunnel.Wire.ClientReader

/-!
# The data connections of a session

`register_data_connection_reader`, `on_disconnect`, `reconnect` and `add_data_connection` of
`server/session.cpp`, as far as they touch `read_buf` and `read_offset`. A lost connection takes the
others with it: `on_disconnect` clears their buffers and leaves their offsets, and behind a failed
`read` the buffer is given its old size again. `add_data_connection` starts with a new
`DataConnection` only where it replaces an open one.

## Implementation notes

The session stays `RUNNING`. `received` and `consumed` count from the moment the connection was
opened, and `lost` keeps how it was closed and the reader it had; both are history.
-/

namespace PipelineTunnel.Wire

open StepSystem

/-- End of file, a failed `read`, or `on_disconnect` for another connection. -/
inductive Loss where
  | eof
  | error
  | sibling
deriving DecidableEq, Repr

structure ServerConn where
  /-- `dc.fd >= 0`. -/
  isOpen : Bool := false
  reader : Reader := {}
  received : Bytes := []
  lost : Option (Loss × Reader) := none
deriving DecidableEq, Repr

namespace ServerConn

/-- `dc.fd = -1` with the reader that is left. -/
def close (c : ServerConn) (loss : Loss) (left : Reader) : ServerConn :=
  { c with isOpen := false, reader := left, lost := some (loss, c.reader) }

/-- The loop of `on_disconnect`. -/
def onDisconnect (c : ServerConn) : ServerConn :=
  if c.isOpen then c.close .sibling { c.reader with readBuf := [] } else c

/-- `dc.fd = fd` on the reader as it is. -/
def attach (c : ServerConn) : ServerConn :=
  { isOpen := true, reader := { c.reader with consumed := [] } }

/-- An open connection is replaced by `DataConnection{}` with the old `recv_seq`. -/
def replace (c : ServerConn) : ServerConn :=
  { isOpen := true, reader := { recvSeq := c.reader.recvSeq, handled := c.reader.handled } }

/-- The assignments of `reconnect` to the first connection. -/
def reset (c : ServerConn) : ServerConn :=
  { isOpen := true, reader := { c.reader with readBuf := [], readOffset := 0, consumed := [] } }

/-- The offset is inside the buffer, and the unread bytes are those received on this connection and
not consumed. -/
def Faithful (c : ServerConn) : Prop :=
  c.isOpen = true → c.reader.InBuffer ∧ c.reader.consumed ++ c.reader.unread = c.received

end ServerConn

structure ServerConns where
  /-- `paused_`. -/
  paused : Bool := false
  conns : List ServerConn
deriving DecidableEq, Repr

inductive ServerEvent where
  /-- `EPOLLIN` with the outcome of `read`. -/
  | readable (idx : Nat) (res : ReadResult)
  /-- `Session::reconnect`. -/
  | reconnect
  /-- `add_data_connection`. -/
  | attach (idx : Nat)
deriving DecidableEq, Repr

namespace ServerConns

def onDisconnect (s : ServerConns) : ServerConns :=
  if s.paused then s else { paused := true, conns := s.conns.map ServerConn.onDisconnect }

def setConn (s : ServerConns) (idx : Nat) (c : ServerConn) : ServerConns :=
  { s with conns := s.conns.set idx c }

/-- A session with its first connection and `outputs` more that are to come. -/
def start (outputs : Nat) : ServerConns :=
  { conns := { isOpen := true } :: List.replicate outputs {} }

def step (s : ServerConns) : ServerEvent → Option ServerConns
  | .readable idx res =>
      match s.conns[idx]? with
      | none => none
      | some c =>
          if c.isOpen then
            (c.reader.serverRead res).map fun r =>
              match res with
              | .bytes chunk => s.setConn idx { c with reader := r, received := c.received ++ chunk }
              | .again => s
              | .eof => (s.setConn idx (c.close .eof r)).onDisconnect
              | .error => (s.setConn idx (c.close .error r)).onDisconnect
          else none
  | .reconnect =>
      match s.conns[0]? with
      | none => none
      | some c =>
          if s.paused then some { s.setConn 0 c.reset with paused := false } else none
  | .attach idx =>
      match s.conns[idx]? with
      | none => none
      | some c => some (s.setConn idx (if c.isOpen then c.replace else c.attach))

def Faithful (s : ServerConns) : Prop := ∀ c ∈ s.conns, c.Faithful

end ServerConns

/-- What is left of the reader makes a new connection start in an empty buffer. -/
def Loss.Clean (r : Reader) : Loss → Prop
  | .eof => True
  | .error => r.readBuf = []
  | .sibling => r.readOffset = 0

instance (r : Reader) : ∀ loss : Loss, Decidable (loss.Clean r)
  | .eof => isTrue trivial
  | .error => inferInstanceAs (Decidable (r.readBuf = []))
  | .sibling => inferInstanceAs (Decidable (r.readOffset = 0))

/-- A connection that comes back was lost at end of file, or with nothing in its buffer when its
`read` failed, or with its offset at the front when another connection was lost. -/
def ServerConns.Harmless (s : ServerConns) : ServerEvent → Prop
  | .attach idx => ∀ c ∈ s.conns[idx]?, c.isOpen = false → ∀ l ∈ c.lost, l.1.Clean l.2
  | .readable _ _ | .reconnect => True

instance (s : ServerConns) : ∀ e, Decidable (s.Harmless e)
  | .attach idx => inferInstanceAs (Decidable (∀ c ∈ s.conns[idx]?, c.isOpen = false →
      ∀ l ∈ c.lost, l.1.Clean l.2))
  | .readable _ _ | .reconnect => isTrue trivial

/-! ## What a closed connection keeps -/

/-- The reader that a loss leaves. -/
def Loss.Left (r left : Reader) : Loss → Prop
  | .eof => left.readBuf = [] ∧ left.readOffset = 0
  | .error => left.readBuf.length = r.readBuf.length ∧ left.readOffset = 0
  | .sibling => left.readBuf = [] ∧ left.readOffset = r.readOffset

/-- A closed connection has the reader that its loss left, and a new one is empty. -/
def ServerConn.Closed (c : ServerConn) : Prop :=
  c.isOpen = false →
    (∀ l ∈ c.lost, l.1.Left l.2 c.reader) ∧
      (c.lost = none → c.reader.readBuf = [] ∧ c.reader.readOffset = 0)

variable {c : ServerConn} {s s' : ServerConns}

theorem ServerConn.closed_close {loss : Loss} {left : Reader} (h : loss.Left c.reader left) :
    (c.close loss left).Closed := by
  refine fun _ => ⟨fun l hl => ?_, nofun⟩
  obtain rfl := Option.some.inj hl
  exact h

theorem ServerConn.closed_onDisconnect (h : c.Closed) : c.onDisconnect.Closed := by
  rw [ServerConn.onDisconnect]
  split
  · exact closed_close ⟨rfl, rfl⟩
  · exact h

theorem ServerConn.faithful_onDisconnect (h : c.Faithful) : c.onDisconnect.Faithful := by
  rw [ServerConn.onDisconnect]
  split
  · exact nofun
  · exact h

/-- A reader whose offset is inside the buffer has nothing unread in an empty buffer only. -/
theorem Reader.inBuffer_unread_nil_iff {r : Reader} :
    r.InBuffer ∧ r.unread = [] ↔ r.readOffset = r.readBuf.length := by
  rw [Reader.InBuffer, Reader.unread, List.drop_eq_nil_iff]
  omega

theorem ServerConn.faithful_attach_iff (h : c.Closed) (hopen : c.isOpen = false) :
    c.attach.Faithful ↔ ∀ l ∈ c.lost, l.1.Clean l.2 := by
  have hattach : c.attach.Faithful ↔ c.reader.readOffset = c.reader.readBuf.length := by
    rw [← Reader.inBuffer_unread_nil_iff]
    exact ⟨fun hf => hf rfl, fun hr _ => hr⟩
  obtain ⟨hleft, hnew⟩ := h hopen
  rw [hattach]
  cases hlost : c.lost with
  | none =>
      obtain ⟨hbuf, hoffset⟩ := hnew hlost
      rw [hbuf, hoffset]
      exact ⟨fun _ => nofun, fun _ => rfl⟩
  | some l =>
      obtain ⟨loss, r⟩ := l
      have hleft := hleft _ hlost
      simp only [Option.mem_def, Option.some.injEq, forall_eq']
      cases loss with
      | eof =>
          rw [hleft.1, hleft.2]
          exact ⟨fun _ => trivial, fun _ => rfl⟩
      | error =>
          rw [hleft.1, hleft.2]
          exact eq_comm.trans List.length_eq_zero_iff
      | sibling =>
          rw [hleft.1, hleft.2]
          exact Iff.rfl

/-! ## Runs -/

theorem ServerConns.forall_onDisconnect {p : ServerConn → Prop}
    (hp : ∀ c, p c → p c.onDisconnect) (h : ∀ c ∈ s.conns, p c) :
    ∀ c ∈ s.onDisconnect.conns, p c := by
  rw [ServerConns.onDisconnect]
  split
  · exact h
  · intro c hc
    obtain ⟨c', hc', rfl⟩ := List.mem_map.mp hc
    exact hp c' (h c' hc')

theorem ServerConns.forall_setConn {p : ServerConn → Prop} {idx : Nat}
    (h : ∀ c ∈ s.conns, p c) (hc : p c) : ∀ c' ∈ (s.setConn idx c).conns, p c' := by
  intro c' hc'
  rcases List.mem_or_eq_of_mem_set hc' with hmem | rfl
  · exact h c' hmem
  · exact hc

theorem ServerConns.setConn_iff {p : ServerConn → Prop} {idx : Nat} {old : ServerConn}
    (hget : s.conns[idx]? = some old) (h : ∀ c ∈ s.conns, p c) :
    (∀ c' ∈ (s.setConn idx c).conns, p c') ↔ p c := by
  obtain ⟨hlt, -⟩ := List.getElem?_eq_some_iff.mp hget
  exact ⟨fun hall => hall c (List.mem_set hlt c), forall_setConn h⟩

namespace ServerConns

variable {e : ServerEvent}

theorem closed_step (h : ∀ c ∈ s.conns, c.Closed) (hstep : s.step e = some s') :
    ∀ c ∈ s'.conns, c.Closed := by
  cases e with
  | readable idx res =>
      simp only [step] at hstep
      split at hstep
      · cases hstep
      rename_i c hget
      split_ifs at hstep with hopen
      obtain ⟨r, hread, rfl⟩ := Option.map_eq_some_iff.mp hstep
      cases res with
      | bytes chunk => exact forall_setConn h fun hclosed => absurd (hopen.symm.trans hclosed) nofun
      | again => exact h
      | eof =>
          obtain rfl := Option.some.inj hread
          exact forall_onDisconnect (fun _ => ServerConn.closed_onDisconnect)
            (forall_setConn h (ServerConn.closed_close ⟨rfl, rfl⟩))
      | error =>
          obtain rfl := Option.some.inj hread
          exact forall_onDisconnect (fun _ => ServerConn.closed_onDisconnect)
            (forall_setConn h (ServerConn.closed_close ⟨List.length_replicate, rfl⟩))
  | reconnect =>
      simp only [step] at hstep
      split at hstep
      · cases hstep
      split_ifs at hstep
      obtain rfl := Option.some.inj hstep
      exact forall_setConn h nofun
  | attach idx =>
      simp only [step] at hstep
      split at hstep
      · cases hstep
      obtain rfl := Option.some.inj hstep
      refine forall_setConn h ?_
      split <;> exact nofun

/-- A step keeps the property exactly if it is harmless. -/
theorem faithful_step_iff (h : s.Faithful) (hclosed : ∀ c ∈ s.conns, c.Closed)
    (hstep : s.step e = some s') : s'.Faithful ↔ s.Harmless e := by
  cases e with
  | readable idx res =>
      simp only [step] at hstep
      split at hstep
      · cases hstep
      rename_i c hget
      split_ifs at hstep with hopen
      obtain ⟨r, hread, rfl⟩ := Option.map_eq_some_iff.mp hstep
      refine ⟨fun _ => trivial, fun _ => ?_⟩
      cases res with
      | bytes chunk =>
          obtain ⟨hin, hbytes⟩ := h c (List.mem_of_getElem? hget) hopen
          obtain ⟨hbytes', hin'⟩ := Reader.receive_bytes hin hread
          refine forall_setConn h fun _ => ⟨hin', ?_⟩
          rw [hbytes', hbytes]
      | again => exact h
      | eof | error =>
          exact forall_onDisconnect (fun _ => ServerConn.faithful_onDisconnect)
            (forall_setConn h nofun)
  | reconnect =>
      simp only [step] at hstep
      split at hstep
      · cases hstep
      split_ifs at hstep
      obtain rfl := Option.some.inj hstep
      exact ⟨fun _ => trivial, fun _ => forall_setConn h fun _ => ⟨Nat.zero_le _, rfl⟩⟩
  | attach idx =>
      simp only [step] at hstep
      split at hstep
      · cases hstep
      rename_i c hget
      obtain rfl := Option.some.inj hstep
      rw [Faithful, setConn_iff hget h, Harmless]
      simp only [hget, Option.mem_def, Option.some.injEq, forall_eq']
      cases hopen : c.isOpen with
      | true => exact ⟨fun _ => nofun, fun _ _ => ⟨Nat.zero_le _, rfl⟩⟩
      | false =>
          have hiff := ServerConn.faithful_attach_iff (hclosed c (List.mem_of_getElem? hget)) hopen
          simpa using hiff

end ServerConns

/-- In every state that a run reaches, the readers of all open connections have their offset inside
the buffer and hold what was received on this connection and nothing else, exactly if every
connection that came back had been lost at end of file, or with an empty buffer when its own `read`
failed, or with its offset at the front when another connection was lost. -/
theorem serverReaders_faithful_iff (outputs : Nat) {es : List ServerEvent} {t : ServerConns}
    (hrun : run ServerConns.step (.start outputs) es = some t) :
    (∀ pre u, pre <+: es → run ServerConns.step (.start outputs) pre = some u → u.Faithful) ↔
      Meets ServerConns.step ServerConns.Harmless (.start outputs) es := by
  refine reached_iff_meets (J := fun s => ∀ c ∈ s.conns, c.Closed)
    (fun s e s' h hclosed hstep => ServerConns.faithful_step_iff h hclosed hstep)
    (fun s e s' _ hclosed hstep => ServerConns.closed_step hclosed hstep) ?_ ?_ hrun
  · refine List.forall_mem_cons.mpr ⟨fun _ => ⟨Nat.le_refl 0, rfl⟩, fun c hc => ?_⟩
    rw [List.eq_of_mem_replicate hc]
    exact nofun
  · refine List.forall_mem_cons.mpr ⟨nofun, fun c hc => ?_⟩
    rw [List.eq_of_mem_replicate hc]
    exact fun _ => ⟨nofun, fun _ => ⟨rfl, rfl⟩⟩

/-- One secondary connection is lost at end of file and comes back; the other, which has read a
ping, is lost with it, and its offset is outside the buffer when it comes back. -/
theorem serverReaders_faithful_iff_sibling :
    ∃ t, run ServerConns.step (.start 2) [.attach 1, .attach 2, .readable 2 (.bytes [1, 1]),
        .readable 1 .eof, .attach 1, .attach 2] = some t ∧
      ¬ ∀ pre u, pre <+: [.attach 1, .attach 2, .readable 2 (.bytes [1, 1]), .readable 1 .eof,
          .attach 1, .attach 2] →
        run ServerConns.step (.start 2) pre = some u → u.Faithful :=
  ⟨_, rfl, fun hall => absurd ((serverReaders_faithful_iff 2 rfl).mp hall) (by decide)⟩

end PipelineTunnel.Wire
