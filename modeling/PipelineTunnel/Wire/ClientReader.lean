import PipelineTunnel.Lib.StepSystem
import PipelineTunnel.Wire.Recovery

/-!
# The client's data connections

`register_data_connection_reader` and the reconnect of `process_pending_io` in
`client/client.cpp`, for one data connection. The buffer grows by `MAX_PACKET_SIZE` before
`read` and is cut back only behind a positive count; and the reconnect leaves it as the old
connection left it.

## Implementation notes

`received` is what `read` has returned on the current connection since it was opened, and
`consumed` of the reader is counted from there too. An exception in
`dispatch_data_conn_packet` is not modelled.
-/

namespace PipelineTunnel.Wire

open StepSystem
open Server (MAX_PACKET_SIZE wireVarint)

/-- The reader of the client: the branches that `n > 0` leaves out do nothing. -/
def Reader.clientRead (r : Reader) : ReadResult → Option Reader
  | .bytes chunk => r.receive .client chunk
  | .eof | .again | .error =>
      some { r with readBuf := r.readBuf ++ List.replicate MAX_PACKET_SIZE 0 }

structure ClientConn where
  idx : Nat
  /-- `dc.fd >= 0`. -/
  isOpen : Bool := true
  reconnectPending : Bool := false
  reader : Reader := {}
  received : Bytes := []

/-- `EPOLLIN` with the outcome of `read`, `EPOLLERR` or `EPOLLHUP`, and the pass of
`process_pending_io` over a connection to be reconnected. -/
inductive ClientEvent where
  | readable (res : ReadResult)
  | hangup
  | reconnect (ok : Bool)
deriving DecidableEq, Repr

namespace ClientConn

def step (s : ClientConn) : ClientEvent → Option ClientConn
  | .readable res =>
      if s.isOpen then
        (s.reader.clientRead res).map fun r =>
          { s with reader := r, received := s.received ++ res.data }
      else none
  | .hangup =>
      if s.isOpen then
        -- Losing the primary connection stops the client.
        if s.idx = 0 then some s
        else some { s with isOpen := false, reconnectPending := true }
      else none
  | .reconnect ok =>
      if s.reconnectPending then
        if ok then
          some { s with
            isOpen := true
            reconnectPending := false
            reader := { s.reader with consumed := [] }
            received := [] }
        else some s
      else none

/-- The unread bytes are those received on the current connection and not consumed. -/
def Faithful (s : ClientConn) : Prop := s.reader.consumed ++ s.reader.unread = s.received

/-- A read returns data, and a connection is replaced when nothing is unread. -/
def Harmless (s : ClientConn) : ClientEvent → Prop
  | .readable res => ∃ chunk, res = .bytes chunk
  | .reconnect ok => s.reconnectPending → ok → s.reader.readOffset = s.reader.readBuf.length
  | .hangup => True

instance (s : ClientConn) : ∀ e, Decidable (s.Harmless e)
  | .readable (.bytes chunk) => isTrue ⟨chunk, rfl⟩
  | .readable .eof | .readable .again | .readable .error => isFalse nofun
  | .reconnect ok => inferInstanceAs (Decidable (s.reconnectPending → ok →
      s.reader.readOffset = s.reader.readBuf.length))
  | .hangup => isTrue trivial

end ClientConn

/-! ## The loop keeps every byte -/

variable {r r' : Reader} {role : Role}

/-- A byte is consumed or unread. -/
structure Keeps (r r' : Reader) : Prop where
  bytes : r'.consumed ++ r'.unread = r.consumed ++ r.unread
  inside : r.InBuffer → r'.InBuffer

theorem Keeps.refl (r : Reader) : Keeps r r := ⟨rfl, id⟩

theorem Keeps.trans {r'' : Reader} (h : Keeps r r') (h' : Keeps r' r'') : Keeps r r'' :=
  ⟨h'.bytes.trans h.bytes, fun hin => h'.inside (h.inside hin)⟩

theorem Keeps.pass {n : Nat} (hn : n ≤ r.unread.length) (e : Handled) : Keeps r (r.pass n e) := by
  refine ⟨?_, fun hin => hin.pass hn e⟩
  rw [Reader.unread_pass, Reader.pass, List.append_assoc, List.take_append_drop]

theorem Keeps.clear (e : Handled) : Keeps r (r.clear e) := by
  refine ⟨?_, fun _ => Nat.le_refl 0⟩
  simp [Reader.clear, Reader.unread]

theorem Keeps.acceptData {n : Nat} (hn : n ≤ r.unread.length) (seq : UInt16) (payload : Bytes) :
    Keeps r (r.acceptData n seq payload) := by
  rw [Reader.acceptData]
  split
  · have hkeeps : Keeps ({ r with recvSeq := r.recvSeq + 1 } : Reader) _ :=
      .pass (r := { r with recvSeq := r.recvSeq + 1 }) hn (.data seq payload)
    exact ⟨hkeeps.bytes, hkeeps.inside⟩
  · exact .pass hn _

/-- A result of `handle` that keeps every byte, if there is one. -/
def Retains (r : Reader) (result : Option (Reader × Bool)) : Prop :=
  ∀ p ∈ result, Keeps r p.1

theorem Keeps.retains {r r' : Reader} (h : Keeps r r') (more : Bool) :
    Retains r (some (r', more)) := by
  intro p hp
  obtain rfl := Option.some.inj hp
  exact h

theorem retains_none (r : Reader) : Retains r none := by
  intro p hp
  cases hp

theorem retains_handle {pos val : Nat} (hn : pos + val ≤ r.unread.length) :
    Retains r (r.handle role pos val) := by
  have hpass : ∀ e, Retains r (some (r.pass (pos + val) e, true)) :=
    fun e => (Keeps.pass hn e).retains true
  have hclear : ∀ e, Retains r (some (r.clear e, false)) := fun e => (Keeps.clear e).retains false
  rw [Reader.handle]
  cases r.unread[pos]? with
  | none => exact retains_none r
  | some type =>
      apply iteInduction
      · exact fun _ => hpass _
      intro _
      apply iteInduction
      · exact fun _ => hpass _
      intro _
      apply iteInduction
      · intro _
        apply iteInduction
        · exact fun _ => hclear _
        · intro _
          cases r.unread[pos + 1]? with
          | none => exact retains_none r
          | some cid => exact hpass _
      intro _
      apply iteInduction
      · exact fun _ => hpass _
      intro _
      apply iteInduction
      · intro _
        apply iteInduction
        · exact fun _ => retains_none r
        · intro _
          cases r.unread[pos + 1]? with
          | none => exact retains_none r
          | some seq =>
              cases Protocol.tryParse ((r.unread.drop (pos + 2)).take (val - 2)) with
              | none => exact hpass _
              | some parsed =>
                  apply iteInduction
                  · exact fun _ => hpass _
                  · exact fun _ => hpass _
      intro _
      apply iteInduction
      · intro _
        cases r.unread[pos + 1]? with
        | none => exact retains_none r
        | some lo =>
            cases r.unread[pos + 2]? with
            | none => exact retains_none r
            | some hi => exact hpass _
      intro _
      apply iteInduction
      · exact fun _ => hclear _
      intro _
      apply iteInduction
      · exact fun _ => hpass _
      · intro _
        cases r.unread[pos + 1]? with
        | none => exact retains_none r
        | some lo =>
            cases r.unread[pos + 2]? with
            | none => exact retains_none r
            | some hi => exact (Keeps.acceptData hn _ _).retains true

theorem Keeps.handle {pos val : Nat} {b : Bool} (hn : pos + val ≤ r.unread.length)
    (h : r.handle role pos val = some (r', b)) : Keeps r r' :=
  retains_handle hn (r', b) h

theorem Keeps.round {b : Bool} (h : r.round role = some (r', b)) : Keeps r r' := by
  have hstop : ∀ {b' : Bool}, some (r, b') = some (r', b) → Keeps r r' := by
    intro b' heq
    obtain ⟨rfl, -⟩ := Prod.mk.inj (Option.some.inj heq)
    exact .refl r
  rw [Reader.round] at h
  simp only at h
  split at h
  · exact hstop h
  split at h
  · obtain ⟨rfl, -⟩ := Prod.mk.inj (Option.some.inj h)
    exact .clear _
  split at h
  · exact hstop h
  · exact .handle (by omega) h

theorem Keeps.loop {fuel : Nat} : ∀ {r : Reader}, r.loop role fuel = some r' → Keeps r r' := by
  induction fuel with
  | zero =>
      intro r h
      cases h
  | succ fuel ih =>
      intro r h
      rw [Reader.loop] at h
      cases hround : r.round role with
      | none => simp [hround] at h
      | some p =>
          obtain ⟨r₁, b⟩ := p
          cases b with
          | false =>
              simp only [hround] at h
              obtain rfl := Option.some.inj h
              exact .round hround
          | true =>
              simp only [hround] at h
              exact (Keeps.round hround).trans (ih h)

theorem Keeps.compact (r : Reader) : Keeps r r.compact := by
  refine ⟨?_, Reader.InBuffer.compact⟩
  rw [Reader.unread_compact, Reader.compact]
  split <;> rfl

/-- A read adds its bytes to the unread ones. -/
theorem Reader.receive_bytes {chunk : Bytes} (hin : r.InBuffer)
    (h : r.receive role chunk = some r') :
    r'.consumed ++ r'.unread = r.consumed ++ r.unread ++ chunk ∧ r'.InBuffer := by
  obtain ⟨r₁, hloop, rfl⟩ := Option.map_eq_some_iff.mp h
  have hkeeps := (Keeps.loop hloop).trans (.compact r₁)
  have hunread : ({ r with readBuf := r.readBuf ++ chunk } : Reader).unread = r.unread ++ chunk :=
    List.drop_append_of_le_length hin
  refine ⟨?_, hkeeps.inside ?_⟩
  · rw [hkeeps.bytes, hunread, List.append_assoc]
  · change r.readOffset ≤ (r.readBuf ++ chunk).length
    rw [List.length_append]
    exact Nat.le_add_right_of_le hin

/-! ## Runs -/

variable {s s' : ClientConn} {e : ClientEvent}

/-- The property with the offset inside the buffer. -/
structure ClientConn.Sound (s : ClientConn) : Prop where
  faithful : s.Faithful
  inside : s.reader.InBuffer

theorem ClientConn.InBuffer.step (h : s.reader.InBuffer) (hstep : s.step e = some s') :
    s'.reader.InBuffer := by
  cases e with
  | readable res =>
      rw [step] at hstep
      split at hstep
      · obtain ⟨r, hread, rfl⟩ := Option.map_eq_some_iff.mp hstep
        have hgrow : r = { s.reader with
            readBuf := s.reader.readBuf ++ List.replicate MAX_PACKET_SIZE 0 } →
            r.InBuffer := by
          rintro rfl
          change s.reader.readOffset ≤ (s.reader.readBuf ++ _).length
          rw [List.length_append]
          exact Nat.le_add_right_of_le h
        cases res with
        | bytes chunk => exact (Reader.receive_bytes h hread).2
        | eof | again | error => exact hgrow (Option.some.inj hread).symm
      · cases hstep
  | hangup =>
      rw [step] at hstep
      split at hstep
      · split at hstep
        · obtain rfl := Option.some.inj hstep
          exact h
        · obtain rfl := Option.some.inj hstep
          exact h
      · cases hstep
  | reconnect ok =>
      rw [step] at hstep
      split at hstep
      · split at hstep
        · obtain rfl := Option.some.inj hstep
          exact h
        · obtain rfl := Option.some.inj hstep
          exact h
      · cases hstep

/-- A read without bytes leaves the room it made in the buffer. -/
theorem ClientConn.Sound.not_faithful_of_grown (h : s.Sound) {data : Bytes} (hdata : data = []) :
    ¬ Faithful { s with
      reader := { s.reader with
        readBuf := s.reader.readBuf ++ List.replicate MAX_PACKET_SIZE 0 }
      received := s.received ++ data } := by
  intro hf
  have hunread : ({ s.reader with
      readBuf := s.reader.readBuf ++ List.replicate MAX_PACKET_SIZE 0 } : Reader).unread =
      s.reader.unread ++ List.replicate MAX_PACKET_SIZE 0 :=
    List.drop_append_of_le_length h.inside
  have hcount := congrArg List.length
    (show s.reader.consumed ++ Reader.unread _ = s.received ++ data from hf)
  rw [hunread, hdata, List.append_nil, ← h.faithful] at hcount
  simp only [List.length_append, List.length_replicate] at hcount
  have hmax : MAX_PACKET_SIZE = 131072 := rfl
  omega

/-- A step keeps the property exactly if it is harmless. -/
theorem ClientConn.Sound.step_iff (h : s.Sound) (hstep : s.step e = some s') :
    s'.Faithful ↔ s.Harmless e := by
  have hfaithful := h.faithful
  have hlen := Reader.length_unread h.inside
  cases e with
  | readable res =>
      rw [step] at hstep
      split at hstep
      · obtain ⟨r, hread, rfl⟩ := Option.map_eq_some_iff.mp hstep
        cases res with
        | bytes chunk =>
            refine ⟨fun _ => ⟨chunk, rfl⟩, fun _ => ?_⟩
            rw [Faithful, (Reader.receive_bytes h.inside hread).1, hfaithful]
            rfl
        | eof | again | error =>
            obtain rfl := Option.some.inj hread
            refine ⟨fun hf => absurd hf (h.not_faithful_of_grown rfl), fun ⟨chunk, hchunk⟩ => ?_⟩
            exact absurd hchunk nofun
      · cases hstep
  | hangup =>
      rw [step] at hstep
      split at hstep
      · refine ⟨fun _ => trivial, fun _ => ?_⟩
        split at hstep
        · obtain rfl := Option.some.inj hstep
          exact hfaithful
        · obtain rfl := Option.some.inj hstep
          exact hfaithful
      · cases hstep
  | reconnect ok =>
      rw [step] at hstep
      split at hstep
      · rename_i hpending
        split at hstep
        · rename_i hok
          obtain rfl := Option.some.inj hstep
          have hunread : Faithful { s with
              isOpen := true
              reconnectPending := false
              reader := { s.reader with consumed := [] }
              received := [] } ↔ s.reader.unread = [] := Iff.rfl
          rw [hunread, ← List.length_eq_zero_iff]
          constructor
          · intro hzero _ _
            omega
          · intro hend
            have := hend hpending hok
            omega
        · rename_i hok
          obtain rfl := Option.some.inj hstep
          exact ⟨fun _ _ hok' => absurd hok' hok, fun _ => hfaithful⟩
      · cases hstep

/-- Every state reached along a run is faithful exactly if every step is harmless. -/
theorem clientReader_faithful_iff (idx : Nat) {es : List ClientEvent} {t : ClientConn}
    (hrun : run ClientConn.step { idx := idx } es = some t) :
    (∀ pre u, pre <+: es → run ClientConn.step { idx := idx } pre = some u → u.Faithful) ↔
      Meets ClientConn.step ClientConn.Harmless { idx := idx } es := by
  have hmain : ∀ (es : List ClientEvent) (s t : ClientConn), s.Sound →
      run ClientConn.step s es = some t →
      ((∀ pre u, pre <+: es → run ClientConn.step s pre = some u → u.Faithful) ↔
        Meets ClientConn.step ClientConn.Harmless s es) := by
    intro es
    induction es with
    | nil =>
        intro s t hs _
        refine ⟨fun _ => trivial, fun _ pre u hpre hu => ?_⟩
        obtain rfl := List.prefix_nil.mp hpre
        obtain rfl := Option.some.inj hu
        exact hs.faithful
    | cons e es ih =>
        intro s t hs ht
        obtain ⟨s₁, hstep, hrest⟩ := run_cons_some ht
        have hiff := hs.step_iff hstep
        have hcons : ∀ pre, run ClientConn.step s (e :: pre) = run ClientConn.step s₁ pre := by
          intro pre
          simp only [run, hstep]
        constructor
        · intro hall
          have hfirst : s₁.Faithful :=
            hall [e] s₁ ⟨es, rfl⟩ ((hcons []).trans rfl)
          have hs₁ : s₁.Sound := ⟨hfirst, ClientConn.InBuffer.step hs.inside hstep⟩
          refine ⟨hiff.mp hfirst, fun s' hs' => ?_⟩
          obtain rfl := Option.some.inj (hstep.symm.trans hs')
          refine (ih s₁ t hs₁ hrest).mp fun pre u hpre hu => ?_
          exact hall (e :: pre) u (List.cons_prefix_cons.mpr ⟨rfl, hpre⟩) ((hcons pre).trans hu)
        · intro hmeets pre u hpre hu
          have hs₁ : s₁.Sound :=
            ⟨hiff.mpr hmeets.1, ClientConn.InBuffer.step hs.inside hstep⟩
          cases pre with
          | nil =>
              obtain rfl := Option.some.inj hu
              exact hs.faithful
          | cons e' pre =>
              obtain ⟨rfl, hpre'⟩ := List.cons_prefix_cons.mp hpre
              exact (ih s₁ t hs₁ hrest).mpr (hmeets.2 s₁ hstep) pre u hpre'
                ((hcons pre).symm.trans hu)
  exact hmain es { idx := idx } t ⟨rfl, Nat.le_refl 0⟩ hrun

/-- A frame in two pieces, then a reconnect with nothing left over. -/
theorem clientReader_faithful_two_reads :
    ∃ t, run ClientConn.step { idx := 1 } [.readable (.bytes [1]), .readable (.bytes [2]), .hangup,
        .reconnect true] = some t ∧ t.Faithful := by
  obtain ⟨t, ht⟩ := Option.isSome_iff_exists.mp (show (run ClientConn.step { idx := 1 }
    [.readable (.bytes [1]), .readable (.bytes [2]), .hangup, .reconnect true]).isSome by decide)
  exact ⟨t, ht, (clientReader_faithful_iff 1 ht).mpr (by decide) _ t (List.prefix_refl _) ht⟩

/-- The server closes a secondary connection: the failed read leaves `MAX_PACKET_SIZE` zero
bytes, which the next connection starts with. -/
theorem clientReader_stray_bytes :
    ∃ t, run ClientConn.step { idx := 1 } [.readable .eof, .hangup, .reconnect true] = some t ∧
      ¬t.Faithful := by
  refine ⟨_, rfl, fun h => ?_⟩
  have hnil : List.replicate MAX_PACKET_SIZE (0 : UInt8) = [] := h
  have hlen := congrArg List.length hnil
  rw [List.length_replicate] at hlen
  exact absurd hlen (by decide)

end PipelineTunnel.Wire
