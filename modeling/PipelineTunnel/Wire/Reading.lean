import PipelineTunnel.Wire.Recovery

/-!
# The reader of either end

What the reader of a data connection makes of the frames that its peer writes, with data frames in
any order: a retransmitted frame is a duplicate when its number is not the expected one. The two
ends differ only in the shutdown messages, which a chain does not use.
-/

namespace PipelineTunnel.Wire

open Protocol
open Server (wireVarint WIRE_DATA WIRE_HEARTBEAT_PING WIRE_HEARTBEAT_PONG WIRE_SHUTDOWN_WR
  WIRE_SHUTDOWN_WR_ACK WIRE_CONTROL WIRE_DATA_ACK seq_bytes wireVarint_write)

namespace WireFrame

/-- Not a shutdown message. -/
def plain : WireFrame → Bool
  | shutdownWr _ => false
  | data _ _ | control _ _ | dataAck _ | ping | pong => true

/-- What a reader that expects the number `expected` does with a frame. -/
def handledAt (expected : UInt16) : WireFrame → Handled
  | data seq payload => if seq = expected then .data seq payload else .duplicate seq
  | f => f.handled

/-- The number that it expects then. -/
def nextAt (expected : UInt16) : WireFrame → UInt16
  | data seq _ => if seq = expected then expected + 1 else expected
  | _ => expected

def handledFrom : UInt16 → List WireFrame → List Handled
  | _, [] => []
  | expected, f :: fs => f.handledAt expected :: handledFrom (f.nextAt expected) fs

def expectedAfter : UInt16 → List WireFrame → UInt16
  | expected, [] => expected
  | expected, f :: fs => expectedAfter (f.nextAt expected) fs

theorem handledFrom_append (fs gs : List WireFrame) : ∀ expected : UInt16,
    handledFrom expected (fs ++ gs) =
      handledFrom expected fs ++ handledFrom (expectedAfter expected fs) gs := by
  induction fs with
  | nil => exact fun _ => rfl
  | cons f fs ih => simp [handledFrom, expectedAfter, ih]

theorem expectedAfter_append (fs gs : List WireFrame) : ∀ expected : UInt16,
    expectedAfter expected (fs ++ gs) = expectedAfter (expectedAfter expected fs) gs := by
  induction fs with
  | nil => exact fun _ => rfl
  | cons f fs ih => simp [expectedAfter, ih]

end WireFrame

namespace Reader

variable {r : Reader} {f : WireFrame} {role : Role}

/-- What a frame does to a reader. -/
def afterAny (r : Reader) (f : WireFrame) : Reader :=
  { r with recvSeq := f.nextAt r.recvSeq }.pass f.encode.length (f.handledAt r.recvSeq)

theorem handle_plain (hf : f.Fits) (hplain : f.plain = true) {rest : Bytes}
    (hbuf : r.unread = f.encode ++ rest) :
    r.handle role (writeVarint f.body.length).length f.body.length = some (r.afterAny f, true) := by
  have hone := f.one_le_body
  have hbody := hf.body_lt
  have henc : r.unread = writeVarint f.body.length ++ (f.body ++ rest) := by
    rw [hbuf, WireFrame.encode, List.append_assoc]
  have hlen : f.encode.length = (writeVarint f.body.length).length + f.body.length :=
    List.length_append
  simp only [afterAny, hlen]
  generalize hL : writeVarint f.body.length = L at henc hlen ⊢
  have hget : ∀ i, r.unread[L.length + i]? = (f.body ++ rest)[i]? := by
    intro i
    rw [henc, List.getElem?_append_right (by omega)]
    congr 1
    omega
  have hdrop : ∀ i, r.unread.drop (L.length + i) = (f.body ++ rest).drop i := by
    intro i
    rw [henc, ← List.drop_drop, List.drop_left]
  have hzero := hget 0
  rw [Nat.add_zero] at hzero
  unfold handle
  simp only [hzero, hget, hdrop]
  -- neither of the shutdown types is that of a plain frame
  have hother : ∀ type : UInt8, type ≠ WIRE_SHUTDOWN_WR → type ≠ WIRE_SHUTDOWN_WR_ACK →
      type ≠ role.shutdownType ∧ type ≠ role.skippedType := by
    intro type hwr hack
    cases role with
    | client => exact ⟨hack, hwr⟩
    | server => exact ⟨hwr, hack⟩
  cases f with
  | data s payload =>
      obtain ⟨hne, hne'⟩ := hother WIRE_DATA (by decide) (by decide)
      have hnum := seq_bytes s
      have hval : ¬payload.length + 1 + 1 + 1 < 3 := by omega
      simp only [UInt16.toUInt16_toUInt8] at hnum
      simp only [WIRE_DATA] at hne hne'
      by_cases hs : s = r.recvSeq
      · subst hs
        simp [WireFrame.body, WireFrame.handledAt, WireFrame.nextAt, hne, hne', acceptData,
          WIRE_CONTROL, WIRE_HEARTBEAT_PING, WIRE_HEARTBEAT_PONG, WIRE_DATA, WIRE_DATA_ACK, hnum,
          hval]
      · simp [WireFrame.body, WireFrame.handledAt, WireFrame.nextAt, hne, hne', acceptData,
          WIRE_CONTROL, WIRE_HEARTBEAT_PING, WIRE_HEARTBEAT_PONG, WIRE_DATA, WIRE_DATA_ACK, hnum,
          hval, hs]
  | control s pkt =>
      obtain ⟨hne, hne'⟩ := hother WIRE_CONTROL (by decide) (by decide)
      have hser : (serialize pkt).length < 2 ^ 64 := by
        simp only [WireFrame.body, List.length_cons] at hbody
        omega
      have hparse := tryParse_serialize pkt [] hser
      rw [List.append_nil] at hparse
      have hcons : 0 < (serialize pkt).length := by
        have := writeVarint_length_pos pkt.type.toNat
        simp only [serialize, List.length_append]
        omega
      simp only [WIRE_CONTROL] at hne hne'
      simp [WireFrame.body, WireFrame.handledAt, WireFrame.handled, WireFrame.nextAt, hne, hne',
        WIRE_CONTROL, WIRE_HEARTBEAT_PING, WIRE_HEARTBEAT_PONG, hparse, hcons]
  | dataAck s =>
      obtain ⟨hne, hne'⟩ := hother WIRE_DATA_ACK (by decide) (by decide)
      have hnum := seq_bytes s
      simp only [UInt16.toUInt16_toUInt8] at hnum
      simp only [WIRE_DATA_ACK] at hne hne'
      simp [WireFrame.body, WireFrame.handledAt, WireFrame.handled, WireFrame.nextAt, hne, hne',
        WIRE_CONTROL, WIRE_HEARTBEAT_PING, WIRE_HEARTBEAT_PONG, WIRE_DATA_ACK, hnum]
  | ping =>
      simp [WireFrame.body, WireFrame.handledAt, WireFrame.handled, WireFrame.nextAt,
        WIRE_HEARTBEAT_PING]
  | pong =>
      simp [WireFrame.body, WireFrame.handledAt, WireFrame.handled, WireFrame.nextAt,
        WIRE_HEARTBEAT_PING, WIRE_HEARTBEAT_PONG]
  | shutdownWr cid => cases hplain

theorem round_plain (hf : f.Fits) (hplain : f.plain = true) {rest : Bytes}
    (hbuf : r.unread = f.encode ++ rest) : r.round role = some (r.afterAny f, true) := by
  have hone := f.one_le_body
  obtain ⟨hpos, shift, hshift, hvar⟩ := wireVarint_write hf.body_lt (f.body ++ rest)
  have hvar' : wireVarint r.unread =
      ((writeVarint f.body.length).length, f.body.length, shift) := by
    rw [hbuf, WireFrame.encode, List.append_assoc, hvar]
  have hlen : r.unread.length =
      (writeVarint f.body.length).length + f.body.length + rest.length := by
    rw [hbuf, WireFrame.encode, List.length_append, List.length_append]
  rw [round]
  simp only [hvar']
  rw [if_neg (by omega), if_neg (by omega), if_neg (by omega)]
  exact handle_plain hf hplain hbuf

/-- The reader `r'` has handled the frames `gs` behind `r`. -/
structure Passed (r r' : Reader) (gs : List WireFrame) : Prop where
  inBuffer : r'.InBuffer
  handled : r'.handled = r.handled ++ WireFrame.handledFrom r.recvSeq gs
  recvSeq : r'.recvSeq = WireFrame.expectedAfter r.recvSeq gs
  consumed : r'.consumed = r.consumed ++ stream gs

theorem stream_append (fs gs : List WireFrame) : stream (fs ++ gs) = stream fs ++ stream gs := by
  simp [stream]

theorem Passed.trans {r r' r'' : Reader} {fs gs : List WireFrame} (h : Passed r r' fs)
    (h' : Passed r' r'' gs) : Passed r r'' (fs ++ gs) := by
  refine ⟨h'.inBuffer, ?_, ?_, ?_⟩
  · rw [h'.handled, h.handled, h.recvSeq, WireFrame.handledFrom_append, List.append_assoc]
  · rw [h'.recvSeq, h.recvSeq, WireFrame.expectedAfter_append]
  · rw [h'.consumed, h.consumed, stream_append, List.append_assoc]

/-- The loop takes the complete frames of the buffer, in order. -/
theorem loop_plain (fs : List WireFrame) : ∀ {r : Reader} {fuel : Nat}, r.InBuffer →
    (∀ f ∈ fs, f.Fits ∧ f.plain = true) → r.unread <+: stream fs → r.unread.length < fuel →
    ∃ r' gs hs, fs = gs ++ hs ∧ loop role fuel r = some r' ∧ Passed r r' gs ∧
      Settled r'.unread hs ∧ r.unread = stream gs ++ r'.unread := by
  induction fs with
  | nil =>
      intro r fuel hin _ hbuf hfuel
      obtain ⟨fuel, rfl⟩ : ∃ k, fuel = k + 1 := ⟨fuel - 1, by omega⟩
      have hnil : r.unread = [] := List.prefix_nil.mp hbuf
      have hround : r.round role = some (r, false) := by
        rw [round]
        simp only [hnil]
        rfl
      exact ⟨r, [], [], rfl, by rw [loop, hround],
        ⟨hin, by simp [WireFrame.handledFrom], rfl, by simp [stream]⟩, hnil, by simp [stream]⟩
  | cons f fs ih =>
      intro r fuel hin hfits hbuf hfuel
      obtain ⟨fuel, rfl⟩ : ∃ k, fuel = k + 1 := ⟨fuel - 1, by omega⟩
      obtain ⟨hf, hplain⟩ := hfits f List.mem_cons_self
      by_cases hlen : r.unread.length < f.encode.length
      · have hcut : r.unread <+: f.encode :=
          List.prefix_of_prefix_length_le hbuf (List.prefix_append _ _) (by omega)
        have hne : r.unread ≠ f.encode := fun h => by rw [h] at hlen; omega
        refine ⟨r, [], f :: fs, rfl, by rw [loop, round_cut hf hcut hne],
          ⟨hin, by simp [WireFrame.handledFrom], rfl, by simp [stream]⟩, ⟨hcut, hne⟩,
          by simp [stream]⟩
      · have hfull : f.encode <+: r.unread :=
          List.prefix_of_prefix_length_le (List.prefix_append _ _) hbuf (by omega)
        obtain ⟨tail, htail⟩ := hfull
        have htwo := f.two_le_encode
        have hrest : (r.afterAny f).unread = tail := by
          rw [afterAny, unread_pass]
          change r.unread.drop f.encode.length = tail
          rw [← htail, List.drop_left]
        have hbuf' : (r.afterAny f).unread <+: stream fs := by
          rw [hrest]
          rw [← htail, stream_cons] at hbuf
          exact (List.prefix_append_right_inj _).mp hbuf
        have hlen' := congrArg List.length htail
        rw [List.length_append] at hlen'
        have hin' : (r.afterAny f).InBuffer :=
          InBuffer.pass (r := { r with recvSeq := f.nextAt r.recvSeq }) hin (by
            change f.encode.length ≤ r.unread.length
            omega) _
        have hconsumed : (r.afterAny f).consumed = r.consumed ++ f.encode := by
          change r.consumed ++ r.unread.take f.encode.length = _
          rw [← htail, List.take_left]
        obtain ⟨r', gs, hs, rfl, hloop, hpassed, hsettled, hbytes⟩ :=
          @ih (r.afterAny f) fuel hin' (fun g hg => hfits g (List.mem_cons_of_mem f hg)) hbuf'
            (by rw [hrest]; omega)
        refine ⟨r', f :: gs, hs, rfl, ?_, ⟨hpassed.inBuffer, ?_, ?_, ?_⟩, hsettled, ?_⟩
        · rw [loop, round_plain hf hplain htail.symm]
          exact hloop
        · rw [hpassed.handled]
          change r.handled ++ [_] ++ _ = _
          rw [List.append_assoc]
          rfl
        · exact hpassed.recvSeq
        · rw [hpassed.consumed, hconsumed, stream_cons, List.append_assoc]
        · rw [stream_cons, List.append_assoc, ← hbytes, hrest, htail]

/-- A read appends to the unread bytes, and the loop takes what is complete. -/
theorem receive_plain {fs : List WireFrame} {chunk : Bytes} (hin : r.InBuffer)
    (hfits : ∀ f ∈ fs, f.Fits ∧ f.plain = true) (hbuf : r.unread ++ chunk <+: stream fs) :
    ∃ r' gs hs, fs = gs ++ hs ∧ r.receive role chunk = some r' ∧ Passed r r' gs ∧
      Settled r'.unread hs ∧ r.unread ++ chunk = stream gs ++ r'.unread := by
  have hunread : ({ r with readBuf := r.readBuf ++ chunk } : Reader).unread = r.unread ++ chunk :=
    List.drop_append_of_le_length hin
  have hin' : ({ r with readBuf := r.readBuf ++ chunk } : Reader).InBuffer := by
    change r.readOffset ≤ (r.readBuf ++ chunk).length
    rw [List.length_append]
    exact Nat.le_add_right_of_le hin
  obtain ⟨r', gs, hs, hfs, hloop, hpassed, hsettled, hbytes⟩ :=
    @loop_plain role fs _ _ hin' hfits (hunread ▸ hbuf) (Nat.lt_succ_self _)
  refine ⟨r'.compact, gs, hs, hfs, ?_, ⟨hpassed.inBuffer.compact, ?_, ?_, ?_⟩, ?_, ?_⟩
  · rw [receive, hloop]
    rfl
  · rw [compact]
    split <;> exact hpassed.handled
  · rw [compact]
    split <;> exact hpassed.recvSeq
  · rw [compact]
    split <;> exact hpassed.consumed
  · rw [unread_compact]
    exact hsettled
  · rw [unread_compact, ← hbytes, hunread]

/-- Where the reader waits, no frame is complete. -/
theorem Settled.not_complete {hs : List WireFrame} (h : Settled r.unread hs)
    (hfits : ∀ f ∈ hs, f.Fits) {f : WireFrame} (hf : f.Fits) (hplain : f.plain = true) :
    ¬ f.encode <+: r.unread := by
  rintro ⟨rest, hbuf⟩
  have hround : r.round .server = some (r.afterAny f, true) := round_plain hf hplain hbuf.symm
  cases hs with
  | nil =>
      have htwo := f.two_le_encode
      rw [Settled] at h
      rw [h, List.append_eq_nil_iff] at hbuf
      simp [hbuf.1] at htwo
  | cons g hs =>
      have hcut : r.round .server = some (r, false) :=
        round_cut (hfits g List.mem_cons_self) h.1 h.2 .server
      simp [hcut] at hround

end Reader

end PipelineTunnel.Wire
