import PipelineTunnel.Wire.Reader

/-!
# Every cut of a stream gives the same frames

The server's reader on a stream of client frames that arrives in arbitrary pieces. Between
two reads the unread bytes are the beginning of the next frame, not all of it, and what has
been handled are the frames before it.
-/

namespace PipelineTunnel.Wire

open Protocol
open Server (wireVarint wireVarint_write wireVarint_of_partial seq_bytes WIRE_DATA
  WIRE_HEARTBEAT_PING WIRE_HEARTBEAT_PONG WIRE_SHUTDOWN_WR WIRE_SHUTDOWN_WR_ACK WIRE_CONTROL
  WIRE_DATA_ACK MAX_PACKET_SIZE)

variable {r : Reader} {f : WireFrame} {fs : List WireFrame}

theorem WireFrame.Fits.body_lt (h : f.Fits) : f.body.length < 2 ^ 56 := by
  have := h
  rw [Fits, encode, List.length_append] at this
  omega

theorem WireFrame.one_le_body (f : WireFrame) : 1 ≤ f.body.length := by
  cases f <;> simp [body]

theorem WireFrame.two_le_encode (f : WireFrame) : 2 ≤ f.encode.length := by
  have hbody := f.one_le_body
  have hlen := writeVarint_length_pos f.body.length
  rw [encode, List.length_append]
  omega

namespace Reader

theorem unread_pass (n : Nat) (h : Handled) : (r.pass n h).unread = r.unread.drop n := by
  simp [unread, pass]

/-- The offset is inside the buffer. -/
def InBuffer (r : Reader) : Prop := r.readOffset ≤ r.readBuf.length

theorem length_unread (h : r.InBuffer) :
    r.readOffset + r.unread.length = r.readBuf.length := by
  rw [unread, List.length_drop]
  exact Nat.add_sub_cancel' h

theorem InBuffer.pass (h : r.InBuffer) {n : Nat} (hn : n ≤ r.unread.length) (e : Handled) :
    (r.pass n e).InBuffer := by
  have := length_unread h
  change r.readOffset + n ≤ r.readBuf.length
  omega

theorem unread_compact (r : Reader) : r.compact.unread = r.unread := by
  rw [compact]
  split <;> simp [unread]

theorem InBuffer.compact (h : r.InBuffer) : r.compact.InBuffer := by
  rw [Reader.compact]
  split
  · exact Nat.zero_le _
  · exact h

/-- What a frame of the client does to the reader of the server. -/
def after (r : Reader) (f : WireFrame) : Reader :=
  { r with recvSeq := f.nextSeq r.recvSeq }.pass f.encode.length f.handled

/-- The server handles a frame that is there completely. -/
theorem handle_frame (hf : f.Fits) {rest : Bytes} (hbuf : r.unread = f.encode ++ rest)
    (hseq : ∀ s payload, f = .data s payload → s = r.recvSeq) :
    r.handle .server (writeVarint f.body.length).length f.body.length = some (r.after f, true) := by
  have hone := f.one_le_body
  have hbody := hf.body_lt
  have henc : r.unread = writeVarint f.body.length ++ (f.body ++ rest) := by
    rw [hbuf, WireFrame.encode, List.append_assoc]
  have hlen : f.encode.length = (writeVarint f.body.length).length + f.body.length :=
    List.length_append
  simp only [after, hlen]
  generalize hL : writeVarint f.body.length = L at henc hlen ⊢
  have hget : ∀ i, r.unread[L.length + i]? = (f.body ++ rest)[i]? := by
    intro i
    rw [henc, List.getElem?_append_right (by omega)]
    congr 1
    omega
  have hdrop : ∀ i, r.unread.drop (L.length + i) = (f.body ++ rest).drop i := by
    intro i
    rw [henc, ← List.drop_drop, List.drop_left]
  have hzero := hget 0
  rw [Nat.add_zero] at hzero
  unfold handle
  simp only [hzero, hget, hdrop]
  cases f with
  | data s payload =>
      obtain rfl := hseq s payload rfl
      have hnum := seq_bytes r.recvSeq
      have hval : ¬payload.length + 1 + 1 + 1 < 3 := by omega
      simp only [UInt16.toUInt16_toUInt8] at hnum
      simp [WireFrame.body, WireFrame.handled, WireFrame.nextSeq, Role.shutdownType,
        Role.skippedType, acceptData, WIRE_CONTROL, WIRE_HEARTBEAT_PING, WIRE_HEARTBEAT_PONG,
        WIRE_SHUTDOWN_WR, WIRE_SHUTDOWN_WR_ACK, WIRE_DATA, WIRE_DATA_ACK, hnum, hval]
  | control s pkt =>
      have hser : (serialize pkt).length < 2 ^ 64 := by
        simp only [WireFrame.body, List.length_cons] at hbody
        omega
      have hparse := tryParse_serialize pkt [] hser
      rw [List.append_nil] at hparse
      have hcons : 0 < (serialize pkt).length := by
        have := writeVarint_length_pos pkt.type.toNat
        simp only [serialize, List.length_append]
        omega
      simp [WireFrame.body, WireFrame.handled, WireFrame.nextSeq, Role.shutdownType,
        Role.skippedType, WIRE_CONTROL, WIRE_HEARTBEAT_PING, WIRE_HEARTBEAT_PONG,
        WIRE_SHUTDOWN_WR, WIRE_SHUTDOWN_WR_ACK, hparse, hcons]
  | dataAck s =>
      have hnum := seq_bytes s
      simp only [UInt16.toUInt16_toUInt8] at hnum
      simp [WireFrame.body, WireFrame.handled, WireFrame.nextSeq, Role.shutdownType,
        Role.skippedType, WIRE_CONTROL, WIRE_HEARTBEAT_PING, WIRE_HEARTBEAT_PONG,
        WIRE_SHUTDOWN_WR, WIRE_SHUTDOWN_WR_ACK, WIRE_DATA_ACK, hnum]
  | ping =>
      simp [WireFrame.body, WireFrame.handled, WireFrame.nextSeq, WIRE_HEARTBEAT_PING]
  | pong =>
      simp [WireFrame.body, WireFrame.handled, WireFrame.nextSeq, WIRE_HEARTBEAT_PING,
        WIRE_HEARTBEAT_PONG]
  | shutdownWr cid =>
      simp [WireFrame.body, WireFrame.handled, WireFrame.nextSeq, Role.shutdownType,
        WIRE_HEARTBEAT_PING, WIRE_HEARTBEAT_PONG, WIRE_SHUTDOWN_WR]

theorem round_frame (hf : f.Fits) {rest : Bytes} (hbuf : r.unread = f.encode ++ rest)
    (hseq : ∀ s payload, f = .data s payload → s = r.recvSeq) :
    r.round .server = some (r.after f, true) := by
  have hone := f.one_le_body
  obtain ⟨hpos, shift, hshift, hvar⟩ := wireVarint_write hf.body_lt (f.body ++ rest)
  have hvar' : wireVarint r.unread =
      ((writeVarint f.body.length).length, f.body.length, shift) := by
    rw [hbuf, WireFrame.encode, List.append_assoc, hvar]
  have hlen : r.unread.length =
      (writeVarint f.body.length).length + f.body.length + rest.length := by
    rw [hbuf, WireFrame.encode, List.length_append, List.length_append]
  rw [round]
  simp only [hvar']
  rw [if_neg (by omega), if_neg (by omega), if_neg (by omega)]
  exact handle_frame hf hbuf hseq

/-- The reader waits for the rest of a frame. -/
theorem round_cut (hf : f.Fits) (hp : r.unread <+: f.encode) (hne : r.unread ≠ f.encode)
    (role : Role) : r.round role = some (r, false) := by
  obtain ⟨pos, val, shift, heq, hpos, hshift, hwait⟩ := wireVarint_of_partial hf.body_lt hp hne
  rw [round]
  simp only [heq]
  by_cases hnil : r.unread.length < 1
  · rw [if_pos hnil]
  · rw [if_neg hnil, if_neg (by omega), if_pos (by omega)]

/-! ## The loop -/

/-- The unread bytes are the beginning of the next frame. -/
def Settled (p : Bytes) : List WireFrame → Prop
  | [] => p = []
  | f :: _ => p <+: f.encode ∧ p ≠ f.encode

/-- All bytes of the frames. -/
def stream (fs : List WireFrame) : Bytes := (fs.map WireFrame.encode).flatten

theorem stream_cons (f : WireFrame) (fs : List WireFrame) :
    stream (f :: fs) = f.encode ++ stream fs := rfl

/-- The loop takes the complete frames of the buffer, in order. -/
theorem loop_frames (fs : List WireFrame) : ∀ {r : Reader} {fuel : Nat}, r.InBuffer →
    (∀ f ∈ fs, f.Fits) → WireFrame.Consecutive r.recvSeq fs → r.unread <+: stream fs →
    r.unread.length < fuel →
    ∃ r' gs hs, fs = gs ++ hs ∧ loop .server fuel r = some r' ∧ r'.InBuffer ∧
      r'.handled = r.handled ++ gs.map WireFrame.handled ∧
      WireFrame.Consecutive r'.recvSeq hs ∧ Settled r'.unread hs ∧
      r.unread = stream gs ++ r'.unread := by
  induction fs with
  | nil =>
      intro r fuel hin _ _ hbuf hfuel
      obtain ⟨fuel, rfl⟩ : ∃ k, fuel = k + 1 := ⟨fuel - 1, by omega⟩
      have hnil : r.unread = [] := List.prefix_nil.mp hbuf
      have hround : r.round .server = some (r, false) := by
        rw [round]
        simp only [hnil]
        rfl
      exact ⟨r, [], [], rfl, by rw [loop, hround], hin, by simp, trivial, hnil, by simp [stream]⟩
  | cons f fs ih =>
      intro r fuel hin hfits hseq hbuf hfuel
      obtain ⟨fuel, rfl⟩ : ∃ k, fuel = k + 1 := ⟨fuel - 1, by omega⟩
      have hf := hfits f List.mem_cons_self
      by_cases hlen : r.unread.length < f.encode.length
      · have hcut : r.unread <+: f.encode :=
          List.prefix_of_prefix_length_le hbuf (List.prefix_append _ _) (by omega)
        have hne : r.unread ≠ f.encode := fun h => by rw [h] at hlen; omega
        refine ⟨r, [], f :: fs, rfl, ?_, hin, by simp, hseq, ⟨hcut, hne⟩, by simp [stream]⟩
        rw [loop, round_cut hf hcut hne]
      · have hfull : f.encode <+: r.unread :=
          List.prefix_of_prefix_length_le (List.prefix_append _ _) hbuf (by omega)
        obtain ⟨tail, htail⟩ := hfull
        have htwo := f.two_le_encode
        have hrest : (r.after f).unread = tail := by
          rw [after, unread_pass]
          change r.unread.drop f.encode.length = tail
          rw [← htail, List.drop_left]
        have hbuf' : (r.after f).unread <+: stream fs := by
          rw [hrest]
          rw [← htail, stream_cons] at hbuf
          exact (List.prefix_append_right_inj _).mp hbuf
        have hlen' := congrArg List.length htail
        rw [List.length_append] at hlen'
        have hin' : (r.after f).InBuffer :=
          InBuffer.pass (r := { r with recvSeq := f.nextSeq r.recvSeq }) hin (by
            change f.encode.length ≤ r.unread.length
            omega) _
        obtain ⟨r', gs, hs, rfl, hloop, hin'', hhandled, hseq', hsettled, hbytes⟩ :=
          @ih (r.after f) fuel hin' (fun g hg => hfits g (List.mem_cons_of_mem f hg)) hseq.2 hbuf'
            (by rw [hrest]; omega)
        refine ⟨r', f :: gs, hs, rfl, ?_, hin'', ?_, hseq', hsettled, ?_⟩
        · rw [loop, round_frame hf htail.symm hseq.1]
          exact hloop
        · rw [hhandled, List.map_cons, after, pass, List.append_assoc]
          rfl
        · rw [stream_cons, List.append_assoc, ← hbytes, hrest, htail]

/-- A read appends to the unread bytes, and the loop takes what is complete. -/
theorem receive_frames {fs : List WireFrame} {chunk : Bytes} (hin : r.InBuffer)
    (hfits : ∀ f ∈ fs, f.Fits) (hseq : WireFrame.Consecutive r.recvSeq fs)
    (hbuf : r.unread ++ chunk <+: stream fs) :
    ∃ r' gs hs, fs = gs ++ hs ∧ r.receive .server chunk = some r' ∧ r'.InBuffer ∧
      r'.handled = r.handled ++ gs.map WireFrame.handled ∧
      WireFrame.Consecutive r'.recvSeq hs ∧ Settled r'.unread hs ∧
      r.unread ++ chunk = stream gs ++ r'.unread := by
  have hunread : ({ r with readBuf := r.readBuf ++ chunk } : Reader).unread = r.unread ++ chunk :=
    List.drop_append_of_le_length hin
  have hin' : ({ r with readBuf := r.readBuf ++ chunk } : Reader).InBuffer := by
    change r.readOffset ≤ (r.readBuf ++ chunk).length
    rw [List.length_append]
    exact Nat.le_add_right_of_le hin
  obtain ⟨r', gs, hs, hfs, hloop, hin'', hhandled, hseq', hsettled, hbytes⟩ :=
    loop_frames fs hin' hfits hseq (hunread ▸ hbuf) (Nat.lt_succ_self _)
  refine ⟨r'.compact, gs, hs, hfs, ?_, hin''.compact, ?_, ?_, ?_, ?_⟩
  · rw [receive, hloop]
    rfl
  · rw [← hhandled, compact]
    split <;> rfl
  · rw [compact]
    split <;> exact hseq'
  · rw [unread_compact]
    exact hsettled
  · rw [unread_compact, ← hbytes, hunread]

end Reader

/-! ## All reads -/

namespace ReadResult

/-- A read of one byte up to the size of the buffer, or no data. -/
def Successful : ReadResult → Prop
  | bytes chunk => 1 ≤ chunk.length ∧ chunk.length ≤ MAX_PACKET_SIZE
  | again => True
  | eof | error => False

instance : ∀ res : ReadResult, Decidable res.Successful
  | bytes chunk => inferInstanceAs (Decidable (1 ≤ chunk.length ∧ chunk.length ≤ MAX_PACKET_SIZE))
  | again => isTrue trivial
  | eof | error => isFalse id

def data : ReadResult → Bytes
  | bytes chunk => chunk
  | _ => []

end ReadResult

open Reader

theorem Reader.serverReadAll_frames (reads : List ReadResult) : ∀ {r : Reader}
    {fs : List WireFrame}, r.InBuffer → (∀ f ∈ fs, f.Fits) →
    WireFrame.Consecutive r.recvSeq fs → Settled r.unread fs →
    (∀ res ∈ reads, res.Successful) → r.unread ++ reads.flatMap ReadResult.data = stream fs →
    ∃ r', r.serverReadAll reads = some r' ∧ r'.handled = r.handled ++ fs.map WireFrame.handled ∧
      r'.unread = [] ∧ r'.InBuffer := by
  induction reads with
  | nil =>
      intro r fs hin _ _ hsettled _ hbytes
      cases fs with
      | nil => exact ⟨r, rfl, by simp, hsettled, hin⟩
      | cons f fs =>
          -- the beginning of a frame is shorter than all frames
          exfalso
          rw [List.flatMap_nil, List.append_nil, stream_cons] at hbytes
          have hlen := congrArg List.length hbytes
          rw [List.length_append] at hlen
          obtain ⟨hp, hne⟩ := hsettled
          exact hne (hp.eq_of_length_le (by omega))
  | cons res reads ih =>
      intro r fs hin hfits hseq hsettled hok hbytes
      have hrest := fun x hx => hok x (List.mem_cons_of_mem res hx)
      rw [List.flatMap_cons, ← List.append_assoc] at hbytes
      rw [serverReadAll]
      cases res with
      | again =>
          have hnone : ReadResult.data .again = [] := rfl
          rw [hnone, List.append_nil] at hbytes
          exact ih hin hfits hseq hsettled hrest hbytes
      | eof => exact (hok .eof List.mem_cons_self).elim
      | error => exact (hok .error List.mem_cons_self).elim
      | bytes chunk =>
          have hbuf : r.unread ++ chunk <+: stream fs := ⟨_, hbytes⟩
          obtain ⟨r', gs, hs, rfl, hreceive, hin', hhandled, hseq', hsettled', hsplit⟩ :=
            receive_frames hin hfits hseq hbuf
          have hmore : r'.unread ++ reads.flatMap ReadResult.data = stream hs := by
            have hstream : stream (gs ++ hs) = stream gs ++ stream hs := by
              rw [stream, List.map_append, List.flatten_append]
              rfl
            rw [ReadResult.data, hsplit, hstream, List.append_assoc] at hbytes
            exact List.append_cancel_left hbytes
          obtain ⟨r'', hall, hhandled', hend, hin''⟩ :=
            ih hin' (fun g hg => hfits g (List.mem_append_right gs hg)) hseq' hsettled' hrest hmore
          have hread : r.serverRead (.bytes chunk) = some r' := hreceive
          refine ⟨r'', ?_, ?_, hend, hin''⟩
          · simp only [hread]
            exact hall
          · rw [hhandled', hhandled, List.map_append, List.append_assoc]

theorem Reader.settled_nil (hfits : ∀ f ∈ fs, f.Fits) : Settled [] fs := by
  cases fs with
  | nil => rfl
  | cons f fs =>
      refine ⟨List.nil_prefix, fun h => ?_⟩
      have := f.two_le_encode
      rw [← h] at this
      simp at this

/-- However the bytes of the frames are cut into reads, the server handles these frames, in
order and nothing else, and all bytes are consumed. -/
theorem serverReadAll_recovers {r : Reader} (hr : r.readOffset = r.readBuf.length)
    {fs : List WireFrame} (hfits : ∀ f ∈ fs, f.Fits) (hseq : WireFrame.Consecutive r.recvSeq fs)
    {reads : List ReadResult} (hreads : ∀ res ∈ reads, res.Successful)
    (hbytes : reads.flatMap ReadResult.data = (fs.map WireFrame.encode).flatten) :
    ∃ r', r.serverReadAll reads = some r' ∧ r'.handled = r.handled ++ fs.map WireFrame.handled ∧
      r'.readOffset = r'.readBuf.length := by
  have hnone : r.unread = [] := by
    rw [unread, hr, List.drop_length]
  obtain ⟨r', hall, hhandled, hend, hin⟩ := serverReadAll_frames reads (Nat.le_of_eq hr) hfits hseq
    (hnone ▸ settled_nil hfits) hreads (by rw [hnone]; exact hbytes)
  have hlen := length_unread hin
  rw [hend, List.length_nil, Nat.add_zero] at hlen
  exact ⟨r', hall, hhandled, hlen⟩

/-- A ping, a data frame and a control frame, with the length of the last one cut off. -/
theorem serverReadAll_recovers_cut :
    ∃ r', Reader.serverReadAll {} [.bytes [1, 1, 4, 0], .again, .bytes [0, 0, 9, 4], .again,
        .bytes [5, 3, 0x20, 0]] = some r' ∧
      r'.handled = [.ping, .data 0 [9], .control 3 ⟨0x20, []⟩] ∧
      r'.readOffset = r'.readBuf.length :=
  @serverReadAll_recovers {} rfl [.ping, .data 0 [9], .control 3 ⟨0x20, []⟩] (by decide)
    ⟨nofun, fun _ _ h => (WireFrame.data.inj h).1.symm, nofun, trivial⟩ _ (by decide) (by decide)

end PipelineTunnel.Wire
