import PipelineTunnel.Server.Session

/-!
# TCP segmentation at the switch to the wire protocol

The reader of a data connection gives the same result for every way to cut the client's
frames into reads. `process_wire_buffer` does not agree with it: it ignores the sequence
numbers, it loses an incomplete frame at the end, and the state it reaches is overwritten.
So the outcome depends on the cut as soon as a read brings `MSG_AUTH_OK` together with
the first bytes of a frame.
-/

namespace PipelineTunnel.Server

open Protocol Control

/-! ## The length of a frame -/

/-- A byte below `0x80` ends the length. -/
theorem wireVarintLoop_last {i val v : Nat} (rest : Bytes) (hi : 7 * i < 56)
    (hval : val < 2 ^ (7 * i)) (hlow : v < 128) :
    wireVarintLoop i (7 * i) val (UInt8.ofNat (v % 128) :: rest) =
      (i + 1, val + v * 2 ^ (7 * i), 7 * i) := by
  have hbyte : (UInt8.ofNat v).toNat = v := by
    rw [UInt8.toNat_ofNat']; omega
  simp only [Nat.mod_eq_of_lt hlow, wireVarintLoop, hbyte, and_0x7F]
  rw [if_pos hi, if_pos (and_0x80_low hlow), Bits.or_shiftLeft hval]

/-- A byte with the high bit set adds its seven bits and continues. -/
theorem wireVarintLoop_more {i val low : Nat} (rest : Bytes) (hi : 7 * i < 56)
    (hval : val < 2 ^ (7 * i)) (hlow : low < 128) :
    wireVarintLoop i (7 * i) val (UInt8.ofNat (low + 128) :: rest) =
      wireVarintLoop (i + 1) (7 * (i + 1)) (val + low * 2 ^ (7 * i)) rest := by
  have hbyte : (UInt8.ofNat (low + 128)).toNat = low + 128 := by
    rw [UInt8.toNat_ofNat']; omega
  simp only [wireVarintLoop, hbyte, and_0x7F, Nat.add_mod_right, Nat.mod_eq_of_lt hlow]
  rw [if_pos hi, if_neg (and_0x80_high hlow), Bits.or_shiftLeft hval, Nat.mul_succ]

/-- What the decoder does with the first byte of a length that needs another one. -/
theorem wireVarintLoop_first {i val v : Nat} (rest : Bytes) (hval : val < 2 ^ (7 * i))
    (hbig : v > 0x7F) (hfit : v * 2 ^ (7 * i) < 2 ^ 56) :
    ∃ val', val' < 2 ^ (7 * (i + 1)) ∧ v / 128 * 2 ^ (7 * (i + 1)) < 2 ^ 56 ∧
      val' + v / 128 * 2 ^ (7 * (i + 1)) = val + v * 2 ^ (7 * i) ∧ 7 * (i + 1) < 56 ∧
      wireVarintLoop i (7 * i) val (UInt8.ofNat ((v &&& 0x7F) ||| 0x80) :: rest) =
        wireVarintLoop (i + 1) (7 * (i + 1)) val' rest := by
  have hpow : (2 : Nat) ^ (7 * (i + 1)) = 128 * 2 ^ (7 * i) := by
    rw [Nat.mul_succ, Nat.pow_add]; ring
  have hmod : v % 128 < 128 := Nat.mod_lt v (by decide)
  have hsplit : v % 128 * 2 ^ (7 * i) + v / 128 * 2 ^ (7 * (i + 1)) = v * 2 ^ (7 * i) := by
    rw [hpow]
    calc
      v % 128 * 2 ^ (7 * i) + v / 128 * (128 * 2 ^ (7 * i)) =
          (v % 128 + 128 * (v / 128)) * 2 ^ (7 * i) := by ring
      _ = v * 2 ^ (7 * i) := by rw [Nat.mod_add_div]
  have hshift : 7 * (i + 1) < 56 := by
    apply (Nat.pow_lt_pow_iff_right (show 1 < 2 by decide)).mp
    have hone : 1 ≤ v / 128 := by omega
    have := Nat.mul_le_mul_right (2 ^ (7 * (i + 1))) hone
    omega
  refine ⟨val + v % 128 * 2 ^ (7 * i), ?_, by omega, by omega, hshift, ?_⟩
  · have hm := Nat.mul_le_mul_right (2 ^ (7 * i)) (Nat.le_sub_one_of_lt hmod)
    omega
  · rw [and_0x7F, or_0x80 hmod]
    exact wireVarintLoop_more rest (by omega) hval hmod

theorem wireVarintLoop_write (n : Nat) : ∀ (i val v : Nat) (rest : Bytes), 7 * i < 56 →
    val < 2 ^ (7 * i) → v < 2 ^ (7 * (n + 1)) → v * 2 ^ (7 * i) < 2 ^ 56 →
    ∃ shift < 56, shift + 7 = 7 * (i + (writeVarintLoop n v).length) ∧
      wireVarintLoop i (7 * i) val (writeVarintLoop n v ++ rest) =
        (i + (writeVarintLoop n v).length, val + v * 2 ^ (7 * i), shift) := by
  induction n with
  | zero =>
      intro i val v rest hi hval hv _
      refine ⟨7 * i, hi, by simp [writeVarintLoop]; omega, ?_⟩
      simp only [writeVarintLoop, and_0x7F, List.cons_append, List.nil_append,
        List.length_singleton]
      exact wireVarintLoop_last rest hi hval (by simpa using hv)
  | succ n ih =>
      intro i val v rest hi hval hv hfit
      by_cases hbig : v > 0x7F
      · obtain ⟨val', hval', hfit', hsum, hi', hstep⟩ :=
          wireVarintLoop_first (writeVarintLoop n (v >>> 7) ++ rest) hval hbig hfit
        have hshift : v >>> 7 = v / 128 := Nat.shiftRight_eq_div_pow v 7
        have hrest : v / 128 < 2 ^ (7 * (n + 1)) := by
          rw [Nat.mul_succ 7 (n + 1), Nat.pow_add] at hv
          exact Nat.div_lt_of_lt_mul (by omega)
        obtain ⟨shift, hlt, hlen, heq⟩ := ih (i + 1) val' (v / 128) rest hi' hval' hrest hfit'
        simp only [writeVarintLoop, if_pos hbig, List.cons_append, List.length_cons]
        rw [hstep, hshift, heq, hsum]
        exact ⟨shift, hlt, by omega, Prod.ext (by simp only []; omega) rfl⟩
      · refine ⟨7 * i, hi, by simp [writeVarintLoop, if_neg hbig]; omega, ?_⟩
        simp only [writeVarintLoop, if_neg hbig, and_0x7F, List.cons_append, List.nil_append,
          List.length_singleton]
        exact wireVarintLoop_last rest hi hval (by omega)

/-- The decoder takes all of a length that is cut off, and stays within its limit. -/
theorem wireVarintLoop_cut (n : Nat) : ∀ (i val v : Nat) (p : Bytes), 7 * i < 56 →
    val < 2 ^ (7 * i) → v < 2 ^ (7 * (n + 1)) → v * 2 ^ (7 * i) < 2 ^ 56 →
    p <+: writeVarintLoop n v → p ≠ writeVarintLoop n v →
    ∃ val', 7 * (i + p.length) < 56 ∧
      wireVarintLoop i (7 * i) val p = (i + p.length, val', 7 * (i + p.length)) := by
  induction n with
  | zero =>
      intro i val v p hi _ _ _ hp hne
      cases p with
      | nil => exact ⟨val, hi, rfl⟩
      | cons b p =>
          have hlen := hp.length_le
          refine absurd (hp.eq_of_length ?_) hne
          simp only [writeVarintLoop, List.length_cons, List.length_nil] at hlen ⊢
          omega
  | succ n ih =>
      intro i val v p hi hval hv hfit hp hne
      cases p with
      | nil => exact ⟨val, hi, rfl⟩
      | cons b p =>
          by_cases hbig : v > 0x7F
          · simp only [writeVarintLoop, if_pos hbig, List.cons_prefix_cons] at hp
            simp only [writeVarintLoop, if_pos hbig] at hne
            obtain ⟨rfl, hp⟩ := hp
            obtain ⟨val', hval', hfit', -, hi', hstep⟩ := wireVarintLoop_first p hval hbig hfit
            have hshift : v >>> 7 = v / 128 := Nat.shiftRight_eq_div_pow v 7
            have hrest : v / 128 < 2 ^ (7 * (n + 1)) := by
              rw [Nat.mul_succ 7 (n + 1), Nat.pow_add] at hv
              exact Nat.div_lt_of_lt_mul (by omega)
            rw [hshift] at hp hne
            obtain ⟨val'', hlt, heq⟩ := ih (i + 1) val' (v / 128) p hi' hval' hrest hfit'
              hp (fun h => hne (by rw [h]))
            have hpos : i + 1 + p.length = i + (p.length + 1) := by omega
            rw [hpos] at hlt heq
            exact ⟨val'', hlt, hstep.trans heq⟩
          · have hlen := hp.length_le
            refine absurd (hp.eq_of_length ?_) hne
            simp only [writeVarintLoop, if_neg hbig, List.length_cons, List.length_nil] at hlen ⊢
            omega

/-- A written length is read back, whatever follows. -/
theorem wireVarint_write {v : Nat} (hv : v < 2 ^ 56) (rest : Bytes) :
    (writeVarint v).length < 10 ∧ ∃ shift < 56,
      wireVarint (writeVarint v ++ rest) = ((writeVarint v).length, v, shift) := by
  obtain ⟨shift, hlt, hlen, heq⟩ := wireVarintLoop_write 9 0 0 v rest (by omega) (by omega)
    (by omega) (by omega)
  rw [← writeVarint] at hlen heq
  exact ⟨by omega, shift, hlt, by simpa [wireVarint] using heq⟩

theorem wireVarint_cut {v : Nat} (hv : v < 2 ^ 56) {p : Bytes} (hp : p <+: writeVarint v)
    (hne : p ≠ writeVarint v) :
    p.length < 10 ∧ ∃ val shift, shift < 56 ∧ wireVarint p = (p.length, val, shift) := by
  obtain ⟨val, hlt, heq⟩ := wireVarintLoop_cut 9 0 0 v p (by omega) (by omega)
    (by omega) (by omega) hp hne
  rw [Nat.zero_add] at hlt heq
  exact ⟨by omega, val, _, hlt, heq⟩

/-! ## Frames -/

variable {env : Env} {c : UInt8} {d : UInt16} {f : Frame} {s : Session}

/-- The effect of a frame that arrives in one piece. -/
def Frame.handle (env : Env) (c : UInt8) (d : UInt16) (s : Session) : Frame → Session
  | control pkt => { s with control := deliverControl (applyControl env) s.control c pkt }
  | data payload => acceptData s d payload

theorem Frame.body_length (c c' : UInt8) (d d' : UInt16) (f : Frame) :
    (f.body c d).length = (f.body c' d').length := by
  cases f <;> rfl

theorem Frame.Fits.lt (h : f.Fits) (c : UInt8) (d : UInt16) : (f.body c d).length < 2 ^ 56 :=
  (f.body_length c 0 d 0).trans_lt h

theorem Frame.two_le_body (f : Frame) (c : UInt8) (d : UInt16) : 2 ≤ (f.body c d).length := by
  cases f <;> simp [Frame.body]

theorem seq_bytes (d : UInt16) :
    d.toUInt8.toUInt16 ||| ((d >>> 8).toUInt8.toUInt16 <<< 8) = d := by
  have hd := d.toNat_lt
  rw [← UInt16.toNat_inj, UInt16.toNat_or, UInt16.toNat_shiftLeft]
  simp only [UInt8.toNat_toUInt16, UInt16.toNat_toUInt8, UInt16.toNat_shiftRight,
    UInt16.reduceToNat, Nat.reduceMod, Nat.shiftRight_eq_div_pow]
  have hhi : d.toNat / 2 ^ 8 % 2 ^ 8 = d.toNat / 256 := by omega
  have hshl : (d.toNat / 256) <<< 8 % 2 ^ 16 = (d.toNat / 256) <<< 8 := by
    rw [Nat.shiftLeft_eq]
    omega
  have hor := Bits.or_shiftLeft (k := 8) (show d.toNat % 2 ^ 8 < 2 ^ 8 by omega) (d.toNat / 256)
  rw [hhi, hshl, hor]
  omega

/-- The reader handles a frame that is there completely. -/
theorem readFrame_encode (hf : f.Fits) {rest : Bytes} (hbuf : s.readBuf = f.encode c d ++ rest) :
    readFrame env s = some (f.handle env c d { s with readBuf := rest }, true) := by
  obtain ⟨hpos, shift, hshift, hvar⟩ :=
    wireVarint_write (hf.lt c d) (f.body c d ++ rest)
  have htwo := f.two_le_body c d
  have henc : s.readBuf = writeVarint (f.body c d).length ++ (f.body c d ++ rest) := by
    rw [hbuf, Frame.encode, List.append_assoc]
  have hlen : s.readBuf.length = (writeVarint (f.body c d).length).length +
      ((f.body c d).length + rest.length) := by rw [henc]; simp
  have hne : s.readBuf ≠ [] := List.ne_nil_of_length_pos (by omega)
  generalize hL : writeVarint (f.body c d).length = L at *
  have hget : ∀ i, s.readBuf[L.length + i]? = (f.body c d ++ rest)[i]? := by
    intro i
    rw [henc, List.getElem?_append_right (by omega)]
    congr 1
    omega
  have hdrop : ∀ i, s.readBuf.drop (L.length + i) = (f.body c d ++ rest).drop i := by
    intro i
    rw [henc, ← List.drop_drop, List.drop_left]
  have hvar' : wireVarint s.readBuf = (L.length, (f.body c d).length, shift) := by
    rw [henc, hvar]
  have hzero := hget 0
  rw [Nat.add_zero] at hzero
  unfold readFrame
  simp only [hvar', hzero, hget, hdrop, List.drop_left]
  rw [if_neg hne, if_neg (by omega), if_neg (by omega)]
  cases f with
  | control pkt =>
      have hser : (serialize pkt).length < 2 ^ 64 := by
        have := hf.lt c d
        simp only [Frame.body, List.length_cons] at this
        omega
      have hparse := tryParse_serialize pkt [] hser
      rw [List.append_nil] at hparse
      have hcons : 0 < (serialize pkt).length := by
        have := writeVarint_length_pos pkt.type.toNat
        simp only [serialize, List.length_append]
        omega
      simp [Frame.body, Frame.handle, WIRE_CONTROL, WIRE_HEARTBEAT_PING, WIRE_HEARTBEAT_PONG,
        WIRE_SHUTDOWN_WR, WIRE_SHUTDOWN_WR_ACK, hparse, hcons]
  | data payload =>
      have hseq := seq_bytes d
      have hval : ¬payload.length + 1 + 1 + 1 < 3 := by omega
      simp only [UInt16.toUInt16_toUInt8] at hseq
      simp [Frame.body, Frame.handle, WIRE_CONTROL, WIRE_HEARTBEAT_PING, WIRE_HEARTBEAT_PONG,
        WIRE_SHUTDOWN_WR, WIRE_SHUTDOWN_WR_ACK, WIRE_DATA, WIRE_DATA_ACK, hseq, hval]

/-- A frame that is cut off has a length that the decoders wait for. -/
theorem wireVarint_of_partial {body p : Bytes} (hb : body.length < 2 ^ 56)
    (hp : p <+: writeVarint body.length ++ body) (hne : p ≠ writeVarint body.length ++ body) :
    ∃ pos val shift, wireVarint p = (pos, val, shift) ∧ pos < 10 ∧ shift < 56 ∧
      (pos + val > p.length ∨ val < 1) := by
  by_cases hlen : p.length < (writeVarint body.length).length
  · have hcut : p <+: writeVarint body.length :=
      List.prefix_of_prefix_length_le hp (List.prefix_append _ _) (by omega)
    obtain ⟨hpos, val, shift, hshift, heq⟩ := wireVarint_cut hb hcut
      (fun h => by rw [h] at hlen; omega)
    exact ⟨p.length, val, shift, heq, hpos, hshift, by omega⟩
  · have hfull : writeVarint body.length <+: p :=
      List.prefix_of_prefix_length_le (List.prefix_append _ _) hp (by omega)
    obtain ⟨q, rfl⟩ := hfull
    obtain ⟨hpos, shift, hshift, heq⟩ := wireVarint_write hb q
    have hq : q <+: body := (List.prefix_append_right_inj _).mp hp
    have hshort : q.length ≠ body.length := fun h => hne (by rw [hq.eq_of_length h])
    have hle := hq.length_le
    refine ⟨_, _, shift, heq, hpos, hshift, ?_⟩
    rw [List.length_append]
    omega

theorem wireVarint_of_cut (hf : f.Fits) {p : Bytes} (hp : p <+: f.encode c d)
    (hne : p ≠ f.encode c d) :
    ∃ pos val shift, wireVarint p = (pos, val, shift) ∧ pos < 10 ∧ shift < 56 ∧
      (pos + val > p.length ∨ val < 1) :=
  wireVarint_of_partial (hf.lt c d) hp hne

theorem readFrame_cut (hf : f.Fits) (hp : s.readBuf <+: f.encode c d)
    (hne : s.readBuf ≠ f.encode c d) : readFrame env s = some (s, false) := by
  obtain ⟨pos, val, shift, heq, hpos, hshift, hwait⟩ := wireVarint_of_cut hf hp hne
  unfold readFrame
  simp only [heq]
  by_cases hnil : s.readBuf = []
  · rw [if_pos hnil]
  · rw [if_neg hnil, if_neg (by omega), if_pos (by omega)]

/-- The buffer holds nothing but the beginning of the next frame. -/
def Settled (c : UInt8) (d : UInt16) (p : Bytes) : List Frame → Prop
  | [] => p = []
  | f :: _ => p <+: f.encode c d ∧ p ≠ f.encode c d

/-- The effect of frames in their order. -/
def handleAll (env : Env) (c : UInt8) (d : UInt16) (s : Session) : List Frame → Session
  | [] => s
  | f :: fs => handleAll env (f.nextControl c) (f.nextData d) (f.handle env c d s) fs

theorem Frame.handle_readBuf (f : Frame) (buf : Bytes) :
    f.handle env c d { s with readBuf := buf } = { f.handle env c d s with readBuf := buf } := by
  cases f with
  | control pkt => rfl
  | data payload =>
      simp only [Frame.handle, acceptData]
      split <;> rfl

theorem encode_ne_nil (f : Frame) (c : UInt8) (d : UInt16) : 0 < (f.encode c d).length := by
  have := f.two_le_body c d
  simp only [Frame.encode, List.length_append]
  omega

/-- The loop of the reader takes the complete frames of its buffer. -/
theorem readLoop_frames (fs : List Frame) : ∀ (c : UInt8) (d : UInt16) (s : Session) (buf : Bytes)
    (fuel : Nat), (∀ f ∈ fs, f.Fits) → buf <+: encodeAll c d fs → buf.length ≤ fuel →
    ∃ (c' : UInt8) (d' : UInt16) (s' : Session) (rest : List Frame) (p : Bytes),
      readLoop env fuel { s with readBuf := buf } = some { s' with readBuf := p } ∧
      Settled c' d' p rest ∧ (∀ f ∈ rest, f.Fits) ∧ s'.switched = s.switched ∧
      (∀ more, buf ++ more = encodeAll c d fs → p ++ more = encodeAll c' d' rest) ∧
      handleAll env c' d' s' rest = handleAll env c d s fs := by
  induction fs with
  | nil =>
      intro c d s buf fuel _ hbuf _
      obtain rfl : buf = [] := List.prefix_nil.mp hbuf
      refine ⟨c, d, s, [], [], ?_, rfl, by simp, rfl, fun _ h => h, rfl⟩
      cases fuel with
      | zero => rfl
      | succ fuel => simp [readLoop, readFrame]
  | cons f fs ih =>
      intro c d s buf fuel hfits hbuf hfuel
      have hf := hfits f List.mem_cons_self
      by_cases hlen : buf.length < (f.encode c d).length
      · have hcut : buf <+: f.encode c d :=
          List.prefix_of_prefix_length_le hbuf (List.prefix_append _ _) (by omega)
        have hne : buf ≠ f.encode c d := fun h => by rw [h] at hlen; omega
        refine ⟨c, d, s, f :: fs, buf, ?_, ⟨hcut, hne⟩, hfits, rfl, fun _ h => h, rfl⟩
        cases fuel with
        | zero => rfl
        | succ fuel =>
            have hread : readFrame env { s with readBuf := buf } =
                some ({ s with readBuf := buf }, false) := readFrame_cut hf hcut hne
            simp only [readLoop, hread]
      · have hfull : f.encode c d <+: buf :=
          List.prefix_of_prefix_length_le (List.prefix_append _ _) hbuf (by omega)
        obtain ⟨tail, rfl⟩ := hfull
        have hpos := encode_ne_nil f c d
        rw [List.length_append] at hfuel
        obtain ⟨fuel, rfl⟩ : ∃ k, fuel = k + 1 := ⟨fuel - 1, by omega⟩
        have htail : tail <+: encodeAll (f.nextControl c) (f.nextData d) fs :=
          (List.prefix_append_right_inj _).mp hbuf
        obtain ⟨c', d', s', rest, p, hloop, hsettled, hrest, hsw, hmore, hall⟩ :=
          ih (f.nextControl c) (f.nextData d) (f.handle env c d s) tail fuel
            (fun g hg => hfits g (List.mem_cons_of_mem f hg)) htail (by omega)
        refine ⟨c', d', s', rest, p, ?_, hsettled, hrest, ?_, ?_, hall⟩
        · have hread : readFrame env { s with readBuf := f.encode c d ++ tail } =
              some (f.handle env c d { s with readBuf := tail }, true) :=
            readFrame_encode (s := { s with readBuf := f.encode c d ++ tail }) hf rfl
          simp only [readLoop, hread]
          rw [Frame.handle_readBuf, hloop]
        · rw [hsw]
          cases f with
          | control pkt => rfl
          | data payload =>
              simp only [Frame.handle, acceptData]
              split <;> rfl
        · intro more h
          apply hmore
          rw [encodeAll, List.append_assoc] at h
          exact List.append_cancel_left h

/-- However the frames are cut into reads, the reader handles them in their order. -/
theorem readAll_frames (chunks : List Bytes) : ∀ (c : UInt8) (d : UInt16) (s : Session)
    (fs : List Frame) (p : Bytes), s.switched = true → (∀ f ∈ fs, f.Fits) → Settled c d p fs →
    p ++ chunks.flatten = encodeAll c d fs →
    Session.readAll env { s with readBuf := p } chunks =
      some { handleAll env c d s fs with readBuf := [] } := by
  induction chunks with
  | nil =>
      intro c d s fs p _ _ hsettled hstream
      rw [List.flatten_nil, List.append_nil] at hstream
      cases fs with
      | nil =>
          obtain rfl : p = [] := hsettled
          rfl
      | cons f fs =>
          have hlen := hsettled.1.length_le
          rw [hstream, encodeAll, List.length_append] at hlen
          refine absurd (hsettled.1.eq_of_length ?_) hsettled.2
          rw [hstream, encodeAll, List.length_append]
          omega
  | cons x chunks ih =>
      intro c d s fs p hsw hfits hsettled hstream
      rw [List.flatten_cons, ← List.append_assoc] at hstream
      obtain ⟨c', d', s', rest, p', hloop, hsettled', hrest, hsw', hmore, hall⟩ :=
        @readLoop_frames env fs c d s (p ++ x) (p ++ x).length hfits
          ⟨chunks.flatten, hstream⟩ (Nat.le_refl _)
      have hread : Session.read env { s with readBuf := p } x = some { s' with readBuf := p' } := by
        rw [Session.read, if_pos hsw]
        exact hloop
      have hnext := ih c' d' s' rest p' (hsw'.trans hsw) hrest hsettled' (hmore _ hstream)
      simp only [Session.readAll, hread, hnext, hall]

/-! ## The switch -/

/-- A session that waits for `MSG_AUTH_OK` with an empty buffer. -/
structure Awaiting (s : Session) : Prop where
  state : s.control.app.state = .awaitAuth2Response
  switched : s.switched = false
  recvBuf : s.recvBuf = []

/-- The session right after the switch. -/
def afterSwitch (s : Session) : Session :=
  ({ s with recvBuf := [], switched := true, readBuf := [], recvSeq := 0 } : Session).setApp
    { s.control.app with state := .awaitChainCreate }

theorem tryParse_authOk (rest : Bytes) : tryParse (authOk ++ rest) = some (3, ⟨MSG_AUTH_OK, [1]⟩) :=
  tryParse_serialize ⟨MSG_AUTH_OK, [1]⟩ rest (by decide)

theorem tryParse_authOk_cut {p : Bytes} (hp : p <+: authOk) (hne : p ≠ authOk) :
    tryParse p = none := by
  rw [show authOk = [3, 1, 1] by decide] at hp hne
  have hlen := hp.length_le
  have htake := List.prefix_iff_eq_take.mp hp
  have hshort : p.length ≠ 3 := fun h => hne (hp.eq_of_length h)
  simp only [List.length_cons, List.length_nil] at hlen
  have hcases : p.length = 0 ∨ p.length = 1 ∨ p.length = 2 := by omega
  rcases hcases with h | h | h <;> rw [htake, h] <;> decide

theorem onData_cut {p x : Bytes} {s : Session} (hbuf : s.recvBuf = p) (hp : p ++ x <+: authOk)
    (hne : p ++ x ≠ authOk) : onData env s x = { s with recvBuf := p ++ x } := by
  have hparse := tryParse_authOk_cut hp hne
  rw [onData, hbuf]
  cases hlen : (p ++ x).length with
  | zero => rfl
  | succ n => simp only [authLoop, hparse]

/-- The read that completes `MSG_AUTH_OK`, with what it brings beyond. -/
theorem onData_authOk {p x left : Bytes} {s : Session} (hbuf : s.recvBuf = p)
    (hx : p ++ x = authOk ++ left) :
    onData env s x = handleAuth2Response env { s with recvBuf := left } ⟨MSG_AUTH_OK, [1]⟩ := by
  have hdrop : (authOk ++ left).drop 3 = left := rfl
  rw [onData, hbuf, hx]
  have hlen : (authOk ++ left).length = left.length + 2 + 1 := by
    rw [List.length_append, Nat.add_comm]
    rfl
  simp only [hlen, authLoop, tryParse_authOk, hdrop]
  rfl

/-- Reads that end with `MSG_AUTH_OK` switch the session, however they cut it. -/
theorem readAll_authOk (chunks : List Bytes) : ∀ (p : Bytes) (s : Session),
    s.control.app.state = .awaitAuth2Response → s.switched = false → s.recvBuf = p →
    p ++ chunks.flatten = authOk → (∀ chunk ∈ chunks, chunk ≠ []) → p ≠ authOk →
    s.readAll env chunks = some (afterSwitch s) := by
  induction chunks with
  | nil =>
      intro p s _ _ _ hflat _ hne
      rw [List.flatten_nil, List.append_nil] at hflat
      exact absurd hflat hne
  | cons x chunks ih =>
      intro p s hstate hsw hbuf hflat hchunks hne
      rw [List.flatten_cons, ← List.append_assoc] at hflat
      have hread : s.read env x = some (onData env s x) := by
        rw [Session.read, hsw, if_neg (by decide), if_pos hstate]
      by_cases hfull : p ++ x = authOk
      · have hnil : chunks = [] := by
          rw [hfull] at hflat
          have hempty : chunks.flatten = [] := by simpa using hflat
          cases chunks with
          | nil => rfl
          | cons y ys =>
              rw [List.flatten_cons, List.append_eq_nil_iff] at hempty
              exact absurd hempty.1 (hchunks y (by simp))
        have hdata := @onData_authOk env p x [] s hbuf (by rw [hfull, List.append_nil])
        simp only [hnil, Session.readAll, hread, hdata]
        rfl
      · have hdata : onData env s x = { s with recvBuf := p ++ x } :=
          onData_cut hbuf ⟨chunks.flatten, hflat⟩ hfull
        simp only [Session.readAll, hread, hdata]
        exact ih (p ++ x) _ hstate hsw rfl hflat
          (fun y hy => hchunks y (List.mem_cons_of_mem x hy)) hfull

theorem readAll_append (pre post : List Bytes) (s : Session) :
    s.readAll env (pre ++ post) = (s.readAll env pre).bind fun t => t.readAll env post := by
  induction pre generalizing s with
  | nil => rfl
  | cons x pre ih =>
      simp only [List.cons_append, Session.readAll]
      cases s.read env x with
      | none => rfl
      | some t => exact ih t

/-- A read of the cut ends where `MSG_AUTH_OK` ends. -/
def Clean (cut : List Bytes) : Prop := ∃ pre post, cut = pre ++ post ∧ pre.flatten = authOk

/-- The outcome of a clean cut does not depend on the cut. -/
theorem readAll_clean {fs : List Frame} {cut : List Bytes} (hs : Awaiting s)
    (hfits : ∀ f ∈ fs, f.Fits) (hcut : IsCut (authOk ++ encodeAll 0 0 fs) cut)
    (hclean : Clean cut) :
    s.readAll env cut =
      some { handleAll env 0 0 (afterSwitch s) fs with readBuf := [] } := by
  obtain ⟨pre, post, rfl, hpre⟩ := hclean
  have hpost : post.flatten = encodeAll 0 0 fs := by
    have hflat := hcut.flatten
    rw [List.flatten_append, hpre] at hflat
    exact List.append_cancel_left hflat
  have hauth := @readAll_authOk env pre [] s hs.state hs.switched hs.recvBuf hpre
    (fun x hx => (hcut.size x (List.mem_append_left _ hx)).1) (by decide)
  have hsettled : Settled 0 0 [] fs := by
    cases fs with
    | nil => rfl
    | cons f fs =>
        refine ⟨List.nil_prefix, fun h => ?_⟩
        have := encode_ne_nil f 0 0
        rw [← h] at this
        simp at this
  have hframes := @readAll_frames env post 0 0 (afterSwitch s) fs [] rfl hfits hsettled
    (by simpa using hpost)
  rw [readAll_append, hauth]
  exact hframes

/-! ## The leftover of the read that completes the authentication -/

theorem processWireBuffer_cut (hf : f.Fits) {left : Bytes} (hp : left <+: f.encode c d)
    (hne : left ≠ f.encode c d) (fuel : Nat) (s : Session) :
    processWireBuffer env fuel s left = s := by
  obtain ⟨pos, val, shift, heq, hpos, hshift, hwait⟩ := wireVarint_of_cut hf hp hne
  cases fuel with
  | zero => rfl
  | succ fuel =>
      simp only [processWireBuffer, heq]
      by_cases hnil : left = []
      · rw [if_pos hnil]
      · rw [if_neg hnil, if_neg (by omega), if_pos hwait]

/-- An incomplete frame behind `MSG_AUTH_OK` is lost. -/
theorem read_leftover (hs : Awaiting s) (hf : f.Fits) {left : Bytes} (hp : left <+: f.encode c d)
    (hne : left ≠ f.encode c d) : s.read env (authOk ++ left) = some (afterSwitch s) := by
  rw [Session.read, hs.switched, if_neg (by decide), if_pos hs.state,
    onData_authOk hs.recvBuf (List.nil_append _)]
  have hhead : (⟨MSG_AUTH_OK, [1]⟩ : Packet).payload.head? = some 1 := rfl
  simp only [handleAuth2Response, hhead, if_true, processWireBuffer_cut hf hp hne]
  rfl

/-- The reader waits for ever behind a length of zero. -/
theorem readAll_stuck (chunks : List Bytes) : ∀ (s : Session) (buf : Bytes), s.switched = true →
    s.readBuf = 0 :: buf →
    s.readAll env chunks = some { s with readBuf := 0 :: (buf ++ chunks.flatten) } := by
  induction chunks with
  | nil =>
      intro s buf _ hbuf
      rw [List.flatten_nil, List.append_nil, ← hbuf]
      rfl
  | cons x chunks ih =>
      intro s buf hsw hbuf
      have hzero : wireVarint (0 :: (buf ++ x)) = (1, 0, 0) := by
        simp [wireVarint, wireVarintLoop]
      have hframe : readFrame env { s with readBuf := 0 :: (buf ++ x) } =
          some ({ s with readBuf := 0 :: (buf ++ x) }, false) := by
        unfold readFrame
        simp [hzero]
      have hread : s.read env x = some { s with readBuf := 0 :: (buf ++ x) } := by
        rw [Session.read, if_pos hsw, hbuf]
        simp only [List.cons_append, List.length_cons, readLoop, hframe]
      simp only [Session.readAll, hread]
      rw [ih { s with readBuf := 0 :: (buf ++ x) } (buf ++ x) hsw rfl, List.flatten_cons,
        List.append_assoc]

/-! ## The outcome of a cut -/

/-- What two sessions are compared by: the state, the two expected numbers, the bytes not
consumed, the control messages applied and the payloads dispatched. -/
def observe (s : Session) : State × UInt8 × UInt16 × Bytes × List Packet × List Bytes :=
  (s.control.app.state, s.control.expControlSeq, s.recvSeq, s.recvBuf ++ s.readBuf,
    s.control.app.applied, s.control.app.dispatched)

def SameOutcome (env : Env) (s : Session) (cut cut' : List Bytes) : Prop :=
  ∃ t t', s.readAll env cut = some t ∧ s.readAll env cut' = some t' ∧ observe t = observe t'

theorem flatten_bytes (l : Bytes) : (l.map fun b => [b]).flatten = l := by
  induction l with
  | nil => rfl
  | cons b l ih => simpa using ih

theorem bytes_isCut (l : Bytes) : ∀ chunk ∈ l.map fun b => [b],
    chunk ≠ [] ∧ chunk.length ≤ MAX_PACKET_SIZE := by
  intro chunk hmem
  obtain ⟨b, -, rfl⟩ := List.mem_map.mp hmem
  exact ⟨by simp, by simp [MAX_PACKET_SIZE]⟩

/-- The first frame of a stream: a type, a number zero, and the rest. -/
theorem body_first (f : Frame) : ∃ type more, f.body 0 0 = type :: 0 :: more := by
  cases f with
  | control pkt => exact ⟨_, _, rfl⟩
  | data payload => exact ⟨_, _, rfl⟩

theorem recvBuf_handleAll (fs : List Frame) : ∀ (c : UInt8) (d : UInt16) (s : Session),
    (handleAll env c d s fs).recvBuf = s.recvBuf := by
  induction fs with
  | nil => exact fun _ _ _ => rfl
  | cons f fs ih =>
      intro c d s
      rw [handleAll, ih]
      cases f with
      | control pkt => rfl
      | data payload =>
          simp only [Frame.handle, acceptData]
          split <;> rfl

/-- A read that brings `MSG_AUTH_OK` with the length and the type of the first frame
leaves the reader in the middle of that frame. -/
theorem exists_different (hs : Awaiting s) {fs : List Frame} (hf : f.Fits)
    (hfits : ∀ g ∈ fs, g.Fits) :
    ∃ cut cut', IsCut (authOk ++ encodeAll 0 0 (f :: fs)) cut ∧
      IsCut (authOk ++ encodeAll 0 0 (f :: fs)) cut' ∧ ¬SameOutcome env s cut cut' := by
  obtain ⟨type, more, hbody⟩ := body_first f
  have hshort : (writeVarint (f.body 0 0).length).length < 10 := (wireVarint_write (hf.lt 0 0) []).1
  generalize hlen : writeVarint (f.body 0 0).length = len at hshort
  have henc : f.encode 0 0 = (len ++ [type]) ++ 0 :: more := by
    simp only [Frame.encode, hlen]
    rw [hbody, List.append_assoc]
    rfl
  have hauth : authOk.length = 3 := rfl
  generalize htail : encodeAll (f.nextControl 0) (f.nextData 0) fs = tail
  have hstream : encodeAll 0 0 (f :: fs) = (len ++ [type]) ++ (0 :: (more ++ tail)) := by
    rw [encodeAll, henc, htail, List.append_assoc]
    rfl
  have hclean : IsCut (authOk ++ encodeAll 0 0 (f :: fs))
      (authOk :: (encodeAll 0 0 (f :: fs)).map fun b => [b]) := by
    refine ⟨by rw [List.flatten_cons, flatten_bytes], ?_⟩
    intro chunk hmem
    rcases List.mem_cons.mp hmem with rfl | hmem
    · exact ⟨by decide, by decide⟩
    · exact bytes_isCut _ chunk hmem
  have hlost : IsCut (authOk ++ encodeAll 0 0 (f :: fs))
      ((authOk ++ (len ++ [type])) :: (0 :: (more ++ tail)).map fun b => [b]) := by
    refine ⟨by rw [List.flatten_cons, flatten_bytes, hstream, List.append_assoc], ?_⟩
    intro chunk hmem
    rcases List.mem_cons.mp hmem with rfl | hmem
    · refine ⟨by simp, ?_⟩
      simp only [List.length_append, List.length_singleton, hauth, MAX_PACKET_SIZE]
      omega
    · exact bytes_isCut _ chunk hmem
  refine ⟨_, _, hclean, hlost, ?_⟩
  rintro ⟨t, t', ht, ht', hsame⟩
  have hall : ∀ g ∈ f :: fs, g.Fits := by
    intro g hg
    rcases List.mem_cons.mp hg with rfl | hg
    · exact hf
    · exact hfits g hg
  rw [readAll_clean hs hall hclean ⟨[authOk], _, rfl, by simp⟩] at ht
  have hfirst : s.read env (authOk ++ (len ++ [type])) = some (afterSwitch s) := by
    apply read_leftover hs hf (c := 0) (d := 0)
    · rw [henc]
      exact List.prefix_append _ _
    · intro h
      rw [henc] at h
      simp at h
  have hzero : (afterSwitch s).read env [0] = some { afterSwitch s with readBuf := [0] } := by
    rfl
  have hstuck := @readAll_stuck env ((more ++ tail).map fun b => [b])
    { afterSwitch s with readBuf := [0] } [] rfl rfl
  simp only [Session.readAll, List.map_cons, hfirst, hzero, hstuck] at ht'
  have hbytes := congrArg (fun o => o.2.2.2.1) hsame
  rw [← Option.some.inj ht, ← Option.some.inj ht'] at hbytes
  simp only [observe, List.append_nil, recvBuf_handleAll] at hbytes
  simp [afterSwitch, Session.setApp] at hbytes

/-- The outcome is the same for all cuts exactly when no frame follows. For a stream with
frames, all cuts with a read that ends where `MSG_AUTH_OK` ends have the same outcome. -/
theorem segmentation_independent_iff (env : Env) {s : Session} (hs : Awaiting s)
    {fs : List Frame} (hfits : ∀ f ∈ fs, f.Fits) :
    ((∀ cut cut', IsCut (authOk ++ encodeAll 0 0 fs) cut →
        IsCut (authOk ++ encodeAll 0 0 fs) cut' → SameOutcome env s cut cut') ↔ fs = []) ∧
      ∀ cut cut', IsCut (authOk ++ encodeAll 0 0 fs) cut →
        IsCut (authOk ++ encodeAll 0 0 fs) cut' → Clean cut → Clean cut' →
        SameOutcome env s cut cut' := by
  have hsame : ∀ cut cut', IsCut (authOk ++ encodeAll 0 0 fs) cut →
      IsCut (authOk ++ encodeAll 0 0 fs) cut' → Clean cut → Clean cut' →
      SameOutcome env s cut cut' := by
    intro cut cut' hcut hcut' hclean hclean'
    exact ⟨_, _, readAll_clean hs hfits hcut hclean, readAll_clean hs hfits hcut' hclean', rfl⟩
  refine ⟨⟨fun hall => ?_, ?_⟩, hsame⟩
  · cases fs with
    | nil => rfl
    | cons f fs =>
        obtain ⟨cut, cut', hcut, hcut', hdiff⟩ := @exists_different env f s hs fs
          (hfits f List.mem_cons_self) (fun g hg => hfits g (List.mem_cons_of_mem f hg))
        exact absurd (hall cut cut' hcut hcut') hdiff
  · rintro rfl cut cut' hcut hcut'
    have hflat := hcut.flatten
    have hflat' := hcut'.flatten
    rw [encodeAll, List.append_nil] at hflat hflat'
    exact hsame cut cut' hcut hcut' ⟨cut, [], (List.append_nil _).symm, hflat⟩
      ⟨cut', [], (List.append_nil _).symm, hflat'⟩

/-- A session before `MSG_AUTH_OK`, and a client that asks for a chain without modules. -/
def waitingSession : Session := { control := { app := { state := .awaitAuth2Response } } }

def bareEnv : Env := { hasModule := fun _ => false, extraOutputs := fun _ => 0 }

def chainCreate : Frame := .control ⟨MSG_CHAIN_CREATE, [0]⟩

theorem waitingSession_awaiting : Awaiting waitingSession := ⟨rfl, rfl, rfl⟩

theorem chainCreate_fits : ∀ f ∈ [chainCreate], f.Fits := by
  intro f hf
  rw [List.mem_singleton.mp hf]
  exact (by decide : (chainCreate.body 0 0).length < 2 ^ 56)

/-- Two clean cuts, one of them byte by byte. -/
theorem segmentation_chainCreate :
    SameOutcome bareEnv waitingSession [authOk, chainCreate.encode 0 0]
      [[3], [1], [1], [5], [5], [0], [0x20], [1], [0]] := by
  refine (segmentation_independent_iff bareEnv waitingSession_awaiting chainCreate_fits).2
    _ _ ?_ ?_ ?_ ?_
  · exact ⟨by decide, by decide⟩
  · exact ⟨by decide, by decide⟩
  · exact ⟨[authOk], [chainCreate.encode 0 0], rfl, by decide⟩
  · exact ⟨[[3], [1], [1]], [[5], [5], [0], [0x20], [1], [0]], rfl, by decide⟩

/-- One read with `MSG_AUTH_OK` and `MSG_CHAIN_CREATE`: the chain is created, but the state
is set back, and the control number 0 is still expected. -/
theorem segmentation_dependent :
    ¬∀ (env : Env) (s : Session), Awaiting s → ∀ fs : List Frame, (∀ f ∈ fs, f.Fits) →
      ∀ cut cut', IsCut (authOk ++ encodeAll 0 0 fs) cut →
        IsCut (authOk ++ encodeAll 0 0 fs) cut' → SameOutcome env s cut cut' := by
  intro h
  obtain ⟨t, t', ht, ht', hsame⟩ := h bareEnv waitingSession waitingSession_awaiting [chainCreate]
    chainCreate_fits [authOk, chainCreate.encode 0 0] [authOk ++ chainCreate.encode 0 0]
    ⟨by decide, by decide⟩ ⟨by decide, by decide⟩
  have hreader : (waitingSession.readAll bareEnv [authOk, chainCreate.encode 0 0]).map
      (fun t => (observe t).1) = some .running := by decide
  have hleftover : (waitingSession.readAll bareEnv [authOk ++ chainCreate.encode 0 0]).map
      (fun t => (observe t).1) = some .awaitChainCreate := by decide
  rw [ht] at hreader
  rw [ht'] at hleftover
  have hrunning : (observe t).1 = .running := Option.some.inj hreader
  have hawait : (observe t').1 = .awaitChainCreate := Option.some.inj hleftover
  rw [hsame, hawait] at hrunning
  cases hrunning

end PipelineTunnel.Server
