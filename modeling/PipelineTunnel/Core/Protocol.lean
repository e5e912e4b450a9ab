import PipelineTunnel.Lib.Bits
import Mathlib.Data.List.Basic
import Mathlib.Tactic.Ring

/-!
# The control packet format

`core/protocol.cpp`: a packet is a varint type, a varint payload length and the
payload. A varint holds seven bits per byte, lowest first, with the high bit set
on every byte but the last. All sizes are `uint64_t`, so a value above `2^64`
cannot occur on the encoding side and the decoder truncates to 64 bits.

## Implementation notes

A reader that runs out of bytes inside a varint returns the value `0` together
with the number of bytes it looked at, not zero bytes; `readVarint` keeps that.
-/

namespace PipelineTunnel

/-- A byte buffer of the source, `std::vector<uint8_t>` or a pointer with a length. -/
abbrev Bytes := List UInt8

/-- A decoded control packet; the type is any byte a peer sent. -/
structure Packet where
  type : UInt8
  payload : Bytes
deriving DecidableEq, Repr, Inhabited

namespace Protocol

def MSG_AUTH_CHALLENGE : UInt8 := 0x01
def MSG_AUTH_RESPONSE : UInt8 := 0x02
def MSG_AUTH_OK : UInt8 := 0x03
def MSG_RECONNECT : UInt8 := 0x05
def MSG_MODULE_LIST_REQ : UInt8 := 0x10
def MSG_MODULE_LIST_RES : UInt8 := 0x11
def MSG_CHAIN_CREATE : UInt8 := 0x20
def MSG_CHAIN_READY : UInt8 := 0x21
def MSG_TRANSMIT_READY : UInt8 := 0x22
def MSG_CONNECT_REQ : UInt8 := 0x30
def MSG_CONNECT_OK : UInt8 := 0x31
def MSG_CONNECT_FAIL : UInt8 := 0x32
def MSG_CONNECT_CANCEL : UInt8 := 0x33
def MSG_DISCONNECT : UInt8 := 0x51
def MSG_WRITER_PAUSE : UInt8 := 0x52
def MSG_WRITER_RESUME : UInt8 := 0x53
def MSG_CHAIN_PAUSE : UInt8 := 0x54
def MSG_CHAIN_RESUME : UInt8 := 0x55

/-- The largest number of unacknowledged data frames kept for retransmission. -/
def WIRE_MAX_UNACKED : Nat := 200

/-- The loop of `write_varint` with at most `n` continuation bytes left. -/
def writeVarintLoop : Nat → Nat → Bytes
  | 0, val => [UInt8.ofNat (val &&& 0x7F)]
  | n + 1, val =>
      if val > 0x7F then
        UInt8.ofNat ((val &&& 0x7F) ||| 0x80) :: writeVarintLoop n (val >>> 7)
      else [UInt8.ofNat (val &&& 0x7F)]

/-- `write_varint`; a `uint64_t` needs at most nine continuation bytes. -/
def writeVarint (val : Nat) : Bytes := writeVarintLoop 9 val

/-- The loop of `read_varint` after `i` bytes: the value and the bytes consumed. -/
def readVarintLoop (i shift val : Nat) : Bytes → Nat × Nat
  | [] => (0, i)
  | b :: bs =>
      if i < 10 then
        let val := val ||| ((b.toNat &&& 0x7F) <<< shift) % 2 ^ 64
        if b.toNat &&& 0x80 = 0 then (val, i + 1)
        else readVarintLoop (i + 1) (shift + 7) val bs
      else (0, i)

def readVarint (buf : Bytes) : Nat × Nat := readVarintLoop 0 0 0 buf

def serialize (pkt : Packet) : Bytes :=
  writeVarint pkt.type.toNat ++ (writeVarint pkt.payload.length ++ pkt.payload)

/-- `try_parse`: the number of bytes claimed and the packet; `none` is the early
return of zero. The total is a `size_t` sum. -/
def tryParse (buf : Bytes) : Option (Nat × Packet) :=
  let (typeVal, consumed) := readVarint buf
  if consumed = 0 ∨ typeVal > 0xFF then none
  else
    let offset := consumed
    let (payLen, consumed) := readVarint (buf.drop offset)
    if consumed = 0 then none
    else
      let offset := offset + consumed
      let total := (offset + payLen) % 2 ^ 64
      if buf.length < total then none
      else some (total, ⟨UInt8.ofNat typeVal, (buf.drop offset).take payLen⟩)

/-! ## Reading back a written varint -/

theorem and_0x7F (v : Nat) : v &&& 0x7F = v % 128 :=
  Nat.and_two_pow_sub_one_eq_mod v 7

theorem or_0x80 {r : Nat} (h : r < 128) : r ||| 0x80 = r + 128 := by
  exact Bits.or_shiftLeft (k := 7) h 1

theorem and_0x80_low {b : Nat} (h : b < 128) : b &&& 0x80 = 0 := by
  rw [show (0x80 : Nat) = 2 ^ 7 by rfl, Nat.and_two_pow,
    Nat.testBit_lt_two_pow (by omega)]
  rfl

theorem and_0x80_high {r : Nat} (h : r < 128) : (r + 128) &&& 0x80 ≠ 0 := by
  have hb : (r + 2 ^ 7).testBit 7 = true := by
    rw [Nat.add_comm, Nat.testBit_two_pow_add_eq,
      Nat.testBit_lt_two_pow (by omega)]
    rfl
  change (r + 2 ^ 7) &&& 2 ^ 7 ≠ 0
  rw [Nat.and_two_pow, hb]
  decide

theorem writeVarintLoop_length_pos (n val : Nat) : 0 < (writeVarintLoop n val).length := by
  cases n with
  | zero => simp [writeVarintLoop]
  | succ n => simp only [writeVarintLoop]; split <;> simp

theorem writeVarint_length_pos (val : Nat) : 0 < (writeVarint val).length :=
  writeVarintLoop_length_pos 9 val

theorem writeVarintLoop_length_le (n val : Nat) : (writeVarintLoop n val).length ≤ n + 1 := by
  induction n generalizing val with
  | zero => simp [writeVarintLoop]
  | succ n ih =>
      simp only [writeVarintLoop]
      split_ifs
      · have := ih (val >>> 7)
        rw [List.length_cons]
        omega
      · simp

/-- A packet is at most twenty bytes longer than its payload. -/
theorem serialize_length_lt {pkt : Packet} (hsize : pkt.payload.length < 2 ^ 63) :
    (serialize pkt).length < 2 ^ 64 := by
  have htype := writeVarintLoop_length_le 9 pkt.type.toNat
  have hlength := writeVarintLoop_length_le 9 pkt.payload.length
  simp only [serialize, writeVarint, List.length_append]
  omega

/-- One byte of the decoder adds its seven bits above those already read. -/
theorem or_shift {val low shift : Nat} (hv : val < 2 ^ shift)
    (hl : low * 2 ^ shift < 2 ^ 64) :
    val ||| (low <<< shift) % 2 ^ 64 = val + low * 2 ^ shift := by
  rw [Nat.mod_eq_of_lt (by rwa [Nat.shiftLeft_eq]), Bits.or_shiftLeft hv]

/-- A byte below `0x80` ends the varint. -/
theorem readVarintLoop_last {i val v : Nat} (rest : Bytes) (hi : i < 10)
    (hval : val < 2 ^ (7 * i)) (hlow : v < 128) (hfit : v * 2 ^ (7 * i) < 2 ^ 64) :
    readVarintLoop i (7 * i) val (UInt8.ofNat (v % 128) :: rest) =
      (val + v * 2 ^ (7 * i), i + 1) := by
  have hbyte : (UInt8.ofNat v).toNat = v := by
    rw [UInt8.toNat_ofNat']; omega
  simp only [Nat.mod_eq_of_lt hlow, readVarintLoop, hbyte, and_0x7F]
  rw [if_pos hi, if_pos (and_0x80_low hlow), or_shift hval hfit]

/-- A byte with the high bit set adds its seven bits and continues. -/
theorem readVarintLoop_more {i val low : Nat} (rest : Bytes) (hi : i < 10)
    (hval : val < 2 ^ (7 * i)) (hlow : low < 128)
    (hfit : low * 2 ^ (7 * i) < 2 ^ 64) :
    readVarintLoop i (7 * i) val (UInt8.ofNat (low + 128) :: rest) =
      readVarintLoop (i + 1) (7 * (i + 1)) (val + low * 2 ^ (7 * i)) rest := by
  have hbyte : (UInt8.ofNat (low + 128)).toNat = low + 128 := by
    rw [UInt8.toNat_ofNat']; omega
  simp only [readVarintLoop, hbyte, and_0x7F, Nat.add_mod_right, Nat.mod_eq_of_lt hlow]
  rw [if_pos hi, if_neg (and_0x80_high hlow), or_shift hval hfit, Nat.mul_succ]

theorem readVarintLoop_write (n : Nat) : ∀ (i val v : Nat) (rest : Bytes),
    i + n < 10 → val < 2 ^ (7 * i) → v < 2 ^ (7 * (n + 1)) →
    v * 2 ^ (7 * i) < 2 ^ 64 →
    readVarintLoop i (7 * i) val (writeVarintLoop n v ++ rest) =
      (val + v * 2 ^ (7 * i), i + (writeVarintLoop n v).length) := by
  induction n with
  | zero =>
      intro i val v rest hi hval hv hfit
      simp only [writeVarintLoop, and_0x7F, List.cons_append, List.nil_append,
        List.length_singleton]
      exact readVarintLoop_last rest (by omega) hval (by simpa using hv) hfit
  | succ n ih =>
      intro i val v rest hi hval hv hfit
      by_cases hbig : v > 0x7F
      · have hpow : (2 : Nat) ^ (7 * (i + 1)) = 128 * 2 ^ (7 * i) := by
          rw [Nat.mul_succ, Nat.pow_add]; ring
        have hsplit : v % 128 * 2 ^ (7 * i) + v / 128 * 2 ^ (7 * (i + 1)) =
            v * 2 ^ (7 * i) := by
          rw [hpow]
          calc
            v % 128 * 2 ^ (7 * i) + v / 128 * (128 * 2 ^ (7 * i)) =
                (v % 128 + 128 * (v / 128)) * 2 ^ (7 * i) := by ring
            _ = v * 2 ^ (7 * i) := by rw [Nat.mod_add_div]
        have hmod : v % 128 < 128 := Nat.mod_lt v (by decide)
        have hnext : val + v % 128 * 2 ^ (7 * i) < 2 ^ (7 * (i + 1)) := by
          rw [hpow]
          have hm := Nat.mul_le_mul_right (2 ^ (7 * i)) (Nat.le_sub_one_of_lt hmod)
          omega
        have hrest : v / 128 < 2 ^ (7 * (n + 1)) := by
          rw [Nat.mul_succ 7 (n + 1), Nat.pow_add] at hv
          exact Nat.div_lt_of_lt_mul (by omega)
        have hshift : v >>> 7 = v / 128 := Nat.shiftRight_eq_div_pow v 7
        simp only [writeVarintLoop, if_pos hbig, and_0x7F, or_0x80 hmod,
          List.cons_append, hshift, List.length_cons]
        rw [readVarintLoop_more _ (by omega) hval hmod (by omega),
          ih (i + 1) _ _ rest (by omega) hnext hrest (by omega)]
        exact Prod.ext (by omega) (by omega)
      · simp only [writeVarintLoop, if_neg hbig, and_0x7F, List.cons_append,
          List.nil_append, List.length_singleton]
        exact readVarintLoop_last rest (by omega) hval (by omega) hfit

/-- The decoder returns every written 64-bit value and the bytes it took. -/
theorem readVarint_write {v : Nat} (hv : v < 2 ^ 64) (rest : Bytes) :
    readVarint (writeVarint v ++ rest) = (v, (writeVarint v).length) := by
  have h := readVarintLoop_write 9 0 0 v rest (by omega) (by simp) (by omega) (by simpa using hv)
  simpa [readVarint, writeVarint] using h

/-- Parsing a serialized packet takes exactly its own bytes, whatever follows. -/
theorem tryParse_serialize (pkt : Packet) (rest : Bytes)
    (hsize : (serialize pkt).length < 2 ^ 64) :
    tryParse (serialize pkt ++ rest) = some ((serialize pkt).length, pkt) := by
  have htype : pkt.type.toNat < 256 := UInt8.toNat_lt pkt.type
  have hlen : (serialize pkt).length = (writeVarint pkt.type.toNat).length +
      ((writeVarint pkt.payload.length).length + pkt.payload.length) := by
    simp [serialize]
  have htypeRead := readVarint_write (v := pkt.type.toNat) (by omega)
    (writeVarint pkt.payload.length ++ pkt.payload ++ rest)
  have hpayRead := readVarint_write (v := pkt.payload.length) (by omega)
    (pkt.payload ++ rest)
  have hbuf : serialize pkt ++ rest = writeVarint pkt.type.toNat ++
      (writeVarint pkt.payload.length ++ pkt.payload ++ rest) := by
    simp [serialize]
  have hpos := writeVarint_length_pos pkt.type.toNat
  have hpos' := writeVarint_length_pos pkt.payload.length
  have hdrop : (serialize pkt ++ rest).drop (writeVarint pkt.type.toNat).length =
      writeVarint pkt.payload.length ++ (pkt.payload ++ rest) := by
    rw [hbuf, List.drop_left, List.append_assoc]
  have hdrop' : (serialize pkt ++ rest).drop ((writeVarint pkt.type.toNat).length +
      (writeVarint pkt.payload.length).length) = pkt.payload ++ rest := by
    rw [← List.drop_drop, hdrop, List.drop_left]
  have htotal : ((writeVarint pkt.type.toNat).length +
      (writeVarint pkt.payload.length).length + pkt.payload.length) % 2 ^ 64 =
      (serialize pkt).length := by
    rw [Nat.mod_eq_of_lt (by omega), hlen]; omega
  unfold tryParse
  simp only [hbuf ▸ htypeRead, hdrop, hpayRead, hdrop', htotal]
  rw [if_neg (by omega), if_neg (by omega), if_neg (by simp)]
  simp

/-- A packet of any type and payload is read back whatever follows it, and the number of
bytes returned is its own length, which is not the error value `0`. -/
theorem packet_roundTrip (pkt : Packet) (rest : Bytes) (hsize : pkt.payload.length < 2 ^ 63) :
    0 < (serialize pkt).length ∧
      tryParse (serialize pkt ++ rest) = some ((serialize pkt).length, pkt) := by
  refine ⟨?_, tryParse_serialize pkt rest (serialize_length_lt hsize)⟩
  have := writeVarint_length_pos pkt.type.toNat
  rw [serialize, List.length_append]
  omega

/-- A type of two bytes and a length of two bytes. -/
theorem packet_roundTrip_long :
    (List.replicate 200 (7 : UInt8)).length < 2 ^ 63 ∧
      tryParse (serialize ⟨0xFF, List.replicate 200 7⟩ ++ [1, 2, 3]) =
        some ((serialize ⟨0xFF, List.replicate 200 7⟩).length, ⟨0xFF, List.replicate 200 7⟩) := by
  have hsize : (List.replicate 200 (7 : UInt8)).length < 2 ^ 63 := by
    rw [List.length_replicate]
    omega
  exact ⟨hsize, (packet_roundTrip ⟨0xFF, List.replicate 200 7⟩ [1, 2, 3] hsize).2⟩

end Protocol

end PipelineTunnel
