import PipelineTunnel.Core.Segments
import Mathlib.Data.Nat.Digits.Defs

/-!
# The bytes that the parser claims

`try_parse` adds a length chosen by the peer to an offset before it compares the sum with the
size of the buffer, and both are `size_t`. A length of ten bytes can come so close to `2^64`
that the sum starts again at zero and passes the test.

## Implementation notes

The parser is past its test where `tryParse` returns a packet. With a length that wraps
around the program gets no further: `payload.assign` throws at more than `2^63` bytes, before
it reads any. The reads of the parser are the indices of the bytes it looks at.
-/

namespace PipelineTunnel.Protocol

/-! ## The value of a varint -/

/-- The most that a `std::vector<uint8_t>` can hold; `assign` throws beyond it. -/
def VECTOR_MAX_SIZE : Nat := 2 ^ 63 - 1

/-- The indices that `read_varint` looks at, with the buffer beginning at `start`. -/
def readVarintReads (start : Nat) (buf : Bytes) : List Nat := List.range' start (readVarint buf).2

/-- The indices of `buf` that `try_parse` looks at. -/
def tryParseReads (buf : Bytes) : List Nat :=
  let (typeVal, consumed) := readVarint buf
  readVarintReads 0 buf ++
    if consumed = 0 ∨ typeVal > 0xFF then []
    else
      let offset := consumed
      let (payLen, consumed) := readVarint (buf.drop offset)
      readVarintReads offset (buf.drop offset) ++
        if consumed = 0 then []
        else
          let offset := offset + consumed
          if buf.length < (offset + payLen) % 2 ^ 64 ∨ payLen > VECTOR_MAX_SIZE then []
          else List.range' offset payLen

/-- The parser looks at no byte outside its buffer, whatever the length is. -/
theorem tryParseReads_lt {buf : Bytes} {i : Nat} (hi : i ∈ tryParseReads buf) :
    i < buf.length := by
  have htype := readVarint_le buf
  have hten := readVarint_le_ten buf
  have hlength := readVarint_le (buf.drop (readVarint buf).2)
  have hlengthTen := readVarint_le_ten (buf.drop (readVarint buf).2)
  rw [List.length_drop] at hlength
  simp only [tryParseReads, readVarintReads, List.mem_append, List.mem_range'_1] at hi
  rcases hi with hi | hi
  · omega
  · split_ifs at hi with hstop hnone hlong
    · cases hi
    · rw [List.append_nil, List.mem_range'_1] at hi
      omega
    · rw [List.append_nil, List.mem_range'_1] at hi
      omega
    · -- a payload that a vector can hold does not make the sum wrap around
      rw [VECTOR_MAX_SIZE] at hlong
      rw [List.mem_append, List.mem_range'_1, List.mem_range'_1] at hi
      omega

end PipelineTunnel.Protocol
