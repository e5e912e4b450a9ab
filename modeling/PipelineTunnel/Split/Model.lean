import PipelineTunnel.Core.Protocol
import PipelineTunnel.Lib.SortedMap

/-!
# The split module

`modules/split/split.cpp`: towards the wire a packet is cut into chunks that go
round-robin to the outputs, and towards the external side the chunks of all
outputs are put together again. A chunk carries 15 bits of its packet number, a
flag that another chunk follows, and 16 bits of its own number.

The counters are `uint32_t` and `uint64_t`; buffers are shorter than `2^31`
bytes apart from the length conversion at the top of `process_split`, which is
modelled. Allocation succeeds. The trace output is left out.
-/

namespace PipelineTunnel.Split

def DEF_CHUNK_SIZE : Nat := 16384
def HEADER_SIZE : Nat := 4
def MAX_CHUNKS_PER_PASS : Nat := 65536

/-- A received chunk that waits for the rest of its packet. -/
structure SlotEntry where
  data : Bytes
  size : Nat
  more : Bool

structure SplitContext where
  numOutputs : Nat := 1
  rrIdx : Nat := 0
  pktSeq : Nat := 0
  chunkIdx : Nat := 0
  pending : SortedMap Nat SlotEntry := ∅
  expPkt : Nat := 0
  expChunk : Nat := 0
  chunkSizeMin : Nat := DEF_CHUNK_SIZE
  chunkSizeMax : Nat := DEF_CHUNK_SIZE
  chunksCreated : Nat := 0
  chunksReceived : Nat := 0
  packetsCreated : Nat := 0
  packetsFlushed : Nat := 0
  chunksLost : Nat := 0

/-- A call of `write_packet`: the output and the bytes. -/
abbrev Write := Nat × Bytes

/-- `next_chunk_size`, with the value that `std::rand` returned. -/
def nextChunkSize (ctx : SplitContext) (rand : Nat) : Nat :=
  let lo := ctx.chunkSizeMin
  let hi := ctx.chunkSizeMax
  if lo ≥ hi then lo else lo + rand % (hi - lo + 1)

/-- `encode_hdr`: 15 bits of packet number, the more flag, 16 bits of chunk number. -/
def encodeHdr (pktId : Nat) (more : Bool) (chunkId : Nat) : Nat :=
  (pktId &&& 0x7FFF) ||| ((if more then 1 else 0) <<< 15) ||| (chunkId <<< 16)

/-- The four header bytes, lowest first. -/
def headerBytes (hdr : Nat) : Bytes :=
  [UInt8.ofNat (hdr &&& 0xFF), UInt8.ofNat ((hdr >>> 8) &&& 0xFF),
    UInt8.ofNat ((hdr >>> 16) &&& 0xFF), UInt8.ofNat ((hdr >>> 24) &&& 0xFF)]

/-- The length of the next chunk of a packet with `remain` bytes left: the last
chunk number takes everything. -/
def chunkLen (rand : Nat → Nat) (ctx : SplitContext) (chunks remain : Nat) : Nat :=
  if chunks ≥ MAX_CHUNKS_PER_PASS - 1 then remain
  else min (nextChunkSize ctx (rand chunks)) remain

/-- The `write_packet` call for a chunk of `n` bytes. -/
def chunkWrite (ctx : SplitContext) (n : Nat) (rest : Bytes) : Write :=
  let more := decide (n < rest.length)
  let hdr := encodeHdr ctx.pktSeq more (ctx.chunkIdx % 2 ^ 16)
  let outIdx := 1 + ctx.rrIdx % ctx.numOutputs
  (outIdx, headerBytes hdr ++ rest.take n)

/-- The counters after a chunk. -/
def afterChunk (ctx : SplitContext) : SplitContext :=
  { ctx with
    rrIdx := (ctx.rrIdx + 1) % 2 ^ 32
    chunkIdx := (ctx.chunkIdx + 1) % 2 ^ 32 }

/-- The loop of `process_split` over the bytes not sent yet; `rand` gives the
random values of this call. Every chunk takes at least one byte, so the number of
bytes bounds the rounds. -/
def splitLoop (rand : Nat → Nat) : Nat → SplitContext → Nat → Bytes → SplitContext × List Write
  | 0, ctx, _, _ => (ctx, [])
  | fuel + 1, ctx, chunks, rest =>
      if rest = [] then (ctx, [])
      else
        let n := chunkLen rand ctx chunks rest.length
        let r := splitLoop rand fuel (afterChunk ctx) (chunks + 1) (rest.drop n)
        (r.1, chunkWrite ctx n rest :: r.2)

/-- The conversion `(int)len`; a negative length leaves the loop at once. -/
def intLen (len : Nat) : Nat := if len % 2 ^ 32 < 2 ^ 31 then len % 2 ^ 32 else 0

/-- `process_split`: the new context and the chunks written, in order. -/
def processSplit (rand : Nat → Nat) (ctx : SplitContext) (data : Bytes) :
    SplitContext × List Write :=
  if data = [] then (ctx, [])
  else
    let sz := intLen data.length
    let r := splitLoop rand sz ctx 0 (data.take sz)
    ({ r.1 with
        packetsCreated := (r.1.packetsCreated + 1) % 2 ^ 64
        chunksCreated := (r.1.chunksCreated + r.2.length) % 2 ^ 64
        pktSeq := (r.1.pktSeq + 1) % 2 ^ 32
        chunkIdx := 0 }, r.2)

/-- The header of a received chunk, read lowest byte first. -/
def readHeader : Bytes → Nat
  | b0 :: b1 :: b2 :: b3 :: _ =>
      b0.toNat ||| (b1.toNat <<< 8) ||| (b2.toNat <<< 16) ||| (b3.toNat <<< 24)
  | _ => 0

/-- The extension of the 15 wire bits to a 32-bit packet number around `expPkt`. -/
def expandPkt (expPkt wireId : Nat) : Nat :=
  let pktFull := (expPkt &&& 0xFFFF8000) ||| wireId
  if (pktFull + 16384) % 2 ^ 32 < expPkt then (pktFull + 32768) % 2 ^ 32
  else if pktFull ≥ (expPkt + 16384) % 2 ^ 32 then (pktFull + (2 ^ 32 - 32768)) % 2 ^ 32
  else pktFull

/-- The key of a slot in `pending`. -/
def slotKey (pkt chunk : Nat) : Nat := (pkt <<< 16) ||| chunk

/-- The bytes of the packet that is complete up to the cursor. -/
def flushBytes (ctx : SplitContext) : Bytes :=
  (ctx.pending.range (ctx.expPkt <<< 16) (slotKey ctx.expPkt ctx.expChunk)).flatMap fun e =>
    e.2.data.take e.2.size

/-- The context after a flush: the slots up to the cursor are erased and the
cursor is on the next packet. -/
def afterFlush (ctx : SplitContext) : SplitContext :=
  { ctx with
    pending := ctx.pending.eraseRange (ctx.expPkt <<< 16) (slotKey ctx.expPkt ctx.expChunk)
    packetsFlushed := (ctx.packetsFlushed + 1) % 2 ^ 64
    expPkt := (ctx.expPkt + 1) % 2 ^ 32
    expChunk := 0 }

/-- The cursor on the next chunk of the same packet. -/
def nextChunk (ctx : SplitContext) : SplitContext :=
  { ctx with expChunk := (ctx.expChunk + 1) % 2 ^ 32 }

/-- The reassembly loop of `process_merge`. A round without a chunk at the cursor
ends it; a last chunk flushes its packet to output 0; any other chunk moves the
cursor. -/
def mergeLoop : Nat → SplitContext → Option (SplitContext × List Write)
  | 0, _ => none
  | fuel + 1, ctx =>
      match ctx.pending.find? (slotKey ctx.expPkt ctx.expChunk) with
      | none => some (ctx, [])
      | some se =>
          if se.more then mergeLoop fuel (nextChunk ctx)
          else (mergeLoop fuel (afterFlush ctx)).map fun r => (r.1, (0, flushBytes ctx) :: r.2)

/-- The context with a received chunk stored in its slot. -/
def storeChunk (ctx : SplitContext) (pktFull chunkId : Nat) (entry : SlotEntry) : SplitContext :=
  { ctx with
    pending := ctx.pending.insert (slotKey pktFull chunkId) entry
    chunksReceived := (ctx.chunksReceived + 1) % 2 ^ 64 }

/-- The context after an orphan, a chunk of a packet that is already out. -/
def loseChunk (ctx : SplitContext) : SplitContext :=
  { ctx with chunksLost := (ctx.chunksLost + 1) % 2 ^ 64 }

/-- `process_merge`. While the cursor stays within the 16-bit chunk numbers every
round consumes another slot, so one round per slot and one to leave suffice;
`none` is a call that is still running after them. -/
def processMerge (ctx : SplitContext) (data : Bytes) : Option (SplitContext × List Write) :=
  if data.length < HEADER_SIZE then some (ctx, [])
  else
    let hdr := readHeader data
    let wireId := hdr &&& 0x7FFF
    let more := (hdr >>> 15) &&& 1
    let chunkId := (hdr >>> 16) &&& 0xFFFF
    let pktFull := expandPkt ctx.expPkt wireId
    let payload := data.drop HEADER_SIZE
    if pktFull < ctx.expPkt then some (loseChunk ctx, [])
    else
      let entry : SlotEntry := ⟨payload, payload.length % 2 ^ 32, more ≠ 0⟩
      let stored := storeChunk ctx pktFull chunkId entry
      mergeLoop (stored.pending.size + 1) stored

/-! ## The header round trip -/

theorem slotKey_eq {pkt chunk : Nat} (h : chunk < 65536) :
    slotKey pkt chunk = pkt * 65536 + chunk := by
  exact Bits.shiftLeft_or (k := 16) h pkt

theorem encodeHdr_eq (pktId chunkId : Nat) (more : Bool) :
    encodeHdr pktId more chunkId =
      pktId % 32768 + more.toNat * 32768 + chunkId * 65536 := by
  have hpkt : pktId &&& 0x7FFF = pktId % 32768 := Nat.and_two_pow_sub_one_eq_mod pktId 15
  have hflag : ((if more then 1 else 0) : Nat) = more.toNat := by cases more <;> rfl
  have hbit : more.toNat ≤ 1 := Bool.toNat_le more
  have hlow : pktId % 32768 ||| more.toNat <<< 15 = pktId % 32768 + more.toNat * 32768 :=
    Bits.or_shiftLeft (k := 15) (Nat.mod_lt pktId (by decide)) more.toNat
  rw [encodeHdr, hpkt, hflag, hlow]
  exact Bits.or_shiftLeft (k := 16) (by omega) chunkId

theorem readHeader_headerBytes {hdr : Nat} (h : hdr < 2 ^ 32) (rest : Bytes) :
    readHeader (headerBytes hdr ++ rest) = hdr := by
  have hbyte : ∀ v, (UInt8.ofNat (v &&& 0xFF)).toNat = v % 256 := by
    intro v
    have hand : v &&& 0xFF = v % 256 := Nat.and_two_pow_sub_one_eq_mod v 8
    rw [UInt8.toNat_ofNat', hand]
    omega
  simp only [headerBytes, List.cons_append, readHeader, hbyte, Nat.shiftRight_eq_div_pow]
  have h1 := Bits.or_shiftLeft (k := 8) (show hdr % 256 < 2 ^ 8 by omega) (hdr / 2 ^ 8 % 256)
  have h2 := Bits.or_shiftLeft (k := 16)
    (show hdr % 256 + hdr / 2 ^ 8 % 256 * 2 ^ 8 < 2 ^ 16 by omega) (hdr / 2 ^ 16 % 256)
  rw [h1, h2, Bits.or_shiftLeft (by omega)]
  omega

/-- The fields that `process_merge` reads from the header `process_split` wrote. -/
theorem header_fields (pktId : Nat) {chunkId : Nat} (more : Bool) (h : chunkId < 65536) (rest : Bytes) :
    let hdr := readHeader (headerBytes (encodeHdr pktId more chunkId) ++ rest)
    hdr &&& 0x7FFF = pktId % 32768 ∧ (hdr >>> 15) &&& 1 = more.toNat ∧
      (hdr >>> 16) &&& 0xFFFF = chunkId := by
  have hbit : more.toNat ≤ 1 := Bool.toNat_le more
  have henc := encodeHdr_eq pktId chunkId more
  rw [readHeader_headerBytes (by omega)]
  simp only [Nat.shiftRight_eq_div_pow]
  refine ⟨?_, ?_, ?_⟩
  · rw [show (0x7FFF : Nat) = 2 ^ 15 - 1 by rfl, Nat.and_two_pow_sub_one_eq_mod, henc]
    omega
  · rw [show (1 : Nat) = 2 ^ 1 - 1 by rfl, Nat.and_two_pow_sub_one_eq_mod, henc]
    omega
  · rw [show (0xFFFF : Nat) = 2 ^ 16 - 1 by rfl, Nat.and_two_pow_sub_one_eq_mod, henc]
    omega

/-- Every packet number within half a window of the expected one is recovered. -/
theorem expandPkt_eq {expPkt k : Nat} (hexp : expPkt < 2 ^ 32 - 32768)
    (hlo : expPkt ≤ k + 16384) (hhi : k ≤ expPkt + 16383) :
    expandPkt expPkt (k % 32768) = k := by
  have hbase : expPkt &&& 0xFFFF8000 = expPkt / 32768 * 32768 :=
    Bits.and_highMask (k := 15) (n := 32) (by decide) (by omega)
  have hor : expPkt / 32768 * 32768 ||| k % 32768 = expPkt / 32768 * 32768 + k % 32768 := by
    have h := Bits.shiftLeft_or (k := 15) (Nat.mod_lt k (by decide)) (expPkt / 32768)
    rw [Nat.shiftLeft_eq] at h
    exact h
  simp only [expandPkt, hbase, hor]
  split
  · omega
  · split <;> omega

end PipelineTunnel.Split
