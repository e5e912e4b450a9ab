import PipelineTunnel.Lib.Ledger
import PipelineTunnel.Pipeline.Model
import PipelineTunnel.Split.Model

/-!
# The modules and their buffers

`process` of the modules under `modules/`: `base64.c`, `limit.zig`, `crypto/src/lib.rs`,
`compress.nim` and `split.cpp`. A call gets one buffer with a packet, may take more from
the chain's `malloc`, and releases buffers, hands them to `write_packet` or keeps them in
the queue of the module.

## Implementation notes

Allocation succeeds and `write_packet` returns zero. How the calls into a library end is
an argument of `process`; the run-length coder of `compress` is treated like one of the
libraries. The buckets of `limit` are floating point numbers that depend on the clock, so
whether tokens are left is an argument too. The contents of the new buffers and the trace
output are left out.
-/

namespace PipelineTunnel.Modules

open Pipeline (Dir)

/-- A `write_packet` call: the output, the buffer and the length. -/
structure Write where
  dst : Nat
  buf : Nat
  len : Nat
deriving DecidableEq, Repr

/-- What a call of `process` has asked of the chain so far. -/
structure Call where
  ledger : Ledger
  written : List Write := []
deriving DecidableEq, Repr

namespace Call

/-- A call that starts with buffers of the given sizes in use. -/
def start (sizes : List Nat) : Call := { ledger := { sizes := sizes } }

def malloc (c : Call) (size : Nat) : Nat × Call :=
  (c.ledger.next, { c with ledger := c.ledger.alloc size })

def free (c : Call) (b : Nat) : Call := { c with ledger := c.ledger.free b }

def writePacket (c : Call) (dst buf len : Nat) : Int × Call :=
  (0, { c with written := c.written ++ [⟨dst, buf, len⟩] })

end Call

/-- `write_dst`. -/
def writeDst (dir : Dir) : Nat := if dir = .encode then 1 else 0

/-! ## base64 -/

namespace Base64

/-- `base64_encode` returns a length; `base64_decode` may refuse its input. -/
structure Library where
  encoded : Nat
  decoded : Option Nat
deriving DecidableEq, Repr

def process (lib : Library) (dir : Dir) (input len : Nat) (c : Call) : Int × Call :=
  if len ≤ 0 then (-1, c)
  else
    match dir with
    | .encode =>
        let (wbuf, c) := c.malloc ((len + 2) / 3 * 4)
        (c.free input).writePacket (writeDst dir) wbuf lib.encoded
    | .decode =>
        let (buf, c) := c.malloc len
        match lib.decoded with
        | none => (-1, c.free buf)
        | some outlen => (c.free input).writePacket (writeDst dir) buf outlen

end Base64

/-! ## limit -/

namespace Limit

def MAX_PENDING : Nat := 100

structure PendingPacket where
  data : Nat
  len : Nat
  srcIdx : Int
deriving DecidableEq, Repr

structure LimitCtx where
  dirMask : BitVec 2
  pendingEncode : List PendingPacket := []
  pendingDecode : List PendingPacket := []
  haveHeartbeat : Bool := false
deriving DecidableEq, Repr

def dirBits : Dir → BitVec 2
  | .encode => 1
  | .decode => 2

namespace LimitCtx

def pending (ctx : LimitCtx) : Dir → List PendingPacket
  | .encode => ctx.pendingEncode
  | .decode => ctx.pendingDecode

def append (ctx : LimitCtx) (dir : Dir) (p : PendingPacket) : LimitCtx :=
  match dir with
  | .encode => { ctx with pendingEncode := ctx.pendingEncode ++ [p] }
  | .decode => { ctx with pendingDecode := ctx.pendingDecode ++ [p] }

def updateHeartbeat (ctx : LimitCtx) : LimitCtx :=
  let hasPending := ctx.pendingEncode.length > 0 ∨ ctx.pendingDecode.length > 0
  if hasPending ∧ ¬ctx.haveHeartbeat then { ctx with haveHeartbeat := true }
  else if ¬hasPending ∧ ctx.haveHeartbeat then { ctx with haveHeartbeat := false }
  else ctx

/-- The buffers in the two queues. -/
def queue (ctx : LimitCtx) : List Nat :=
  (ctx.pendingEncode ++ ctx.pendingDecode).map PendingPacket.data

end LimitCtx

/-- `process` in one of the two directions; `hasTokens` is the answer of `try_consume` and
`appendOk` that of the list's allocator. -/
def process (hasTokens appendOk : Bool) (ctx : LimitCtx) (dir : Dir) (srcIdx : Int)
    (input len : Nat) (c : Call) : LimitCtx × Int × Call :=
  if dirBits dir &&& ctx.dirMask = 0 then (ctx, 0, c)
  else if len = 0 then (ctx, -1, c)
  else if hasTokens then (ctx, c.writePacket (writeDst dir) input len)
  else if (ctx.pending dir).length ≥ MAX_PENDING then (ctx, 0, c.free input)
  else if appendOk then ((ctx.append dir ⟨input, len, srcIdx⟩).updateHeartbeat, 0, c)
  else (ctx, 0, c.free input)

end Limit

/-! ## crypto -/

namespace Crypto

inductive Algorithm where
  | chaCha20Poly1305
  | xChaCha20Poly1305
  | aes256Gcm
  | aes256Ctr
deriving DecidableEq, Repr

def nonceSize : Algorithm → Nat
  | .chaCha20Poly1305 => 12
  | .xChaCha20Poly1305 => 24
  | .aes256Gcm => 12
  | .aes256Ctr => 16

def tagSize : Algorithm → Nat
  | .chaCha20Poly1305 | .xChaCha20Poly1305 | .aes256Gcm => 16
  | .aes256Ctr => 0

/-- Whether the cipher encrypts, and the length of what it decrypts to. -/
structure Library where
  encrypts : Bool
  decrypts : Option Nat
deriving DecidableEq, Repr

def encrypt (algo : Algorithm) (lib : Library) (dst len : Nat) (c : Call) : Int × Call :=
  let total := nonceSize algo + len + tagSize algo
  let (out, c) := c.malloc total
  if lib.encrypts then c.writePacket dst out total else (-1, c.free out)

def decrypt (algo : Algorithm) (lib : Library) (dst len : Nat) (c : Call) : Int × Call :=
  let bodyLen := len - nonceSize algo
  if bodyLen < tagSize algo then (-1, c)
  else
    let plainLen := bodyLen - tagSize algo
    let (out, c) := c.malloc plainLen
    match algo, lib.decrypts with
    -- `new_from_slices` failed: the function returns without releasing `out`.
    | .aes256Ctr, none => (-1, c)
    | .aes256Ctr, some _ => c.writePacket dst out plainLen
    | _, none => (-1, c.free out)
    | _, some plen => c.writePacket dst out plen

def process (algo : Algorithm) (lib : Library) (dir : Dir) (input len : Nat) (c : Call) :
    Int × Call :=
  if dir = .decode ∧ len < nonceSize algo + tagSize algo then (-1, c.free input)
  else
    let (result, c) :=
      match dir with
      | .encode => encrypt algo lib (writeDst dir) len c
      | .decode => decrypt algo lib (writeDst dir) len c
    (result, c.free input)

end Crypto

/-! ## compress -/

namespace Compress

inductive Algo where
  | rle
  | zstd
  | snappy
  | gzip
  | lz4
  | brotli
  | lzo
  | lzma
deriving DecidableEq, Repr

def Z_STREAM_END : Int := 1
def Z_BUF_ERROR : Int := -5
def MAX_GZIP_DECOMP : Nat := 4 * 1024 * 1024

/-- The outcome of an `inflate` call with the fields of the stream behind it. -/
structure Inflated where
  ret : Int
  availOut : Nat
  totalOut : Nat
deriving DecidableEq, Repr

structure Library where
  /-- `deflateInit2` or `inflateInit2`. -/
  initOk : Bool
  /-- The bound on the compressed size. -/
  bound : Nat
  /-- The length of the compressed packet. -/
  compressed : Option Nat
  /-- The decompressed size that the packet announces. -/
  announced : Option Nat
  /-- The length of the decompressed packet. -/
  decompressed : Option Nat
  inflated : List Inflated
deriving DecidableEq, Repr

/-- `maxOut`. -/
def maxOut (algo : Algo) (lib : Library) (srcLen : Nat) : Nat :=
  match algo with
  | .rle => srcLen * 2 + 64
  | .lzo => srcLen + srcLen / 16 + 64 + 3
  | .lzma => srcLen + srcLen + 65536
  | .zstd | .snappy | .gzip | .lz4 | .brotli => lib.bound

/-- The end of `process`: a buffer with `outLen` bytes in it. -/
def finish (dir : Dir) (input outBuf outLen : Nat) (c : Call) : Int × Call :=
  if outLen = 0 ∨ outLen > 0x7FFFFFFF then (-1, c.free outBuf)
  else (c.free input).writePacket (writeDst dir) outBuf outLen

/-- A library that writes to a buffer of `cap` bytes in one call. -/
def oneShot (dir : Dir) (cap : Nat) (outLen : Option Nat) (input : Nat) (c : Call) : Int × Call :=
  let (outBuf, c) := c.malloc cap
  match outLen with
  | none => (-1, c.free outBuf)
  | some outLen => finish dir input outBuf outLen c

def compress (algo : Algo) (lib : Library) (input srcLen : Nat) (c : Call) : Int × Call :=
  if algo = .gzip ∧ ¬lib.initOk then (-1, c)
  else oneShot .encode (maxOut algo lib srcLen) lib.compressed input c

/-- The loop around `inflate`, which doubles the buffer when it is full; `none` is a call
that is still running after all given outcomes. -/
def inflateLoop (input : Nat) : List Inflated → Nat → Nat → Call → Option (Int × Call)
  | [], _, _, _ => none
  | r :: rest, cap, outBuf, c =>
      if r.ret = Z_STREAM_END then some (finish .decode input outBuf r.totalOut c)
      else if r.ret = Z_BUF_ERROR ∧ r.availOut = 0 then
        if r.totalOut ≥ MAX_GZIP_DECOMP then some (-1, c.free outBuf)
        else
          let (newBuf, c) := c.malloc (cap * 2)
          inflateLoop input rest (cap * 2) newBuf (c.free outBuf)
      else some (-1, c.free outBuf)

def decompress (algo : Algo) (lib : Library) (input srcLen : Nat) (c : Call) :
    Option (Int × Call) :=
  match algo with
  | .zstd => some (oneShot .decode (lib.announced.getD (srcLen * 3 + 65536)) lib.decompressed input c)
  | .snappy =>
      match lib.announced with
      | none => some (-1, c)
      | some uncompLen => some (oneShot .decode uncompLen lib.decompressed input c)
  | .gzip =>
      let cap := srcLen * 3 / 2 + 65536
      let (outBuf, c) := c.malloc cap
      if lib.initOk then inflateLoop input lib.inflated cap outBuf c
      else some (-1, c.free outBuf)
  | .rle =>
      match lib.announced with
      | none | some 0 => some (-1, c)
      | some decompSize => some (oneShot .decode decompSize lib.decompressed input c)
  | .brotli => some (oneShot .decode (srcLen * 3 + 65536) lib.decompressed input c)
  | .lz4 | .lzo | .lzma => some (oneShot .decode (srcLen * 3) lib.decompressed input c)

def process (algo : Algo) (lib : Library) (dir : Dir) (input len : Nat) (c : Call) :
    Option (Int × Call) :=
  if len ≤ 0 then some (-1, c)
  else
    match dir with
    | .encode => some (compress algo lib input len c)
    | .decode => decompress algo lib input len c

end Compress

/-! ## split -/

namespace SplitModule

open Split

/-- The context together with the buffer behind each slot of `pending`. -/
structure State where
  ctx : SplitContext
  bufs : Nat → Nat

def State.queue (st : State) : List Nat := st.ctx.pending.entries.map fun e => st.bufs e.1

/-- The chunks of `process_split`: a buffer for each of them. -/
def writeChunks : List Split.Write → Call → Call
  | [], c => c
  | (dst, bytes) :: rest, c =>
      let (outBuf, c) := c.malloc bytes.length
      writeChunks rest (c.writePacket dst outBuf bytes.length).2

def processSplit (rand : Nat → Nat) (st : State) (input : Nat) (data : Bytes) (c : Call) :
    State × Int × Call :=
  if data = [] then (st, 0, c)
  else
    let (ctx, chunks) := Split.processSplit rand st.ctx data
    ({ st with ctx := ctx }, 0, (writeChunks chunks c).free input)

/-- The slots that a flush takes out, one after the other. -/
def freeSlots (st : State) : List (Nat × SlotEntry) → Call → Call
  | [], c => c
  | e :: rest, c => freeSlots st rest (c.free (st.bufs e.1))

/-- The reassembly loop of `process_merge`; `none` is a loop that is still running. -/
def mergeLoop : Nat → State → Call → Option (State × Call)
  | 0, _, _ => none
  | fuel + 1, st, c =>
      let key := slotKey st.ctx.expPkt st.ctx.expChunk
      match st.ctx.pending.find? key with
      | none => some (st, c)
      | some se =>
          if se.more then mergeLoop fuel { st with ctx := nextChunk st.ctx } c
          else
            let total := (flushBytes st.ctx).length
            let (outBuf, c) := c.malloc total
            let c := freeSlots st (st.ctx.pending.range (st.ctx.expPkt <<< 16) key) c
            mergeLoop fuel { st with ctx := afterFlush st.ctx } (c.writePacket 0 outBuf total).2

/-- `process_merge`. A second chunk with the same key releases the first one. -/
def processMerge (fuel : Nat) (st : State) (input : Nat) (data : Bytes) (c : Call) :
    Option (State × Int × Call) :=
  if data = [] then some (st, 0, c)
  else if data.length < HEADER_SIZE then some (st, 0, c.free input)
  else
    let hdr := readHeader data
    let wireId := hdr &&& 0x7FFF
    let more := (hdr >>> 15) &&& 1
    let chunkId := (hdr >>> 16) &&& 0xFFFF
    let pktFull := expandPkt st.ctx.expPkt wireId
    let payload := data.drop HEADER_SIZE
    if pktFull < st.ctx.expPkt then
      some ({ st with ctx := loseChunk st.ctx }, 0, c.free input)
    else
      let key := slotKey pktFull chunkId
      let c := if (st.ctx.pending.find? key).isSome then c.free (st.bufs key) else c
      let (buf, c) := c.malloc payload.length
      let entry : SlotEntry := ⟨payload, payload.length % 2 ^ 32, more ≠ 0⟩
      let st : State :=
        { ctx := storeChunk st.ctx pktFull chunkId entry
          bufs := Function.update st.bufs key buf }
      match mergeLoop fuel st c with
      | none => none
      | some (st, c) => some (st, 0, c.free input)

end SplitModule

/-! ## All modules -/

/-- A module in some state, with the outcomes of what it asks of others. -/
inductive Invocation where
  | split (rand : Nat → Nat) (fuel : Nat) (st : SplitModule.State)
  | limit (hasTokens appendOk : Bool) (ctx : Limit.LimitCtx)
  | crypto (algo : Crypto.Algorithm) (lib : Crypto.Library)
  | compress (algo : Compress.Algo) (lib : Compress.Library)
  | base64 (lib : Base64.Library)

/-- What a call of `process` leaves behind; `queue` lists the buffers in the module's queue. -/
structure Result where
  ret : Int
  call : Call
  queue : List Nat
deriving DecidableEq, Repr

namespace Invocation

/-- The buffers in the module's queue before the call. -/
def queue : Invocation → List Nat
  | .split _ _ st => st.queue
  | .limit _ _ ctx => ctx.queue
  | .crypto _ _ | .compress _ _ | .base64 _ => []

/-- `process_fn`; `none` is a call that does not return. -/
def process (inv : Invocation) (dir : Dir) (srcIdx : Int) (input : Nat) (data : Bytes) (c : Call) :
    Option Result :=
  match inv with
  | .split rand fuel st =>
      match dir with
      | .encode =>
          let (st, ret, c) := SplitModule.processSplit rand st input data c
          some ⟨ret, c, st.queue⟩
      | .decode =>
          (SplitModule.processMerge fuel st input data c).map fun (st, ret, c) => ⟨ret, c, st.queue⟩
  | .limit hasTokens appendOk ctx =>
      let (ctx, ret, c) := Limit.process hasTokens appendOk ctx dir srcIdx input data.length c
      some ⟨ret, c, ctx.queue⟩
  | .crypto algo lib =>
      let (ret, c) := Crypto.process algo lib dir input data.length c
      some ⟨ret, c, []⟩
  | .compress algo lib =>
      (Compress.process algo lib dir input data.length c).map fun (ret, c) => ⟨ret, c, []⟩
  | .base64 lib =>
      let (ret, c) := Base64.process lib dir input data.length c
      some ⟨ret, c, []⟩

end Invocation

end PipelineTunnel.Modules
