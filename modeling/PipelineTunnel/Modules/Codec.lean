import PipelineTunnel.Modules.Model
import PipelineTunnel.Modules.Rle

/-!
# What `compress` makes of a packet

`process` of `modules/compress/compress.nim` with the bytes that go in and come out. The
algorithms differ in how large a buffer they give to the decoder: the size that the data
announces (zstd, snappy, rle), a multiple of the size of the compressed data (lz4, brotli,
lzo, lzma), or a buffer that is doubled while it is too small (gzip). A multiple is not
enough for data that compresses well.

## Implementation notes

A `Library` gives the functions that are loaded at run time; `Library.Codes` says what the
module relies on for one packet. Allocation succeeds. With the bounds that the libraries
document, no size reaches `2^31`, so the casts to `cint` and `cuint` change nothing. The
loop around `inflate` has a bound on its rounds, beyond which the call is still running.
-/

namespace PipelineTunnel.Modules.Codec

open Pipeline (Dir)
open Compress (Algo Z_STREAM_END Z_BUF_ERROR MAX_GZIP_DECOMP)

/-- The functions of a compression library. -/
structure Library where
  /-- The bound on the compressed size. -/
  bound : Nat → Nat
  /-- The encoder with the size of its output buffer. -/
  encode : Bytes → Nat → Option Bytes
  /-- The decoder with the size of its output buffer. -/
  decode : Bytes → Nat → Option Bytes
  /-- The decompressed size that the data announces. -/
  announced : Bytes → Option Nat
  /-- `inflateInit2`. -/
  initOk : Bool
  /-- `inflate` with the bytes it has put out before and the room behind them: its return
  value and the bytes it puts out now. -/
  inflate : Bytes → Bytes → Nat → Int × Bytes

/-- A packet is handed to `write_packet`, or the call fails. -/
inductive Outcome where
  | emits (data : Bytes)
  | fails
deriving DecidableEq, Repr

def maxOut (algo : Algo) (lib : Library) (srcLen : Nat) : Nat :=
  match algo with
  | .rle => srcLen * 2 + 64
  | .lzo => srcLen + srcLen / 16 + 64 + 3
  | .lzma => srcLen + srcLen + 65536
  | .zstd | .snappy | .gzip | .lz4 | .brotli => lib.bound srcLen

/-- The end of `process`. -/
def finish (out : Bytes) : Outcome :=
  if out.length = 0 ∨ out.length > 0x7FFFFFFF then .fails else .emits out

/-- A library call that fills the buffer or fails. -/
def oneShot : Option Bytes → Outcome
  | none => .fails
  | some out => finish out

/-- The same for the run-length coder with its return value. -/
def returned : Int × Bytes → Outcome
  | (ret, out) => if ret ≠ 0 then .fails else finish out

def compress (algo : Algo) (lib : Library) (src : Bytes) : Option Outcome :=
  match algo with
  | .rle => (Rle.rleCompress src (maxOut algo lib src.length)).map returned
  | .zstd | .snappy | .gzip | .lz4 | .brotli | .lzo | .lzma =>
      some (oneShot (lib.encode src (maxOut algo lib src.length)))

/-- The loop around `inflate`; `written` is what the buffer of `cap` bytes holds. -/
def inflateLoop (lib : Library) (src : Bytes) : Nat → Nat → Bytes → Option Outcome
  | 0, _, _ => none
  | rounds + 1, cap, written =>
      let (ret, more) := lib.inflate src written (cap - written.length)
      let written := written ++ more
      let availOut := cap - written.length
      if ret = Z_STREAM_END then some (finish written)
      else if ret = Z_BUF_ERROR ∧ availOut = 0 then
        if written.length ≥ MAX_GZIP_DECOMP then some .fails
        else inflateLoop lib src rounds (cap * 2) written
      else some .fails

def decompress (algo : Algo) (lib : Library) (rounds : Nat) (src : Bytes) : Option Outcome :=
  match algo with
  | .zstd =>
      some (oneShot (lib.decode src ((lib.announced src).getD (src.length * 3 + 65536))))
  | .snappy =>
      match lib.announced src with
      | none => some .fails
      | some uncompLen => some (oneShot (lib.decode src uncompLen))
  | .gzip =>
      if lib.initOk then inflateLoop lib src rounds (src.length * 3 / 2 + 65536) []
      else some .fails
  | .rle =>
      match Rle.rleDecompressSize src with
      | none => none
      | some 0 => some .fails
      | some decompSize => (Rle.rleDecompress src decompSize).map returned
  | .brotli => some (oneShot (lib.decode src (src.length * 3 + 65536)))
  | .lz4 | .lzo | .lzma => some (oneShot (lib.decode src (src.length * 3)))

def process (algo : Algo) (lib : Library) (rounds : Nat) (dir : Dir) (src : Bytes) :
    Option Outcome :=
  if src.length ≤ 0 then some .fails
  else
    match dir with
    | .encode => compress algo lib src
    | .decode => decompress algo lib rounds src

/-- What the module relies on: for the packet `x` the encoder returns some data `y` within
the bound, and the decoder gives `x` back when it has room for it and fails otherwise. -/
structure Library.Codes (lib : Library) (algo : Algo) (x y : Bytes) : Prop where
  encode : lib.encode x (maxOut algo lib x.length) = some y
  nonempty : y ≠ []
  within : y.length ≤ maxOut algo lib x.length
  bound : lib.bound x.length ≤ x.length * 2 + 65536
  decode : ∀ cap, lib.decode y cap = if x.length ≤ cap then some x else none
  announced : algo = .zstd ∨ algo = .snappy → lib.announced y = some x.length
  initOk : algo = .gzip → lib.initOk = true
  inflate : algo = .gzip → ∀ k room, lib.inflate y (x.take k) room =
    if (x.drop k).length ≤ room then (Z_STREAM_END, x.drop k)
    else (Z_BUF_ERROR, (x.drop k).take room)

/-- The two ends of the tunnel give the packet back. -/
def RoundTrips (algo : Algo) (lib : Library) (x : Bytes) : Prop :=
  ∃ rounds y, process algo lib rounds .encode x = some (.emits y) ∧
    process algo lib rounds .decode y = some (.emits x)

/-- The decoder gets a buffer that holds the packet: `m` bytes are decoded to `n`. -/
def Fits (algo : Algo) (n m : Nat) : Prop :=
  match algo with
  | .lz4 | .lzo | .lzma => n ≤ m * 3
  | .brotli => n ≤ m * 3 + 65536
  | .zstd | .snappy | .gzip | .rle => True

section

variable {algo : Algo} {lib : Library} {x y : Bytes}

theorem finish_emits {out : Bytes} (hpos : 1 ≤ out.length) (hmax : out.length ≤ 0x7FFFFFFF) :
    finish out = .emits out := by
  rw [finish, if_neg]
  omega

theorem Library.Codes.compress (h : lib.Codes algo x y) (halgo : algo ≠ .rle)
    (hmax : x.length ≤ 131072) : Codec.compress algo lib x = some (.emits y) := by
  have hwithin := h.within
  have hbound := h.bound
  have hlen : y.length ≤ x.length * 2 + 65536 := by
    cases algo <;> simp only [maxOut] at hwithin <;> omega
  have hemits := finish_emits (List.length_pos_iff.mpr h.nonempty)
    (by omega : y.length ≤ 0x7FFFFFFF)
  have hencode := h.encode
  cases algo with
  | rle => exact absurd rfl halgo
  | zstd | snappy | gzip | lz4 | brotli | lzo | lzma =>
      rw [Codec.compress, hencode, oneShot, hemits]

/-- A decoder that is called once gives the packet back exactly when it has room for it. -/
theorem Library.Codes.oneShot_decode (h : lib.Codes algo x y) (hpos : 1 ≤ x.length)
    (hmax : x.length ≤ 131072) (cap : Nat) :
    oneShot (lib.decode y cap) = .emits x ↔ x.length ≤ cap := by
  rw [h.decode]
  split_ifs with hfits
  · rw [oneShot, finish_emits hpos (by omega)]
    exact iff_of_true rfl hfits
  · rw [oneShot]
    exact iff_of_false (nofun) hfits

/-- The first buffer or the one of twice its size is large enough. -/
theorem Library.Codes.inflateLoop (h : lib.Codes .gzip x y) (hpos : 1 ≤ x.length)
    (hmax : x.length ≤ 131072) :
    Codec.inflateLoop lib y 2 (y.length * 3 / 2 + 65536) [] = some (.emits x) := by
  have hinflate := h.inflate rfl
  have hemits := finish_emits hpos (by omega)
  have hfirst := hinflate 0 (y.length * 3 / 2 + 65536)
  rw [List.take_zero, List.drop_zero] at hfirst
  rw [Codec.inflateLoop]
  simp only [List.length_nil, Nat.sub_zero, hfirst, List.nil_append]
  by_cases hfits : x.length ≤ y.length * 3 / 2 + 65536
  · simp only [if_pos hfits, if_true, hemits]
  · have hfull : (x.take (y.length * 3 / 2 + 65536)).length = y.length * 3 / 2 + 65536 := by
      rw [List.length_take]
      omega
    have hsecond := hinflate (y.length * 3 / 2 + 65536)
      ((y.length * 3 / 2 + 65536) * 2 - (y.length * 3 / 2 + 65536))
    rw [List.length_drop, if_pos (by omega)] at hsecond
    simp only [if_neg hfits]
    rw [if_neg (by decide), if_pos ⟨trivial, by omega⟩, if_neg (by rw [MAX_GZIP_DECOMP]; omega),
      Codec.inflateLoop]
    simp only [hfull, hsecond, List.take_append_drop, if_true, hemits]

/-- The buffer for the decoder is the only obstacle. -/
theorem Library.Codes.decompress_iff (h : lib.Codes algo x y) (halgo : algo ≠ .rle)
    (hpos : 1 ≤ x.length) (hmax : x.length ≤ 131072) :
    (∃ rounds, decompress algo lib rounds y = some (.emits x)) ↔ Fits algo x.length y.length := by
  have honce : ∀ cap, (∃ _ : Nat, some (oneShot (lib.decode y cap)) = some (.emits x)) ↔
      x.length ≤ cap := by
    intro cap
    rw [exists_const, Option.some.injEq]
    exact h.oneShot_decode hpos hmax cap
  cases algo with
  | rle => exact absurd rfl halgo
  | zstd =>
      simp only [decompress, h.announced (.inl rfl), Option.getD_some]
      exact iff_of_true ((honce _).mpr (Nat.le_refl _)) trivial
  | snappy =>
      simp only [decompress, h.announced (.inr rfl)]
      exact iff_of_true ((honce _).mpr (Nat.le_refl _)) trivial
  | gzip =>
      refine iff_of_true ⟨2, ?_⟩ trivial
      rw [decompress, if_pos (h.initOk rfl)]
      exact h.inflateLoop hpos hmax
  | lz4 => exact honce _
  | brotli => exact honce _
  | lzo => exact honce _
  | lzma => exact honce _

/-- The encoder's side always succeeds, so the round trip is up to the decoder's. -/
theorem Library.Codes.roundTrips_iff (h : lib.Codes algo x y) (halgo : algo ≠ .rle)
    (hpos : 1 ≤ x.length) (hmax : x.length ≤ 131072) :
    RoundTrips algo lib x ↔ ∃ rounds, decompress algo lib rounds y = some (.emits x) := by
  have hy : ¬ y.length ≤ 0 := by
    have := List.length_pos_iff.mpr h.nonempty
    omega
  constructor
  · rintro ⟨rounds, z, hencode, hdecode⟩
    rw [process, if_neg (by omega)] at hencode
    obtain rfl : y = z := by simpa [h.compress halgo hmax] using hencode
    refine ⟨rounds, ?_⟩
    rwa [process, if_neg hy] at hdecode
  · rintro ⟨rounds, hdecode⟩
    refine ⟨rounds, y, ?_, ?_⟩
    · rw [process, if_neg (by omega)]
      exact h.compress halgo hmax
    · rw [process, if_neg hy]
      exact hdecode

/-- Each library-backed algorithm gives a packet back exactly when the buffer that it gives
to the decoder is large enough: always for zstd, snappy and gzip, up to three times the
compressed size for lz4, lzo and lzma, and 65536 bytes more for brotli. -/
theorem compression_roundTrips_iff (halgo : algo ≠ .rle) (hpos : 1 ≤ x.length)
    (hmax : x.length ≤ 131072) (hlib : lib.Codes algo x y) :
    RoundTrips algo lib x ↔ Fits algo x.length y.length := by
  rw [hlib.roundTrips_iff halgo hpos hmax, hlib.decompress_iff halgo hpos hmax]

end

/-- The behaviour of `liblz4` on one packet `x` that it compresses to `y`. -/
def lz4On (x y : Bytes) : Library where
  bound n := n + n / 255 + 16
  encode src cap := if src = x ∧ y.length ≤ cap then some y else none
  decode src cap := if src = y ∧ x.length ≤ cap then some x else none
  announced _ := none
  initOk := false
  inflate _ _ _ := (0, [])

theorem lz4On_codes {x y : Bytes} (hne : y ≠ [])
    (hbound : y.length ≤ x.length + x.length / 255 + 16) : (lz4On x y).Codes .lz4 x y where
  encode := if_pos ⟨rfl, hbound⟩
  nonempty := hne
  within := hbound
  bound := by
    simp only [lz4On]
    omega
  decode cap := by simp [lz4On]
  announced := by simp
  initOk := nofun
  inflate := nofun

/-- Four bytes that lz4 keeps as they are. -/
theorem compression_roundTrips_literals :
    (lz4On [1, 2, 3, 4] [0x40, 1, 2, 3, 4]).Codes .lz4 [1, 2, 3, 4] [0x40, 1, 2, 3, 4] ∧
      RoundTrips .lz4 (lz4On [1, 2, 3, 4] [0x40, 1, 2, 3, 4]) [1, 2, 3, 4] := by
  have hlib := lz4On_codes (x := [1, 2, 3, 4]) (y := [0x40, 1, 2, 3, 4]) (by decide) (by decide)
  refine ⟨hlib, (compression_roundTrips_iff (by decide) (by decide) (by decide) hlib).mpr ?_⟩
  change 4 ≤ 5 * 3
  decide

/-- A hundred zero bytes as an lz4 block: a literal, a match of 94 bytes and five literals. -/
def zerosBlock : Bytes := [0x1F, 0, 1, 0, 0x4B, 0x50, 0, 0, 0, 0, 0]

/-- lz4 makes eleven bytes of a hundred zero bytes; the decoder then gets room for 33. -/
theorem compression_loses_zeros :
    ¬ ∀ (algo : Algo) (lib : Library) (x y : Bytes), algo ≠ .rle → 1 ≤ x.length →
      x.length ≤ 131072 → lib.Codes algo x y → RoundTrips algo lib x := by
  intro hall
  have hlib := lz4On_codes (x := List.replicate 100 0) (y := zerosBlock) (by decide) (by decide)
  have hback := hall .lz4 _ _ _ (by decide) (by decide) (by decide) hlib
  rw [hlib.roundTrips_iff (by decide) (by decide) (by decide),
    hlib.decompress_iff (by decide) (by decide) (by decide)] at hback
  revert hback
  change ¬ 100 ≤ 11 * 3
  decide

end PipelineTunnel.Modules.Codec
