import PipelineTunnel.Split.Model

/-!
# The packet number of a chunk

A chunk carries 15 bits of its packet number, and `process_merge` finds the number with
these bits that is closest to the one it expects. The two comparisons and the test for
orphans compare values of the type `uint32_t`, whose sums wrap around. In all but the first
and the last `2^15` numbers nothing wraps.
-/

namespace PipelineTunnel.Split

/-- The packet number at the distance `d` from the expected one, as `pkt_seq` counts. -/
def numberAt (expPkt : Nat) (d : Int) : Nat := (((expPkt : Int) + d) % 2 ^ 32).toNat

/-- A chunk of packet `pktId`. -/
def chunkOf (pktId : Nat) (more : Bool) (chunkId : Nat) (payload : Bytes) : Bytes :=
  headerBytes (encodeHdr pktId more chunkId) ++ payload

/-- `process_merge` finds the number of a chunk at the distance `d`, and counts it as lost
exactly when its packet is before the expected one. -/
structure Recognised (ctx : SplitContext) (d : Int) (data : Bytes) : Prop where
  expands : expandPkt ctx.expPkt (readHeader data &&& 0x7FFF) = numberAt ctx.expPkt d
  orphan : processMerge ctx data = some (loseChunk ctx, []) ↔ d < 0

/-- The numbers are counted up without passing `2^32`, and the sums with half a window stay
below it too: in the last block both numbers are in its first half. -/
def Reliable (expPkt : Nat) (d : Int) : Prop :=
  0 ≤ expPkt + d ∧
    (expPkt < 2 ^ 32 - 32768 ∨
      expPkt < 2 ^ 32 - 16384 ∧ 2 ^ 32 - 32768 ≤ expPkt + d ∧ expPkt + d < 2 ^ 32 - 16384)

instance (expPkt : Nat) (d : Int) : Decidable (Reliable expPkt d) :=
  inferInstanceAs (Decidable (_ ∧ _))

/-! ## The test for orphans -/

theorem mergeLoop_chunksLost (fuel : Nat) : ∀ {ctx ctx' : SplitContext} {ws : List Write},
    mergeLoop fuel ctx = some (ctx', ws) → ctx'.chunksLost = ctx.chunksLost := by
  induction fuel with
  | zero =>
      intro ctx ctx' ws h
      cases h
  | succ fuel ih =>
      intro ctx ctx' ws h
      rw [mergeLoop] at h
      split at h
      · obtain ⟨rfl, -⟩ := Prod.mk.inj (Option.some.inj h)
        rfl
      · split_ifs at h
        · exact @ih (nextChunk ctx) _ _ h
        · obtain ⟨⟨ctx₁, ws₁⟩, hrun, heq⟩ := Option.map_eq_some_iff.mp h
          obtain ⟨rfl, -⟩ := Prod.mk.inj heq
          exact @ih (afterFlush ctx) _ _ hrun

/-- A chunk is lost exactly when its number is below the expected one. -/
theorem processMerge_lost_iff (ctx : SplitContext) {data : Bytes}
    (hlen : HEADER_SIZE ≤ data.length) :
    processMerge ctx data = some (loseChunk ctx, []) ↔
      expandPkt ctx.expPkt (readHeader data &&& 0x7FFF) < ctx.expPkt := by
  simp only [processMerge, if_neg (Nat.not_lt.mpr hlen)]
  constructor
  · intro hlost
    by_contra hkept
    rw [if_neg hkept] at hlost
    have hsame := mergeLoop_chunksLost _ hlost
    simp only [loseChunk, storeChunk] at hsame
    omega
  · intro horphan
    rw [if_pos horphan]

/-! ## The expansion -/

theorem expandPkt_wireBits {expPkt : Nat} (hexp : expPkt < 2 ^ 32) (k : Nat) :
    expandPkt expPkt (k % 32768) =
      let pktFull := expPkt / 32768 * 32768 + k % 32768
      if (pktFull + 16384) % 2 ^ 32 < expPkt then (pktFull + 32768) % 2 ^ 32
      else if pktFull ≥ (expPkt + 16384) % 2 ^ 32 then (pktFull + (2 ^ 32 - 32768)) % 2 ^ 32
      else pktFull := by
  have hbase : expPkt &&& 0xFFFF8000 = expPkt / 32768 * 32768 :=
    Bits.and_highMask (k := 15) (n := 32) (by decide) (by omega)
  have hor : expPkt / 32768 * 32768 ||| k % 32768 = expPkt / 32768 * 32768 + k % 32768 := by
    have h := Bits.shiftLeft_or (k := 15) (Nat.mod_lt k (by decide)) (expPkt / 32768)
    rw [Nat.shiftLeft_eq] at h
    exact h
  simp only [expandPkt, hbase, hor]

/-- Both comparisons and the test for orphans come out right exactly for these numbers. -/
theorem expandPkt_right_iff {expPkt : Nat} (hexp : expPkt < 2 ^ 32) {d : Int} (hlo : -16384 ≤ d)
    (hhi : d ≤ 16383) :
    (expandPkt expPkt (numberAt expPkt d % 32768) = numberAt expPkt d ∧
      (expandPkt expPkt (numberAt expPkt d % 32768) < expPkt ↔ d < 0)) ↔
      Reliable expPkt d := by
  rw [expandPkt_wireBits hexp, Reliable, numberAt]
  dsimp only
  split_ifs <;> omega

theorem wireBits_chunkOf (pktId : Nat) (more : Bool) {chunkId : Nat} (h : chunkId < 65536)
    (payload : Bytes) :
    readHeader (chunkOf pktId more chunkId payload) &&& 0x7FFF = pktId % 32768 :=
  (header_fields pktId more h payload).1

theorem header_le_chunkOf (pktId : Nat) (more : Bool) (chunkId : Nat) (payload : Bytes) :
    HEADER_SIZE ≤ (chunkOf pktId more chunkId payload).length := by
  simp [chunkOf, headerBytes, HEADER_SIZE]

/-- A chunk within half a window of the expected packet is recognised exactly when neither
its number nor a sum of the comparisons passes `2^32`. -/
theorem packetNumber_recognised_iff (ctx : SplitContext) (hexp : ctx.expPkt < 2 ^ 32) {d : Int}
    (hlo : -16384 ≤ d) (hhi : d ≤ 16383) (more : Bool) {chunkId : Nat} (hchunk : chunkId < 65536)
    (payload : Bytes) :
    Recognised ctx d (chunkOf (numberAt ctx.expPkt d) more chunkId payload) ↔
      Reliable ctx.expPkt d := by
  have hbits := wireBits_chunkOf (numberAt ctx.expPkt d) more hchunk payload
  have hlost := processMerge_lost_iff ctx
    (header_le_chunkOf (numberAt ctx.expPkt d) more chunkId payload)
  rw [hbits] at hlost
  rw [← expandPkt_right_iff hexp hlo hhi]
  constructor
  · rintro ⟨hexpands, horphan⟩
    rw [hbits] at hexpands
    exact ⟨hexpands, hlost.symm.trans horphan⟩
  · rintro ⟨hexpands, horphan⟩
    exact ⟨hbits ▸ hexpands, hlost.trans horphan⟩

/-- The packet behind the next one, across a block boundary. -/
theorem packetNumber_recognised_iff_block :
    Recognised { expPkt := 32767 } 2 (chunkOf 32769 false 0 [7]) :=
  (packetNumber_recognised_iff { expPkt := 32767 } (by decide) (by decide) (by decide) false
    (by decide) [7]).mpr (by decide)

/-- Half a window before `2^32` the expected packet is taken for an orphan. -/
theorem packetNumber_misread :
    ¬ ∀ (ctx : SplitContext) (d : Int) (more : Bool) (chunkId : Nat) (payload : Bytes),
      ctx.expPkt < 2 ^ 32 → -16384 ≤ d → d ≤ 16383 → chunkId < 65536 →
        Recognised ctx d (chunkOf (numberAt ctx.expPkt d) more chunkId payload) := by
  intro hall
  have hexpected := hall { expPkt := 2 ^ 32 - 16384 } 0 false 0 [7] (by decide) (by decide)
    (by decide) (by decide)
  have hlost := processMerge_lost_iff { expPkt := 2 ^ 32 - 16384 }
    (header_le_chunkOf (2 ^ 32 - 16384) false 0 [7])
  exact absurd (hexpected.orphan.mp (hlost.mpr (by decide))) (by decide)

end PipelineTunnel.Split
