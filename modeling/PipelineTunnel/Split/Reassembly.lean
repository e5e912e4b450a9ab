import PipelineTunnel.Split.Model
import PipelineTunnel.Lib.StepSystem
import Mathlib.Data.List.Induction

/-!
# Splitting and merging a packet stream

`process_split` cuts every packet into non-empty pieces; `process_merge` puts
them together under any arrival order, with repetitions, as long as the packet
number of every arriving chunk is within half a window of the expected one.

## Implementation notes

The merge side is described against the table of pieces: `Reassembles` says that
every slot of `pending` holds the piece its key names, that every arrived chunk of
an unfinished packet is there, and that the cursor has passed only held pieces.
-/

namespace PipelineTunnel.Split

open StepSystem

/-! ## Cutting a packet -/

/-- What `init` guarantees about a context, and `process_split` keeps. -/
structure SplitContext.Configured (ctx : SplitContext) : Prop where
  outputs : 1 ≤ ctx.numOutputs
  minSize : 64 ≤ ctx.chunkSizeMin
  sizeRange : ctx.chunkSizeMin ≤ ctx.chunkSizeMax
  maxSize : ctx.chunkSizeMax ≤ 65536
  chunkIdx : ctx.chunkIdx = 0

/-- The pieces of a packet. -/
structure Pieces (data : Bytes) (ps : List Bytes) : Prop where
  ne_nil : ps ≠ []
  piece_ne_nil : ∀ p ∈ ps, p ≠ []
  flatten : ps.flatten = data
  length_le : ps.length ≤ MAX_CHUNKS_PER_PASS

/-- The bytes of chunk `j` of the `total` chunks of packet `pkt`. -/
def chunkAt (pkt total j : Nat) (piece : Bytes) : Bytes :=
  headerBytes (encodeHdr pkt (decide (j + 1 < total)) j) ++ piece

theorem nextChunkSize_pos {ctx : SplitContext} (h : 1 ≤ ctx.chunkSizeMin) (rand : Nat) :
    1 ≤ nextChunkSize ctx rand := by
  simp only [nextChunkSize]
  split <;> omega

/-- A chunk takes at least one byte and never more than there are; the chunk with
the last number takes all of them. -/
theorem chunkLen_bounds (rand : Nat → Nat) {ctx : SplitContext} (h : 1 ≤ ctx.chunkSizeMin)
    (chunks : Nat) {remain : Nat} (hpos : 0 < remain) :
    1 ≤ chunkLen rand ctx chunks remain ∧ chunkLen rand ctx chunks remain ≤ remain ∧
      (chunkLen rand ctx chunks remain < remain → chunks + 1 < MAX_CHUNKS_PER_PASS) := by
  have hsize := nextChunkSize_pos h (rand chunks)
  have hmax : MAX_CHUNKS_PER_PASS = 65536 := rfl
  rw [chunkLen]
  by_cases hlast : chunks ≥ MAX_CHUNKS_PER_PASS - 1
  · rw [if_pos hlast]
    omega
  · rw [if_neg hlast]
    omega

theorem chunkWrite_bytes {ctx : SplitContext} {n : Nat} {rest : Bytes} (total : Nat)
    (hidx : ctx.chunkIdx < MAX_CHUNKS_PER_PASS)
    (hmore : n < rest.length ↔ ctx.chunkIdx + 1 < total) :
    (chunkWrite ctx n rest).2 = chunkAt ctx.pktSeq total ctx.chunkIdx (rest.take n) := by
  simp only [chunkWrite, chunkAt, hmore]
  rw [Nat.mod_eq_of_lt (show ctx.chunkIdx < 2 ^ 16 from hidx)]

theorem chunkWrite_port {ctx : SplitContext} (h : 1 ≤ ctx.numOutputs) (n : Nat) (rest : Bytes) :
    1 ≤ (chunkWrite ctx n rest).1 ∧ (chunkWrite ctx n rest).1 ≤ ctx.numOutputs := by
  have := Nat.mod_lt ctx.rrIdx h
  simp only [chunkWrite]
  omega

theorem afterChunk_chunkIdx {ctx : SplitContext} (h : ctx.chunkIdx < MAX_CHUNKS_PER_PASS) :
    (afterChunk ctx).chunkIdx = ctx.chunkIdx + 1 := by
  simp only [MAX_CHUNKS_PER_PASS] at h
  exact Nat.mod_eq_of_lt (by omega)

theorem splitLoop_nil (rand : Nat → Nat) (fuel : Nat) (ctx : SplitContext) (chunks : Nat) :
    splitLoop rand fuel ctx chunks [] = (ctx, []) := by
  cases fuel <;> simp [splitLoop]

/-- The fields of a context that the split loop only reads. -/
def SameSettings (a b : SplitContext) : Prop :=
  a.pktSeq = b.pktSeq ∧ a.numOutputs = b.numOutputs ∧
    a.chunkSizeMin = b.chunkSizeMin ∧ a.chunkSizeMax = b.chunkSizeMax

/-- The loop cuts the rest of the packet and numbers the chunks on from `chunks`. -/
theorem splitLoop_spec (rand : Nat → Nat) (fuel : Nat) : ∀ (ctx : SplitContext) (chunks : Nat)
    (rest : Bytes), rest ≠ [] → rest.length ≤ fuel → 1 ≤ ctx.chunkSizeMin →
    1 ≤ ctx.numOutputs → ctx.chunkIdx = chunks → chunks < MAX_CHUNKS_PER_PASS →
    ∃ ps : List Bytes, ps ≠ [] ∧ (∀ p ∈ ps, p ≠ []) ∧ ps.flatten = rest ∧
      chunks + ps.length ≤ MAX_CHUNKS_PER_PASS ∧
      (splitLoop rand fuel ctx chunks rest).2.map Prod.snd =
        ps.mapIdx (fun i p => chunkAt ctx.pktSeq (chunks + ps.length) (chunks + i) p) ∧
      (∀ w ∈ (splitLoop rand fuel ctx chunks rest).2, 1 ≤ w.1 ∧ w.1 ≤ ctx.numOutputs) ∧
      SameSettings (splitLoop rand fuel ctx chunks rest).1 ctx := by
  induction fuel with
  | zero =>
      intro ctx chunks rest hne hfuel
      exact absurd (List.length_eq_zero_iff.mp (Nat.le_zero.mp hfuel)) hne
  | succ fuel ih =>
      intro ctx chunks rest hne hfuel hmin hout hidx hmax
      obtain ⟨hge, hle, hlast⟩ :=
        chunkLen_bounds rand hmin chunks (List.length_pos_iff.mpr hne)
      simp only [splitLoop, if_neg hne]
      generalize chunkLen rand ctx chunks rest.length = n at hge hle hlast
      have hport := chunkWrite_port hout n rest
      subst hidx
      rcases Nat.lt_or_eq_of_le hle with hlt | rfl
      · -- more bytes follow: the remaining chunks come from the recursive call
        have hne' : rest.drop n ≠ [] := by
          rw [Ne, List.drop_eq_nil_iff]; omega
        obtain ⟨ps, hps, hpiece, hflat, hcount, hbytes, hports, hsame⟩ :=
          ih (afterChunk ctx) (ctx.chunkIdx + 1) (rest.drop n) hne'
            (by rw [List.length_drop]; omega) hmin hout (afterChunk_chunkIdx hmax) (hlast hlt)
        have hpos : 0 < ps.length := List.length_pos_iff.mpr hps
        refine ⟨rest.take n :: ps, by simp, ?_, ?_, ?_, ?_, ?_, hsame⟩
        · intro p hp
          rcases List.mem_cons.mp hp with rfl | hp
          · rw [Ne, List.take_eq_nil_iff]
            rintro (h | h)
            · omega
            · exact hne h
          · exact hpiece p hp
        · rw [List.flatten_cons, hflat, List.take_append_drop]
        · rw [List.length_cons]
          omega
        · have hshift : (fun i p => chunkAt (afterChunk ctx).pktSeq
              (ctx.chunkIdx + 1 + ps.length) (ctx.chunkIdx + 1 + i) p) =
              fun i p => chunkAt ctx.pktSeq (ctx.chunkIdx + (ps.length + 1))
                (ctx.chunkIdx + (i + 1)) p := by
            funext i p
            rw [Nat.add_right_comm _ 1 ps.length, Nat.add_right_comm _ 1 i]
            rfl
          rw [List.map_cons, hbytes, hshift, List.mapIdx_cons, List.length_cons,
            chunkWrite_bytes (ctx.chunkIdx + (ps.length + 1)) hmax (by omega)]
          rfl
        · intro w hw
          rcases List.mem_cons.mp hw with rfl | hw
          · exact hport
          · exact hports w hw
      · -- the last chunk takes everything that is left
        rw [List.drop_length, splitLoop_nil]
        refine ⟨[rest], by simp, by simpa using hne, by simp, Nat.succ_le_of_lt hmax, ?_, ?_,
          rfl, rfl, rfl, rfl⟩
        · rw [List.map_cons, List.map_nil,
            chunkWrite_bytes (ctx.chunkIdx + 1) hmax (by omega), List.take_length]
          rfl
        · intro w hw
          rw [List.mem_singleton.mp hw]
          exact hport

/-- One call of `process_split` writes the pieces of its packet as numbered chunks. -/
theorem processSplit_spec (rand : Nat → Nat) {ctx : SplitContext} (hctx : ctx.Configured)
    {data : Bytes} (hne : data ≠ []) (hlen : data.length < 2 ^ 31) :
    ∃ ps, Pieces data ps ∧
      (processSplit rand ctx data).2.map Prod.snd = ps.mapIdx (chunkAt ctx.pktSeq ps.length) ∧
      (∀ w ∈ (processSplit rand ctx data).2, 1 ≤ w.1 ∧ w.1 ≤ ctx.numOutputs) ∧
      (processSplit rand ctx data).1.pktSeq = (ctx.pktSeq + 1) % 2 ^ 32 ∧
      (processSplit rand ctx data).1.numOutputs = ctx.numOutputs ∧
      (processSplit rand ctx data).1.Configured := by
  have hint : intLen data.length = data.length := by
    rw [intLen, Nat.mod_eq_of_lt (by omega), if_pos hlen]
  obtain ⟨ps, hps, hpiece, hflat, hcount, hbytes, hports, hseq, hout, hmin, hmax⟩ :=
    splitLoop_spec rand data.length ctx 0 data hne (Nat.le_refl _)
      (Nat.le_trans (by decide) hctx.minSize) hctx.outputs hctx.chunkIdx (by decide)
  simp only [processSplit, if_neg hne, hint, List.take_length]
  refine ⟨ps, ⟨hps, hpiece, hflat, by omega⟩, ?_, hports, by rw [hseq], hout, ?_⟩
  · rw [hbytes]
    simp only [Nat.zero_add]
  · exact ⟨hout ▸ hctx.outputs, hmin ▸ hctx.minSize, hmin ▸ hmax ▸ hctx.sizeRange,
      hmax ▸ hctx.maxSize, rfl⟩

/-- Whatever the packet is, the chunks are not empty and go to the outputs. -/
theorem splitLoop_writes (rand : Nat → Nat) (fuel : Nat) : ∀ (ctx : SplitContext) (chunks : Nat)
    (rest : Bytes), 1 ≤ ctx.numOutputs →
    (∀ w ∈ (splitLoop rand fuel ctx chunks rest).2, 1 ≤ w.1 ∧ w.1 ≤ ctx.numOutputs ∧ w.2 ≠ []) ∧
      (splitLoop rand fuel ctx chunks rest).1.numOutputs = ctx.numOutputs := by
  induction fuel with
  | zero => simp [splitLoop]
  | succ fuel ih =>
      intro ctx chunks rest hout
      rw [splitLoop]
      split
      · simp
      · obtain ⟨hwrites, hnum⟩ := ih (afterChunk ctx) (chunks + 1)
          (rest.drop (chunkLen rand ctx chunks rest.length)) hout
        refine ⟨?_, hnum⟩
        intro w hw
        rcases List.mem_cons.mp hw with rfl | hw
        · obtain ⟨hlo, hhi⟩ := chunkWrite_port hout (chunkLen rand ctx chunks rest.length) rest
          exact ⟨hlo, hhi, by simp [chunkWrite, headerBytes]⟩
        · exact hwrites w hw

theorem processSplit_writes (rand : Nat → Nat) {ctx : SplitContext} (hout : 1 ≤ ctx.numOutputs)
    (data : Bytes) :
    (∀ w ∈ (processSplit rand ctx data).2, 1 ≤ w.1 ∧ w.1 ≤ ctx.numOutputs ∧ w.2 ≠ []) ∧
      (processSplit rand ctx data).1.numOutputs = ctx.numOutputs := by
  rw [processSplit]
  split
  · simp
  · exact splitLoop_writes rand _ ctx 0 _ hout

/-! ## The slots of the merge side -/

/-- The slot of a piece: the last piece of a packet has no successor. -/
def slotOf (ps : List Bytes) (j : Nat) (p : Bytes) : SlotEntry :=
  ⟨p, p.length % 2 ^ 32, decide (j + 1 < ps.length)⟩

/-- The limits under which packet numbers and chunk numbers stay exact. -/
structure Bounded (table : List (List Bytes)) : Prop where
  packets : table.length < 2 ^ 32 - 32768
  chunks : ∀ ps ∈ table, ps ≠ [] ∧ ps.length ≤ 65536
  sizes : ∀ ps ∈ table, ∀ p ∈ ps, p.length < 2 ^ 31

/-- The merge side against the table of pieces, after the chunks `arrived`. -/
structure Reassembles (table : List (List Bytes)) (arrived : List (Nat × Nat))
    (ctx : SplitContext) : Prop where
  pkt_le : ctx.expPkt ≤ table.length
  slots : ∀ key se, (key, se) ∈ ctx.pending → ∃ k j ps p, ctx.expPkt ≤ k ∧
    table[k]? = some ps ∧ ps[j]? = some p ∧ key = slotKey k j ∧ se = slotOf ps j p ∧
    (k, j) ∈ arrived
  passed : ∀ j < ctx.expChunk, ∃ se, (slotKey ctx.expPkt j, se) ∈ ctx.pending
  cursor : ∀ ps, table[ctx.expPkt]? = some ps → ctx.expChunk < ps.length
  held : ∀ a ∈ arrived, ctx.expPkt ≤ a.1 → ∃ se, (slotKey a.1 a.2, se) ∈ ctx.pending
  done : ∀ k < ctx.expPkt, ∀ ps, table[k]? = some ps → ∀ j < ps.length, (k, j) ∈ arrived

variable {table : List (List Bytes)} {arrived : List (Nat × Nat)} {ctx : SplitContext}

theorem Bounded.chunk_lt (hb : Bounded table) {k j : Nat} {ps : List Bytes} {p : Bytes}
    (hk : table[k]? = some ps) (hj : ps[j]? = some p) : j < 65536 := by
  have hlen := (hb.chunks ps (List.mem_of_getElem? hk)).2
  have := (List.getElem?_eq_some_iff.mp hj).1
  omega

theorem slotKey_inj {k k' j j' : Nat} (hj : j < 65536) (hj' : j' < 65536)
    (h : slotKey k j = slotKey k' j') : k = k' ∧ j = j' := by
  rw [slotKey_eq hj, slotKey_eq hj'] at h
  omega

theorem Reassembles.init (hb : Bounded table) {ctx : SplitContext} (hpkt : ctx.expPkt = 0)
    (hchunk : ctx.expChunk = 0) (hpend : ctx.pending = ∅) : Reassembles table [] ctx where
  pkt_le := by omega
  slots := by simp [hpend]
  passed := by simp [hchunk]
  cursor := by
    intro ps hps
    rw [hchunk]
    exact List.length_pos_iff.mpr (hb.chunks ps (List.mem_of_getElem? hps)).1
  held := by simp
  done := by simp [hpkt]

/-- A slot belongs to the chunk of its key. -/
theorem Reassembles.slot_at (hb : Bounded table) (h : Reassembles table arrived ctx)
    {k j : Nat} {se : SlotEntry} (hj : j < 65536) (hse : (slotKey k j, se) ∈ ctx.pending) :
    ∃ ps p, ctx.expPkt ≤ k ∧ table[k]? = some ps ∧ ps[j]? = some p ∧ se = slotOf ps j p ∧
      (k, j) ∈ arrived := by
  obtain ⟨k', j', ps, p, hk, hps, hp, hkey, hse, harr⟩ := h.slots _ _ hse
  obtain ⟨rfl, rfl⟩ := slotKey_inj hj (hb.chunk_lt hps hp) hkey
  exact ⟨ps, p, hk, hps, hp, hse, harr⟩

/-- The cursor has passed filled slots only. -/
theorem Reassembles.slot_of_le (h : Reassembles table arrived ctx)
    (hcur : ∃ se, (slotKey ctx.expPkt ctx.expChunk, se) ∈ ctx.pending) {j : Nat}
    (hj : j ≤ ctx.expChunk) : ∃ se, (slotKey ctx.expPkt j, se) ∈ ctx.pending := by
  rcases Nat.lt_or_eq_of_le hj with hlt | rfl
  · exact h.passed j hlt
  · exact hcur

/-- A slot under the cursor holds the piece the cursor points at. -/
theorem Reassembles.at_cursor (hb : Bounded table) (h : Reassembles table arrived ctx)
    {se : SlotEntry} (hfind : ctx.pending.find? (slotKey ctx.expPkt ctx.expChunk) = some se) :
    ∃ ps p, table[ctx.expPkt]? = some ps ∧ ps[ctx.expChunk]? = some p ∧
      se = slotOf ps ctx.expChunk p := by
  have hmem := SortedMap.find?_eq_some.mp hfind
  obtain ⟨k, -, ps, -, hk, hps, -⟩ := h.slots _ _ hmem
  have hkn := (List.getElem?_eq_some_iff.mp hps).1
  have hexp : ctx.expPkt < table.length := by omega
  have hcur := h.cursor _ (List.getElem?_eq_getElem hexp)
  have hlen := (hb.chunks _ (List.getElem_mem hexp)).2
  obtain ⟨ps, p, -, hps, hp, hse, -⟩ := h.slot_at hb (by omega) hmem
  exact ⟨ps, p, hps, hp, hse⟩

/-- With the cursor on the last piece, the slots of the packet are its pieces in order. -/
theorem Reassembles.range_eq (hb : Bounded table) (h : Reassembles table arrived ctx)
    {ps : List Bytes} (hps : table[ctx.expPkt]? = some ps) (hlast : ctx.expChunk + 1 = ps.length)
    (hcur : ∃ se, (slotKey ctx.expPkt ctx.expChunk, se) ∈ ctx.pending) :
    ctx.pending.range (ctx.expPkt <<< 16) (slotKey ctx.expPkt ctx.expChunk) =
      ps.mapIdx fun j p => (slotKey ctx.expPkt j, slotOf ps j p) := by
  have hlen := (hb.chunks ps (List.mem_of_getElem? hps)).2
  have hkey : ∀ j < ps.length, slotKey ctx.expPkt j = ctx.expPkt * 65536 + j :=
    fun j hj => slotKey_eq (by omega)
  have hstart : ctx.expPkt <<< 16 = ctx.expPkt * 65536 := Nat.shiftLeft_eq _ _
  apply SortedMap.range_eq
  · rw [List.pairwise_iff_getElem]
    intro i j hi hj hij
    simp only [List.length_mapIdx] at hi hj
    simp only [List.getElem_mapIdx, hkey i hi, hkey j hj]
    omega
  · rintro ⟨key, se⟩
    rw [List.mem_mapIdx, hstart, hkey _ (by omega : ctx.expChunk < ps.length)]
    constructor
    · rintro ⟨j, hj, heq⟩
      obtain ⟨rfl, rfl⟩ := Prod.mk.injEq .. ▸ heq
      obtain ⟨se, hse⟩ := h.slot_of_le hcur (show j ≤ ctx.expChunk by omega)
      obtain ⟨qs, q, -, hqs, hq, hs, -⟩ := h.slot_at hb (by omega) hse
      obtain rfl := Option.some.inj (hps.symm.trans hqs)
      rw [(List.getElem?_eq_some_iff.mp hq).2]
      refine ⟨hs ▸ hse, ?_⟩
      rw [hkey j hj]
      omega
    · rintro ⟨hmem, hlo, hhi⟩
      obtain ⟨k, j, qs, q, hk, hqs, hq, rfl, rfl, -⟩ := h.slots _ _ hmem
      have hj := hb.chunk_lt hqs hq
      simp only [slotKey_eq hj] at hlo hhi
      obtain rfl : k = ctx.expPkt := by omega
      obtain rfl := Option.some.inj (hps.symm.trans hqs)
      obtain ⟨hjlen, hget⟩ := List.getElem?_eq_some_iff.mp hq
      exact ⟨j, hjlen, by rw [hget]⟩

/-- The bytes of the slots of a whole packet are the packet. -/
theorem flatMap_slots {ps : List Bytes} (hsize : ∀ p ∈ ps, p.length < 2 ^ 31) (pkt : Nat) :
    (ps.mapIdx fun j p => (slotKey pkt j, slotOf ps j p)).flatMap
      (fun e => e.2.data.take e.2.size) = ps.flatten := by
  rw [List.flatMap_def]
  congr 1
  apply List.ext_getElem
  · simp
  · intro j hj hj'
    have hlt := hsize _ (List.getElem_mem hj')
    simp only [List.getElem_map, List.getElem_mapIdx, slotOf]
    rw [Nat.mod_eq_of_lt (by omega), List.take_length]

/-- A slot that is not the last one of its packet moves the cursor. -/
theorem Reassembles.nextChunk (hb : Bounded table) (h : Reassembles table arrived ctx)
    {ps : List Bytes} (hps : table[ctx.expPkt]? = some ps) (hmore : ctx.expChunk + 1 < ps.length)
    (hcur : ∃ se, (slotKey ctx.expPkt ctx.expChunk, se) ∈ ctx.pending) :
    Reassembles table arrived (nextChunk ctx) ∧ (nextChunk ctx).expChunk = ctx.expChunk + 1 := by
  have hlen := (hb.chunks ps (List.mem_of_getElem? hps)).2
  have hnext : (Split.nextChunk ctx).expChunk = ctx.expChunk + 1 := Nat.mod_eq_of_lt (by omega)
  refine ⟨⟨h.pkt_le, h.slots, ?_, ?_, h.held, h.done⟩, hnext⟩
  · intro j hj
    rw [hnext] at hj
    rcases Nat.lt_succ_iff_lt_or_eq.mp hj with hlt | rfl
    · exact h.passed j hlt
    · exact hcur
  · intro qs hqs
    obtain rfl := Option.some.inj (hps.symm.trans hqs)
    rw [hnext]
    exact hmore

/-- The last slot of the expected packet flushes it. -/
theorem Reassembles.afterFlush (hb : Bounded table) (h : Reassembles table arrived ctx)
    {ps : List Bytes} (hps : table[ctx.expPkt]? = some ps) (hlast : ctx.expChunk + 1 = ps.length)
    (hcur : ∃ se, (slotKey ctx.expPkt ctx.expChunk, se) ∈ ctx.pending) :
    Reassembles table arrived (afterFlush ctx) ∧ (afterFlush ctx).expPkt = ctx.expPkt + 1 ∧
      flushBytes ctx = ps.flatten ∧
      ctx.expChunk + 1 + (afterFlush ctx).pending.size = ctx.pending.size := by
  have hexp := (List.getElem?_eq_some_iff.mp hps).1
  have hlen := (hb.chunks ps (List.mem_of_getElem? hps)).2
  have hrange := h.range_eq hb hps hlast hcur
  have hpkt : (Split.afterFlush ctx).expPkt = ctx.expPkt + 1 :=
    Nat.mod_eq_of_lt (by have := hb.packets; omega)
  have hstart : ctx.expPkt <<< 16 = ctx.expPkt * 65536 := Nat.shiftLeft_eq _ _
  have hend : slotKey ctx.expPkt ctx.expChunk = ctx.expPkt * 65536 + ctx.expChunk :=
    slotKey_eq (by omega)
  -- a slot survives exactly when it belongs to a later packet
  have hkeep : ∀ {k j : Nat}, j < 65536 → ctx.expPkt + 1 ≤ k →
      ¬(ctx.expPkt <<< 16 ≤ slotKey k j ∧ slotKey k j ≤ slotKey ctx.expPkt ctx.expChunk) := by
    intro k j hj hk
    rw [hstart, hend, slotKey_eq hj]
    omega
  refine ⟨⟨?_, ?_, ?_, ?_, ?_, ?_⟩, hpkt, ?_, ?_⟩
  · rw [hpkt]
    omega
  · intro key se hmem
    obtain ⟨hmem, hout⟩ := SortedMap.mem_eraseRange.mp hmem
    obtain ⟨k, j, qs, q, hk, hqs, hq, rfl, rfl, harr⟩ := h.slots _ _ hmem
    refine ⟨k, j, qs, q, ?_, hqs, hq, rfl, rfl, harr⟩
    rw [hpkt]
    by_contra hlt
    obtain rfl : k = ctx.expPkt := by omega
    obtain rfl := Option.some.inj (hps.symm.trans hqs)
    have hj := (List.getElem?_eq_some_iff.mp hq).1
    rw [hstart, hend, slotKey_eq (by omega)] at hout
    omega
  · intro j hj
    exact absurd hj (Nat.not_lt_zero j)
  · intro qs hqs
    exact List.length_pos_iff.mpr (hb.chunks qs (List.mem_of_getElem? hqs)).1
  · intro a ha hk
    rw [hpkt] at hk
    obtain ⟨se, hse⟩ := h.held a ha (by omega)
    obtain ⟨k, j, qs, q, -, hqs, hq, hkey, -⟩ := h.slots _ _ hse
    have hj := hb.chunk_lt hqs hq
    refine ⟨se, SortedMap.mem_eraseRange.mpr ⟨hse, ?_⟩⟩
    have hk' : ctx.expPkt + 1 ≤ k := by
      by_contra hlt
      rw [slotKey, slotKey_eq hj, Nat.shiftLeft_eq] at hkey
      have : a.1 * 2 ^ 16 ≤ a.1 * 2 ^ 16 ||| a.2 := Nat.left_le_or
      omega
    simp only [hkey]
    exact hkeep hj hk'
  · intro k hk qs hqs j hj
    rw [hpkt] at hk
    rcases Nat.lt_succ_iff_lt_or_eq.mp hk with hlt | rfl
    · exact h.done k hlt qs hqs j hj
    · obtain rfl := Option.some.inj (hps.symm.trans hqs)
      obtain ⟨se, hse⟩ := h.slot_of_le hcur (show j ≤ ctx.expChunk by omega)
      obtain ⟨qs, q, -, -, -, -, harr⟩ := h.slot_at hb (by omega) hse
      exact harr
  · rw [flushBytes, hrange]
    exact flatMap_slots (hb.sizes ps (List.mem_of_getElem? hps)) ctx.expPkt
  · have hsize := SortedMap.size_eraseRange ctx.pending (ctx.expPkt <<< 16)
      (slotKey ctx.expPkt ctx.expChunk)
    rw [hrange, List.length_mapIdx, ← hlast] at hsize
    exact hsize

/-- The cursor has passed no more slots than there are. -/
theorem Reassembles.expChunk_le (hb : Bounded table) (h : Reassembles table arrived ctx) :
    ctx.expChunk ≤ ctx.pending.size := by
  refine SortedMap.le_size (f := slotKey ctx.expPkt) ?_ h.passed
  intro i hi j hj heq
  obtain ⟨se, hse⟩ := h.passed i hi
  obtain ⟨k, -, ps, -, hk, hps, -⟩ := h.slots _ _ hse
  have hexp : ctx.expPkt < table.length := by
    have := (List.getElem?_eq_some_iff.mp hps).1
    omega
  have hcur := h.cursor _ (List.getElem?_eq_getElem hexp)
  have hlen := (hb.chunks _ (List.getElem_mem hexp)).2
  exact (slotKey_inj (by omega) (by omega) heq).2

/-- The packets from number `a` up to `b`, as writes to output 0. -/
def flushed (table : List (List Bytes)) (a b : Nat) : List Write :=
  ((table.drop a).take (b - a)).map fun ps => (0, ps.flatten)

theorem flushed_self (table : List (List Bytes)) (a : Nat) : flushed table a a = [] := by
  simp [flushed]

theorem flushed_cons {a b : Nat} {ps : List Bytes} (hps : table[a]? = some ps) (hab : a < b) :
    flushed table a b = (0, ps.flatten) :: flushed table (a + 1) b := by
  obtain ⟨hlt, hget⟩ := List.getElem?_eq_some_iff.mp hps
  rw [flushed, List.drop_eq_getElem_cons hlt, hget,
    show b - a = b - (a + 1) + 1 by omega, List.take_succ_cons, List.map_cons]
  rfl

theorem flushed_append {a b c : Nat} (hab : a ≤ b) (hbc : b ≤ c) :
    flushed table a b ++ flushed table b c = flushed table a c := by
  rw [flushed, flushed, flushed, ← List.map_append]
  congr 1
  rw [show c - a = (b - a) + (c - b) by omega, List.take_add, List.drop_drop,
    show a + (b - a) = b by omega]

/-- The reassembly loop ends with the cursor on a missing chunk, having written
the packets it passed. -/
theorem mergeLoop_spec (hb : Bounded table) (fuel : Nat) : ∀ {ctx : SplitContext},
    Reassembles table arrived ctx → ctx.pending.size + 1 ≤ fuel + ctx.expChunk →
    ∃ ctx', mergeLoop fuel ctx = some (ctx', flushed table ctx.expPkt ctx'.expPkt) ∧
      ctx.expPkt ≤ ctx'.expPkt ∧ Reassembles table arrived ctx' ∧
      ctx'.pending.find? (slotKey ctx'.expPkt ctx'.expChunk) = none := by
  induction fuel with
  | zero =>
      intro ctx h hfuel
      have := h.expChunk_le hb
      omega
  | succ fuel ih =>
      intro ctx h hfuel
      cases hfind : ctx.pending.find? (slotKey ctx.expPkt ctx.expChunk) with
      | none =>
          refine ⟨ctx, ?_, Nat.le_refl _, h, hfind⟩
          simp only [mergeLoop, hfind, flushed_self]
      | some se =>
          obtain ⟨ps, p, hps, hp, rfl⟩ := h.at_cursor hb hfind
          have hcur : ∃ se, (slotKey ctx.expPkt ctx.expChunk, se) ∈ ctx.pending :=
            ⟨_, SortedMap.find?_eq_some.mp hfind⟩
          have hlt := (List.getElem?_eq_some_iff.mp hp).1
          by_cases hmore : ctx.expChunk + 1 < ps.length
          · obtain ⟨hnext, hchunk⟩ := h.nextChunk hb hps hmore hcur
            obtain ⟨ctx', hrun, hle, hre, hend⟩ := ih hnext (by
              rw [hchunk]
              exact Nat.le_trans hfuel (by omega))
            refine ⟨ctx', ?_, hle, hre, hend⟩
            simp only [mergeLoop, hfind, slotOf, hmore, decide_true, if_true]
            exact hrun
          · obtain ⟨hnext, hpkt, hbytes, hsize⟩ := h.afterFlush hb hps (by omega) hcur
            obtain ⟨ctx', hrun, hle, hre, hend⟩ := ih hnext (by
              have : (Split.afterFlush ctx).expChunk = 0 := rfl
              omega)
            rw [hpkt] at hrun hle
            refine ⟨ctx', ?_, by omega, hre, hend⟩
            simp only [mergeLoop, hfind, slotOf, hmore, decide_false, Bool.false_eq_true,
              if_false, hrun, Option.map_some, hbytes]
            rw [flushed_cons hps (by omega)]

theorem mergeLoop_port {fuel : Nat} : ∀ {ctx ctx' : SplitContext} {ws : List Write},
    mergeLoop fuel ctx = some (ctx', ws) → ∀ w ∈ ws, w.1 = 0 := by
  induction fuel with
  | zero =>
      intro ctx ctx' ws h
      cases h
  | succ fuel ih =>
      intro ctx ctx' ws h
      rw [mergeLoop] at h
      split at h
      · obtain ⟨-, rfl⟩ := Prod.mk.inj (Option.some.inj h)
        simp
      · split at h
        · exact ih h
        · obtain ⟨r, hr, heq⟩ := Option.map_eq_some_iff.mp h
          obtain ⟨-, rfl⟩ := Prod.mk.inj heq
          intro w hw
          rcases List.mem_cons.mp hw with rfl | hw
          · rfl
          · exact ih hr w hw

/-- `process_merge` writes towards the external side only. -/
theorem processMerge_port {ctx ctx' : SplitContext} {data : Bytes} {ws : List Write}
    (h : processMerge ctx data = some (ctx', ws)) : ∀ w ∈ ws, w.1 = 0 := by
  rw [processMerge] at h
  split at h
  · obtain ⟨-, rfl⟩ := Prod.mk.inj (Option.some.inj h)
    simp
  · dsimp only at h
    split at h
    · obtain ⟨-, rfl⟩ := Prod.mk.inj (Option.some.inj h)
      simp
    · exact mergeLoop_port h

/-! ## One arrival -/

/-- Between two calls the chunk under the cursor is missing. -/
structure Waiting (table : List (List Bytes)) (arrived : List (Nat × Nat))
    (ctx : SplitContext) : Prop where
  holds : Reassembles table arrived ctx
  missing : ctx.pending.find? (slotKey ctx.expPkt ctx.expChunk) = none

theorem Reassembles.storeChunk (h : Reassembles table arrived ctx)
    {k j : Nat} {ps : List Bytes} {p : Bytes} (hk : ctx.expPkt ≤ k)
    (hps : table[k]? = some ps) (hp : ps[j]? = some p) :
    Reassembles table (arrived ++ [(k, j)]) (storeChunk ctx k j (slotOf ps j p)) := by
  have hstay : ∀ {key}, (∃ se, (key, se) ∈ ctx.pending) →
      ∃ se, (key, se) ∈ (Split.storeChunk ctx k j (slotOf ps j p)).pending := by
    rintro key ⟨se, hse⟩
    by_cases heq : key = slotKey k j
    · exact ⟨_, SortedMap.mem_insert.mpr (Or.inl ⟨heq, rfl⟩)⟩
    · exact ⟨se, SortedMap.mem_insert.mpr (Or.inr ⟨heq, hse⟩)⟩
  refine ⟨h.pkt_le, ?_, ?_, h.cursor, ?_, ?_⟩
  · intro key se hmem
    rcases SortedMap.mem_insert.mp hmem with ⟨rfl, rfl⟩ | ⟨-, hmem⟩
    · exact ⟨k, j, ps, p, hk, hps, hp, rfl, rfl, by simp⟩
    · obtain ⟨k', j', qs, q, hk', hqs, hq, hkey, hse, harr⟩ := h.slots key se hmem
      exact ⟨k', j', qs, q, hk', hqs, hq, hkey, hse, List.mem_append_left _ harr⟩
  · intro i hi
    exact hstay (h.passed i hi)
  · intro a ha hle
    rcases List.mem_append.mp ha with ha | ha
    · exact hstay (h.held a ha hle)
    · rw [List.mem_singleton.mp ha]
      exact ⟨_, SortedMap.mem_insert.mpr (Or.inl ⟨rfl, rfl⟩)⟩
  · intro i hi qs hqs l hl
    exact List.mem_append_left _ (h.done i hi qs hqs l hl)

/-- One chunk of the table arrives within half a window of the expected packet. -/
theorem Waiting.processMerge (hb : Bounded table) (h : Waiting table arrived ctx)
    {k j : Nat} {ps : List Bytes} {p : Bytes} (hps : table[k]? = some ps) (hp : ps[j]? = some p)
    (hlo : ctx.expPkt ≤ k + 16384) (hhi : k ≤ ctx.expPkt + 16383) :
    ∃ ctx', processMerge ctx (chunkAt k ps.length j p) =
        some (ctx', flushed table ctx.expPkt ctx'.expPkt) ∧
      ctx.expPkt ≤ ctx'.expPkt ∧ Waiting table (arrived ++ [(k, j)]) ctx' := by
  have hj := hb.chunk_lt hps hp
  obtain ⟨hwire, hflag, hchunk⟩ :=
    header_fields k (decide (j + 1 < ps.length)) hj p
  have hexp : expandPkt ctx.expPkt (k % 32768) = k := by
    have := h.holds.pkt_le
    have := hb.packets
    exact expandPkt_eq (by omega) hlo hhi
  have hlen : ¬(chunkAt k ps.length j p).length < HEADER_SIZE := by
    simp [chunkAt, headerBytes, HEADER_SIZE]
  have hpay : (chunkAt k ps.length j p).drop HEADER_SIZE = p := rfl
  have hmore : decide ((decide (j + 1 < ps.length)).toNat ≠ 0) = decide (j + 1 < ps.length) := by
    cases decide (j + 1 < ps.length) <;> rfl
  simp only [Split.processMerge, if_neg hlen, hpay]
  simp only [chunkAt, hwire, hflag, hchunk, hexp, hmore]
  by_cases horphan : k < ctx.expPkt
  · rw [if_pos horphan]
    refine ⟨loseChunk ctx, ?_, Nat.le_refl _, ⟨h.holds.pkt_le, ?_,
      h.holds.passed, h.holds.cursor, ?_, ?_⟩, h.missing⟩
    · rw [loseChunk, flushed_self]
    · intro key se hmem
      obtain ⟨k', j', qs, q, hk', hqs, hq, hkey, hse, harr⟩ := h.holds.slots key se hmem
      exact ⟨k', j', qs, q, hk', hqs, hq, hkey, hse, List.mem_append_left _ harr⟩
    · intro a ha hle
      rcases List.mem_append.mp ha with ha | ha
      · exact h.holds.held a ha hle
      · rw [List.mem_singleton.mp ha] at hle
        exact absurd hle (Nat.not_le.mpr horphan)
    · intro i hi qs hqs l hl
      exact List.mem_append_left _ (h.holds.done i hi qs hqs l hl)
  · rw [if_neg horphan]
    have hstore := h.holds.storeChunk (by omega) hps hp
    obtain ⟨ctx', hrun, hle, hre, hend⟩ := mergeLoop_spec hb _ hstore (Nat.le_add_right _ _)
    exact ⟨ctx', hrun, hle, hre, hend⟩

/-- When every chunk of the table has arrived, every packet is out. -/
theorem Waiting.complete (h : Waiting table arrived ctx)
    (hall : ∀ k j ps p, table[k]? = some ps → ps[j]? = some p → (k, j) ∈ arrived) :
    ctx.expPkt = table.length ∧ ctx.pending = ∅ := by
  have hpkt : ctx.expPkt = table.length := by
    by_contra hne
    have hlt : ctx.expPkt < table.length := by
      have := h.holds.pkt_le
      omega
    have hps := List.getElem?_eq_getElem hlt
    have hcur := h.holds.cursor _ hps
    have hmem := hall _ _ _ _ hps (List.getElem?_eq_getElem hcur)
    obtain ⟨se, hse⟩ := h.holds.held _ hmem (Nat.le_refl _)
    exact SortedMap.find?_eq_none.mp h.missing se hse
  refine ⟨hpkt, SortedMap.eq_empty_of_forall_not_mem ?_⟩
  rintro ⟨key, se⟩ hmem
  obtain ⟨k, -, ps, -, hk, hps, -⟩ := h.holds.slots key se hmem
  have := (List.getElem?_eq_some_iff.mp hps).1
  omega

/-! ## A growing table -/

/-- The merge side does not notice that the peer has cut another packet. -/
theorem Waiting.extend (h : Waiting table arrived ctx) {ps : List Bytes} (hne : ps ≠ []) :
    Waiting (table ++ [ps]) arrived ctx := by
  have hle := h.holds.pkt_le
  have hold : ∀ {k : Nat} {qs}, table[k]? = some qs → (table ++ [ps])[k]? = some qs := by
    intro k qs hk
    rw [List.getElem?_append_left (List.getElem?_eq_some_iff.mp hk).1, hk]
  refine ⟨⟨?_, ?_, h.holds.passed, ?_, h.holds.held, ?_⟩, h.missing⟩
  · rw [List.length_append]
    omega
  · intro key se hmem
    obtain ⟨k, j, qs, q, hk, hqs, hrest⟩ := h.holds.slots key se hmem
    exact ⟨k, j, qs, q, hk, hold hqs, hrest⟩
  · intro qs hqs
    rcases Nat.lt_or_eq_of_le hle with hlt | heq
    · rw [List.getElem?_append_left hlt] at hqs
      exact h.holds.cursor qs hqs
    · -- no slot belongs to a packet that is not cut yet, so the cursor has not moved
      have hzero : ctx.expChunk = 0 := by
        by_contra hpos
        obtain ⟨se, hse⟩ := h.holds.passed 0 (by omega)
        obtain ⟨k, j, qs, -, hk, hqs, -⟩ := h.holds.slots _ _ hse
        have := (List.getElem?_eq_some_iff.mp hqs).1
        omega
      rw [heq, List.getElem?_concat_length] at hqs
      obtain rfl := Option.some.inj hqs
      rw [hzero]
      exact List.length_pos_iff.mpr hne
  · intro k hk qs hqs j hj
    rw [List.getElem?_append_left (by omega)] at hqs
    exact h.holds.done k hk qs hqs j hj

theorem flushed_extend {n : Nat} (h : n ≤ table.length) (ps : List Bytes) :
    flushed (table ++ [ps]) 0 n = flushed table 0 n := by
  rw [flushed, flushed, List.drop_zero, List.drop_zero, Nat.sub_zero,
    List.take_append_of_le_length h]

/-- The chunks of packet `k`, each with its numbers. -/
def packetChunks (k : Nat) (ps : List Bytes) : List ((Nat × Nat) × Bytes) :=
  ps.mapIdx fun j p => ((k, j), chunkAt k ps.length j p)

/-- The chunks of all packets. -/
def tableChunks (table : List (List Bytes)) : List ((Nat × Nat) × Bytes) :=
  (table.mapIdx packetChunks).flatten

theorem tableChunks_concat (table : List (List Bytes)) (ps : List Bytes) :
    tableChunks (table ++ [ps]) = tableChunks table ++ packetChunks table.length ps := by
  rw [tableChunks, List.mapIdx_concat, List.flatten_concat]
  rfl

theorem mem_packetChunks {k : Nat} {ps : List Bytes} {e : (Nat × Nat) × Bytes} :
    e ∈ packetChunks k ps ↔
      ∃ j p, ps[j]? = some p ∧ e = ((k, j), chunkAt k ps.length j p) := by
  rw [packetChunks, List.mem_mapIdx]
  constructor
  · rintro ⟨j, hj, rfl⟩
    exact ⟨j, _, List.getElem?_eq_getElem hj, rfl⟩
  · rintro ⟨j, p, hp, rfl⟩
    obtain ⟨hj, rfl⟩ := List.getElem?_eq_some_iff.mp hp
    exact ⟨j, hj, rfl⟩

theorem map_snd_packetChunks (k : Nat) (ps : List Bytes) :
    (packetChunks k ps).map Prod.snd = ps.mapIdx (chunkAt k ps.length) := by
  apply List.ext_getElem
  · simp [packetChunks]
  · intro j hj hj'
    simp [packetChunks]

theorem mem_tableChunks {e : (Nat × Nat) × Bytes} :
    e ∈ tableChunks table ↔ ∃ k ps, table[k]? = some ps ∧ e ∈ packetChunks k ps := by
  simp only [tableChunks, List.mem_flatten, List.mem_mapIdx]
  constructor
  · rintro ⟨_, ⟨k, hk, rfl⟩, he⟩
    exact ⟨k, _, List.getElem?_eq_getElem hk, he⟩
  · rintro ⟨k, ps, hps, he⟩
    obtain ⟨hk, rfl⟩ := List.getElem?_eq_some_iff.mp hps
    exact ⟨_, ⟨k, hk, rfl⟩, he⟩

/-- No two chunks have the same numbers. -/
theorem nodup_tableChunks (table : List (List Bytes)) :
    ((tableChunks table).map Prod.fst).Nodup := by
  induction table using List.reverseRecOn with
  | nil => simp [tableChunks]
  | append_singleton table ps ih =>
      have hpacket : (packetChunks table.length ps).map Prod.fst =
          (List.range ps.length).map fun j => (table.length, j) := by
        apply List.ext_getElem
        · simp [packetChunks]
        · intro j hj hj'
          simp [packetChunks]
      rw [tableChunks_concat, List.map_append, List.nodup_append, hpacket]
      refine ⟨ih, ?_, ?_⟩
      · exact List.nodup_range.map fun i j heq => (Prod.mk.inj heq).2
      · intro a ha b hb
        obtain ⟨e, he, rfl⟩ := List.mem_map.mp ha
        obtain ⟨k, qs, hqs, hek⟩ := mem_tableChunks.mp he
        obtain ⟨j, q, -, rfl⟩ := mem_packetChunks.mp hek
        obtain ⟨i, -, rfl⟩ := List.mem_map.mp hb
        have hlt := (List.getElem?_eq_some_iff.mp hqs).1
        intro heq
        have := (Prod.mk.inj heq).1
        omega

/-! ## A whole packet stream -/

/-- A context as `init` leaves it. -/
def SplitContext.fresh (numOutputs lo hi : Nat) : SplitContext :=
  { numOutputs := numOutputs, chunkSizeMin := lo, chunkSizeMax := hi }

theorem SplitContext.fresh_configured {n lo hi : Nat} (hn : 1 ≤ n) (hlo : 64 ≤ lo)
    (hlh : lo ≤ hi) (hhi : hi ≤ 65536) : (SplitContext.fresh n lo hi).Configured :=
  ⟨hn, hlo, hlh, hhi, rfl⟩

/-- Successive calls of `process_split`, one list of writes for each packet. The
random values of packet `k` are `rand k`. -/
def splitAll (rand : Nat → Nat → Nat) (ctx : SplitContext) : List Bytes → List (List Write)
  | [] => []
  | data :: rest =>
      let r := processSplit (rand 0) ctx data
      r.2 :: splitAll (fun k => rand (k + 1)) r.1 rest

/-- The packets of a stream with the table of their pieces. -/
structure Stream (packets : List Bytes) (table : List (List Bytes))
    (emitted : List (List Write)) (seq : Nat) : Prop where
  cut : List.Forall₂ Pieces packets table
  chunks : emitted.map (fun ws => ws.map Prod.snd) =
    table.mapIdx fun k ps => ps.mapIdx (chunkAt (seq + k) ps.length)

theorem splitAll_spec (rand : Nat → Nat → Nat) {ctx : SplitContext} (hctx : ctx.Configured)
    {packets : List Bytes} (hpk : ∀ p ∈ packets, p ≠ [] ∧ p.length < 2 ^ 31)
    (hseq : ctx.pktSeq + packets.length < 2 ^ 32) :
    ∃ table, Stream packets table (splitAll rand ctx packets) ctx.pktSeq := by
  induction packets generalizing rand ctx with
  | nil => exact ⟨[], List.Forall₂.nil, rfl⟩
  | cons data rest ih =>
      obtain ⟨hne, hlen⟩ := hpk data List.mem_cons_self
      obtain ⟨ps, hps, hbytes, -, hnext, -, hconf⟩ := processSplit_spec (rand 0) hctx hne hlen
      rw [List.length_cons] at hseq
      rw [Nat.mod_eq_of_lt (by omega)] at hnext
      obtain ⟨table, htable, hchunks⟩ := ih (fun k => rand (k + 1)) hconf
        (fun p hp => hpk p (List.mem_cons_of_mem _ hp)) (by rw [hnext]; omega)
      refine ⟨ps :: table, List.Forall₂.cons hps htable, ?_⟩
      rw [splitAll, List.map_cons, hbytes, hchunks, hnext, List.mapIdx_cons]
      simp only [Nat.add_assoc, Nat.add_comm 1]
      rfl

/-- The bytes of chunk `j` of packet `k` among the emitted ones. -/
def chunk? (emitted : List (List Write)) (k j : Nat) : Option Bytes :=
  ((emitted[k]?).bind fun ws => ws[j]?).map Prod.snd

theorem Stream.chunk?_eq {packets : List Bytes} {table : List (List Bytes)}
    {emitted : List (List Write)} (h : Stream packets table emitted 0) {k j : Nat} {data : Bytes} :
    chunk? emitted k j = some data ↔ ∃ ps p, table[k]? = some ps ∧ ps[j]? = some p ∧
      data = chunkAt k ps.length j p := by
  have hk := congrArg (fun l => l[k]?) h.chunks
  simp only [List.getElem?_map, List.getElem?_mapIdx, Nat.zero_add] at hk
  have hchunk : chunk? emitted k j =
      ((table[k]?).bind fun ps => (ps.mapIdx (chunkAt k ps.length))[j]?) := by
    rw [chunk?]
    cases he : emitted[k]? with
    | none => simp_all
    | some ws =>
        rw [he, Option.map_some] at hk
        obtain ⟨ps, hps, heq⟩ := Option.map_eq_some_iff.mp hk.symm
        rw [hps, Option.bind_some, Option.bind_some, heq, List.getElem?_map]
  rw [hchunk, Option.bind_eq_some_iff]
  simp only [List.getElem?_mapIdx, Option.map_eq_some_iff]
  constructor
  · rintro ⟨ps, hps, p, hp, rfl⟩
    exact ⟨ps, p, hps, hp, rfl⟩
  · rintro ⟨ps, p, hps, hp, rfl⟩
    exact ⟨ps, hps, p, hp, rfl⟩

theorem Stream.bounded {packets : List Bytes} {table : List (List Bytes)}
    {emitted : List (List Write)} {seq : Nat} (h : Stream packets table emitted seq)
    (hpk : ∀ p ∈ packets, p ≠ [] ∧ p.length < 2 ^ 31)
    (hcount : packets.length < 2 ^ 32 - 32768) : Bounded table := by
  have hpieces : ∀ ps ∈ table, ∃ data ∈ packets, Pieces data ps := by
    intro ps hps
    obtain ⟨k, hk, rfl⟩ := List.getElem_of_mem hps
    have hk' : k < packets.length := h.cut.length_eq ▸ hk
    exact ⟨packets[k], List.getElem_mem hk', h.cut.get hk' hk⟩
  refine ⟨h.cut.length_eq ▸ hcount, ?_, ?_⟩
  · intro ps hps
    obtain ⟨data, -, hp⟩ := hpieces ps hps
    exact ⟨hp.ne_nil, hp.length_le⟩
  · intro ps hps p hp
    obtain ⟨data, hdata, hcut⟩ := hpieces ps hps
    have hle : p.length ≤ data.length := by
      rw [← hcut.flatten]
      exact (List.sublist_flatten_of_mem hp).length_le
    have := (hpk data hdata).2
    omega

theorem Stream.flushed_eq {packets : List Bytes} {table : List (List Bytes)}
    {emitted : List (List Write)} {seq : Nat} (h : Stream packets table emitted seq) (n : Nat) :
    flushed table 0 n = (packets.take n).map fun p => (0, p) := by
  have hmap : table.map List.flatten = packets := by
    have heq := h.cut
    clear h
    induction heq with
    | nil => rfl
    | cons hp _ ih => rw [List.map_cons, hp.flatten, ih]
  rw [flushed, List.drop_zero, Nat.sub_zero, ← hmap, ← List.map_take, List.map_map]
  rfl

/-- Chunk `a.2` of packet `a.1` is handed to `process_merge`; the state is the
context with the writes made so far. -/
def feed (emitted : List (List Write)) (s : SplitContext × List Write) (a : Nat × Nat) :
    Option (SplitContext × List Write) :=
  match chunk? emitted a.1 a.2 with
  | none => none
  | some data => (processMerge s.1 data).map fun r => (r.1, s.2 ++ r.2)

/-- An emitted chunk arrives while its packet is within half a window. -/
def InWindow (emitted : List (List Write)) (s : SplitContext × List Write) (a : Nat × Nat) :
    Prop :=
  (chunk? emitted a.1 a.2).isSome ∧ s.1.expPkt ≤ a.1 + 16384 ∧ a.1 ≤ s.1.expPkt + 16383

/-- The invariant of a merging peer: what it wrote is exactly the finished packets. -/
def Delivers (table : List (List Bytes)) (arrived : List (Nat × Nat))
    (s : SplitContext × List Write) : Prop :=
  Waiting table arrived s.1 ∧ s.2 = flushed table 0 s.1.expPkt

theorem Delivers.feed {packets : List Bytes} {emitted : List (List Write)}
    (hs : Stream packets table emitted 0) (hb : Bounded table) {s : SplitContext × List Write}
    (h : Delivers table arrived s) {a : Nat × Nat} (ha : InWindow emitted s a) :
    ∃ s', feed emitted s a = some s' ∧ Delivers table (arrived ++ [a]) s' := by
  obtain ⟨hsome, hlo, hhi⟩ := ha
  obtain ⟨data, hdata⟩ := Option.isSome_iff_exists.mp hsome
  obtain ⟨ps, p, hps, hp, rfl⟩ := hs.chunk?_eq.mp hdata
  obtain ⟨ctx', hrun, hle, hwait⟩ := h.1.processMerge hb hps hp hlo hhi
  refine ⟨(ctx', s.2 ++ flushed table s.1.expPkt ctx'.expPkt), ?_, hwait, ?_⟩
  · simp only [Split.feed, hdata, hrun, Option.map_some]
  · rw [h.2, flushed_append (Nat.zero_le _) hle]

theorem Delivers.init (hb : Bounded table) (n lo hi : Nat) :
    Delivers table [] (SplitContext.fresh n lo hi, []) :=
  ⟨⟨Reassembles.init hb rfl rfl rfl, rfl⟩, (flushed_self table 0).symm⟩

/-- Up to half a window of packets, every arrival order is within the window. -/
theorem meets_of_short {packets : List Bytes} {emitted : List (List Write)}
    (hs : Stream packets table emitted 0) (hb : Bounded table)
    (hshort : packets.length ≤ 16384) {arrivals : List (Nat × Nat)}
    (hall : ∀ a ∈ arrivals, (chunk? emitted a.1 a.2).isSome) (n lo hi : Nat) :
    Meets (feed emitted) (InWindow emitted) (SplitContext.fresh n lo hi, []) arrivals := by
  have hlen : table.length = packets.length := hs.cut.length_eq.symm
  apply meets_of_invariant (I := fun s => ∃ arrived, Delivers table arrived s)
  · rintro s a ha ⟨arrived, hd⟩
    have hsome := hall a ha
    obtain ⟨data, hdata⟩ := Option.isSome_iff_exists.mp hsome
    obtain ⟨ps, p, hps, -⟩ := hs.chunk?_eq.mp hdata
    have hlt := (List.getElem?_eq_some_iff.mp hps).1
    have hexp := hd.1.holds.pkt_le
    exact ⟨hsome, by omega, by omega⟩
  · rintro s a s' ⟨arrived, hd⟩ ha hstep
    obtain ⟨t, ht, hd'⟩ := hd.feed hs hb ha
    obtain rfl := Option.some.inj (ht.symm.trans hstep)
    exact ⟨_, hd'⟩
  · exact ⟨[], Delivers.init hb n lo hi⟩

/-- Split then merge is the identity: whatever the chunk sizes, the number of
outputs, the order of arrival and the repetitions, the peer has written exactly
the packets before `expPkt`, and all of them once every chunk has arrived. -/
theorem split_merge_identity (rand : Nat → Nat → Nat) {n lo hi n' lo' hi' : Nat}
    (hn : 1 ≤ n) (hlo : 64 ≤ lo) (hlh : lo ≤ hi) (hhi : hi ≤ 65536)
    {packets : List Bytes} (hpk : ∀ p ∈ packets, p ≠ [] ∧ p.length < 2 ^ 31)
    (hcount : packets.length < 2 ^ 32 - 32768) {emitted : List (List Write)}
    (hemit : emitted = splitAll rand (SplitContext.fresh n lo hi) packets)
    {arrivals : List (Nat × Nat)}
    (hwin : Meets (feed emitted) (InWindow emitted) (SplitContext.fresh n' lo' hi', []) arrivals) :
    ∃ ctx, run (feed emitted) (SplitContext.fresh n' lo' hi', []) arrivals =
        some (ctx, (packets.take ctx.expPkt).map fun p => (0, p)) ∧
      ctx.expPkt ≤ packets.length ∧
      ((∀ k j, (chunk? emitted k j).isSome → (k, j) ∈ arrivals) →
        ctx.expPkt = packets.length ∧ ctx.pending = ∅) := by
  subst hemit
  obtain ⟨table, hs⟩ := splitAll_spec rand (SplitContext.fresh_configured hn hlo hlh hhi) hpk
    (show (SplitContext.fresh n lo hi).pktSeq + packets.length < 2 ^ 32 by
      have : (SplitContext.fresh n lo hi).pktSeq = 0 := rfl
      omega)
  have hb := hs.bounded hpk hcount
  obtain ⟨⟨ctx, outs⟩, hrun, hwait, hout⟩ := exists_run_of_meets (I := Delivers table)
    (fun _ _ _ h ha => h.feed hs hb ha) (Delivers.init hb n' lo' hi') hwin
  have hlen : table.length = packets.length := hs.cut.length_eq.symm
  refine ⟨ctx, ?_, hlen ▸ hwait.holds.pkt_le, ?_⟩
  · rw [hrun, ← hs.flushed_eq]
    simp only at hout
    rw [hout]
  · intro hall
    rw [← hlen]
    apply hwait.complete
    intro k j ps p hps hp
    have hsome := hs.chunk?_eq.mpr ⟨ps, p, hps, hp, rfl⟩
    simpa using hall k j (Option.isSome_iff_exists.mpr ⟨_, hsome⟩)

/-- A packet of two chunks and one of a single chunk over two outputs, arriving
backwards with a repetition. -/
theorem split_merge_identity_two :
    ∃ ctx, run (feed (splitAll (fun _ _ => 0) (SplitContext.fresh 2 64 64)
        [List.replicate 70 7, [1, 2, 3]])) (SplitContext.fresh 1 64 64, [])
        [(1, 0), (0, 1), (0, 1), (0, 0)] =
      some (ctx, [(0, List.replicate 70 7), (0, [1, 2, 3])]) := by
  have hpk : ∀ p ∈ [(List.replicate 70 7 : Bytes), [1, 2, 3]], p ≠ [] ∧ p.length < 2 ^ 31 := by
    decide
  obtain ⟨table, hs⟩ := splitAll_spec (fun _ _ => 0)
    (show (SplitContext.fresh 2 64 64).Configured from
      SplitContext.fresh_configured (by decide) (by decide) (by decide) (by decide))
    hpk (by decide)
  have hwin := meets_of_short hs (hs.bounded hpk (by decide)) (by decide)
    (show ∀ a ∈ [(1, 0), (0, 1), (0, 1), (0, 0)], _ by decide) 1 64 64
  obtain ⟨ctx, hrun, -, hend⟩ := split_merge_identity (fun _ _ => 0) (by decide) (by decide)
    (by decide) (by decide) hpk (by decide) rfl hwin
  have hlast : ctx.expPkt = 2 := (hend fun k j hsome =>
    match k, j, hsome with
    | 0, 0, _ => by decide
    | 0, 1, _ => by decide
    | 1, 0, _ => by decide
    | 0, _ + 2, h => (Bool.false_ne_true h).elim
    | 1, _ + 1, h => (Bool.false_ne_true h).elim
    | _ + 2, _, h => (Bool.false_ne_true h).elim).1
  exact ⟨ctx, by rw [hrun, hlast]; rfl⟩

end PipelineTunnel.Split
