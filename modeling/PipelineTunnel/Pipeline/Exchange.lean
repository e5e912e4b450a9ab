import PipelineTunnel.Lib.PortFifo
import PipelineTunnel.Pipeline.Endpoints

/-!
# A sender and a receiver

A sender with split and a receiver that gets its output in order per port. `Exchange`
keeps account of the chunks: `table` lists the pieces of the packets that the sender has
split and `arr` the chunks that have arrived at the split module of the receiver, each
with its numbers. A chunk is on its way until it arrives, and it arrives once, so the
receiver never waits for a packet that is out already, and the bound on the packets that
are not out keeps every arrival within half a window.
-/

namespace PipelineTunnel.Pipeline

open Split (SplitContext Pieces Bounded Waiting tableChunks packetChunks flushed)

variable {tr : Nat → Transformer} {size s ports : Nat}

theorem map_decoded_encoded {sent : List Bytes} (h : ∀ x ∈ sent, x ≠ []) :
    (sent.map (encoded tr s)).map (decoded tr s) = sent := by
  rw [List.map_map]
  conv_rhs => rw [← List.map_id sent]
  apply List.map_congr_left
  intro x hx
  exact decoded_encoded tr s (h x hx)

/-- What is promised about the packets pushed so far, `received` of which are out. -/
structure Limits (tr : Nat → Transformer) (s : Nat) (sent : List Bytes) (received : Nat) :
    Prop where
  packets : ∀ x ∈ sent, x ≠ [] ∧ (encoded tr s x).length < 2 ^ 31
  count : sent.length < 2 ^ 32 - 32768
  undelivered : sent.length < received + 16384

theorem Limits.mono {sent : List Bytes} {n n' : Nat} (h : Limits tr s sent n) (hle : n ≤ n') :
    Limits tr s sent n' :=
  ⟨h.packets, h.count, by have := h.undelivered; omega⟩

structure Exchange (tr : Nat → Transformer) (size s : Nat) (sent : List Bytes)
    (delivered : List (Int × Bytes)) (S : Sender) (R : Receiver) (table : List (List Bytes))
    (arr : List ((Nat × Nat) × Bytes)) : Prop where
  limits : Limits tr s sent R.wire.length
  configured : S.ctx.Configured
  seq : S.ctx.pktSeq = table.length
  pieces : ∀ ps ∈ table, Pieces ps.flatten ps
  order : table.map List.flatten ++ S.waiting = sent.map (encoded tr s)
  emitted : (↑((tableChunks table).map Prod.snd) : Multiset Bytes) =
    S.cargo + ↑(S.wire.map fun w => unwound tr s size w.2)
  fifo : PortFifo delivered S.wire
  given : (↑(delivered.map fun w => unwound tr s size w.2) : Multiset Bytes) =
    R.cargo + ↑(arr.map Prod.snd)
  arrived : (↑arr : Multiset ((Nat × Nat) × Bytes)) ≤ ↑(tableChunks table)
  waiting : Waiting table (arr.map Prod.fst) R.ctx
  out : R.wire.map Prod.snd ++ R.leaving =
    (flushed table 0 R.ctx.expPkt).map fun w => decoded tr s w.2

variable {sent : List Bytes} {delivered : List (Int × Bytes)} {S S' : Sender} {R R' : Receiver}
  {table : List (List Bytes)} {arr : List ((Nat × Nat) × Bytes)}

namespace Exchange

theorem length_le (h : Exchange tr size s sent delivered S R table arr) :
    table.length + S.waiting.length = sent.length := by
  have hlen := congrArg List.length h.order
  simpa using hlen

/-- The packets that split takes are encodings of pushed ones. -/
theorem packet_mem (h : Exchange tr size s sent delivered S R table arr) {data : Bytes}
    (hdata : data ∈ table.map List.flatten ++ S.waiting) : data ≠ [] ∧ data.length < 2 ^ 31 := by
  rw [h.order] at hdata
  obtain ⟨x, hx, rfl⟩ := List.mem_map.mp hdata
  obtain ⟨hne, hlen⟩ := h.limits.packets x hx
  exact ⟨encoded_ne_nil tr s hne, hlen⟩

theorem bounded (h : Exchange tr size s sent delivered S R table arr) : Bounded table := by
  have hlen := h.length_le
  have hcount := h.limits.count
  refine ⟨by omega, ?_, ?_⟩
  · intro ps hps
    exact ⟨(h.pieces ps hps).ne_nil, (h.pieces ps hps).length_le⟩
  · intro ps hps p hp
    have hle : p.length ≤ ps.flatten.length := (List.sublist_flatten_of_mem hp).length_le
    have := (h.packet_mem (List.mem_append_left _ (List.mem_map_of_mem hps))).2
    omega

/-- The first waiting packet is split. -/
theorem split {x : Bytes} {rest : List Bytes} {ctx : SplitContext} {cargo : Multiset Bytes}
    {wire : List (Int × Bytes)}
    (h : Exchange tr size s sent delivered ⟨x :: rest, ctx, cargo, wire⟩ R table arr)
    (rand : Nat → Nat) :
    ∃ ps, Exchange tr size s sent delivered
      ⟨rest, (Split.processSplit rand ctx x).1,
        cargo + ↑((Split.processSplit rand ctx x).2.map Prod.snd), wire⟩ R (table ++ [ps]) arr := by
  have hlen := h.length_le
  have hcount := h.limits.count
  have hseq : ctx.pktSeq = table.length := h.seq
  rw [List.length_cons] at hlen
  obtain ⟨hne, hsize⟩ := h.packet_mem (List.mem_append_right _ List.mem_cons_self)
  obtain ⟨ps, hps, hbytes, -, hnext, -, hconf⟩ :=
    Split.processSplit_spec rand h.configured hne hsize
  have hchunks : (packetChunks table.length ps).map Prod.snd =
      (Split.processSplit rand ctx x).2.map Prod.snd := by
    rw [hbytes, Split.map_snd_packetChunks, hseq]
  refine ⟨ps, h.limits, hconf, ?_, ?_, ?_, ?_, h.fifo, h.given, ?_, h.waiting.extend hps.ne_nil, ?_⟩
  · rw [hnext, hseq, List.length_append, List.length_singleton]
    exact Nat.mod_eq_of_lt (by omega)
  · intro qs hqs
    rcases List.mem_append.mp hqs with hqs | hqs
    · exact h.pieces qs hqs
    · rw [List.mem_singleton.mp hqs, hps.flatten]
      exact hps
  · rw [← h.order, List.map_append, List.map_singleton, hps.flatten, List.append_assoc]
    rfl
  · have hemit := h.emitted
    rw [Split.tableChunks_concat, List.map_append, hchunks, ← Multiset.coe_add, hemit]
    exact add_right_comm _ _ _
  · rw [Split.tableChunks_concat, ← Multiset.coe_add]
    exact h.arrived.trans (Multiset.le_add_right _ _)
  · rw [Split.flushed_extend h.waiting.holds.pkt_le]
    exact h.out

/-- The steps of a sender with split. -/
theorem send (h : Exchange tr size s sent delivered S R table arr) (hs : s < size)
    (hstep : Sender.Step tr size s ports S S') :
    ∃ table', Exchange tr size s sent delivered S' R table' arr := by
  cases hstep with
  | split _ rand =>
      obtain ⟨ps, hps⟩ := h.split rand
      exact ⟨_, hps⟩
  | @launch waiting ctx cargo wire p y _ _ _ =>
      refine ⟨table, h.limits, h.configured, h.seq, h.pieces, h.order, ?_,
        h.fifo.append_right _, h.given, h.arrived, h.waiting, h.out⟩
      have hemit := h.emitted
      simp only at hemit ⊢
      rw [hemit, List.map_append, ← Multiset.coe_add, add_assoc,
        add_comm {unwound tr s size y}]
      rfl
  | pass heq => omega

/-- A chunk on its way has not arrived, and it is a chunk of some packet. -/
theorem exists_chunk {y : Bytes} {cargo : Multiset Bytes} {ctx : SplitContext}
    {leaving : List Bytes} {wire : List (Int × Bytes)}
    (h : Exchange tr size s sent delivered S ⟨cargo + {y}, ctx, leaving, wire⟩ table arr) :
    ∃ e : (Nat × Nat) × Bytes, e.2 = y ∧
      (↑(arr ++ [e]) : Multiset ((Nat × Nat) × Bytes)) ≤ ↑(tableChunks table) := by
  obtain ⟨rest, hrest⟩ := Multiset.le_iff_exists_add.mp h.arrived
  have hsub : (↑(delivered.map fun w => unwound tr s size w.2) : Multiset Bytes) ≤
      ↑((tableChunks table).map Prod.snd) := by
    have hmap := Multiset.map_le_map (f := fun w : Int × Bytes => unwound tr s size w.2)
      h.fifo.coe_le
    rw [Multiset.map_coe, Multiset.map_coe] at hmap
    rw [h.emitted]
    exact hmap.trans (Multiset.le_add_left _ _)
  have hgiven := h.given
  simp only at hgiven
  rw [hgiven, ← Multiset.map_coe _ (tableChunks table), hrest, Multiset.map_add,
    Multiset.map_coe, add_comm (↑(arr.map Prod.snd) : Multiset Bytes)] at hsub
  have hy : cargo + {y} ≤ rest.map Prod.snd := le_of_add_le_add_right hsub
  have hmem : y ∈ rest.map Prod.snd := by
    apply Multiset.mem_of_le hy
    simp
  obtain ⟨e, he, hey⟩ := Multiset.mem_map.mp hmem
  refine ⟨e, hey, ?_⟩
  rw [hrest, ← Multiset.coe_add]
  exact add_le_add_right (Multiset.singleton_le.mpr he) _

/-- A chunk arrives at the split module of the receiver within half a window. -/
theorem merge {y : Bytes} {cargo : Multiset Bytes} {ctx : SplitContext} {leaving : List Bytes}
    {wire : List (Int × Bytes)}
    (h : Exchange tr size s sent delivered S ⟨cargo + {y}, ctx, leaving, wire⟩ table arr) :
    ∃ ctx' ws e, Split.processMerge ctx y = some (ctx', ws) ∧
      Exchange tr size s sent delivered S
        ⟨cargo, ctx', leaving ++ ws.map fun w => decoded tr s w.2, wire⟩ table (arr ++ [e]) := by
  obtain ⟨e, rfl, hle⟩ := h.exists_chunk
  have hwait := h.waiting
  have hlen := h.length_le
  have hopen := h.limits.undelivered
  have hout := h.out
  simp only at hwait hopen hout
  -- the chunk belongs to a packet that has been split
  have hmem : e ∈ tableChunks table := by
    have hmem := Multiset.mem_of_le hle (show e ∈ (↑(arr ++ [e]) : Multiset _) by simp)
    exact hmem
  obtain ⟨k, ps, hps, hek⟩ := Split.mem_tableChunks.mp hmem
  obtain ⟨j, p, hp, rfl⟩ := Split.mem_packetChunks.mp hek
  have hk := (List.getElem?_eq_some_iff.mp hps).1
  have hj := (List.getElem?_eq_some_iff.mp hp).1
  -- it is new, so its packet is not out
  have hnew : (k, j) ∉ arr.map Prod.fst := by
    have hnodup : ((arr ++ [((k, j), Split.chunkAt k ps.length j p)]).map Prod.fst).Nodup := by
      have hsub := Multiset.map_le_map (f := Prod.fst) hle
      rw [Multiset.map_coe, Multiset.map_coe] at hsub
      exact Multiset.coe_nodup.mp
        (Multiset.nodup_of_le hsub (Multiset.coe_nodup.mpr (Split.nodup_tableChunks table)))
    rw [List.map_append, List.map_singleton] at hnodup
    exact fun hin => (List.nodup_append.mp hnodup).2.2 _ hin _ (List.mem_singleton.mpr rfl) rfl
  have hlo : ctx.expPkt ≤ k := by
    by_contra hlt
    exact hnew (hwait.holds.done k (by omega) ps hps j hj)
  -- the packets that are out are among those that split has put together
  have hflushed : wire.length ≤ ctx.expPkt := by
    have hcount := congrArg List.length hout
    simp only [List.length_append, List.length_map, flushed, List.length_take] at hcount
    omega
  obtain ⟨ctx', hmerge, hgrow, hwait'⟩ :=
    hwait.processMerge h.bounded hps hp (by omega) (by omega)
  refine ⟨ctx', _, _, hmerge, h.limits, h.configured, h.seq, h.pieces, h.order, h.emitted, h.fifo,
    ?_, hle, ?_, ?_⟩
  · have hgiven := h.given
    simp only at hgiven ⊢
    rw [hgiven, List.map_append, ← Multiset.coe_add, add_assoc, add_comm {_}]
    rfl
  · rw [List.map_append]
    exact hwait'
  · rw [← List.append_assoc, hout, ← List.map_append,
      Split.flushed_append (Nat.zero_le _) hgrow]

theorem merge_isSome (h : Exchange tr size s sent delivered S R table arr) {y : Bytes}
    (hy : y ∈ R.cargo) : (Split.processMerge R.ctx y).isSome := by
  obtain ⟨cargo, ctx, leaving, wire⟩ := R
  obtain ⟨rest, rfl⟩ := Multiset.exists_cons_of_mem hy
  rw [← Multiset.singleton_add, add_comm] at h
  obtain ⟨ctx', ws, -, hmerge, -⟩ := h.merge
  rw [hmerge]
  rfl

/-- The steps of a receiver. -/
theorem receive (h : Exchange tr size s sent delivered S R table arr)
    (hstep : Receiver.Step tr s R R') :
    ∃ arr', Exchange tr size s sent delivered S R' table arr' := by
  cases hstep with
  | merge hmerge =>
      obtain ⟨ctx', ws, e, hrun, hex⟩ := h.merge
      obtain ⟨rfl, rfl⟩ := Prod.mk.inj (Option.some.inj (hrun.symm.trans hmerge))
      exact ⟨_, hex⟩
  | @exit cargo ctx leaving wire y =>
      refine ⟨arr, h.limits.mono ?_, h.configured, h.seq, h.pieces, h.order, h.emitted, h.fifo,
        h.given, h.arrived, h.waiting, ?_⟩
      · simp
      · rw [← h.out]
        simp

/-- Another packet is pushed into the sender. -/
theorem push (h : Exchange tr size s sent delivered S R table arr) {x : Bytes}
    (hlim : Limits tr s (sent ++ [x]) R.wire.length) :
    Exchange tr size s (sent ++ [x]) delivered
      { S with waiting := S.waiting ++ [encoded tr s x] } R table arr :=
  { h with
    limits := hlim
    order := by rw [← List.append_assoc, h.order, List.map_append, List.map_singleton] }

/-- The next output of a port is delivered. -/
theorem deliver (h : Exchange tr size s sent delivered S R table arr) {p : Int} {y : Bytes}
    (hnext : (S.wire.filter (·.1 = p))[(delivered.filter (·.1 = p)).length]? = some (p, y)) :
    Exchange tr size s sent (delivered ++ [(p, y)]) S
      { R with cargo := R.cargo + {unwound tr s size y} } table arr :=
  { h with
    fifo := h.fifo.deliver hnext
    given := by
      rw [List.map_append, ← Multiset.coe_add, h.given]
      exact add_right_comm _ _ _ }

/-! ## What the receiver has put out -/

theorem flushed_eq (h : Exchange tr size s sent delivered S R table arr) :
    R.wire.map Prod.snd ++ R.leaving =
      ((table.map List.flatten).take R.ctx.expPkt).map (decoded tr s) := by
  rw [h.out, flushed, List.drop_zero, Nat.sub_zero, ← List.map_take, List.map_map, List.map_map]
  rfl

theorem map_decoded (h : Exchange tr size s sent delivered S R table arr) :
    (sent.map (encoded tr s)).map (decoded tr s) = sent :=
  map_decoded_encoded fun x hx => (h.limits.packets x hx).1

theorem prefix_sent (h : Exchange tr size s sent delivered S R table arr) :
    R.wire.map Prod.snd <+: sent := by
  rw [← h.map_decoded, ← h.order]
  have htake : (table.map List.flatten).take R.ctx.expPkt <+:
      table.map List.flatten ++ S.waiting :=
    (List.take_prefix _ _).trans (List.prefix_append _ _)
  exact (List.prefix_append _ R.leaving).trans (h.flushed_eq ▸ htake.map _)

/-- When nothing is on its way any more, everything is out. -/
theorem eq_sent (h : Exchange tr size s sent delivered S R table arr)
    (hwaiting : S.waiting = []) (hcargo : S.cargo = 0)
    (hall : ∀ p, (S.wire.filter (·.1 = p)).length ≤ (delivered.filter (·.1 = p)).length)
    (hcargo' : R.cargo = 0) (hleaving : R.leaving = []) : R.wire.map Prod.snd = sent := by
  have hvalues : (↑(arr.map Prod.snd) : Multiset Bytes) = ↑((tableChunks table).map Prod.snd) := by
    have hgiven := h.given
    have hsame := congrArg (Multiset.map fun w : Int × Bytes => unwound tr s size w.2)
      (h.fifo.coe_eq hall)
    rw [Multiset.map_coe, Multiset.map_coe] at hsame
    rw [hcargo', zero_add] at hgiven
    rw [h.emitted, hcargo, zero_add, ← hsame, hgiven]
  have hperm : (↑arr : Multiset ((Nat × Nat) × Bytes)) = ↑(tableChunks table) := by
    apply Multiset.eq_of_le_of_card_le h.arrived
    have hcard := congrArg Multiset.card hvalues
    simp only [Multiset.coe_card, List.length_map] at hcard ⊢
    omega
  have hdone : R.ctx.expPkt = table.length := by
    refine (h.waiting.complete ?_).1
    intro k j ps p hps hp
    have hmem : ((k, j), Split.chunkAt k ps.length j p) ∈ tableChunks table :=
      Split.mem_tableChunks.mpr ⟨k, ps, hps, Split.mem_packetChunks.mpr ⟨j, p, hp, rfl⟩⟩
    have harr : ((k, j), Split.chunkAt k ps.length j p) ∈ arr := by
      rw [← Multiset.mem_coe, hperm]
      exact hmem
    exact List.mem_map.mpr ⟨_, harr, rfl⟩
  have hflushed := h.flushed_eq
  have horder := h.order
  rw [hwaiting, List.append_nil] at horder
  rw [hleaving, List.append_nil, hdone, List.take_of_length_le (by simp), horder,
    h.map_decoded] at hflushed
  exact hflushed

end Exchange

/-! ## Without split -/

/-- A sender and a receiver that keep everything in line. -/
structure Relay (tr : Nat → Transformer) (s : Nat) (sent : List Bytes)
    (delivered : List (Int × Bytes)) (S : Sender) (R : Receiver) : Prop where
  packets : ∀ x ∈ sent, x ≠ []
  order : S.wire.map Prod.snd ++ S.waiting = sent.map (encoded tr s)
  port : ∀ w ∈ S.wire, w.1 = 1
  fifo : PortFifo delivered S.wire
  cargo : R.cargo = 0
  out : R.wire.map Prod.snd ++ R.leaving = delivered.map fun w => decoded tr s w.2

namespace Relay

theorem send (h : Relay tr s sent delivered S R) (hs : s = size) (hports : ports = 2)
    (hstep : Sender.Step tr size s ports S S') : Relay tr s sent delivered S' R := by
  cases hstep with
  | split hlt => omega
  | launch hlt => omega
  | @pass rest ctx cargo wire p y _ hp hlt =>
      refine ⟨h.packets, ?_, ?_, h.fifo.append_right _, h.cargo, h.out⟩
      · rw [← h.order]
        simp
      · intro w hw
        rcases List.mem_append.mp hw with hw | hw
        · exact h.port w hw
        · obtain rfl : p = 1 := by omega
          rw [List.mem_singleton.mp hw]
          rfl

theorem receive (h : Relay tr s sent delivered S R) (hstep : Receiver.Step tr s R R') :
    Relay tr s sent delivered S R' := by
  cases hstep with
  | @merge cargo ctx ctx' leaving wire y ws hmerge =>
      have hempty := congrArg Multiset.card h.cargo
      simp at hempty
  | exit =>
      refine ⟨h.packets, h.order, h.port, h.fifo, h.cargo, ?_⟩
      rw [← h.out]
      simp

theorem push (h : Relay tr s sent delivered S R) {x : Bytes} (hx : x ≠ []) :
    Relay tr s (sent ++ [x]) delivered
      { S with waiting := S.waiting ++ [encoded tr s x] } R :=
  { h with
    packets := by
      intro y hy
      rcases List.mem_append.mp hy with hy | hy
      · exact h.packets y hy
      · rw [List.mem_singleton.mp hy]
        exact hx
    order := by rw [← List.append_assoc, h.order, List.map_append, List.map_singleton] }

theorem deliver (h : Relay tr s sent delivered S R) {p : Int} {y : Bytes}
    (hnext : (S.wire.filter (·.1 = p))[(delivered.filter (·.1 = p)).length]? = some (p, y)) :
    Relay tr s sent (delivered ++ [(p, y)]) S
      { R with leaving := R.leaving ++ [decoded tr s y] } :=
  { h with
    fifo := h.fifo.deliver hnext
    out := by rw [← List.append_assoc, h.out, List.map_append, List.map_singleton] }

theorem prefix_sent (h : Relay tr s sent delivered S R) : R.wire.map Prod.snd <+: sent := by
  have hdelivered : delivered.map Prod.snd <+: S.wire.map Prod.snd ++ S.waiting :=
    ((h.fifo.prefix_of_single h.port).map Prod.snd).trans (List.prefix_append _ _)
  have hmap := hdelivered.map (decoded tr s)
  rw [List.map_map, h.order, map_decoded_encoded h.packets] at hmap
  exact (List.prefix_append _ R.leaving).trans (h.out ▸ hmap)

theorem eq_sent (h : Relay tr s sent delivered S R) (hwaiting : S.waiting = [])
    (hall : ∀ p, (S.wire.filter (·.1 = p)).length ≤ (delivered.filter (·.1 = p)).length)
    (hleaving : R.leaving = []) : R.wire.map Prod.snd = sent := by
  have hlen : S.wire.length ≤ delivered.length := by
    have hcard := congrArg Multiset.card (h.fifo.coe_eq hall)
    simp only [Multiset.coe_card] at hcard
    omega
  have heq : delivered = S.wire := (h.fifo.prefix_of_single h.port).eq_of_length_le hlen
  have hout := h.out
  have horder := h.order
  rw [hleaving, List.append_nil, heq] at hout
  rw [hwaiting, List.append_nil] at horder
  rw [hout, ← map_decoded_encoded h.packets, ← horder, List.map_map]
  rfl

end Relay

/-! ## Either way -/

/-- A sender and a receiver of a list with split or without. -/
def Account (tr : Nat → Transformer) (size s ports : Nat) (sent : List Bytes)
    (delivered : List (Int × Bytes)) (S : Sender) (R : Receiver) : Prop :=
  (s + 1 < size ∧ ∃ table arr, Exchange tr size s sent delivered S R table arr) ∨
    (s = size ∧ ports = 2 ∧ Relay tr s sent delivered S R)

namespace Account

theorem send (h : Account tr size s ports sent delivered S R)
    (hstep : Sender.Step tr size s ports S S') :
    Account tr size s ports sent delivered S' R := by
  rcases h with ⟨hs, table, arr, h⟩ | ⟨hs, hports, h⟩
  · obtain ⟨table', h'⟩ := h.send (by omega) hstep
    exact .inl ⟨hs, table', arr, h'⟩
  · exact .inr ⟨hs, hports, h.send hs hports hstep⟩

theorem receive (h : Account tr size s ports sent delivered S R)
    (hstep : Receiver.Step tr s R R') : Account tr size s ports sent delivered S R' := by
  rcases h with ⟨hs, table, arr, h⟩ | ⟨hs, hports, h⟩
  · obtain ⟨arr', h'⟩ := h.receive hstep
    exact .inl ⟨hs, table, arr', h'⟩
  · exact .inr ⟨hs, hports, h.receive hstep⟩

theorem push (h : Account tr size s ports sent delivered S R) {x : Bytes}
    (hx : x ≠ [] ∧ (encoded tr s x).length < 2 ^ 31) (hcount : sent.length + 1 < 2 ^ 32 - 32768)
    (hopen : sent.length + 1 < R.wire.length + 16384) :
    Account tr size s ports (sent ++ [x]) delivered
      { S with waiting := S.waiting ++ [encoded tr s x] } R := by
  rcases h with ⟨hs, table, arr, h⟩ | ⟨hs, hports, h⟩
  · refine .inl ⟨hs, table, arr, h.push ⟨?_, by simpa using hcount, by simpa using hopen⟩⟩
    intro y hy
    rcases List.mem_append.mp hy with hy | hy
    · exact h.limits.packets y hy
    · rw [List.mem_singleton.mp hy]
      exact hx
  · exact .inr ⟨hs, hports, h.push hx.1⟩

theorem prefix_sent (h : Account tr size s ports sent delivered S R) :
    R.wire.map Prod.snd <+: sent := by
  rcases h with ⟨-, table, arr, h⟩ | ⟨-, -, h⟩
  · exact h.prefix_sent
  · exact h.prefix_sent

theorem eq_sent (h : Account tr size s ports sent delivered S R)
    (hwaiting : S.waiting = []) (hcargo : S.cargo = 0)
    (hall : ∀ p, (S.wire.filter (·.1 = p)).length ≤ (delivered.filter (·.1 = p)).length)
    (hcargo' : R.cargo = 0) (hleaving : R.leaving = []) : R.wire.map Prod.snd = sent := by
  rcases h with ⟨-, table, arr, h⟩ | ⟨-, -, h⟩
  · exact h.eq_sent hwaiting hcargo hall hcargo' hleaving
  · exact h.eq_sent hwaiting hall hleaving

end Account

end PipelineTunnel.Pipeline
