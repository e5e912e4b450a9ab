import PipelineTunnel.Pipeline.Transit

/-!
# The two ends of a tunnel

What chain A is for: packets wait in line for split, split turns the first of them into
chunks, and the chunks get to the wire in any order. What chain B is for: the chunks that
came from the wire get to split in any order, and the packets that split puts together
leave in line. `Steady.sends` and `Steady.receives` show that the steps of a chain are
such steps or change nothing that can be seen here.
-/

namespace PipelineTunnel.Pipeline

open FifoLine
open Split (SplitContext processSplit processMerge)

variable {tr : Nat → Transformer} {size s outs ports : Nat} {sc : SplitContext}
  {n n' : Net ModuleContext}

/-- A chain that encodes. -/
structure Sender where
  /-- Encoded up to split, the next one first. -/
  waiting : List Bytes
  ctx : SplitContext
  cargo : Multiset Bytes
  wire : List (Int × Bytes)

/-- A chain without split passes its packets to the wire in line. -/
inductive Sender.Step (tr : Nat → Transformer) (size s ports : Nat) : Sender → Sender → Prop
  | split {x : Bytes} {rest : List Bytes} {ctx : SplitContext} {cargo : Multiset Bytes}
      {wire : List (Int × Bytes)} (hs : s < size) (rand : Nat → Nat) :
      Step tr size s ports ⟨x :: rest, ctx, cargo, wire⟩
        ⟨rest, (processSplit rand ctx x).1,
          cargo + ↑((processSplit rand ctx x).2.map Prod.snd), wire⟩
  | launch {waiting : List Bytes} {ctx : SplitContext} {cargo : Multiset Bytes}
      {wire : List (Int × Bytes)} {p : Nat} {y : Bytes} (hs : s < size) (hp : 1 ≤ p)
      (hlt : p < ports) :
      Step tr size s ports ⟨waiting, ctx, cargo + {unwound tr s size y}, wire⟩
        ⟨waiting, ctx, cargo, wire ++ [((p : Int), y)]⟩
  | pass {rest : List Bytes} {ctx : SplitContext} {cargo : Multiset Bytes}
      {wire : List (Int × Bytes)} {p : Nat} {y : Bytes} (hs : s = size) (hp : 1 ≤ p)
      (hlt : p < ports) :
      Step tr size s ports ⟨y :: rest, ctx, cargo, wire⟩
        ⟨rest, ctx, cargo, wire ++ [((p : Int), y)]⟩

/-- A chain that decodes. -/
structure Receiver where
  cargo : Multiset Bytes
  ctx : SplitContext
  /-- Decoded, the next one first. -/
  leaving : List Bytes
  wire : List (Int × Bytes)

inductive Receiver.Step (tr : Nat → Transformer) (s : Nat) : Receiver → Receiver → Prop
  | merge {cargo : Multiset Bytes} {ctx ctx' : SplitContext} {leaving : List Bytes}
      {wire : List (Int × Bytes)} {y : Bytes} {ws : List Split.Write}
      (hmerge : processMerge ctx y = some (ctx', ws)) :
      Step tr s ⟨cargo + {y}, ctx, leaving, wire⟩
        ⟨cargo, ctx', leaving ++ ws.map fun w => decoded tr s w.2, wire⟩
  | exit {cargo : Multiset Bytes} {ctx : SplitContext} {leaving : List Bytes}
      {wire : List (Int × Bytes)} {y : Bytes} :
      Step tr s ⟨cargo, ctx, y :: leaving, wire⟩ ⟨cargo, ctx, leaving, wire ++ [(0, y)]⟩

/-! ## The line to split -/

variable (tr s) in
/-- The packets in front of split, each encoded up to there. -/
def Net.waiting (n : Net ModuleContext) : List Bytes :=
  (n.stages .encode).inbox s ++
    inTransit (applied tr .encode) (n.stages .encode) (travel s .encode)

variable (tr s) in
/-- The packets behind split, each as it will leave. -/
def Net.leaving (n : Net ModuleContext) : List Bytes :=
  inTransit (applied tr .decode) (n.stages .decode) (travel s .decode) ++
    ((n.stages .decode).outbox s).map (decoded tr s)

/-- An instance is on the line exactly if its module is in front of split. -/
theorem Chain.Routes.mem_travel_iff {c : Chain ModuleContext} (h : c.Routes size s outs ports)
    (hs : s ≤ size) {m i : Nat} (hm : c.cfg m = some i) (d : Dir) : m ∈ travel s d ↔ i < s := by
  rw [mem_travel]
  constructor
  · intro hlt
    rw [h.main m (by omega)] at hm
    obtain rfl := Option.some.inj hm
    exact hlt
  · intro hlt
    rw [h.single m i hm (by omega)]
    exact hlt

theorem Chain.Routes.ne_split {c : Chain ModuleContext} (h : c.Routes size s outs ports)
    {m i : Nat} (hm : c.cfg m = some i) (hi : i ≠ s) (hs : s ≤ size) : m ≠ s := by
  rintro rfl
  rcases Nat.lt_or_eq_of_le hs with hlt | rfl
  · rw [h.main m hlt] at hm
    exact hi (Option.some.inj hm).symm
  · have := h.cfg_lt m i hm
    exact hi (h.single m i hm (by omega)).symm

/-- The line towards split ends there, or at the wire if there is no split. -/
theorem Chain.Routes.encodeLine_last {c : Chain ModuleContext} (h : c.Routes size s outs ports)
    (hs : s + 1 < size ∨ s = size) :
    ∃ last, c.Line .encode (travel s .encode) last ∧
      (s < size → last = .toModule s .encode) ∧ (s = size → ∃ p, last = .toWire p) := by
  rcases Nat.eq_zero_or_pos s with rfl | hpos
  · rcases Nat.eq_zero_or_pos size with rfl | hsize
    · exact ⟨.toWire 0, h.encodeLine (Nat.le_refl 0) (fun hlt => absurd hlt (Nat.lt_irrefl 0)),
        fun hlt => absurd hlt (Nat.lt_irrefl 0), fun _ => ⟨0, rfl⟩⟩
    · exact ⟨.toModule 0 .encode, h.encodeLine (Nat.zero_le _)
        (fun hlt => absurd hlt (Nat.lt_irrefl 0)), fun _ => rfl, by omega⟩
  · have hcfg := h.main (s - 1) (by omega)
    rcases hs with hlt | rfl
    · obtain ⟨q, hq, hhop⟩ := h.down (s - 1) (s - 1) hcfg (by omega) 1 (Nat.le_refl 1)
        (.inl (Nat.le_refl 1))
      rw [Nat.sub_add_cancel hpos] at hq
      obtain rfl := h.single q _ hq (Nat.le_refl _)
      exact ⟨_, h.encodeLine (by omega) (fun _ => hhop), fun _ => rfl, by omega⟩
    · obtain ⟨p, -, -, hhop⟩ := h.last (s - 1) (s - 1) hcfg (by omega)
      exact ⟨_, h.encodeLine (Nat.le_refl s) (fun _ => hhop), by omega, fun _ => ⟨_, rfl⟩⟩

/-! ## What the moves do to the boxes -/

section Moves

variable {d : Dir} {m i q j : Nat} {src dst : Int} {x y : Bytes}

theorem stages_head_inbox {rest : List (Int × Bytes)} (h : n.inbox (m, d) = (src, x) :: rest) :
    (n.stages d).inbox m = x :: rest.map Prod.snd := by
  simp [Net.stages, h]

theorem stages_head_outbox {rest : List (Int × Int × Bytes)}
    (h : n.outbox (m, d) = (src, dst, y) :: rest) :
    (n.stages d).outbox m = y :: rest.map fun w => w.2.2 := by
  simp [Net.stages, h]

theorem stages_nil_outbox (h : n.outbox (m, d) = []) : (n.stages d).outbox m = [] := by
  simp [Net.stages, h]

theorem stages_handle_self (c : Chain ModuleContext) (rest : List (Int × Bytes))
    (out : List (Int × Int × Bytes)) :
    ({ n with
       chain := c
       inbox := Function.update n.inbox (m, d) rest
       outbox := Function.update n.outbox (m, d) out } : Net ModuleContext).stages d =
      (n.stages d).handle m (rest.map Prod.snd) (out.map fun w => w.2.2) := by
  rw [Net.stages_handle, if_pos rfl]

theorem map_splitWrites (src : Int) (ws : List Split.Write) :
    ((splitWrites ws).map fun w => (src, w)).map (fun w => w.2.2) = ws.map Prod.snd := by
  rw [splitWrites, List.map_map, List.map_map]
  rfl

theorem stages_forward_self (rest : List (Int × Int × Bytes)) :
    ({ n with
       inbox := Function.update n.inbox (q, d) (n.inbox (q, d) ++ [(src, y)])
       outbox := Function.update n.outbox (m, d) rest } : Net ModuleContext).stages d =
      ((n.stages d).setOutbox m (rest.map fun w => w.2.2)).post q y := by
  have hpost := @Net.stages_post _ { n with outbox := Function.update n.outbox (m, d) rest }
    q d d n.chain n.wire (src, y)
  rw [Net.stages_setOutbox, if_pos rfl, if_pos rfl] at hpost
  exact hpost

theorem stages_exit_self (wire : List (Int × Bytes)) (rest : List (Int × Int × Bytes)) :
    ({ n with outbox := Function.update n.outbox (m, d) rest, wire := wire } :
        Net ModuleContext).stages d =
      (n.stages d).setOutbox m (rest.map fun w => w.2.2) := by
  rw [Net.stages_setOutbox, if_pos rfl]

variable {c : Chain ModuleContext} {st : Stages Nat Bytes} {rest : List Bytes}

theorem cargoOf_transform (hm : c.cfg m = some i) (hi : i ≠ s) (hx : d = .encode → x ≠ [])
    (hin : st.inbox m = x :: rest) (hout : st.outbox m = []) :
    cargoOf tr s c d (st.handle m rest [(tr i).apply d x]) = cargoOf tr s c d st := by
  have h := cargoOf_handle tr s d hm [(tr i).apply d x] hin hout
  rw [coe_filterMap_cons, List.filterMap_nil, Multiset.coe_nil, add_zero,
    carried_apply hi hx] at h
  exact add_right_cancel h

theorem cargoOf_forward (hm : c.cfg m = some i) (hq : c.cfg q = some j)
    (hnext : d.before j = d.after i) (hout : st.outbox m = y :: rest) :
    cargoOf tr s c d ((st.setOutbox m rest).post q y) = cargoOf tr s c d st := by
  rw [cargoOf_post tr s d _ hq, hnext, cargoOf_setOutbox tr s d hm hout]

theorem inTransit_transform (h : c.Routes size s outs ports) (hs : s ≤ size)
    (hm : c.cfg m = some i) (hin : st.inbox m = x :: rest) (hout : st.outbox m = []) :
    inTransit (applied tr d) (st.handle m rest [(tr i).apply d x]) (travel s d) =
      inTransit (applied tr d) st (travel s d) := by
  by_cases hmem : m ∈ travel s d
  · have hi := (h.mem_travel_iff hs hm d).mp hmem
    obtain rfl := h.single m i hm (by omega)
    exact inTransit_handle (nodup_travel s d) hmem hin hout
  · exact inTransit_handle_of_notMem _ _ hmem

/-- Beyond split a packet is passed on without touching the line. -/
theorem inTransit_forward_off (hm : m ∉ travel s d) (hq : q ∉ travel s d) :
    inTransit (applied tr d) ((st.setOutbox m rest).post q y) (travel s d) =
      inTransit (applied tr d) st (travel s d) := by
  rw [inTransit_post_of_notMem y hq, inTransit_setOutbox_of_notMem rest hm]

end Moves

/-! ## Chain A -/

variable (tr s) in
def Net.sender (n : Net ModuleContext) (sc : SplitContext) : Sender :=
  ⟨n.waiting tr s, sc, n.cargo tr s .encode, n.wire⟩

/-- The line in front of split is as long as before, up to a packet that arrives there. -/
theorem waiting_forward {c : Chain ModuleContext} (h : c.Routes size s outs ports)
    (hs : s + 1 < size ∨ s = size) {m i q j : Nat} {dst : Int} {y : Bytes} {rest : List Bytes}
    {st : Stages Nat Bytes} (hm : c.cfg m = some i) (hq : c.cfg q = some j)
    (hnext : Dir.encode.before j = Dir.encode.after i) (hout : st.outbox m = y :: rest)
    (hhop : c.hop m dst = some (.toModule q .encode)) (hdst : i < s → dst = Dir.encode.dst) :
    ((st.setOutbox m rest).post q y).inbox s ++
        inTransit (applied tr .encode) ((st.setOutbox m rest).post q y) (travel s .encode) =
      st.inbox s ++ inTransit (applied tr .encode) st (travel s .encode) := by
  have hle : s ≤ size := by omega
  obtain rfl : j = i + 1 := hnext
  have hpost : ∀ z, z ≠ q → ((st.setOutbox m rest).post q y).inbox z = st.inbox z := by
    intro z hz
    exact Function.update_of_ne hz _ _
  by_cases hmem : m ∈ travel s .encode
  · have hi := (h.mem_travel_iff hle hm .encode).mp hmem
    rw [hdst hi] at hhop
    obtain ⟨last, hline, hsplit, hwire⟩ := h.encodeLine_last hs
    rcases hline.pass (applied tr .encode) hmem hout with ⟨q', hq', hpass, heq⟩ | ⟨hpass, heq⟩
    · rw [hhop] at hpass
      obtain ⟨rfl, -⟩ := Hop.toModule.inj (Option.some.inj hpass)
      have hne : s ≠ q := fun heq => by
        rw [← heq] at hq'
        exact absurd (mem_travel.mp hq') (Nat.lt_irrefl s)
      rw [hpost s hne, heq]
    · rw [hhop] at hpass
      have hlast := Option.some.inj hpass
      rcases hs with hlt | hsz
      · rw [hsplit (by omega)] at hlast
        obtain ⟨rfl, -⟩ := Hop.toModule.inj hlast
        have hin : ((st.setOutbox m rest).post q y).inbox q = st.inbox q ++ [y] :=
          Function.update_self _ _ _
        rw [hin, inTransit_post_of_notMem y (fun hq' => absurd (mem_travel.mp hq')
          (Nat.lt_irrefl q)), heq, List.append_assoc]
        rfl
      · obtain ⟨p, hp⟩ := hwire hsz
        rw [hp] at hlast
        cases hlast
  · have hi : ¬i < s := fun hlt => hmem ((h.mem_travel_iff hle hm .encode).mpr hlt)
    have hqmem : q ∉ travel s .encode := by
      rw [h.mem_travel_iff hle hq]
      omega
    rw [inTransit_forward_off hmem hqmem, hpost s (h.ne_split hq (by omega) hle).symm]

/-- Without split nothing waits in its place. -/
theorem Steady.inbox_eq_nil {d : Dir} (h : Steady tr size s outs ports d sc n) (hs : size ≤ s) :
    (n.stages d).inbox s = [] := by
  have hnil : n.inbox (s, d) = [] := by
    rw [List.eq_nil_iff_forall_not_mem]
    intro w hw
    obtain ⟨i, hi⟩ := h.located s w hw
    have hlt := h.fitted.routes.cfg_lt s i hi
    have := h.fitted.routes.single s i hi (by omega)
    omega
  simp [Net.stages, hnil]

theorem Steady.outbox_eq_nil {d : Dir} (h : Steady tr size s outs ports d sc n) (hs : size ≤ s) :
    (n.stages d).outbox s = [] := by
  have hnil : n.outbox (s, d) = [] := by
    rw [List.eq_nil_iff_forall_not_mem]
    intro w hw
    obtain ⟨i, hi, -⟩ := h.valid s w hw
    have hlt := h.fitted.routes.cfg_lt s i hi
    have := h.fitted.routes.single s i hi (by omega)
    omega
  simp [Net.stages, hnil]

/-- The split module takes the next packet and leaves its pieces as cargo. -/
theorem Steady.sends_split (h : Steady tr size s outs ports .encode sc n)
    {rest : List (Int × Bytes)} (rand : Nat → Nat) (hcs : n.chain.cfg s = some s)
    (hin : n.inbox (s, .encode) = (src, x) :: rest) (hout : n.outbox (s, .encode) = []) :
    Sender.Step tr size s ports (n.sender tr s sc)
      (({ n with
        chain := n.chain.setCtx s (.split (processSplit rand sc x).1)
        inbox := Function.update n.inbox (s, .encode) rest
        outbox := Function.update n.outbox (s, .encode)
          ((splitWrites (processSplit rand sc x).2).map fun w => (src, w)) } :
        Net ModuleContext).sender tr s (processSplit rand sc x).1) := by
  have hin' := stages_head_inbox hin
  have hout' := stages_nil_outbox hout
  have hcargo := cargoOf_handle tr s .encode hcs
    ((processSplit rand sc x).2.map Prod.snd) hin' hout'
  have hnone : valueOf (carried tr s (Dir.encode.before s) x) = 0 := by
    rw [carried_of_le (show Dir.encode.before s ≤ s from Nat.le_refl s)]
    rfl
  have hsome : ∀ l : List Bytes, l.filterMap (carried tr s (Dir.encode.after s)) = l := by
    intro l
    rw [show carried tr s (Dir.encode.after s) = some from funext carried_split]
    exact List.filterMap_some
  rw [hnone, add_zero, hsome] at hcargo
  simp only [Net.sender, Net.waiting, Net.cargo, stages_handle_self, map_splitWrites,
    cargoOf_setCtx]
  rw [hcargo, inTransit_handle_of_notMem _ _ (fun hmem => absurd (mem_travel.mp hmem)
    (Nat.lt_irrefl s)), hin', List.cons_append]
  have hrest : ((n.stages .encode).handle s (rest.map Prod.snd)
      ((processSplit rand sc x).2.map Prod.snd)).inbox s = rest.map Prod.snd :=
    Function.update_self _ _ _
  rw [hrest]
  exact .split (h.fitted.routes.cfg_lt s s hcs) rand

/-- The last module launches a piece, or passes on the next packet of a chain without a
split module. -/
theorem Steady.sends_exit (h : Steady tr size s outs ports .encode sc n)
    (hs : s + 1 < size ∨ s = size) {p : Nat} {rest : List (Int × Int × Bytes)}
    (hm : n.chain.cfg m = some i) (hi : i + 1 = size)
    (hout : n.outbox (m, .encode) = (src, dst, y) :: rest)
    (hhop : n.chain.hop m dst = some (.toWire p)) (hdst : i < s → dst = Dir.encode.dst)
    (hp : 1 ≤ p) (hlt : p < ports) :
    Sender.Step tr size s ports (n.sender tr s sc)
      (({ n with
        outbox := Function.update n.outbox (m, .encode) rest
        wire := n.wire ++ [((p : Int), y)] } : Net ModuleContext).sender tr s sc) := by
  have hle : s ≤ size := by omega
  have hroutes := h.fitted.routes
  have hout' := stages_head_outbox hout
  have hcargo := cargoOf_setOutbox tr s .encode hm hout'
  have hafter : Dir.encode.after i = size := hi
  rw [hafter] at hcargo
  simp only [Net.sender, Net.waiting, Net.cargo, stages_exit_self]
  rcases hs with hsz | hsz
  · have hmem : m ∉ travel s .encode := by
      rw [hroutes.mem_travel_iff hle hm]
      omega
    have hvalue : valueOf (carried tr s size y) = {unwound tr s size y} := by
      rw [carried, if_pos (by omega)]
      rfl
    rw [inTransit_setOutbox_of_notMem _ hmem, ← hcargo, hvalue]
    exact .launch (by omega) hp hlt
  · have hmem : m ∈ travel s .encode := (hroutes.mem_travel_iff hle hm _).mpr (by omega)
    have hvalue : valueOf (carried tr s size y) = 0 := by
      rw [carried_of_le (Nat.le_of_eq hsz.symm)]
      rfl
    have hempty : (n.stages .encode).inbox s = [] := h.inbox_eq_nil (by omega)
    rw [hvalue, add_zero] at hcargo
    obtain ⟨last, hline, -⟩ := hroutes.encodeLine_last (.inr hsz)
    rcases hline.pass (applied tr .encode) hmem hout' with ⟨q, -, hpass, -⟩ | ⟨-, heq⟩
    · rw [← hdst (by omega), hhop] at hpass
      cases hpass
    · have hempty' : ((n.stages .encode).setOutbox m
          (rest.map fun w => w.2.2)).inbox s = [] := hempty
      rw [heq, hempty, hempty', hcargo, List.nil_append, List.nil_append]
      exact .pass hsz hp hlt

/-- The steps of chain A are those of a sender. -/
theorem Steady.sends {sc' : SplitContext} (h : Steady tr size s outs ports .encode sc n)
    (hs : s + 1 < size ∨ s = size) (hmove : Steady.Move tr size s ports .encode sc n sc' n') :
    n'.sender tr s sc' = n.sender tr s sc ∨
      Sender.Step tr size s ports (n.sender tr s sc) (n'.sender tr s sc') := by
  have hle : s ≤ size := by omega
  have hroutes := h.fitted.routes
  cases hmove with
  | @transform m i src x rest hm hi hin hout =>
      have hx : x ≠ [] := h.packets rfl m (src, x) (hin ▸ List.mem_cons_self)
      have hin' := stages_head_inbox hin
      have hout' := stages_nil_outbox hout
      left
      simp only [Net.sender, Net.waiting, Net.cargo, stages_handle_self, List.map_singleton]
      rw [inTransit_transform hroutes hle hm hin' hout',
        cargoOf_transform hm hi (fun _ => hx) hin' hout']
      congr 2
      exact Function.update_of_ne (hroutes.ne_split hm hi hle).symm _ _
  | split rand hcs _ hin hout => exact .inr (h.sends_split rand hcs hin hout)
  | merge hcs hd => cases hd
  | @forward m i q j src dst y rest hm hq hnext hout hhop hdst =>
      have hout' := stages_head_outbox hout
      left
      simp only [Net.sender, Net.waiting, Net.cargo, stages_forward_self]
      rw [waiting_forward hroutes hs hm hq hnext hout' hhop hdst,
        cargoOf_forward hm hq hnext hout']
  | exit hm hout hhop hdst hend =>
      obtain ⟨-, hi, hp, hlt⟩ := hend.resolve_right (by simp)
      exact .inr (h.sends_exit hs hm hi hout hhop hdst hp hlt)

theorem stages_enqueue_self {d : Dir} {q : Nat} {src : Int} {y : Bytes} :
    (n.enqueue (q, d) (src, y)).stages d = (n.stages d).post q y := by
  rw [Net.enqueue, Net.stages_post, if_pos rfl]

/-- A packet enters a chain in use. -/
theorem Steady.enqueue {d : Dir} (h : Steady tr size s outs ports d sc n) {q j : Nat}
    (hq : n.chain.cfg q = some j) (src : Int) {y : Bytes} (hy : d = .encode → y ≠ []) :
    Steady tr size s outs ports d sc (n.enqueue (q, d) (src, y)) := by
  have hupdate := @Steady.update _ _ _ _ _ _ _ _ h n.chain sc q q
    (n.inbox (q, d) ++ [(src, y)]) (n.outbox (q, d)) n.wire h.fitted (fun _ => rfl) h.outputs
    ⟨j, hq⟩ ?_ ?_
  · rw [Function.update_eq_self] at hupdate
    exact hupdate
  · intro hd w hw
    rcases List.mem_append.mp hw with hw | hw
    · exact h.packets hd q w hw
    · rw [List.mem_singleton.mp hw]
      exact hy hd
  · intro w hw
    exact ⟨h.valid q w hw, fun hd => h.writes hd q w hw⟩

/-- A packet pushed into chain A waits behind the others. -/
theorem Steady.sender_enqueue (h : Steady tr size s outs ports .encode sc n) (hsize : 0 < size)
    (src : Int) (x : Bytes) :
    (n.enqueue (0, .encode) (src, x)).sender tr s sc =
      { n.sender tr s sc with waiting := n.waiting tr s ++ [encoded tr s x] } := by
  have hcfg := h.fitted.routes.main 0 hsize
  have hcargo := cargoOf_post tr s .encode (n.stages .encode) hcfg x
  have hnone : valueOf (carried tr s (Dir.encode.before 0) x) = 0 := by
    rw [carried_of_le (show Dir.encode.before 0 ≤ s from Nat.zero_le s)]
    rfl
  rw [hnone, add_zero] at hcargo
  simp only [Net.sender, Net.waiting, Net.cargo, stages_enqueue_self, Net.enqueue_chain,
    Net.enqueue_wire, hcargo]
  congr 1
  rcases Nat.eq_zero_or_pos s with rfl | hpos
  · have hin : ((n.stages .encode).post 0 x).inbox 0 = (n.stages .encode).inbox 0 ++ [x] := by
      simp [Stages.post]
    rw [hin]
    simp [travel, inTransit, encoded]
  · obtain ⟨l, hl⟩ := travel_cons (show s ≠ 0 by omega) .encode
    have hnodup : (0 :: l).Nodup := hl ▸ nodup_travel s .encode
    have hthrough : through (applied tr .encode) (0 :: l) x = some (encoded tr s x) := by
      rw [← hl]
      exact through_travel_encode x
    have hin : ((n.stages .encode).post 0 x).inbox s = (n.stages .encode).inbox s :=
      Function.update_of_ne (show s ≠ 0 by omega) _ _
    rw [hin, hl, inTransit_post x hnodup, hthrough, List.append_assoc]
    rfl

/-! ## Chain B -/

variable (tr s) in
def Net.receiver (n : Net ModuleContext) (sc : SplitContext) : Receiver :=
  ⟨n.cargo tr s .decode, sc, n.leaving tr s, n.wire⟩

/-- A packet that split passes on is the last one of the line. -/
theorem leaving_forward {c : Chain ModuleContext} (h : c.Routes size s outs ports)
    (hs : s ≤ size) {m i q j : Nat} {dst : Int} {y : Bytes} {rest : List Bytes}
    {st : Stages Nat Bytes} (hm : c.cfg m = some i) (hq : c.cfg q = some j)
    (hnext : Dir.decode.before j = Dir.decode.after i) (hout : st.outbox m = y :: rest)
    (hhop : c.hop m dst = some (.toModule q .decode)) (hdst : i < s → dst = Dir.decode.dst) :
    inTransit (applied tr .decode) ((st.setOutbox m rest).post q y) (travel s .decode) ++
        (((st.setOutbox m rest).post q y).outbox s).map (decoded tr s) =
      inTransit (applied tr .decode) st (travel s .decode) ++
        (st.outbox s).map (decoded tr s) := by
  obtain rfl : i = j + 1 := hnext.symm
  by_cases hsplit : j + 1 = s
  · have hms : m = s := by rw [h.single m _ hm (by omega), hsplit]
    have hqs : q = s - 1 := by rw [h.single q _ hq (by omega)]; omega
    subst hms
    obtain ⟨l, hl⟩ := travel_cons (show m ≠ 0 by omega) .decode
    have hline : travel m .decode = q :: l := by rw [hl, hqs]
    have hnodup : (q :: l).Nodup := hline ▸ nodup_travel m .decode
    have hoff : m ∉ q :: l := by
      rw [← hline, mem_travel]
      exact Nat.lt_irrefl m
    have hthrough : through (applied tr .decode) (q :: l) y = some (decoded tr m y) := by
      rw [← hline]
      exact through_travel_decode y
    have hrest : ((st.setOutbox m rest).post q y).outbox m = rest := Function.update_self _ _ _
    rw [hline, inTransit_post y hnodup, hthrough, inTransit_setOutbox_of_notMem rest hoff, hrest,
      hout, List.map_cons, List.append_assoc]
    rfl
  · have hne : s ≠ m := (h.ne_split hm hsplit hs).symm
    have hkeep : ((st.setOutbox m rest).post q y).outbox s = st.outbox s :=
      Function.update_of_ne hne _ _
    rw [hkeep]
    congr 1
    by_cases hmem : m ∈ travel s .decode
    · have hi := (h.mem_travel_iff hs hm .decode).mp hmem
      rw [hdst hi] at hhop
      rcases (h.decodeLine hs).pass (applied tr .decode) hmem hout with
        ⟨q', hq', hpass, heq⟩ | ⟨hpass, -⟩
      · rw [hhop] at hpass
        obtain ⟨rfl, -⟩ := Hop.toModule.inj (Option.some.inj hpass)
        exact heq
      · rw [hhop] at hpass
        cases hpass
    · have hi : ¬j + 1 < s := fun hlt => hmem ((h.mem_travel_iff hs hm .decode).mpr hlt)
      have hqmem : q ∉ travel s .decode := by
        rw [h.mem_travel_iff hs hq]
        omega
      exact inTransit_forward_off hmem hqmem

/-- The first packet of the line leaves. -/
theorem leaving_exit {c : Chain ModuleContext} (h : c.Routes size s outs ports)
    (hs : s ≤ size) {m p : Nat} {dst : Int} {y : Bytes} {rest : List Bytes}
    {st : Stages Nat Bytes} (hm : c.cfg m = some 0) (hout : st.outbox m = y :: rest)
    (hhop : c.hop m dst = some (.toWire p)) (hdst : 0 < s → dst = Dir.decode.dst) :
    inTransit (applied tr .decode) st (travel s .decode) ++ (st.outbox s).map (decoded tr s) =
      y :: (inTransit (applied tr .decode) (st.setOutbox m rest) (travel s .decode) ++
        ((st.setOutbox m rest).outbox s).map (decoded tr s)) := by
  rcases Nat.eq_zero_or_pos s with rfl | hpos
  · obtain rfl := h.single m 0 hm (Nat.le_refl 0)
    have hrest : (st.setOutbox 0 rest).outbox 0 = rest := by simp [Stages.setOutbox]
    rw [hrest, hout]
    rfl
  · have hmem : m ∈ travel s .decode := (h.mem_travel_iff hs hm .decode).mpr hpos
    have hkeep : (st.setOutbox m rest).outbox s = st.outbox s :=
      Function.update_of_ne (h.ne_split hm (by omega) hs).symm _ _
    rw [hdst hpos] at hhop
    rcases (h.decodeLine hs).pass (applied tr .decode) hmem hout with
      ⟨q, -, hpass, -⟩ | ⟨-, heq⟩
    · rw [hhop] at hpass
      cases hpass
    · rw [heq, hkeep, List.cons_append]

/-- The steps of chain B are those of a receiver. -/
theorem Steady.receives {sc' : SplitContext} (h : Steady tr size s outs ports .decode sc n)
    (hs : s ≤ size) (hmove : Steady.Move tr size s ports .decode sc n sc' n') :
    n'.receiver tr s sc' = n.receiver tr s sc ∨
      Receiver.Step tr s (n.receiver tr s sc) (n'.receiver tr s sc') := by
  have hroutes := h.fitted.routes
  cases hmove with
  | @transform m i src x rest hm hi hin hout =>
      have hin' := stages_head_inbox hin
      have hout' := stages_nil_outbox hout
      have hkeep : ((n.stages .decode).handle m (rest.map Prod.snd)
          [(tr i).apply .decode x]).outbox s = (n.stages .decode).outbox s :=
        Function.update_of_ne (hroutes.ne_split hm hi hs).symm _ _
      have hdir : Dir.decode = .encode → x ≠ [] := nofun
      left
      simp only [Net.receiver, Net.leaving, Net.cargo, stages_handle_self, List.map_singleton]
      rw [inTransit_transform hroutes hs hm hin' hout', hkeep,
        cargoOf_transform hm hi hdir hin' hout']
  | split rand hcs hd => cases hd
  | @merge src y rest sc' ws hcs hd hin hout hmerge =>
      have hin' := stages_head_inbox hin
      have hout' := stages_nil_outbox hout
      have hcargo := cargoOf_handle tr s .decode hcs (ws.map Prod.snd) hin' hout'
      have hsome : valueOf (carried tr s (Dir.decode.before s) y) = {y} := by
        rw [show carried tr s (Dir.decode.before s) y = some y from carried_split y]
        rfl
      have hnone : ∀ l : List Bytes, l.filterMap (carried tr s (Dir.decode.after s)) = [] := by
        intro l
        rw [List.filterMap_eq_nil_iff]
        exact fun z _ => carried_of_le (show Dir.decode.after s ≤ s from Nat.le_refl s) z
      rw [hsome, hnone, Multiset.coe_nil, add_zero] at hcargo
      have hflush : ((n.stages .decode).handle s (rest.map Prod.snd)
          (ws.map Prod.snd)).outbox s = ws.map Prod.snd := Function.update_self _ _ _
      right
      simp only [Net.receiver, Net.leaving, Net.cargo, stages_handle_self, map_splitWrites,
        cargoOf_setCtx]
      rw [inTransit_handle_of_notMem _ _ (fun hmem => absurd (mem_travel.mp hmem)
        (Nat.lt_irrefl s)), hflush, hout', ← hcargo, List.map_nil, List.append_nil, List.map_map]
      exact .merge hmerge
  | @forward m i q j src dst y rest hm hq hnext hout hhop hdst =>
      have hout' := stages_head_outbox hout
      left
      simp only [Net.receiver, Net.leaving, Net.cargo, stages_forward_self]
      rw [leaving_forward hroutes hs hm hq hnext hout' hhop hdst,
        cargoOf_forward hm hq hnext hout']
  | @exit m i src dst p y rest hm hout hhop hdst hend =>
      have hout' := stages_head_outbox hout
      obtain ⟨-, rfl, rfl⟩ := hend.resolve_left (by simp)
      have hcargo := cargoOf_setOutbox tr s .decode hm hout'
      have hvalue : valueOf (carried tr s (Dir.decode.after 0) y) = 0 := by
        rw [carried_of_le (show Dir.decode.after 0 ≤ s from Nat.zero_le s)]
        rfl
      rw [hvalue, add_zero] at hcargo
      right
      simp only [Net.receiver, Net.leaving, Net.cargo, stages_exit_self]
      rw [hcargo, leaving_exit hroutes hs hm hout' hhop hdst]
      exact .exit

/-- An output of chain A enters chain B with the chunk it carries. -/
theorem Steady.receiver_enqueue (h : Steady tr size s outs ports .decode sc n) (hs : s + 1 < size)
    {q j : Nat} (hq : n.chain.cfg q = some j) (hj : j + 1 = size) (src : Int) (y : Bytes) :
    (n.enqueue (q, .decode) (src, y)).receiver tr s sc =
      { n.receiver tr s sc with
        cargo := n.cargo tr s .decode + {unwound tr s size y} } := by
  have hcargo := cargoOf_post tr s .decode (n.stages .decode) hq y
  have hsome : valueOf (carried tr s (Dir.decode.before j) y) = {unwound tr s size y} := by
    rw [show Dir.decode.before j = size from hj, carried, if_pos (by omega)]
    rfl
  rw [hsome] at hcargo
  have hoff : q ∉ travel s .decode := by
    rw [h.fitted.routes.mem_travel_iff (by omega) hq]
    omega
  simp only [Net.receiver, Net.leaving, Net.cargo, stages_enqueue_self, Net.enqueue_chain,
    Net.enqueue_wire, hcargo, inTransit_post_of_notMem y hoff]
  rfl

/-- Without split it joins the line. -/
theorem Steady.receiver_enqueue_line (h : Steady tr size s outs ports .decode sc n) (hs : s = size)
    {q j : Nat} (hq : n.chain.cfg q = some j) (hj : j + 1 = size) (src : Int) (y : Bytes) :
    (n.enqueue (q, .decode) (src, y)).receiver tr s sc =
      { n.receiver tr s sc with leaving := n.leaving tr s ++ [decoded tr s y] } := by
  have hcargo := cargoOf_post tr s .decode (n.stages .decode) hq y
  have hnone : valueOf (carried tr s (Dir.decode.before j) y) = 0 := by
    rw [show Dir.decode.before j = size from hj, carried_of_le (Nat.le_of_eq hs.symm)]
    rfl
  rw [hnone, add_zero] at hcargo
  have hqs : q = s - 1 := by
    rw [h.fitted.routes.single q j hq (by omega)]
    omega
  obtain ⟨l, hl⟩ := travel_cons (show s ≠ 0 by omega) .decode
  have hline : travel s .decode = q :: l := by rw [hl, hqs]
  have hnodup : (q :: l).Nodup := hline ▸ nodup_travel s .decode
  have hthrough : through (applied tr .decode) (q :: l) y = some (decoded tr s y) := by
    rw [← hline]
    exact through_travel_decode y
  have hempty : (n.stages .decode).outbox s = [] := h.outbox_eq_nil (by omega)
  have hempty' : ((n.stages .decode).post q y).outbox s = [] := hempty
  simp only [Net.receiver, Net.leaving, Net.cargo, stages_enqueue_self, Net.enqueue_chain,
    Net.enqueue_wire, hcargo, hline, inTransit_post y hnodup, hthrough, hempty, hempty',
    List.map_nil, List.append_nil]
  rfl

end PipelineTunnel.Pipeline
