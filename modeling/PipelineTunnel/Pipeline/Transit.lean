import PipelineTunnel.Lib.Stock
import PipelineTunnel.Pipeline.Routes
import PipelineTunnel.Pipeline.Tunnel

/-!
# Packets on their way through a chain of a tunnel

In chain A all packets go towards the wire and in chain B towards the external side.
`s` is the place of split in the module list, or the length of a list without split.
Between the external side and split the packets are on one line, whose order is kept:
`Net.waiting` and `Net.leaving` list them. Between split and the wire they are chunks on
several ways, whose order does not matter: `Net.cargo` is the multiset of the chunks, each
as split wrote it.

## Implementation notes

A position is counted from the external side: position `i` is in front of module `i` and
behind module `i - 1`. The chunk that a packet behind split carries is found by decoding
it down to split, so that no step changes it.
-/

namespace PipelineTunnel.Pipeline

open FifoLine
open Split (SplitContext processSplit processMerge)

/-! ## Positions -/

/-- The position where a packet in the inbox of module `i` is. -/
def Dir.before : Dir → Nat → Nat
  | .encode, i => i
  | .decode, i => i + 1

/-- The position where a packet in the outbox of module `i` is. -/
def Dir.after : Dir → Nat → Nat
  | .encode, i => i + 1
  | .decode, i => i

def Transformer.apply (t : Transformer) : Dir → Bytes → Bytes
  | .encode, x => t.enc x
  | .decode, x => t.dec x

theorem tunnelProcess_transform (rand : Nat → Nat) (t : Transformer) (d : Dir) (src : Int)
    (x : Bytes) :
    tunnelProcess rand (.transform t) d src x = some (.transform t, [(d.dst, t.apply d x)]) := by
  cases d <;> rfl

variable (tr : Nat → Transformer) (s : Nat)

/-- A packet at position `i`, decoded down to split. -/
def unwound : Nat → Bytes → Bytes
  | 0, y => y
  | i + 1, y => if s < i then unwound i ((tr i).dec y) else y

/-- The chunk that a packet at position `i` carries; in front of split there is none. -/
def carried (i : Nat) (y : Bytes) : Option Bytes := if s < i then some (unwound tr s i y) else none

variable {tr s}

theorem carried_succ {i : Nat} (hi : i ≠ s) (y : Bytes) :
    carried tr s (i + 1) y = carried tr s i ((tr i).dec y) := by
  rw [carried, carried, unwound]
  by_cases hlt : s < i
  · rw [if_pos hlt, if_pos hlt, if_pos (by omega)]
  · rw [if_neg (show ¬s < i + 1 by omega), if_neg hlt]

/-- A transformer does not change the chunk that a packet carries. -/
theorem carried_apply {d : Dir} {i : Nat} (hi : i ≠ s) {x : Bytes} (hx : d = .encode → x ≠ []) :
    carried tr s (d.after i) ((tr i).apply d x) = carried tr s (d.before i) x := by
  cases d with
  | encode =>
      change carried tr s (i + 1) ((tr i).enc x) = carried tr s i x
      rw [carried_succ hi, (tr i).dec_enc x (hx rfl)]
  | decode => exact (carried_succ hi x).symm

theorem carried_split (y : Bytes) : carried tr s (s + 1) y = some y := by
  simp [carried, unwound]

theorem carried_of_le {i : Nat} (h : i ≤ s) (y : Bytes) : carried tr s i y = none :=
  if_neg (by omega)

variable (tr) in
/-- What the modules of a line do, as far as they are transformers. -/
def applied (d : Dir) (m : Nat) (x : Bytes) : Option Bytes := some ((tr m).apply d x)

theorem through_applied (d : Dir) (l : List Nat) (x : Bytes) :
    through (applied tr d) l x = some (l.foldl (fun y i => (tr i).apply d y) x) := by
  induction l generalizing x with
  | nil => rfl
  | cons m l ih => rw [through, applied, Option.bind_some, ih, List.foldl_cons]

theorem through_travel_encode (x : Bytes) :
    through (applied tr .encode) (travel s .encode) x = some (encoded tr s x) :=
  through_applied .encode _ x

theorem through_travel_decode (y : Bytes) :
    through (applied tr .decode) (travel s .decode) y = some (decoded tr s y) :=
  through_applied .decode _ y

/-! ## Chains in use -/

/-- The outputs that module `i` may write to. -/
def ValidOut (s outs : Nat) (d : Dir) (i : Nat) (dst : Int) : Prop :=
  match d with
  | .encode => ∃ o : Nat, dst = o ∧ 1 ≤ o ∧ (o ≤ 1 ∨ i = s ∧ o ≤ outs)
  | .decode => dst = 0

/-- The modules of a chain with their contexts; `sc` is the one of split. -/
structure Fitted (tr : Nat → Transformer) (size s outs ports : Nat) (sc : SplitContext)
    (c : Chain ModuleContext) : Prop where
  routes : c.Routes size s outs ports
  transforms : ∀ (x : Nat) m, c.modules[x]? = some m → m.cfgIdx ≠ s →
    m.ctx = .transform (tr m.cfgIdx)
  split : ∀ m, c.modules[s]? = some m → m.ctx = .split sc

/-- A chain in which all packets travel in direction `d`. -/
structure Steady (tr : Nat → Transformer) (size s outs ports : Nat) (d : Dir) (sc : SplitContext)
    (n : Net ModuleContext) : Prop where
  fitted : Fitted tr size s outs ports sc n.chain
  outputs : d = .encode → 1 ≤ sc.numOutputs ∧ sc.numOutputs ≤ outs
  idle : ∀ x e, e ≠ d → n.inbox (x, e) = [] ∧ n.outbox (x, e) = []
  valid : ∀ x, ∀ w ∈ n.outbox (x, d), ∃ i, n.chain.cfg x = some i ∧ ValidOut s outs d i w.2.1
  located : ∀ x, ∀ w ∈ n.inbox (x, d), ∃ i, n.chain.cfg x = some i
  packets : d = .encode → ∀ x, ∀ w ∈ n.inbox (x, d), w.2 ≠ []
  writes : d = .encode → ∀ x, ∀ w ∈ n.outbox (x, d), w.2.2 ≠ []

theorem cfg_of_module {c : Chain ModuleContext} {x : Nat} {m : Module ModuleContext}
    (h : c.modules[x]? = some m) : c.cfg x = some m.cfgIdx := by
  rw [Chain.cfg, h]
  rfl

theorem Chain.setCtx_self {c : Chain ModuleContext} {x : Nat} {m : Module ModuleContext}
    (h : c.modules[x]? = some m) : c.setCtx x m.ctx = c := by
  have hmodules : (c.modules.modify x fun m' => { m' with ctx := m.ctx }) = c.modules := by
    apply List.ext_getElem?
    intro y
    rw [List.getElem?_modify]
    by_cases hy : x = y
    · subst hy
      simp [h]
    · simp [hy]
  rw [Chain.setCtx, hmodules]

variable {size outs ports : Nat} {d : Dir} {sc : SplitContext} {n n' : Net ModuleContext}

/-- What a step of a chain in use can be. -/
inductive Steady.Move (tr : Nat → Transformer) (size s ports : Nat) (d : Dir) (sc : SplitContext)
    (n : Net ModuleContext) : SplitContext → Net ModuleContext → Prop
  | transform {m i : Nat} {src : Int} {x : Bytes} {rest : List (Int × Bytes)}
      (hm : n.chain.cfg m = some i) (hi : i ≠ s) (hin : n.inbox (m, d) = (src, x) :: rest)
      (hout : n.outbox (m, d) = []) :
      Move tr size s ports d sc n sc
        { n with
          inbox := Function.update n.inbox (m, d) rest
          outbox := Function.update n.outbox (m, d) [(src, d.dst, (tr i).apply d x)] }
  | split {src : Int} {x : Bytes} {rest : List (Int × Bytes)} (rand : Nat → Nat)
      (hs : n.chain.cfg s = some s) (hd : d = .encode) (hin : n.inbox (s, d) = (src, x) :: rest)
      (hout : n.outbox (s, d) = []) :
      Move tr size s ports d sc n (processSplit rand sc x).1
        { n with
          chain := n.chain.setCtx s (.split (processSplit rand sc x).1)
          inbox := Function.update n.inbox (s, d) rest
          outbox := Function.update n.outbox (s, d)
            ((splitWrites (processSplit rand sc x).2).map fun w => (src, w)) }
  | merge {src : Int} {y : Bytes} {rest : List (Int × Bytes)} {sc' : SplitContext}
      {ws : List Split.Write} (hs : n.chain.cfg s = some s) (hd : d = .decode)
      (hin : n.inbox (s, d) = (src, y) :: rest) (hout : n.outbox (s, d) = [])
      (hmerge : processMerge sc y = some (sc', ws)) :
      Move tr size s ports d sc n sc'
        { n with
          chain := n.chain.setCtx s (.split sc')
          inbox := Function.update n.inbox (s, d) rest
          outbox := Function.update n.outbox (s, d) ((splitWrites ws).map fun w => (src, w)) }
  | forward {m i q j : Nat} {src dst : Int} {y : Bytes} {rest : List (Int × Int × Bytes)}
      (hm : n.chain.cfg m = some i) (hq : n.chain.cfg q = some j) (hnext : d.before j = d.after i)
      (hout : n.outbox (m, d) = (src, dst, y) :: rest)
      (hhop : n.chain.hop m dst = some (.toModule q d)) (hdst : i < s → dst = d.dst) :
      Move tr size s ports d sc n sc
        { n with
          inbox := Function.update n.inbox (q, d) (n.inbox (q, d) ++ [(src, y)])
          outbox := Function.update n.outbox (m, d) rest }
  | exit {m i : Nat} {src dst : Int} {p : Nat} {y : Bytes} {rest : List (Int × Int × Bytes)}
      (hm : n.chain.cfg m = some i) (hout : n.outbox (m, d) = (src, dst, y) :: rest)
      (hhop : n.chain.hop m dst = some (.toWire p)) (hdst : i < s → dst = d.dst)
      (hend : d = .encode ∧ i + 1 = size ∧ 1 ≤ p ∧ p < ports ∨ d = .decode ∧ i = 0 ∧ p = 0) :
      Move tr size s ports d sc n sc
        { n with
          outbox := Function.update n.outbox (m, d) rest
          wire := n.wire ++ [((p : Int), y)] }

/-- Where a module of a chain in use sends a packet. -/
theorem Chain.Routes.next {c : Chain ModuleContext} (h : c.Routes size s outs ports)
    (hs : s + 1 < size ∨ s = size) {m i : Nat} (hm : c.cfg m = some i) {dst : Int}
    (hdst : ValidOut s outs d i dst) :
    (∃ q j, c.cfg q = some j ∧ c.hop m dst = some (.toModule q d) ∧ d.before j = d.after i) ∨
      ∃ p : Nat, c.hop m dst = some (.toWire p) ∧
        (d = .encode ∧ i + 1 = size ∧ 1 ≤ p ∧ p < ports ∨ d = .decode ∧ i = 0 ∧ p = 0) := by
  have hi := h.cfg_lt m i hm
  cases d with
  | encode =>
      obtain ⟨o, rfl, ho, hle⟩ := hdst
      rcases Nat.lt_or_eq_of_le (Nat.succ_le_of_lt hi) with hlt | heq
      · obtain ⟨q, hq, hhop⟩ := h.down m i hm hlt o ho hle
        exact .inl ⟨q, i + 1, hq, hhop, rfl⟩
      · -- the last module is not split, so it has one output
        obtain rfl : o = 1 := by omega
        obtain ⟨p, hp, hlt, hhop⟩ := h.last m i hm heq
        exact .inr ⟨p, hhop, .inl ⟨rfl, heq, hp, hlt⟩⟩
  | decode =>
      obtain rfl : dst = 0 := hdst
      cases i with
      | zero => exact .inr ⟨0, h.out m hm, .inr ⟨rfl, rfl, rfl⟩⟩
      | succ i =>
          obtain ⟨q, hq, hhop⟩ := h.up m i hm
          exact .inl ⟨q, i, hq, hhop, rfl⟩

theorem ValidOut.eq_dst {i : Nat} {dst : Int} (h : ValidOut s outs d i dst) (hi : i < s) :
    dst = d.dst := by
  cases d with
  | encode =>
      obtain ⟨o, rfl, ho, hle⟩ := h
      obtain rfl : o = 1 := by omega
      rfl
  | decode => exact h

theorem Steady.move (h : Steady tr size s outs ports d sc n) (hs : s + 1 < size ∨ s = size)
    (hw : Net.Work tunnelProcess n n') : ∃ sc', Steady.Move tr size s ports d sc n sc' n' := by
  have hhop : ∀ {m : Nat} {mod : Module ModuleContext} (dst : Int), n.chain.modules[m]? = some mod →
      n.chain.hop m dst = some (writePacket mod dst) := by
    intro m mod dst hmod
    rw [Chain.hop, hmod]
    rfl
  cases hw with
  | @handle m e src x rest mod rand ctx out hin hout hmod hproc =>
      obtain rfl : e = d := by
        by_contra hne
        rw [(h.idle m e hne).1] at hin
        cases hin
      by_cases hi : mod.cfgIdx = s
      · have hcs := cfg_of_module hmod
        rw [hi] at hcs
        obtain rfl := h.fitted.routes.single m s hcs (Nat.le_refl s)
        rw [h.fitted.split mod hmod] at hproc
        cases e with
        | encode =>
            obtain ⟨rfl, rfl⟩ := Prod.mk.inj (Option.some.inj hproc)
            exact ⟨_, .split rand hcs rfl hin hout⟩
        | decode =>
            obtain ⟨⟨sc', ws⟩, hmerge, heq⟩ := Option.map_eq_some_iff.mp hproc
            obtain ⟨rfl, rfl⟩ := Prod.mk.inj heq
            exact ⟨sc', .merge hcs rfl hin hout hmerge⟩
      · have hctx := h.fitted.transforms m mod hmod hi
        rw [hctx, tunnelProcess_transform] at hproc
        obtain ⟨rfl, rfl⟩ := Prod.mk.inj (Option.some.inj hproc)
        rw [← hctx, Chain.setCtx_self hmod]
        exact ⟨sc, .transform (cfg_of_module hmod) hi hin hout⟩
  | @forward m q e e' src dst y rest mod hout hmod hwrite =>
      obtain rfl : e = d := by
        by_contra hne
        rw [(h.idle m e hne).2] at hout
        cases hout
      obtain ⟨i, hm, hvalid⟩ := h.valid m (src, dst, y) (hout ▸ List.mem_cons_self)
      have hgo := hhop dst hmod
      rw [hwrite] at hgo
      rcases h.fitted.routes.next hs hm hvalid with ⟨q', j, hq, hnext, heq⟩ | ⟨p, hnext, -⟩
      · rw [hgo] at hnext
        obtain ⟨rfl, rfl⟩ := Hop.toModule.inj (Option.some.inj hnext)
        exact ⟨sc, .forward hm hq heq hout hgo hvalid.eq_dst⟩
      · rw [hgo] at hnext
        cases hnext
  | @exit m e src dst p y rest mod hout hmod hwrite =>
      obtain rfl : e = d := by
        by_contra hne
        rw [(h.idle m e hne).2] at hout
        cases hout
      obtain ⟨i, hm, hvalid⟩ := h.valid m (src, dst, y) (hout ▸ List.mem_cons_self)
      have hgo := hhop dst hmod
      rw [hwrite] at hgo
      rcases h.fitted.routes.next hs hm hvalid with ⟨q', j, hq, hnext, -⟩ | ⟨p', hnext, hend⟩
      · rw [hgo] at hnext
        cases hnext
      · rw [hgo] at hnext
        obtain rfl := Hop.toWire.inj (Option.some.inj hnext)
        exact ⟨sc, .exit hm hout hgo hvalid.eq_dst hend⟩

theorem Fitted.setSplit {c : Chain ModuleContext} (h : Fitted tr size s outs ports sc c)
    (hs : c.cfg s = some s) (sc' : SplitContext) :
    Fitted tr size s outs ports sc' (c.setCtx s (.split sc')) := by
  refine ⟨h.routes.setCtx s _, ?_, ?_⟩
  · intro x m hx hne
    rw [Chain.modules_setCtx] at hx
    obtain ⟨m', hm', rfl⟩ := Option.map_eq_some_iff.mp hx
    by_cases hxs : s = x
    · subst hxs
      rw [if_pos rfl] at hne
      rw [cfg_of_module hm'] at hs
      exact absurd (Option.some.inj hs) hne
    · rw [if_neg hxs] at hne ⊢
      exact h.transforms x m' hm' hne
  · intro m hm
    rw [Chain.modules_setCtx] at hm
    obtain ⟨m', -, rfl⟩ := Option.map_eq_some_iff.mp hm
    rw [if_pos rfl]

theorem forall_mem_update {β : Type*} {f : Nat × Dir → List β} {P : Nat → β → Prop} {m : Nat}
    {l : List β} (hf : ∀ x, ∀ w ∈ f (x, d), P x w) (hl : ∀ w ∈ l, P m w) :
    ∀ x, ∀ w ∈ Function.update f (m, d) l (x, d), P x w := by
  intro x w hw
  by_cases hx : x = m
  · subst hx
    rw [Function.update_self] at hw
    exact hl w hw
  · rw [Function.update_of_ne (fun heq => hx (congrArg Prod.fst heq))] at hw
    exact hf x w hw

/-- New contents for one inbox and one outbox. -/
theorem Steady.update (h : Steady tr size s outs ports d sc n) {c : Chain ModuleContext}
    {sc' : SplitContext} {m m' : Nat} {l : List (Int × Bytes)} {l' : List (Int × Int × Bytes)}
    (wire : List (Int × Bytes)) (hc : Fitted tr size s outs ports sc' c)
    (hcfg : ∀ x, c.cfg x = n.chain.cfg x)
    (houts : d = .encode → 1 ≤ sc'.numOutputs ∧ sc'.numOutputs ≤ outs)
    (hm : ∃ i, n.chain.cfg m = some i) (hin : d = .encode → ∀ w ∈ l, w.2 ≠ [])
    (hout : ∀ w ∈ l', (∃ i, n.chain.cfg m' = some i ∧ ValidOut s outs d i w.2.1) ∧
      (d = .encode → w.2.2 ≠ [])) :
    Steady tr size s outs ports d sc'
      { chain := c, wire := wire
        inbox := Function.update n.inbox (m, d) l
        outbox := Function.update n.outbox (m', d) l' } := by
  refine ⟨hc, houts, ?_, ?_, ?_, ?_, ?_⟩
  · intro x e he
    have hne : ∀ y : Nat, (x, e) ≠ (y, d) := fun y heq => he (congrArg Prod.snd heq)
    exact ⟨(Function.update_of_ne (hne m) _ _).trans (h.idle x e he).1,
      (Function.update_of_ne (hne m') _ _).trans (h.idle x e he).2⟩
  · simp only [hcfg]
    exact forall_mem_update h.valid fun w hw => (hout w hw).1
  · simp only [hcfg]
    exact forall_mem_update h.located fun _ _ => hm
  · exact fun hd => forall_mem_update (h.packets hd) (hin hd)
  · exact fun hd => forall_mem_update (h.writes hd) fun w hw => (hout w hw).2 hd

theorem Steady.tail (h : Steady tr size s outs ports d sc n) {m : Nat} {w : Int × Int × Bytes}
    {rest : List (Int × Int × Bytes)} (hout : n.outbox (m, d) = w :: rest) :
    ∀ v ∈ rest, (∃ i, n.chain.cfg m = some i ∧ ValidOut s outs d i v.2.1) ∧
      (d = .encode → v.2.2 ≠ []) := by
  intro v hv
  have hmem : v ∈ n.outbox (m, d) := hout ▸ List.mem_cons_of_mem w hv
  exact ⟨h.valid m v hmem, fun hd => h.writes hd m v hmem⟩

/-- A chain in use stays one. -/
theorem Steady.keep {sc' : SplitContext} (h : Steady tr size s outs ports d sc n)
    (hmove : Steady.Move tr size s ports d sc n sc' n') :
    Steady tr size s outs ports d sc' n' := by
  cases hmove with
  | @transform m i src x rest hm hi hin hout =>
      have hhead : d = .encode → x ≠ [] :=
        fun hd => h.packets hd m (src, x) (hin ▸ List.mem_cons_self)
      refine h.update n.wire h.fitted (fun _ => rfl) h.outputs ⟨i, hm⟩ ?_ ?_
      · exact fun hd w hw => h.packets hd m w (hin ▸ List.mem_cons_of_mem _ hw)
      · intro w hw
        rw [List.mem_singleton.mp hw]
        refine ⟨⟨i, hm, ?_⟩, ?_⟩
        · cases d with
          | encode => exact ⟨1, rfl, Nat.le_refl 1, .inl (Nat.le_refl 1)⟩
          | decode => rfl
        · rintro rfl
          exact (tr i).enc_ne_nil x (hhead rfl)
  | @split src x rest rand hs hd hin hout =>
      obtain ⟨hpos, hle⟩ := h.outputs hd
      obtain ⟨hwrites, hnum⟩ := Split.processSplit_writes rand hpos x
      refine h.update n.wire (h.fitted.setSplit hs _) (Chain.cfg_setCtx _ _ _) ?_ ⟨s, hs⟩ ?_ ?_
      · rw [hnum]
        exact fun _ => ⟨hpos, hle⟩
      · exact fun hd w hw => h.packets hd s w (hin ▸ List.mem_cons_of_mem _ hw)
      · intro w hw
        obtain ⟨v, hv, rfl⟩ := List.mem_map.mp hw
        obtain ⟨u, hu, rfl⟩ := List.mem_map.mp hv
        obtain ⟨hlo, hhi, hne⟩ := hwrites u hu
        subst hd
        exact ⟨⟨s, hs, u.1, rfl, hlo, .inr ⟨rfl, Nat.le_trans hhi hle⟩⟩, fun _ => hne⟩
  | @merge src y rest sc' ws hs hd hin hout hmerge =>
      subst hd
      refine h.update n.wire (h.fitted.setSplit hs _) (Chain.cfg_setCtx _ _ _) nofun ⟨s, hs⟩ nofun ?_
      intro w hw
      obtain ⟨v, hv, rfl⟩ := List.mem_map.mp hw
      obtain ⟨u, hu, rfl⟩ := List.mem_map.mp hv
      refine ⟨⟨s, hs, ?_⟩, nofun⟩
      simp only [ValidOut, Split.processMerge_port hmerge u hu, Nat.cast_zero]
  | @forward m i q j src dst y rest hm hq hnext hout hhop hdst =>
      refine h.update n.wire h.fitted (fun _ => rfl) h.outputs ⟨j, hq⟩ ?_ (h.tail hout)
      intro hd w hw
      rcases List.mem_append.mp hw with hw | hw
      · exact h.packets hd q w hw
      · rw [List.mem_singleton.mp hw]
        exact h.writes hd m (src, dst, y) (hout ▸ List.mem_cons_self)
  | @exit m i src dst p y rest hm hout hhop hdst hend =>
      have hupdate := h.update (n.wire ++ [((p : Int), y)]) h.fitted (fun _ => rfl) h.outputs
        ⟨i, hm⟩ (fun hd => h.packets hd m) (h.tail hout)
      rw [Function.update_eq_self] at hupdate
      exact hupdate

/-! ## The cargo -/

variable (tr s) in
/-- The chunks in the boxes of a chain. -/
def cargoOf (c : Chain ModuleContext) (d : Dir) (st : Stages Nat Bytes) : Multiset Bytes :=
  stock (Finset.range c.modules.length)
    (fun x y => (c.cfg x).bind fun i => carried tr s (d.before i) y)
    (fun x y => (c.cfg x).bind fun i => carried tr s (d.after i) y) st

variable (tr s) in
def Net.cargo (n : Net ModuleContext) (d : Dir) : Multiset Bytes :=
  cargoOf tr s n.chain d (n.stages d)

theorem cargoOf_setCtx (c : Chain ModuleContext) (x : Nat) (ctx : ModuleContext) (d : Dir)
    (st : Stages Nat Bytes) : cargoOf tr s (c.setCtx x ctx) d st = cargoOf tr s c d st := by
  simp only [cargoOf, Chain.cfg_setCtx]
  congr 2
  simp [Chain.setCtx]

theorem mem_places {c : Chain ModuleContext} {m i : Nat} (h : c.cfg m = some i) :
    m ∈ Finset.range c.modules.length := by
  obtain ⟨mod, hmod, -⟩ := Option.map_eq_some_iff.mp h
  exact Finset.mem_range.mpr (List.getElem?_eq_some_iff.mp hmod).1

variable (tr s d) in
theorem cargoOf_handle {c : Chain ModuleContext} {st : Stages Nat Bytes} {m i : Nat}
    (hm : c.cfg m = some i) {x : Bytes} {rest : List Bytes} (ys : List Bytes)
    (hin : st.inbox m = x :: rest) (hout : st.outbox m = []) :
    cargoOf tr s c d (st.handle m rest ys) + valueOf (carried tr s (d.before i) x) =
      cargoOf tr s c d st + ↑(ys.filterMap (carried tr s (d.after i))) := by
  have h := stock_handle (fun x y => (c.cfg x).bind fun i => carried tr s (d.before i) y)
    (fun x y => (c.cfg x).bind fun i => carried tr s (d.after i) y) (mem_places hm) ys hin hout
  simp only [hm, Option.bind_some] at h
  exact h

variable (tr s d) in
theorem cargoOf_setOutbox {c : Chain ModuleContext} {st : Stages Nat Bytes} {m i : Nat}
    (hm : c.cfg m = some i) {y : Bytes} {rest : List Bytes} (hout : st.outbox m = y :: rest) :
    cargoOf tr s c d (st.setOutbox m rest) + valueOf (carried tr s (d.after i) y) =
      cargoOf tr s c d st := by
  have h := stock_setOutbox (fun x y => (c.cfg x).bind fun i => carried tr s (d.before i) y)
    (fun x y => (c.cfg x).bind fun i => carried tr s (d.after i) y) (mem_places hm) hout
  simp only [hm, Option.bind_some] at h
  exact h

variable (tr s d) in
theorem cargoOf_post {c : Chain ModuleContext} (st : Stages Nat Bytes) {q j : Nat}
    (hq : c.cfg q = some j) (y : Bytes) :
    cargoOf tr s c d (st.post q y) =
      cargoOf tr s c d st + valueOf (carried tr s (d.before j) y) := by
  have h := stock_post (s := st) (fun x y => (c.cfg x).bind fun i => carried tr s (d.before i) y)
    (fun x y => (c.cfg x).bind fun i => carried tr s (d.after i) y) (mem_places hq) y
  simp only [hq, Option.bind_some] at h
  exact h

/-- A packet at the split module of a chain that decodes is a chunk. -/
theorem mem_cargo_of_inbox {n : Net ModuleContext} (hs : n.chain.cfg s = some s) {w : Int × Bytes}
    (hw : w ∈ n.inbox (s, .decode)) : w.2 ∈ n.cargo tr s .decode := by
  have hitem : w.2 ∈ (↑(((n.stages .decode).inbox s).filterMap fun y =>
      (n.chain.cfg s).bind fun i => carried tr s (Dir.decode.before i) y) : Multiset Bytes) := by
    rw [Multiset.mem_coe, List.mem_filterMap]
    refine ⟨w.2, List.mem_map_of_mem hw, ?_⟩
    rw [hs]
    exact carried_split w.2
  exact Multiset.mem_add.mpr (.inl (Multiset.mem_sum.mpr ⟨s, mem_places hs, hitem⟩))

end PipelineTunnel.Pipeline
