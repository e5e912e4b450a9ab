import PipelineTunnel.Lib.StepSystem
import PipelineTunnel.Pipeline.Exchange
import PipelineTunnel.Pipeline.PortPaths

/-!
# What goes in comes out

For every module list with at most one split, every interleaving of pushes, deliveries
and steps of the two workers, and every choice of chunk sizes, chain B puts out a prefix
of what was pushed into chain A, and all of it once nothing is on its way.

## Implementation notes

Both builds of a list with at most one split are the same chain, so a port of A is a port
of B. Each pool is seen as its net, the nets as a sender and a receiver, and `Exchange` or
`Relay` holds between the two. A list without modules has neither: `push_packet` calls
`wire_write` itself.
-/

namespace PipelineTunnel.Pipeline

open StepSystem FifoLine
open Split (SplitContext)

variable {transformers : String → Option (String → Transformer)} {cfg : List ModuleSpec}
  {order : Nat → List (Nat × Int) → List (Nat × Int)}

/-! ## The chain of a module list -/

variable (transformers cfg) in
def tunnelCreate : Nat → Nat → Option (ModuleContext × Int) :=
  createOne (findModule transformers) (fun _ => false) cfg

/-- The extra outputs that module `i` requests. -/
def requestsAt (cfg : List ModuleSpec) (i : Nat) : Int :=
  match cfg[i]? with
  | none => 0
  | some spec => if spec.name = "split" then Split.extrasNeeded spec.params else 0

def splitParams (cfg : List ModuleSpec) : String :=
  ((cfg[splitIdx cfg]?).map ModuleSpec.params).getD ""

theorem eq_findIdx_of_single {α : Type*} {p : α → Bool} {l : List α} (hone : (l.filter p).length ≤ 1)
    {i : Nat} {a : α} (hi : l[i]? = some a) (ha : p a) : i = l.findIdx p := by
  induction l generalizing i with
  | nil => simp at hi
  | cons b l ih =>
      cases i with
      | zero =>
          obtain rfl : b = a := by simpa using hi
          simp [List.findIdx_cons, ha]
      | succ i =>
          rw [List.getElem?_cons_succ] at hi
          have hmem : a ∈ l.filter p := List.mem_filter.mpr ⟨List.mem_of_getElem? hi, ha⟩
          by_cases hb : p b
          · rw [List.filter_cons_of_pos hb, List.length_cons] at hone
            have := List.length_pos_of_mem hmem
            omega
          · rw [List.filter_cons_of_neg hb] at hone
            rw [ih hone hi, List.findIdx_cons]
            simp [hb]

theorem Tunnelable.split_unique (h : Tunnelable transformers cfg) {i : Nat} {spec : ModuleSpec}
    (hi : cfg[i]? = some spec) (hsplit : spec.name = "split") : i = splitIdx cfg :=
  eq_findIdx_of_single h.one hi (by simpa using hsplit)

theorem splitIdx_get {spec : ModuleSpec} (h : cfg[splitIdx cfg]? = some spec) :
    spec.name = "split" := by
  obtain ⟨hlt, hget⟩ := List.getElem?_eq_some_iff.mp h
  have hfound := List.findIdx_getElem (w := hlt)
  exact of_decide_eq_true (hget ▸ hfound)

/-- Split is followed by another module, or there is none. -/
theorem Tunnelable.place (h : Tunnelable transformers cfg) :
    splitIdx cfg + 1 < cfg.length ∨ splitIdx cfg = cfg.length := by
  have hle : splitIdx cfg ≤ cfg.length := List.findIdx_le_length
  rcases Nat.lt_or_eq_of_le hle with hlt | heq
  · refine .inl ?_
    by_contra hlast
    have hget := List.getElem?_eq_getElem hlt
    have hend : cfg.getLast? = some cfg[splitIdx cfg] := by
      rw [List.getLast?_eq_getElem?, ← hget]
      congr 1
      omega
    exact h.last _ hend (splitIdx_get hget)
  · exact .inr heq

theorem tunnelCreate_split {i : Nat} {spec : ModuleSpec} (hi : cfg[i]? = some spec)
    (hsplit : spec.name = "split") (call : Nat) :
    tunnelCreate transformers cfg call i =
      some (.split (SplitContext.init spec.params), Split.extrasNeeded spec.params) := by
  simp [tunnelCreate, createOne, hi, findModule, hsplit]

theorem Tunnelable.create_transform (h : Tunnelable transformers cfg) {i : Nat}
    {spec : ModuleSpec} (hi : cfg[i]? = some spec) (hsplit : spec.name ≠ "split") (call : Nat) :
    tunnelCreate transformers cfg call i =
      some (.transform (transformerAt transformers cfg i), 0) := by
  obtain ⟨init, hinit⟩ := Option.isSome_iff_exists.mp
    (h.loaded spec (List.mem_of_getElem? hi) hsplit)
  simp [tunnelCreate, createOne, hi, findModule, hsplit, hinit, transformerAt]

theorem Tunnelable.requests (h : Tunnelable transformers cfg) :
    Requests (tunnelCreate transformers cfg) (requestsAt cfg) := by
  intro call i ctx count hcreate
  cases hi : cfg[i]? with
  | none => simp [tunnelCreate, createOne, hi] at hcreate
  | some spec =>
      by_cases hsplit : spec.name = "split"
      · rw [tunnelCreate_split hi hsplit] at hcreate
        simp only [requestsAt, hi, hsplit, if_true]
        exact (Prod.mk.inj (Option.some.inj hcreate)).2.symm
      · rw [h.create_transform hi hsplit] at hcreate
        simp only [requestsAt, hi, hsplit, if_false]
        exact (Prod.mk.inj (Option.some.inj hcreate)).2.symm

theorem Tunnelable.allCreated (h : Tunnelable transformers cfg) :
    AllCreated (tunnelCreate transformers cfg) cfg.length := by
  intro call i hi
  have hget := List.getElem?_eq_getElem hi
  by_cases hsplit : cfg[i].name = "split"
  · rw [tunnelCreate_split hget hsplit]
    rfl
  · rw [h.create_transform hget hsplit]
    rfl

theorem Tunnelable.requestsAt_of_ne (h : Tunnelable transformers cfg) {i : Nat}
    (hi : i ≠ splitIdx cfg) : requestsAt cfg i = 0 := by
  rw [requestsAt]
  split
  · rfl
  · rename_i spec hget
    rw [if_neg fun hsplit => hi (h.split_unique hget hsplit)]

/-- Both ends build the same chain. -/
theorem Tunnelable.chain_eq (h : Tunnelable transformers cfg)
    {order order' : Nat → List (Nat × Int) → List (Nat × Int)} (horder : IsOrder order)
    (horder' : IsOrder order') :
    tunnelChain transformers cfg order = tunnelChain transformers cfg order' := by
  refine construct_eq_of_atMostOne h.requests h.allCreated ?_ horder horder'
  intro i j _ _ hi hj
  have hplace : ∀ {k}, 1 ≤ requestsAt cfg k → k = splitIdx cfg := by
    intro k hk
    by_contra hne
    rw [h.requestsAt_of_ne hne] at hk
    omega
  rw [hplace hi, hplace hj]

/-- The chain of a list with its contexts as `init` left them. -/
theorem Tunnelable.fitted (h : Tunnelable transformers cfg) (horder : IsOrder order)
    (hpos : 0 < cfg.length) :
    ∃ ports, Fitted (transformerAt transformers cfg) cfg.length (splitIdx cfg)
        (SplitContext.init (splitParams cfg)).numOutputs ports
        (SplitContext.init (splitParams cfg)) (tunnelChain transformers cfg order) ∧
      (splitIdx cfg = cfg.length → ports = 2) := by
  have hreq := h.requests
  have hctx : Created (tunnelCreate transformers cfg)
      (tunnelChain transformers cfg order).modules := construct_created
  rcases construct_spec hreq horder hpos with ⟨lab, b, heq, hbuilt, -⟩ | ⟨-, hfail⟩
  · have hchain : tunnelChain transformers cfg order = b.finish := heq
    have hroutes : b.finish.Routes cfg.length (splitIdx cfg)
        (SplitContext.init (splitParams cfg)).numOutputs b.nextPort := by
      apply hbuilt.routes (fun i hi => by rw [h.requestsAt_of_ne hi]; rfl)
      intro hs
      have hget := List.getElem?_eq_getElem hs
      have hparams : splitParams cfg = cfg[splitIdx cfg].params := by simp [splitParams, hget]
      rw [hparams, ← Split.extrasNeeded_eq, requestsAt, hget]
      simp only [splitIdx_get hget, if_true]
    have hspec : ∀ {x : Nat} {m}, b.finish.modules[x]? = some m →
        ∃ spec, cfg[m.cfgIdx]? = some spec := fun hx =>
      ⟨_, List.getElem?_eq_getElem (hroutes.cfg_lt _ _ (cfg_of_module hx))⟩
    refine ⟨b.nextPort, ⟨hchain ▸ hroutes, ?_, ?_⟩, ?_⟩
    · intro x m hx hne
      obtain ⟨spec, hget⟩ := hspec (hchain ▸ hx)
      obtain ⟨call, count, hcreate⟩ := hctx m (List.mem_of_getElem? hx)
      have hsplit : spec.name ≠ "split" := fun hsplit => hne (h.split_unique hget hsplit)
      rw [h.create_transform hget hsplit] at hcreate
      exact (Prod.mk.inj (Option.some.inj hcreate)).1.symm
    · intro m hx
      obtain ⟨spec, hget⟩ := hspec (hchain ▸ hx)
      obtain ⟨call, count, hcreate⟩ := hctx m (List.mem_of_getElem? hx)
      have hplace : m.cfgIdx = splitIdx cfg := by
        have hlt := hroutes.cfg_lt _ _ (cfg_of_module (hchain ▸ hx))
        have hmain := cfg_of_module (hchain ▸ hx)
        rcases h.place with hs | hs
        · rw [hroutes.main _ (by omega)] at hmain
          exact (Option.some.inj hmain).symm
        · rw [hs] at hmain hroutes
          exact absurd (hroutes.single _ _ hmain (by omega)) (by omega)
      have hparams : splitParams cfg = spec.params := by rw [splitParams, ← hplace, hget]; rfl
      rw [tunnelCreate_split hget (splitIdx_get (hplace ▸ hget)), ← hparams] at hcreate
      exact (Prod.mk.inj (Option.some.inj hcreate)).1.symm
    · intro hs
      have hzero : requestsAt cfg = fun _ => 0 := by
        funext i
        by_cases hi : i = splitIdx cfg
        · rw [hi, hs, requestsAt, List.getElem?_eq_none (Nat.le_refl _)]
        · exact h.requestsAt_of_ne hi
      have hstraight : (b.finish).Straight cfg.length := by
        rw [← heq]
        exact construct_straight (hzero ▸ hreq) fun n hn => h.allCreated n n hn
      rw [← hroutes.length, hstraight.ports (by omega)]
      rfl
  · exact absurd hfail (h.allCreated.not_failsWithin _)

/-! ## The two chains in use -/

namespace Tunnel

/-- The deliveries to B so far. -/
def delivered (t : Tunnel) : List (Int × Bytes) := t.b.pushed.map fun i => (i.src, i.data)

theorem length_filter_delivered (t : Tunnel) (p : Int) :
    (t.delivered.filter (·.1 = p)).length = (t.b.pushed.filter (·.src = p)).length := by
  rw [delivered, List.filter_map, List.length_map]
  rfl

/-- A delivery hands on what A wrote to that port. -/
theorem nextOutput_eq_some {t : Tunnel} {p : Int} {y : Bytes} (h : t.nextOutput p = some y) :
    (t.a.wire.filter (·.1 = p))[(t.delivered.filter (·.1 = p)).length]? = some (p, y) := by
  obtain ⟨⟨q, z⟩, hget, rfl⟩ := Option.map_eq_some_iff.mp h
  have hport : q = p := by simpa using (List.mem_filter.mp (List.mem_of_getElem? hget)).2
  rw [length_filter_delivered, hget, hport]

theorem AllDelivered.length_le {t : Tunnel} (h : t.AllDelivered) (p : Int) :
    (t.a.wire.filter (·.1 = p)).length ≤ (t.delivered.filter (·.1 = p)).length := by
  cases hfilter : t.a.wire.filter (·.1 = p) with
  | nil => exact Nat.zero_le _
  | cons w rest =>
      have hmem : w ∈ t.a.wire.filter (·.1 = p) := hfilter ▸ List.mem_cons_self
      have hport : w.1 = p := by simpa using (List.mem_filter.mp hmem).2
      have hnone := h w (List.mem_filter.mp hmem).1
      rw [hport, nextOutput, Option.map_eq_none_iff, List.getElem?_eq_none_iff, hfilter] at hnone
      rw [length_filter_delivered]
      exact hnone

end Tunnel

variable {tr : Nat → Transformer} {size s outs ports : Nat} {sc sc' : SplitContext}
  {params : String} {t t' : Tunnel}

/-- A and B are chains in use, and `sc` and `sc'` their split contexts. -/
structure InUse (tr : Nat → Transformer) (size s outs ports : Nat) (sc sc' : SplitContext)
    (t : Tunnel) : Prop where
  singleA : t.a.Single
  singleB : t.b.Single
  encodes : Steady tr size s outs ports .encode sc t.a.net
  decodes : Steady tr size s outs ports .decode sc' t.b.net
  portsA : ∀ w ∈ t.a.wire, ∃ p : Nat, w.1 = p ∧ 1 ≤ p ∧ p < ports
  portsB : ∀ w ∈ t.b.wire, w.1 = 0
  account : Account tr size s ports t.sent t.delivered (t.a.net.sender tr s sc)
    (t.b.net.receiver tr s sc')

theorem received_eq (h : ∀ w ∈ t.b.wire, w.1 = 0) : t.received = t.b.wire.map Prod.snd := by
  rw [Tunnel.received, List.filter_eq_self.mpr]
  intro w hw
  simpa using h w hw

theorem Sender.Step.keeps_ports {S S' : Sender} (h : Sender.Step tr size s ports S S')
    (hports : ∀ w ∈ S.wire, ∃ p : Nat, w.1 = p ∧ 1 ≤ p ∧ p < ports) :
    ∀ w ∈ S'.wire, ∃ p : Nat, w.1 = p ∧ 1 ≤ p ∧ p < ports := by
  have hconcat : ∀ {wire : List (Int × Bytes)} {p : Nat} {y : Bytes},
      (∀ w ∈ wire, ∃ p : Nat, w.1 = p ∧ 1 ≤ p ∧ p < ports) → 1 ≤ p → p < ports →
      ∀ w ∈ wire ++ [((p : Int), y)], ∃ p : Nat, w.1 = p ∧ 1 ≤ p ∧ p < ports := by
    intro wire p y hwire hp hlt w hw
    rcases List.mem_append.mp hw with hw | hw
    · exact hwire w hw
    · rw [List.mem_singleton.mp hw]
      exact ⟨p, rfl, hp, hlt⟩
  cases h with
  | split => exact hports
  | launch _ hp hlt => exact hconcat hports hp hlt
  | pass _ hp hlt => exact hconcat hports hp hlt

theorem Receiver.Step.keeps_port {R R' : Receiver} (h : Receiver.Step tr s R R')
    (hport : ∀ w ∈ R.wire, w.1 = 0) : ∀ w ∈ R'.wire, w.1 = 0 := by
  cases h with
  | merge => exact hport
  | exit =>
      intro w hw
      rcases List.mem_append.mp hw with hw | hw
      · exact hport w hw
      · rw [List.mem_singleton.mp hw]

namespace InUse

theorem push (h : InUse tr size s outs ports sc sc' t) (hsize : 0 < size) {src : Int} {x : Bytes}
    (hx : x ≠ [] ∧ (encoded tr s x).length < 2 ^ 31)
    (hcount : t.sent.length + 1 < 2 ^ 32 - 32768)
    (hopen : t.sent.length + 1 < t.received.length + 16384)
    (hstep : t.step (.push src x) = some t') : InUse tr size s outs ports sc sc' t' := by
  obtain ⟨a, ha, rfl⟩ := Option.map_eq_some_iff.mp hstep
  have hentry : pushPacket t.a.chain false true src .encode = .enqueued 0 := by
    have hentry : t.a.chain.entryExt = some 0 := h.encodes.fitted.routes.entry
    simp [pushPacket, hentry]
  have hrun : t.a.step tunnelProcess (.push src .encode x) = some a := ha
  have hsingle := h.singleA.step hrun
  rcases Pool.push_inv hrun with ⟨hpush, -⟩ | ⟨dst, hpush, -⟩ | ⟨m, hpush, rfl⟩
  · rw [hentry] at hpush
    cases hpush
  · rw [hentry] at hpush
    cases hpush
  · rw [hentry] at hpush
    obtain rfl := Push.enqueued.inj hpush
    have hcfg := h.encodes.fitted.routes.main 0 hsize
    have hreceived : t.received.length = t.b.wire.length := by
      rw [received_eq h.portsB, List.length_map]
    have haccount : Account tr size s ports (t.sent ++ [x]) t.delivered
        ((t.a.net.enqueue (0, .encode) (src, x)).sender tr s sc)
        (t.b.net.receiver tr s sc') := by
      rw [h.encodes.sender_enqueue hsize src x]
      exact h.account.push hx hcount (hreceived ▸ hopen)
    have hsent : t.sent ++ [x] = (t.a.pushed ++ [(⟨src, .encode, x⟩ : Input)]).map Input.data := by
      rw [List.map_append]
      rfl
    rw [hsent] at haccount
    refine ⟨hsingle, h.singleB, ?_, h.decodes, h.portsA, h.portsB, ?_⟩
    · rw [Pool.net_enqueue]
      exact h.encodes.enqueue hcfg src fun _ => hx.1
    · rw [Pool.net_enqueue]
      exact haccount

/-- B takes what A wrote at the last module. -/
theorem entry (h : InUse tr size s outs ports sc sc' t) {p : Int} {y : Bytes}
    (hnext : t.nextOutput p = some y) :
    1 ≤ p ∧ ∃ x i, pushPacket t.b.chain false true p .decode = .enqueued x ∧
      t.b.chain.cfg x = some i ∧ i + 1 = size := by
  have hmem := List.mem_of_getElem? (t.nextOutput_eq_some hnext)
  obtain ⟨q, hq, hlo, hhi⟩ := h.portsA _ (List.mem_filter.mp hmem).1
  obtain rfl : p = q := hq
  have hroutes := h.decodes.fitted.routes
  obtain ⟨x, i, hwire, hcfg, hi⟩ := hroutes.port q hlo hhi
  refine ⟨by omega, x, i, ?_, hcfg, hi⟩
  have hentry : t.b.chain.entryExt = some 0 := hroutes.entry
  have hwire : t.b.chain.wireEntries[q]? = some (some x) := hwire
  have hlen := (List.getElem?_eq_some_iff.mp hwire).1
  have hin : ¬((q : Int) < 0 ∨ (q : Int).toNat ≥ t.b.chain.wireEntries.length) := by
    rw [Int.toNat_natCast]
    omega
  simp only [pushPacket, hentry, if_neg hin]
  rw [Int.toNat_natCast, hwire]
  rfl

theorem deliver (h : InUse tr size s outs ports sc sc' t) {p : Int}
    (hstep : t.step (.deliver p) = some t') : InUse tr size s outs ports sc sc' t' := by
  rw [Tunnel.step] at hstep
  split at hstep
  · cases hstep
  cases hnext : t.nextOutput p with
  | none => simp [hnext] at hstep
  | some y =>
      simp only [hnext] at hstep
      obtain ⟨b, hb, rfl⟩ := Option.map_eq_some_iff.mp hstep
      have hget := t.nextOutput_eq_some hnext
      obtain ⟨-, x, i, hentry, hcfg, hi⟩ := h.entry hnext
      have hrun : t.b.step tunnelProcess (.push p .decode y) = some b := hb
      have hsingle := h.singleB.step hrun
      rcases Pool.push_inv hrun with ⟨hpush, -⟩ | ⟨dst, hpush, -⟩ | ⟨m, hpush, rfl⟩
      · rw [hentry] at hpush
        cases hpush
      · rw [hentry] at hpush
        cases hpush
      · rw [hentry] at hpush
        obtain rfl := Push.enqueued.inj hpush
        have hdelivered : t.delivered ++ [(p, y)] =
            (t.b.pushed ++ [(⟨p, .decode, y⟩ : Input)]).map fun i => (i.src, i.data) := by
          rw [List.map_append]
          rfl
        refine ⟨h.singleA, hsingle, h.encodes, ?_, h.portsA, h.portsB, ?_⟩
        · rw [Pool.net_enqueue]
          exact h.decodes.enqueue hcfg p nofun
        · rw [Pool.net_enqueue]
          rcases h.account with ⟨hs, table, arr, hex⟩ | ⟨hs, hports, hrelay⟩
          · refine .inl ⟨hs, table, arr, ?_⟩
            rw [h.decodes.receiver_enqueue hs hcfg hi p y]
            have hex' := hex.deliver hget
            rw [hdelivered] at hex'
            exact hex'
          · refine .inr ⟨hs, hports, ?_⟩
            rw [h.decodes.receiver_enqueue_line hs hcfg hi p y]
            have hrelay' := hrelay.deliver hget
            rw [hdelivered] at hrelay'
            exact hrelay'

theorem isPush_eq_false {act : Action} (h : ¬act.isPush) :
    ∀ src dir data, act ≠ .push src dir data := by
  rintro src dir data rfl
  exact h rfl

theorem workA (h : InUse tr size s outs ports sc sc' t) (hs : s + 1 < size ∨ s = size)
    {act : Action} (hstep : t.step (.workA act) = some t') :
    ∃ sc₂, InUse tr size s outs ports sc₂ sc' t' := by
  rw [Tunnel.step] at hstep
  split at hstep
  · cases hstep
  rename_i hpush
  obtain ⟨a, ha, rfl⟩ := Option.map_eq_some_iff.mp hstep
  have hsingle := h.singleA.step ha
  have hsent : a.pushed.map Input.data = t.sent := by
    rw [Pool.pushed_eq (isPush_eq_false hpush) ha]
    rfl
  rcases h.singleA.net_work (isPush_eq_false hpush) ha with hnet | hwork
  · refine ⟨sc, hsingle, h.singleB, hnet ▸ h.encodes, h.decodes, ?_, h.portsB, ?_⟩
    · have hwire : a.wire = t.a.wire := congrArg Net.wire hnet
      simp only [hwire]
      exact h.portsA
    · have haccount := h.account
      rw [← hnet, ← hsent] at haccount
      exact haccount
  · obtain ⟨sc₂, hmove⟩ := h.encodes.move hs hwork
    refine ⟨sc₂, hsingle, h.singleB, h.encodes.keep hmove, h.decodes, ?_, h.portsB, ?_⟩
    · rcases h.encodes.sends hs hmove with heq | hsend
      · have hwire : a.wire = t.a.wire := congrArg Sender.wire heq
        simp only [hwire]
        exact h.portsA
      · exact hsend.keeps_ports h.portsA
    · have haccount := h.account
      rw [← hsent] at haccount
      rcases h.encodes.sends hs hmove with heq | hsend
      · rw [← heq] at haccount
        exact haccount
      · exact haccount.send hsend

theorem workB (h : InUse tr size s outs ports sc sc' t) (hs : s + 1 < size ∨ s = size)
    {act : Action} (hstep : t.step (.workB act) = some t') :
    ∃ sc₂, InUse tr size s outs ports sc sc₂ t' := by
  rw [Tunnel.step] at hstep
  split at hstep
  · cases hstep
  rename_i hpush
  obtain ⟨b, hb, rfl⟩ := Option.map_eq_some_iff.mp hstep
  have hsingle := h.singleB.step hb
  have hdelivered : (b.pushed.map fun i => (i.src, i.data)) = t.delivered := by
    rw [Pool.pushed_eq (isPush_eq_false hpush) hb]
    rfl
  rcases h.singleB.net_work (isPush_eq_false hpush) hb with hnet | hwork
  · refine ⟨sc', h.singleA, hsingle, h.encodes, hnet ▸ h.decodes, h.portsA, ?_, ?_⟩
    · have hwire : b.wire = t.b.wire := congrArg Net.wire hnet
      simp only [hwire]
      exact h.portsB
    · have haccount := h.account
      rw [← hnet, ← hdelivered] at haccount
      exact haccount
  · obtain ⟨sc₂, hmove⟩ := h.decodes.move hs hwork
    refine ⟨sc₂, h.singleA, hsingle, h.encodes, h.decodes.keep hmove, h.portsA, ?_, ?_⟩
    · rcases h.decodes.receives (by omega) hmove with heq | hreceive
      · have hwire : b.wire = t.b.wire := congrArg Receiver.wire heq
        simp only [hwire]
        exact h.portsB
      · exact hreceive.keeps_port h.portsB
    · have haccount := h.account
      rw [← hdelivered] at haccount
      rcases h.decodes.receives (by omega) hmove with heq | hreceive
      · rw [← heq] at haccount
        exact haccount
      · exact haccount.receive hreceive

theorem step {l : TunnelAction} (h : InUse tr size s outs ports sc sc' t) (hsize : 0 < size)
    (hs : s + 1 < size ∨ s = size)
    (hpush : ∀ src x, l = .push src x → (x ≠ [] ∧ (encoded tr s x).length < 2 ^ 31) ∧
      t.sent.length + 1 < 2 ^ 32 - 32768 ∧ t.sent.length + 1 < t.received.length + 16384)
    (hstep : t.step l = some t') : ∃ sc sc', InUse tr size s outs ports sc sc' t' := by
  cases l with
  | push src x =>
      obtain ⟨hx, hcount, hopen⟩ := hpush src x rfl
      exact ⟨sc, sc', h.push hsize hx hcount hopen hstep⟩
  | deliver p => exact ⟨sc, sc', h.deliver hstep⟩
  | workA act =>
      obtain ⟨sc₂, h'⟩ := h.workA hs hstep
      exact ⟨sc₂, sc', h'⟩
  | workB act =>
      obtain ⟨sc₂, h'⟩ := h.workB hs hstep
      exact ⟨sc, sc₂, h'⟩

end InUse

/-! ### Nothing gets stuck -/

theorem Pool.mem_inbox_of_entered {p : Pool ModuleContext} {task : Task} (h : task ∈ p.entered) :
    (task.src, task.data) ∈ p.net.inbox task.key := by
  refine List.mem_map.mpr ⟨task, List.mem_filter.mpr ⟨?_, by simp⟩, rfl⟩
  simp [Pool.pending, h]

theorem Pool.mem_outbox_of_running {p : Pool ModuleContext} {call : Call} (h : call ∈ p.running)
    {w : Int × Bytes} (hw : w ∈ call.out) :
    (call.task.src, w) ∈ p.net.outbox call.task.key :=
  List.mem_flatMap.mpr ⟨call, List.mem_filter.mpr ⟨h, by simp⟩, List.mem_map_of_mem hw⟩

/-- The worker of a chain in use can go on until the chain is drained. -/
theorem Steady.progress {p : Pool ModuleContext} {d : Dir} (hp : p.Single)
    (h : Steady tr size s outs ports d sc p.net)
    (hmerge : d = .decode → p.chain.cfg s = some s → ∀ w ∈ p.net.inbox (s, .decode),
      (Split.processMerge sc w.2).isSome) :
    p.Drained ∨ ∃ act p', ¬act.isPush ∧ p.step tunnelProcess act = some p' := by
  have hmodule : ∀ {x i : Nat}, p.net.chain.cfg x = some i →
      ∃ m, p.chain.modules[x]? = some m ∧ m.cfgIdx = i :=
    fun hx => Option.map_eq_some_iff.mp hx
  have hgo := @Pool.Single.progress _ tunnelProcess p hp ?_ ?_
  · rcases hgo with hdrained | ⟨act, p', hpush, hstep⟩
    · exact .inl hdrained
    · refine .inr ⟨act, p', ?_, hstep⟩
      cases act with
      | push src dir data => exact absurd rfl (hpush src dir data)
      | dequeue | lockNogap | lockDir | unlockNogap | write | finish => exact nofun
  · rintro ⟨x, e, src, data⟩ htask
    have hin := Pool.mem_inbox_of_entered htask
    obtain rfl : e = d := by
      by_contra hne
      have hnil : p.net.inbox (Task.key ⟨x, e, src, data⟩) = [] := (h.idle x e hne).1
      rw [hnil] at hin
      cases hin
    obtain ⟨i, hcfg⟩ := h.located x _ hin
    obtain ⟨m, hm, rfl⟩ := hmodule hcfg
    refine ⟨m, hm, fun _ => 0, ?_⟩
    by_cases hi : m.cfgIdx = s
    · rw [hi] at hcfg
      obtain rfl := h.fitted.routes.single x s hcfg (Nat.le_refl s)
      rw [h.fitted.split m hm]
      cases e with
      | encode => rfl
      | decode =>
          have hsome := hmerge rfl hcfg _ hin
          simp only [tunnelProcess, Option.isSome_map]
          exact hsome
    · rw [h.fitted.transforms x m hm hi, tunnelProcess_transform]
      rfl
  · rintro ⟨⟨x, e, src, data⟩, out⟩ hcall hne
    obtain ⟨w, hw⟩ := List.exists_mem_of_ne_nil out hne
    have hout := Pool.mem_outbox_of_running hcall hw
    obtain rfl : e = d := by
      by_contra hne
      have hnil : p.net.outbox (Task.key ⟨x, e, src, data⟩) = [] := (h.idle x e hne).2
      rw [hnil] at hout
      cases hout
    obtain ⟨i, hcfg, -⟩ := h.valid x _ hout
    obtain ⟨m, hm, -⟩ := hmodule hcfg
    rw [hm]
    rfl

/-- Everything is done, or something other than a push can happen. -/
def Tunnel.Moving (t : Tunnel) : Prop :=
  (t.AllDelivered ∧ t.a.Drained ∧ t.b.Drained) ∨
    ∃ l t', (∀ src x, l ≠ .push src x) ∧ t.step l = some t'

theorem Tunnel.moving_of_work {t : Tunnel}
    (ha : t.a.Drained ∨ ∃ act p, ¬act.isPush ∧ t.a.step tunnelProcess act = some p)
    (hb : t.b.Drained ∨ ∃ act p, ¬act.isPush ∧ t.b.step tunnelProcess act = some p)
    (hdeliver : ∀ p y, t.nextOutput p = some y → ∃ t', t.step (.deliver p) = some t') :
    t.Moving := by
  rcases ha with ha | ⟨act, p, hpush, hstep⟩
  · rcases hb with hb | ⟨act, p, hpush, hstep⟩
    · by_cases hall : t.AllDelivered
      · exact .inl ⟨hall, ha, hb⟩
      · simp only [AllDelivered, not_forall] at hall
        obtain ⟨w, -, hnext⟩ := hall
        obtain ⟨y, hy⟩ := Option.ne_none_iff_exists'.mp hnext
        obtain ⟨t', ht'⟩ := hdeliver w.1 y hy
        exact .inr ⟨.deliver w.1, t', fun _ _ => nofun, ht'⟩
    · exact .inr ⟨.workB act, { t with b := p }, fun _ _ => nofun, by simp [Tunnel.step, hpush, hstep]⟩
  · exact .inr ⟨.workA act, { t with a := p }, fun _ _ => nofun, by simp [Tunnel.step, hpush, hstep]⟩

theorem InUse.moving (h : InUse tr size s outs ports sc sc' t) : t.Moving := by
  refine Tunnel.moving_of_work (h.encodes.progress h.singleA nofun)
    (h.decodes.progress h.singleB ?_) ?_
  · intro _ hcfg w hw
    rcases h.account with ⟨-, table, arr, hex⟩ | ⟨hs, -, -⟩
    · exact hex.merge_isSome (mem_cargo_of_inbox hcfg hw)
    · have := h.decodes.fitted.routes.cfg_lt s s hcfg
      omega
  · intro p y hnext
    obtain ⟨hp, x, i, hentry, -⟩ := h.entry hnext
    simp only [Tunnel.step, if_neg (show ¬p < 1 by omega), hnext, Pool.push, hentry]
    exact ⟨_, rfl⟩

/-! ### The start and the end -/

theorem InUse.prefix_sent (h : InUse tr size s outs ports sc sc' t) : t.received <+: t.sent := by
  rw [received_eq h.portsB]
  exact h.account.prefix_sent

variable (tr s) in
/-- Empty boxes hold nothing. -/
theorem Net.nothing {n : Net ModuleContext} (h : ∀ k, n.inbox k = [] ∧ n.outbox k = []) :
    n.waiting tr s = [] ∧ n.leaving tr s = [] ∧ ∀ d, n.cargo tr s d = 0 := by
  have hin : ∀ d m, (n.stages d).inbox m = [] := fun d m => by simp [Net.stages, (h (m, d)).1]
  have hout : ∀ d m, (n.stages d).outbox m = [] := fun d m => by simp [Net.stages, (h (m, d)).2]
  refine ⟨?_, ?_, ?_⟩
  · rw [Net.waiting, hin, inTransit_empty (fun m _ => hin _ m) fun m _ => hout _ m]
    rfl
  · rw [Net.leaving, hout, inTransit_empty (fun m _ => hin _ m) fun m _ => hout _ m]
    rfl
  · exact fun d => stock_empty (fun m _ => hin d m) fun m _ => hout d m

theorem Steady.start {c : Chain ModuleContext} {d : Dir}
    (h : Fitted tr size s (SplitContext.init params).numOutputs ports (SplitContext.init params) c) :
    Steady tr size s (SplitContext.init params).numOutputs ports d (SplitContext.init params)
      (Pool.start c 1).net where
  fitted := h
  outputs _ := ⟨(SplitContext.init_configured params).outputs, Nat.le_refl _⟩
  idle _ _ _ := ⟨rfl, rfl⟩
  valid _ _ hw := by cases hw
  located _ _ hw := by cases hw
  packets _ _ _ hw := by cases hw
  writes _ _ _ hw := by cases hw

/-- Before the first push nothing is on its way. -/
theorem InUse.start {ca cb : Chain ModuleContext}
    (ha : Fitted tr size s (SplitContext.init params).numOutputs ports (SplitContext.init params) ca)
    (hb : Fitted tr size s (SplitContext.init params).numOutputs ports (SplitContext.init params) cb)
    (hs : s + 1 < size ∨ s = size ∧ ports = 2) :
    InUse tr size s (SplitContext.init params).numOutputs ports (SplitContext.init params)
      (SplitContext.init params) (Tunnel.start ca cb) := by
  have hempty : ∀ (c : Chain ModuleContext) k,
      (Pool.start c 1).net.inbox k = [] ∧ (Pool.start c 1).net.outbox k = [] :=
    fun c k => ⟨rfl, rfl⟩
  obtain ⟨hwaiting, -, hcargo⟩ := Net.nothing tr s (hempty ca)
  obtain ⟨-, hleaving, hcargo'⟩ := Net.nothing tr s (hempty cb)
  refine ⟨.start ca, .start cb, .start ha, .start hb, nofun, nofun, ?_⟩
  rcases hs with hs | ⟨hs, hports⟩
  · have hlimits : Limits tr s [] 0 := ⟨nofun, by decide, by decide⟩
    refine .inl ⟨hs, [], [], ⟨hlimits, SplitContext.init_configured params, rfl, nofun, ?_, ?_,
      .nil _, ?_, le_refl _, ⟨?_, ?_⟩, ?_⟩⟩
    · exact hwaiting
    · exact (congrArg (· + 0) (hcargo .encode)).symm
    · exact (congrArg (· + 0) (hcargo' .decode)).symm
    · have hbounded : Split.Bounded [] := by constructor <;> simp
      exact Split.Reassembles.init hbounded rfl rfl rfl
    · rfl
    · exact hleaving
  · exact .inr ⟨hs, hports, nofun, hwaiting, nofun, .nil _, hcargo' .decode, hleaving⟩

theorem InUse.eq_sent (h : InUse tr size s outs ports sc sc' t) (hall : t.AllDelivered)
    (ha : t.a.Drained) (hb : t.b.Drained) : t.received = t.sent := by
  obtain ⟨hwaiting, -, hcargo⟩ := Net.nothing tr s (Pool.net_empty_of_drained ha)
  obtain ⟨-, hleaving, hcargo'⟩ := Net.nothing tr s (Pool.net_empty_of_drained hb)
  rw [received_eq h.portsB]
  exact h.account.eq_sent hwaiting (hcargo .encode) hall.length_le (hcargo' .decode) hleaving

/-! ## A list without modules -/

/-- Every packet passes through at once. -/
structure Bare (t : Tunnel) : Prop where
  entryA : t.a.chain.entryExt = none
  entryB : t.b.chain.entryExt = none
  idleA : t.a.Drained
  idleB : t.b.Drained
  wireA : t.a.wire = t.sent.map fun x => (1, x)
  wireB : t.b.wire = t.delivered.map fun w => (0, w.2)
  fifo : PortFifo t.delivered t.a.wire

theorem pushPacket_bare {c : Chain ModuleContext} (h : c.entryExt = none) (src : Int) (d : Dir) :
    pushPacket c false true src d = .passThrough d.dst := by
  cases d <;> simp [pushPacket, h, Dir.dst]

theorem push_bare {p p' : Pool ModuleContext} (h : p.chain.entryExt = none) {src : Int} {d : Dir}
    {x : Bytes} (hpush : p.push ⟨src, d, x⟩ = some p') :
    p' = { p with pushed := p.pushed ++ [⟨src, d, x⟩], wire := p.wire ++ [(d.dst, x)] } := by
  rw [Pool.push, pushPacket_bare h] at hpush
  exact (Option.some.inj hpush).symm

/-- A worker without tasks does nothing. -/
theorem Pool.Drained.no_step {p p' : Pool ModuleContext} (h : p.Drained) {act : Action}
    (hpush : ¬act.isPush) (hstep : p.step tunnelProcess act = some p') : False := by
  obtain ⟨hqueue, hbusy⟩ := h
  simp only [Pool.busy] at hbusy
  cases act with
  | push => exact hpush rfl
  | dequeue =>
      obtain ⟨t, queue, hq, -⟩ := Pool.dequeue_inv hstep
      rw [hqueue] at hq
      cases hq
  | lockNogap i =>
      obtain ⟨before, t, after, hw, -⟩ := Pool.lockNogap_inv hstep
      rw [hw] at hbusy
      simp at hbusy
  | lockDir i =>
      obtain ⟨before, t, after, hg, -⟩ := Pool.lockDir_inv hstep
      rw [hg] at hbusy
      simp at hbusy
  | unlockNogap i rand =>
      obtain ⟨before, t, after, m, ctx, out, he, -⟩ := Pool.unlockNogap_inv hstep
      rw [he] at hbusy
      simp at hbusy
  | write i =>
      obtain ⟨before, t, dst, data, out, after, m, hr, -⟩ := Pool.write_inv hstep
      rw [hr] at hbusy
      simp at hbusy
  | finish i =>
      obtain ⟨before, t, after, hr, -⟩ := Pool.finish_inv hstep
      rw [hr] at hbusy
      simp at hbusy

namespace Bare

theorem step {l : TunnelAction} (h : Bare t) (hstep : t.step l = some t') : Bare t' := by
  cases l with
  | push src x =>
      obtain ⟨a, ha, rfl⟩ := Option.map_eq_some_iff.mp hstep
      obtain rfl := push_bare h.entryA ha
      refine ⟨h.entryA, h.entryB, h.idleA, h.idleB, ?_, h.wireB, h.fifo.append_right _⟩
      change t.a.wire ++ [(Dir.dst .encode, x)] = _
      rw [h.wireA, Tunnel.sent, Tunnel.sent, List.map_append, List.map_append]
      rfl
  | deliver p =>
      rw [Tunnel.step] at hstep
      split at hstep
      · cases hstep
      cases hnext : t.nextOutput p with
      | none => simp [hnext] at hstep
      | some y =>
          simp only [hnext] at hstep
          obtain ⟨b, hb, rfl⟩ := Option.map_eq_some_iff.mp hstep
          obtain rfl := push_bare h.entryB hb
          have hfifo := h.fifo.deliver (t.nextOutput_eq_some hnext)
          have hdelivered : t.delivered ++ [(p, y)] =
              (t.b.pushed ++ [(⟨p, .decode, y⟩ : Input)]).map fun i => (i.src, i.data) := by
            rw [List.map_append]
            rfl
          rw [hdelivered] at hfifo
          refine ⟨h.entryA, h.entryB, h.idleA, h.idleB, h.wireA, ?_, hfifo⟩
          change t.b.wire ++ [(Dir.dst .decode, y)] = List.map _ (List.map _ _)
          rw [h.wireB, ← hdelivered, List.map_append]
          rfl
  | workA act =>
      rw [Tunnel.step] at hstep
      split at hstep
      · cases hstep
      · rename_i hpush
        obtain ⟨a, ha, -⟩ := Option.map_eq_some_iff.mp hstep
        exact (h.idleA.no_step hpush ha).elim
  | workB act =>
      rw [Tunnel.step] at hstep
      split at hstep
      · cases hstep
      · rename_i hpush
        obtain ⟨b, hb, -⟩ := Option.map_eq_some_iff.mp hstep
        exact (h.idleB.no_step hpush hb).elim

theorem received_eq (h : Bare t) : t.received = t.delivered.map Prod.snd := by
  have hport : ∀ w ∈ t.b.wire, w.1 = 0 := by
    intro w hw
    rw [h.wireB] at hw
    obtain ⟨v, -, rfl⟩ := List.mem_map.mp hw
    rfl
  rw [Pipeline.received_eq hport, h.wireB, List.map_map]
  rfl

theorem delivered_prefix (h : Bare t) : t.delivered <+: t.a.wire := by
  refine h.fifo.prefix_of_single (p := 1) ?_
  intro w hw
  rw [h.wireA] at hw
  obtain ⟨x, -, rfl⟩ := List.mem_map.mp hw
  rfl

theorem map_wireA (h : Bare t) : t.a.wire.map Prod.snd = t.sent := by
  rw [h.wireA, List.map_map]
  exact List.map_id _

theorem prefix_sent (h : Bare t) : t.received <+: t.sent := by
  rw [h.received_eq, ← h.map_wireA]
  exact h.delivered_prefix.map _

theorem eq_sent (h : Bare t) (hall : t.AllDelivered) : t.received = t.sent := by
  have hlen : t.a.wire.length ≤ t.delivered.length := by
    have hcard := congrArg Multiset.card (h.fifo.coe_eq hall.length_le)
    simp only [Multiset.coe_card] at hcard
    omega
  rw [h.received_eq, h.delivered_prefix.eq_of_length_le hlen, h.map_wireA]

theorem moving (h : Bare t) : t.Moving := by
  apply Tunnel.moving_of_work (.inl h.idleA) (.inl h.idleB)
  intro p y hnext
  have hmem := List.mem_of_getElem? (t.nextOutput_eq_some hnext)
  have hport : p = 1 := by
    have hwire := (List.mem_filter.mp hmem).1
    rw [h.wireA] at hwire
    obtain ⟨x, -, heq⟩ := List.mem_map.mp hwire
    exact (congrArg Prod.fst heq).symm
  subst hport
  simp only [Tunnel.step, if_neg (show ¬(1 : Int) < 1 by decide), hnext, Pool.push,
    pushPacket_bare h.entryB]
  exact ⟨_, rfl⟩

end Bare

/-! ## Every run -/

/-- What B has put out is at every moment a prefix of what was pushed into A, and all of it
once every output of A has been delivered and both chains are drained. Until then a delivery
or a step of a worker is possible. -/
theorem tunnel_fidelity (hcfg : Tunnelable transformers cfg)
    {orderA orderB : Nat → List (Nat × Int) → List (Nat × Int)} (horderA : IsOrder orderA)
    (horderB : IsOrder orderB) {ls : List TunnelAction} {t : Tunnel}
    (hok : Meets Tunnel.step (Tunnel.Admissible transformers cfg)
      (Tunnel.start (tunnelChain transformers cfg orderA) (tunnelChain transformers cfg orderB)) ls)
    (hrun : run Tunnel.step
      (Tunnel.start (tunnelChain transformers cfg orderA) (tunnelChain transformers cfg orderB)) ls =
        some t) :
    t.received <+: t.sent ∧
      (t.AllDelivered → t.a.Drained → t.b.Drained → t.received = t.sent) ∧ t.Moving := by
  rw [hcfg.chain_eq horderB horderA] at hok hrun
  rcases Nat.eq_zero_or_pos cfg.length with hzero | hpos
  · obtain rfl := List.eq_nil_of_length_eq_zero hzero
    have hstart : Bare (Tunnel.start (tunnelChain transformers [] orderA)
        (tunnelChain transformers [] orderA)) :=
      ⟨rfl, rfl, ⟨rfl, rfl⟩, ⟨rfl, rfl⟩, rfl, rfl, .nil _⟩
    have hbare : Bare t := invariant_of_run (fun _ _ _ h hstep => h.step hstep) hstart hrun
    exact ⟨hbare.prefix_sent, fun hall _ _ => hbare.eq_sent hall, hbare.moving⟩
  · obtain ⟨ports, hfitted, hports⟩ := hcfg.fitted horderA hpos
    have hplace : splitIdx cfg + 1 < cfg.length ∨ splitIdx cfg = cfg.length ∧ ports = 2 :=
      hcfg.place.imp_right fun hs => ⟨hs, hports hs⟩
    obtain ⟨sc, sc', hends⟩ := invariant_of_meets
      (I := fun t => ∃ sc sc', InUse (transformerAt transformers cfg) cfg.length (splitIdx cfg)
        (SplitContext.init (splitParams cfg)).numOutputs ports sc sc' t) (by
      rintro t l t' ⟨sc, sc', h⟩ hl hstep
      refine h.step hpos hcfg.place ?_ hstep
      rintro src x rfl
      exact ⟨⟨hl.1, hl.2.1⟩, hl.2.2⟩) ⟨_, _, InUse.start hfitted hfitted hplace⟩ hok hrun
    exact ⟨hends.prefix_sent, hends.eq_sent, hends.moving⟩

/-- A module that puts a byte in front of every packet. -/
def marker : Transformer where
  enc x := 7 :: x
  dec x := x.tail
  dec_enc _ _ := rfl
  enc_ne_nil _ _ := List.cons_ne_nil _ _

def markers (name : String) : Option (String → Transformer) :=
  if name = "mark" then some fun _ => marker else none

def markedSplit : List ModuleSpec := [⟨"mark", ""⟩, ⟨"split", "n:2,s:64"⟩, ⟨"mark", ""⟩]

/-- The steps of a worker for one task that makes `writes` writes. -/
def taskSteps (writes : Nat) : List Action :=
  [.dequeue, .lockNogap 0, .lockDir 0, .unlockNogap 0 fun _ => 0] ++
    List.replicate writes (.write 0) ++ [.finish 0]

/-- One packet in two chunks, of which the second one is delivered first. -/
def overtakingRun : List TunnelAction :=
  [.push 0 (List.replicate 100 1)] ++
    ((taskSteps 1 ++ taskSteps 2 ++ taskSteps 1 ++ taskSteps 1).map .workA) ++
    [.deliver 2, .deliver 1] ++
    ((taskSteps 1 ++ taskSteps 1 ++ taskSteps 0 ++ taskSteps 1 ++ taskSteps 1).map .workB)

theorem tunnel_fidelity_overtaking :
    ∃ t, run Tunnel.step (Tunnel.start (tunnelChain markers markedSplit fun _ l => l)
        (tunnelChain markers markedSplit fun _ l => l)) overtakingRun = some t ∧
      t.sent = [List.replicate 100 1] ∧ t.received = t.sent := by
  have hcfg : Tunnelable markers markedSplit := ⟨by decide, by decide, by decide⟩
  have horder : IsOrder fun _ l => l := fun _ _ => List.Perm.refl _
  have hsome : (run Tunnel.step (Tunnel.start (tunnelChain markers markedSplit fun _ l => l)
      (tunnelChain markers markedSplit fun _ l => l)) overtakingRun).isSome := by decide
  have hend : ∀ t ∈ run Tunnel.step (Tunnel.start (tunnelChain markers markedSplit fun _ l => l)
      (tunnelChain markers markedSplit fun _ l => l)) overtakingRun,
      t.sent = [List.replicate 100 1] ∧ t.AllDelivered ∧ t.a.Drained ∧ t.b.Drained := by decide
  obtain ⟨t, ht⟩ := Option.isSome_iff_exists.mp hsome
  obtain ⟨hsent, hall, ha, hb⟩ := hend t ht
  exact ⟨t, ht, hsent, (tunnel_fidelity hcfg horder horder (by decide) ht).2.1 hall ha hb⟩

end PipelineTunnel.Pipeline
