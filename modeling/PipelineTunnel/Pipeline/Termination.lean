import PipelineTunnel.Lib.Rank
import PipelineTunnel.Pipeline.Fidelity
import Mathlib.Logic.Hydra
import Mathlib.Tactic.Abel

/-!
# A tunnel comes to rest

A task may enqueue any number of tasks, but only at modules nearer to the end of the chain. So the
multiset of what is left to do, each item with the way it has still to go, gets smaller in the
order of `Relation.CutExpand` with every step of a worker, and between two pushes there is no
infinite run. Since a tunnel can go on until nothing is on its way, every schedule of the workers
and the deliveries ends with everything delivered.
-/

namespace PipelineTunnel.Pipeline

open StepSystem
open Relation (CutExpand)
open Split (SplitContext)

/-! ## What is left to do in a pool -/

section Pools

variable {σ : Type*} {process : Process σ} {s s' : Pool σ}

/-- The number of modules that a packet at module `i` has still to pass. -/
def Dir.ahead (size i : Nat) : Dir → Nat
  | .encode => size - i
  | .decode => i + 1

def Chain.ahead (size : Nat) (c : Chain σ) (k : Nat × Dir) : Nat :=
  (c.cfg k.1).elim 0 fun i => k.2.ahead size i

/-- A task of which `rest` stages are left. -/
def Task.load (ahead : Nat × Dir → Nat) (rest : Nat) (t : Task) : Multiset Nat :=
  {6 * ahead t.key + rest}

/-- A call in `process` has its writes to make and to return. -/
def Call.load (ahead : Nat × Dir → Nat) (c : Call) : Multiset Nat :=
  c.task.load ahead 1 + Multiset.replicate c.out.length (6 * ahead c.task.key)

def Pool.load (ahead : Nat × Dir → Nat) (s : Pool σ) : Multiset Nat :=
  (s.queue.map (Task.load ahead 5)).sum + (s.waiting.map (Task.load ahead 4)).sum +
    (s.gated.map (Task.load ahead 3)).sum + (s.entered.map (Task.load ahead 2)).sum +
    (s.running.map (Call.load ahead)).sum

namespace Pool

theorem cfg_step {a : Action} (h : s.step process a = some s') : s'.chain.cfg = s.chain.cfg := by
  cases a with
  | push =>
      rcases push_inv h with ⟨-, rfl⟩ | ⟨-, -, rfl⟩ | ⟨-, -, rfl⟩
      all_goals rfl
  | dequeue =>
      obtain ⟨-, -, -, -, rfl⟩ := dequeue_inv h
      rfl
  | lockNogap =>
      obtain ⟨-, -, -, -, -, -, rfl⟩ := lockNogap_inv h
      rfl
  | lockDir =>
      obtain ⟨-, -, -, -, -, rfl⟩ := lockDir_inv h
      rfl
  | unlockNogap =>
      obtain ⟨-, -, -, -, ctx, -, -, -, -, rfl⟩ := unlockNogap_inv h
      exact funext (Chain.cfg_setCtx _ _ ctx)
  | write =>
      obtain ⟨-, -, -, -, -, -, -, -, -, ⟨-, -, -, rfl⟩ | ⟨-, -, rfl⟩⟩ := write_inv h
      all_goals rfl
  | finish =>
      obtain ⟨-, -, -, -, rfl⟩ := finish_inv h
      rfl

theorem ahead_step {size : Nat} {a : Action} (h : s.step process a = some s') :
    s'.chain.ahead size = s.chain.ahead size := by
  funext k
  rw [Chain.ahead, Chain.ahead, cfg_step h]

variable {ahead : Nat × Dir → Nat}

theorem load_next (t : Task) (rest : Nat) :
    CutExpand (· < ·) (t.load ahead rest) (t.load ahead (rest + 1)) :=
  Relation.cutExpand_singleton_singleton (Nat.lt_succ_self _)

theorem load_call (t : Task) (out : List (Int × Bytes)) :
    CutExpand (· < ·) (Call.load ahead ⟨t, out⟩) (t.load ahead 2) := by
  refine Relation.cutExpand_singleton fun k hk => ?_
  rcases Multiset.mem_add.mp hk with hk | hk
  · rw [Multiset.mem_singleton.mp hk]
    exact Nat.lt_succ_self _
  · rw [Multiset.eq_of_mem_replicate hk]
    exact Nat.lt_add_of_pos_right (by decide)

theorem load_write (t : Task) (w : Int × Bytes) (out : List (Int × Bytes)) :
    Call.load ahead ⟨t, w :: out⟩ = Call.load ahead ⟨t, out⟩ + t.load ahead 0 := by
  simp only [Call.load, Task.load, List.length_cons, Multiset.replicate_succ,
    ← Multiset.singleton_add, add_zero]
  abel

/-- Every step of a worker does part of what is left, if the modules write to modules nearer to
the end only. -/
theorem load_step {a : Action} (hpush : ¬a.isPush)
    (hwrite : ∀ c ∈ s.running, ∀ w ∈ c.out, ∀ m q d, s.chain.modules[c.task.mod]? = some m →
      writePacket m w.1 = .toModule q d → ahead (q, d) < ahead c.task.key)
    (h : s.step process a = some s') : CutExpand (· < ·) (s'.load ahead) (s.load ahead) := by
  -- the part that changes, and the rest
  have hpart : ∀ (rest : Multiset Nat) {part part' : Multiset Nat}, CutExpand (· < ·) part' part →
      s.load ahead = rest + part → s'.load ahead = rest + part' →
      CutExpand (· < ·) (s'.load ahead) (s.load ahead) := by
    rintro rest part part' hcut hs hs'
    rw [hs, hs']
    exact (Relation.cutExpand_add_left rest).mpr hcut
  cases a with
  | push => exact absurd rfl hpush
  | dequeue =>
      obtain ⟨t, queue, hq, -, rfl⟩ := dequeue_inv h
      apply hpart (({ s with queue := queue } : Pool σ).load ahead) (load_next t 4)
      · simp only [load, hq, List.map_cons, List.sum_cons]
        abel
      · simp only [load, List.map_append, List.map_cons, List.map_nil, List.sum_append,
          List.sum_singleton]
        abel
  | lockNogap i =>
      obtain ⟨before, t, after, hw, -, -, rfl⟩ := lockNogap_inv h
      apply hpart (({ s with waiting := before ++ after } : Pool σ).load ahead) (load_next t 3)
      · simp only [load, hw, List.map_append, List.map_cons, List.sum_append, List.sum_cons]
        abel
      · simp only [load, List.map_append, List.map_cons, List.map_nil, List.sum_append,
          List.sum_singleton]
        abel
  | lockDir i =>
      obtain ⟨before, t, after, hg, -, rfl⟩ := lockDir_inv h
      apply hpart (({ s with gated := before ++ after } : Pool σ).load ahead) (load_next t 2)
      · simp only [load, hg, List.map_append, List.map_cons, List.sum_append, List.sum_cons]
        abel
      · simp only [load, List.map_append, List.map_cons, List.map_nil, List.sum_append,
          List.sum_singleton]
        abel
  | unlockNogap i rand =>
      obtain ⟨before, t, after, m, ctx, out, he, -, -, rfl⟩ := unlockNogap_inv h
      apply hpart (({ s with entered := before ++ after } : Pool σ).load ahead) (load_call t out)
      · simp only [load, he, List.map_append, List.map_cons, List.sum_append, List.sum_cons]
        abel
      · simp only [load, List.map_append, List.map_cons, List.map_nil, List.sum_append,
          List.sum_singleton]
        abel
  | write i =>
      obtain ⟨before, t, dst, data, out, after, m, hr, hm, hcase⟩ := write_inv h
      have hload : s.load ahead =
          ({ s with running := before ++ ⟨t, out⟩ :: after } : Pool σ).load ahead +
            t.load ahead 0 := by
        simp only [load, hr, load_write, List.map_append, List.map_cons, List.sum_append,
          List.sum_cons]
        abel
      rcases hcase with ⟨q, d, hhop, rfl⟩ | ⟨p, -, rfl⟩
      · have hless : ahead (q, d) < ahead t.key :=
          hwrite ⟨t, (dst, data) :: out⟩ (by simp [hr]) (dst, data) List.mem_cons_self m q d hm hhop
        have hpassed : CutExpand (· < ·) (Task.load ahead 5 ⟨q, d, t.src, data⟩)
            (t.load ahead 0) := by
          apply Relation.cutExpand_singleton_singleton
          show 6 * ahead (q, d) + 5 < 6 * ahead t.key + 0
          omega
        apply hpart _ hpassed hload
        simp only [load, List.map_append, List.map_cons, List.map_nil, List.sum_append,
          List.sum_singleton]
        abel
      · have hsent : CutExpand (· < ·) 0 (t.load ahead 0) := Relation.cutExpand_zero
        exact hpart _ hsent hload (add_zero _).symm
  | finish i =>
      obtain ⟨before, t, after, hr, rfl⟩ := finish_inv h
      have hdone : CutExpand (· < ·) 0 (t.load ahead 1) := Relation.cutExpand_zero
      apply hpart (({ s with running := before ++ after } : Pool σ).load ahead) hdone
      · simp only [load, hr, List.map_append, List.map_cons, List.sum_append, List.sum_cons,
          Call.load, List.length_nil, Multiset.replicate_zero, add_zero]
        abel
      · exact (add_zero _).symm

end Pool

end Pools

/-! ## Chains in use -/

variable {transformers : String → Option (String → Transformer)} {cfg : List ModuleSpec}
  {tr : Nat → Transformer} {size s outs ports : Nat} {sc sc' : SplitContext} {t t' : Tunnel}

theorem Dir.ahead_lt {d : Dir} {i j : Nat} (hi : i < size) (h : d.before j = d.after i) :
    d.ahead size j < d.ahead size i := by
  cases d with
  | encode =>
      obtain rfl : j = i + 1 := h
      simp only [Dir.ahead]
      omega
  | decode =>
      obtain rfl : j + 1 = i := h
      simp only [Dir.ahead]
      omega

/-- The modules of a chain in use write to the next ones. -/
theorem Steady.load_step {p p' : Pool ModuleContext} {d : Dir}
    (h : Steady tr size s outs ports d sc p.net) (hs : s + 1 < size ∨ s = size) {a : Action}
    (hpush : ¬a.isPush) (hstep : p.step tunnelProcess a = some p') :
    CutExpand (· < ·) (p'.load (p'.chain.ahead size)) (p.load (p.chain.ahead size)) := by
  rw [Pool.ahead_step hstep]
  refine Pool.load_step hpush ?_ hstep
  rintro ⟨⟨x, e, src, data⟩, out⟩ hcall w hw m q d' hm hhop
  have hout := Pool.mem_outbox_of_running hcall hw
  obtain rfl : e = d := by
    by_contra hne
    have hnil : p.net.outbox (Task.key ⟨x, e, src, data⟩) = [] := (h.idle x e hne).2
    rw [hnil] at hout
    cases hout
  obtain ⟨i, hcfg, hvalid⟩ := h.valid x _ hout
  have hgo : p.net.chain.hop x w.1 = some (.toModule q d') := by
    rw [Chain.hop, show p.net.chain.modules[x]? = some m from hm]
    exact congrArg some hhop
  rcases h.fitted.routes.next hs hcfg hvalid with ⟨q', j, hq, hnext, hahead⟩ | ⟨p, hnext, -⟩
  · rw [hgo] at hnext
    obtain ⟨rfl, rfl⟩ := Hop.toModule.inj (Option.some.inj hnext)
    have hlt := Dir.ahead_lt (h.fitted.routes.cfg_lt x i hcfg) hahead
    have hq' : p.chain.cfg q = some j := hq
    have hx' : p.chain.cfg x = some i := hcfg
    simpa [Chain.ahead, Task.key, hq', hx'] using hlt
  · rw [hgo] at hnext
    cases hnext

/-- What is left to do in a tunnel: the work of A, the outputs of A that have not been delivered,
and the work of B. -/
def Tunnel.load (size : Nat) (t : Tunnel) : Multiset Nat × Nat × Multiset Nat :=
  (t.a.load (t.a.chain.ahead size), t.a.wire.length - t.b.pushed.length,
    t.b.load (t.b.chain.ahead size))

/-- The work of A counts before the deliveries, and these before the work of B. -/
def Tunnel.Less : Multiset Nat × Nat × Multiset Nat → Multiset Nat × Nat × Multiset Nat → Prop :=
  Prod.Lex (CutExpand (· < ·)) (Prod.Lex (· < ·) (CutExpand (· < ·)))

theorem Account.length_le {sent : List Bytes} {delivered : List (Int × Bytes)} {S : Sender}
    {R : Receiver} (h : Account tr size s ports sent delivered S R) :
    delivered.length ≤ S.wire.length := by
  have hfifo : PortFifo delivered S.wire := by
    rcases h with ⟨-, table, arr, h⟩ | ⟨-, -, h⟩
    · exact h.fifo
    · exact h.fifo
  have hcard := Multiset.card_le_card hfifo.coe_le
  simpa using hcard

namespace Tunnel

/-- A delivery takes one packet off the wire, when no more have been delivered than were put
there. -/
theorem load_deliver {p : Int} (hle : t'.b.pushed.length ≤ t'.a.wire.length)
    (hstep : t.step (.deliver p) = some t') : Less (t'.load size) (t.load size) := by
  rw [Tunnel.step] at hstep
  split at hstep
  · cases hstep
  cases hnext : t.nextOutput p with
  | none => simp [hnext] at hstep
  | some y =>
      simp only [hnext] at hstep
      obtain ⟨b, hb, rfl⟩ := Option.map_eq_some_iff.mp hstep
      have hrun : t.b.step tunnelProcess (.push p .decode y) = some b := hb
      have hpushed : b.pushed = t.b.pushed ++ [⟨p, .decode, y⟩] := by
        rcases Pool.push_inv hrun with ⟨-, rfl⟩ | ⟨-, -, rfl⟩ | ⟨-, -, rfl⟩
        all_goals rfl
      simp only [hpushed, List.length_append, List.length_singleton] at hle
      apply Prod.Lex.right
      apply Prod.Lex.left
      simp only [hpushed, List.length_append, List.length_singleton]
      omega

end Tunnel

theorem InUse.less (h : InUse tr size s outs ports sc sc' t) (hsize : 0 < size)
    (hs : s + 1 < size ∨ s = size) {l : TunnelAction} (hl : ∀ src x, l ≠ .push src x)
    (hstep : t.step l = some t') : Tunnel.Less (t'.load size) (t.load size) := by
  cases l with
  | push src x => exact absurd rfl (hl src x)
  | deliver p =>
      obtain ⟨sc₂, sc₂', h'⟩ := h.step hsize hs (by rintro src x ⟨⟩) hstep
      have hle := h'.account.length_le
      rw [Tunnel.delivered, List.length_map] at hle
      exact Tunnel.load_deliver hle hstep
  | workA act =>
      rw [Tunnel.step] at hstep
      split at hstep
      · cases hstep
      · rename_i hpush
        obtain ⟨a, ha, rfl⟩ := Option.map_eq_some_iff.mp hstep
        exact .left _ _ (h.encodes.load_step hs hpush ha)
  | workB act =>
      rw [Tunnel.step] at hstep
      split at hstep
      · cases hstep
      · rename_i hpush
        obtain ⟨b, hb, rfl⟩ := Option.map_eq_some_iff.mp hstep
        have hpushed : b.pushed = t.b.pushed := Pool.pushed_eq (InUse.isPush_eq_false hpush) hb
        rw [Tunnel.load, hpushed]
        exact .right _ (.right _ (h.decodes.load_step hs hpush hb))

/-- Without modules there are only deliveries. -/
theorem Bare.less (h : Bare t) {l : TunnelAction} (hl : ∀ src x, l ≠ .push src x)
    (hstep : t.step l = some t') : Tunnel.Less (t'.load size) (t.load size) := by
  cases l with
  | push src x => exact absurd rfl (hl src x)
  | deliver p =>
      have hle := Multiset.card_le_card (h.step hstep).fifo.coe_le
      rw [Multiset.coe_card, Multiset.coe_card, Tunnel.delivered, List.length_map] at hle
      exact Tunnel.load_deliver hle hstep
  | workA act =>
      rw [Tunnel.step] at hstep
      split at hstep
      · cases hstep
      · rename_i hpush
        obtain ⟨a, ha, -⟩ := Option.map_eq_some_iff.mp hstep
        exact (h.idleA.no_step hpush ha).elim
  | workB act =>
      rw [Tunnel.step] at hstep
      split at hstep
      · cases hstep
      · rename_i hpush
        obtain ⟨b, hb, -⟩ := Option.map_eq_some_iff.mp hstep
        exact (h.idleB.no_step hpush hb).elim

/-- The split module of B takes every chunk that reaches it. -/
theorem InUse.merge_isSome (h : InUse tr size s outs ports sc sc' t)
    (hcfg : t.b.chain.cfg s = some s) :
    ∀ w ∈ t.b.net.inbox (s, .decode), (Split.processMerge sc' w.2).isSome := by
  intro w hw
  rcases h.account with ⟨-, table, arr, hex⟩ | ⟨hs, -, -⟩
  · exact hex.merge_isSome (mem_cargo_of_inbox hcfg hw)
  · have := h.decodes.fitted.routes.cfg_lt s s hcfg
    omega

/-! ## Every schedule -/

/-- A tunnel that can go on only with a push has delivered everything. -/
theorem Tunnel.Moving.received_eq (h : t.Moving)
    (hall : t.AllDelivered → t.a.Drained → t.b.Drained → t.received = t.sent)
    (hstuck : Stuck Tunnel.step (fun l => ∀ src x, l ≠ .push src x) t) : t.received = t.sent := by
  rcases h with ⟨hdelivered, ha, hb⟩ | ⟨l, t', hl, hstep⟩
  · exact hall hdelivered ha hb
  · rw [hstuck l hl] at hstep
    cases hstep

variable (transformers cfg) in
/-- The two chains of a module list in use. -/
def Tunnel.Running (ports : Nat) (t : Tunnel) : Prop :=
  ∃ sc sc', InUse (transformerAt transformers cfg) cfg.length (splitIdx cfg)
    (SplitContext.init (splitParams cfg)).numOutputs ports sc sc' t

theorem Tunnel.Running.step (hcfg : Tunnelable transformers cfg) (hpos : 0 < cfg.length)
    (h : t.Running transformers cfg ports) {l : TunnelAction} (hl : t.Admissible transformers cfg l)
    (hstep : t.step l = some t') : t'.Running transformers cfg ports := by
  obtain ⟨sc, sc', h⟩ := h
  refine h.step hpos hcfg.place ?_ hstep
  rintro src x rfl
  exact ⟨⟨hl.1, hl.2.1⟩, hl.2.2⟩

end PipelineTunnel.Pipeline
