import PipelineTunnel.Lib.CString
import PipelineTunnel.Pipeline.Routes

/-!
# The order of packets in a chain of copy modules

`core/modules/copy.cpp` passes every packet on as it is and drops empty ones. A chain of
such modules hands the packets to `wire_write` in the order of the `push_packet` calls,
for every number of workers and every interleaving, as long as `nogap_mutex_` is taken in
the order of `FirstCome`. Nothing in the task body enforces that order: a worker holds
no lock between the queue and `nogap_mutex_`, and another one may overtake it there.
-/

namespace PipelineTunnel.Pipeline

open StepSystem FifoLine

/-! ## The copy module -/

/-- `builtin_copy_ctx`, without the trace output. -/
structure CopyContext where
  modeCopy : Bool
deriving DecidableEq, Repr

/-- `builtin_copy_init`: the letter after the first `m:` selects the mode. -/
def CopyContext.init (config : String) : CopyContext :=
  match CString.strstr config.toList ['m', ':'] with
  | some (_ :: _ :: c :: _) => ⟨c = 'c'⟩
  | _ => ⟨false⟩

/-- `builtin_copy_process`; allocation succeeds. -/
def copyProcess : Process CopyContext := fun _ ctx dir _ data =>
  if data = [] then some (ctx, [])
  else
    let writeDst := if dir = .encode then 1 else 0
    if ctx.modeCopy then
      let cp := data.take data.length
      some (ctx, [(writeDst, cp)])
    else some (ctx, [(writeDst, data)])

def findCopy (name : String) : Option (ModuleBase CopyContext) :=
  if name = "copy" then some { init := CopyContext.init, requests := fun _ => 0 } else none

def copyChain (cfg : List ModuleSpec) (order : Nat → List (Nat × Int) → List (Nat × Int)) :
    Chain CopyContext :=
  construct (createOne findCopy (fun _ => false) cfg) cfg.length order

/-- What a copy module makes of a packet. -/
def copied (_ : Nat) (data : Bytes) : Option Bytes := if data = [] then none else some data

theorem copyProcess_eq (rand : Nat → Nat) (ctx : CopyContext) (d : Dir) (src : Int) (data : Bytes)
    (m : Nat) : copyProcess rand ctx d src data =
      some (ctx, (copied m data).toList.map fun y => (d.dst, y)) := by
  cases d <;> simp only [copyProcess, copied, Dir.dst] <;> split <;> simp

/-! ## The order -/

/-- The packets handed to `wire_write` in one direction. -/
def exits (wire : List (Int × Bytes)) (d : Dir) : List Bytes :=
  (wire.filter (·.1 = d.dst)).map Prod.snd

/-- The packet has to come out in direction `d`: modules drop empty packets, and
`push_packet` those from a port the chain does not have. -/
def Input.Accepted (size : Nat) (d : Dir) (i : Input) : Prop :=
  i.dir = d ∧ (size = 0 ∨ i.data ≠ [] ∧ (d = .decode → i.src = 1))

instance (size : Nat) (d : Dir) (i : Input) : Decidable (i.Accepted size d) :=
  inferInstanceAs (Decidable (i.dir = d ∧ (size = 0 ∨ i.data ≠ [] ∧ (d = .decode → i.src = 1))))

def accepted (size : Nat) (pushed : List Input) (d : Dir) : List Bytes :=
  (pushed.filter (·.Accepted size d)).map Input.data

theorem exits_append (wire : List (Int × Bytes)) (p : Int) (data : Bytes) (d : Dir) :
    exits (wire ++ [(p, data)]) d = exits wire d ++ if p = d.dst then [data] else [] := by
  by_cases hp : p = d.dst <;> simp [exits, hp]

theorem dst_inj {d d' : Dir} (h : d.dst = d'.dst) : d = d' := by
  cases d <;> cases d' <;> first | rfl | simp [Dir.dst] at h

theorem through_copied (l : List Nat) (data : Bytes) :
    through copied l data = if l = [] ∨ data ≠ [] then some data else none := by
  induction l with
  | nil => rfl
  | cons m l ih =>
      by_cases hdata : data = [] <;> simp [through, copied, ih, hdata]

/-- The packets on the line of a direction are the accepted ones that are not out. -/
structure Flows (size : Nat) (pushed : List Input) (n : Net CopyContext) : Prop where
  straight : n.chain.Straight size
  dst : ∀ m d, ∀ w ∈ n.outbox (m, d), w.2.1 = d.dst
  flow : ∀ d, exits n.wire d ++ inTransit copied (n.stages d) (travel size d) =
    accepted size pushed d

theorem outbox_head {n : Net CopyContext} {m : Nat} {d : Dir} {w : Int × Int × Bytes}
    {rest : List (Int × Int × Bytes)} (h : n.outbox (m, d) = w :: rest) :
    (n.stages d).outbox m = w.2.2 :: rest.map fun w => w.2.2 := by
  simp [Net.stages, h]

theorem dst_setOutbox {n : Net CopyContext} {m : Nat} {d : Dir} {w : Int × Int × Bytes}
    {rest : List (Int × Int × Bytes)} (h : ∀ m d, ∀ w ∈ n.outbox (m, d), w.2.1 = d.dst)
    (hout : n.outbox (m, d) = w :: rest) :
    ∀ m' d', ∀ w ∈ Function.update n.outbox (m, d) rest (m', d'), w.2.1 = d'.dst := by
  intro m' d' v hv
  rw [Function.update_apply] at hv
  split at hv
  · rename_i heq
    obtain ⟨rfl, rfl⟩ := Prod.mk.inj heq
    exact h m' d' v (hout ▸ List.mem_cons_of_mem w hv)
  · exact h m' d' v hv

/-- What a module writes has the destination of its direction. -/
theorem dst_handle {n : Net CopyContext} (h : ∀ m d, ∀ w ∈ n.outbox (m, d), w.2.1 = d.dst)
    (m : Nat) (d : Dir) (src : Int) (ys : List Bytes) :
    ∀ m' d', ∀ w ∈ Function.update n.outbox (m, d)
      ((ys.map fun y => (d.dst, y)).map fun w => (src, w)) (m', d'), w.2.1 = d'.dst := by
  intro m' d' w hw
  rw [Function.update_apply] at hw
  split at hw
  · rename_i heq
    obtain ⟨rfl, rfl⟩ := Prod.mk.inj heq
    simp only [List.map_map, List.mem_map] at hw
    obtain ⟨y, -, rfl⟩ := hw
    rfl
  · exact h m' d' w hw

theorem Flows.mem_travel {size : Nat} {pushed : List Input} {n : Net CopyContext}
    (h : Flows size pushed n) {m : Nat} {mod : Module CopyContext}
    (hmod : n.chain.modules[m]? = some mod) (d : Dir) : m ∈ travel size d := by
  rw [PipelineTunnel.Pipeline.mem_travel, ← h.straight.length]
  exact (List.getElem?_eq_some_iff.mp hmod).1

theorem Flows.work {size : Nat} {pushed : List Input} {n n' : Net CopyContext}
    (h : Flows size pushed n) (hw : Net.Work copyProcess n n') : Flows size pushed n' := by
  cases hw with
  | @handle m d src data rest mod rand ctx out hin hout hmod hproc =>
      rw [copyProcess_eq rand mod.ctx d src data m] at hproc
      obtain ⟨rfl, rfl⟩ := Prod.mk.inj (Option.some.inj hproc)
      refine ⟨h.straight.setCtx m mod.ctx, dst_handle h.dst m d src (copied m data).toList, ?_⟩
      intro d'
      rw [← h.flow d', Net.stages_handle]
      split
      · rename_i heq
        subst heq
        have hys : (((copied m data).toList.map fun y => (d.dst, y)).map fun w => (src, w)).map
            (fun w => w.2.2) = (copied m data).toList := by
          rw [List.map_map, List.map_map]
          exact List.map_id _
        rw [hys]
        congr 1
        apply inTransit_handle (nodup_travel size d) (h.mem_travel hmod d)
        · simp [Net.stages, hin]
        · simp [Net.stages, hout]
      · rfl
  | @forward m q d d' src dst data rest mod hout hmod hhop =>
      have hdst : dst = d.dst := h.dst m d (src, dst, data) (hout ▸ List.mem_cons_self)
      subst hdst
      refine ⟨h.straight, dst_setOutbox h.dst hout, ?_⟩
      have hcase := (h.straight.line d).pass copied (h.mem_travel hmod d) (outbox_head hout)
      simp only [Chain.hop, hmod, Option.map_some, hhop, Option.some.injEq, Hop.toModule.injEq,
        reduceCtorEq, false_and, or_false] at hcase
      obtain ⟨q', -, ⟨rfl, rfl⟩, hkeep⟩ := hcase
      intro e
      rw [← h.flow e]
      congr 1
      have hpost := @Net.stages_post _ { n with outbox := Function.update n.outbox (m, d') rest }
        q e d' n.chain n.wire (src, data)
      rw [Net.stages_setOutbox] at hpost
      rw [hpost]
      split
      · rename_i heq
        subst heq
        exact hkeep
      · rfl
  | @exit m d src dst p data rest mod hout hmod hhop =>
      have hdst : dst = d.dst := h.dst m d (src, dst, data) (hout ▸ List.mem_cons_self)
      subst hdst
      refine ⟨h.straight, dst_setOutbox h.dst hout, ?_⟩
      have hcase := (h.straight.line d).pass copied (h.mem_travel hmod d) (outbox_head hout)
      simp only [Chain.hop, hmod, Option.map_some, hhop, Option.some.injEq, Hop.toWire.injEq,
        reduceCtorEq, false_and, and_false, exists_false, false_or] at hcase
      obtain ⟨rfl, hfirst⟩ := hcase
      intro e
      rw [← h.flow e, exits_append, Net.stages_setOutbox]
      by_cases he : d = e
      · subst he
        rw [if_pos rfl, if_pos rfl, hfirst, List.append_assoc]
        rfl
      · have hne : d.dst ≠ e.dst := fun heq => he (dst_inj heq)
        rw [if_neg hne, if_neg he, List.append_nil]

theorem pushPacket_straight {σ : Type*} {c : Chain σ} {size : Nat} (h : c.Straight size)
    (src : Int) (d : Dir) : pushPacket c false true src d =
      if size = 0 then .passThrough d.dst
      else match d with
        | .encode => .enqueued 0
        | .decode => if src = 1 then .enqueued (size - 1) else if src = 0 then .null else .dropped := by
  by_cases hzero : size = 0
  · cases d <;> simp [pushPacket, h.entry, hzero, Dir.dst]
  · have hports := h.ports hzero
    cases d with
    | encode => simp [pushPacket, h.entry, hzero]
    | decode =>
        simp only [pushPacket, h.entry, hzero, hports, if_false, Bool.false_eq_true,
          not_true_eq_false, List.length_cons, List.length_nil]
        by_cases h1 : src = 1
        · subst h1
          simp
        · by_cases h0 : src = 0
          · subst h0
            simp
          · rw [if_pos (by omega), if_neg h1, if_neg h0]

theorem accepted_append (size : Nat) (pushed : List Input) (i : Input) (d : Dir) :
    accepted size (pushed ++ [i]) d =
      accepted size pushed d ++ if i.Accepted size d then [i.data] else [] := by
  by_cases hi : i.Accepted size d <;> simp [accepted, hi]

/-- A packet joins the line of its direction at the end. -/
theorem Flows.enqueue {size : Nat} {s : Pool CopyContext} (h : Flows size s.pushed s.net)
    {m : Nat} {src : Int} {d : Dir} {data : Bytes}
    (hp : pushPacket s.chain false true src d = .enqueued m) :
    Flows size (s.pushed ++ [⟨src, d, data⟩])
      ({ s with queue := s.queue ++ [⟨m, d, src, data⟩] } : Pool CopyContext).net := by
  change pushPacket s.net.chain false true src d = _ at hp
  rw [pushPacket_straight h.straight] at hp
  have hzero : size ≠ 0 := by
    intro hzero
    simp [hzero] at hp
  rw [if_neg hzero] at hp
  obtain ⟨l, hl⟩ := travel_cons hzero d
  have hm : travel size d = m :: l ∧ (d = .decode → src = 1) := by
    rw [hl]
    cases d with
    | encode => exact ⟨by simpa using hp, nofun⟩
    | decode =>
        dsimp only at hp
        split at hp
        · exact ⟨by simpa using hp, fun _ => ‹_›⟩
        · split at hp <;> cases hp
  rw [Pool.net_enqueue]
  refine ⟨h.straight, h.dst, ?_⟩
  intro e
  rw [accepted_append, ← h.flow e, Net.enqueue, Net.stages_post]
  by_cases he : d = e
  · subst he
    have hnodup : (m :: l).Nodup := hm.1 ▸ nodup_travel size d
    rw [if_pos rfl, hm.1, inTransit_post data hnodup, through_copied, List.append_assoc]
    by_cases hdata : data = []
    · simp [Input.Accepted, hdata, hzero]
    · simpa [Input.Accepted, hdata, hzero] using hm.2
  · rw [if_neg he, if_neg (fun hc => he hc.1), List.append_nil]

/-- The invariant of the pool. -/
structure InOrder (size : Nat) (s : Pool CopyContext) : Prop where
  exclusive : s.Exclusive
  flows : Flows size s.pushed s.net

theorem InOrder.push {size : Nat} {s s' : Pool CopyContext} {src : Int} {d : Dir} {data : Bytes}
    (h : InOrder size s) (hs : s.step copyProcess (.push src d data) = some s') :
    InOrder size s' := by
  refine ⟨h.exclusive.step hs, ?_⟩
  have hpush := pushPacket_straight h.flows.straight src d
  rcases Pool.push_inv hs with ⟨hp, rfl⟩ | ⟨dst, hp, rfl⟩ | ⟨m, hp, rfl⟩
  · refine ⟨h.flows.straight, h.flows.dst, ?_⟩
    intro e
    have hout : ¬(⟨src, d, data⟩ : Input).Accepted size e := by
      rintro ⟨rfl, hcase⟩
      change pushPacket s.net.chain false true src d = _ at hp
      rw [hp] at hpush
      cases d <;> grind
    have hacc := accepted_append size s.pushed ⟨src, d, data⟩ e
    rw [if_neg hout, List.append_nil] at hacc
    exact (h.flows.flow e).trans hacc.symm
  · have hzero : size = 0 ∧ dst = d.dst := by
      change pushPacket s.net.chain false true src d = _ at hp
      rw [hp] at hpush
      cases d <;> grind
    obtain ⟨rfl, rfl⟩ := hzero
    refine ⟨h.flows.straight, h.flows.dst, ?_⟩
    intro e
    have hline : ∀ n : Net CopyContext, inTransit copied (n.stages e) (travel 0 e) = [] := by
      cases e <;> exact fun _ => rfl
    have hflow := h.flows.flow e
    rw [hline, List.append_nil] at hflow
    have hnet : s.net.wire = s.wire := rfl
    rw [hline, List.append_nil, accepted_append, ← hflow, hnet]
    by_cases he : d = e
    · subst he
      simp [Pool.net, exits_append, Input.Accepted]
    · have hne : d.dst ≠ e.dst := fun heq => he (dst_inj heq)
      simp [Pool.net, exits_append, Input.Accepted, hne, he]
  · exact h.flows.enqueue hp

theorem InOrder.step {size : Nat} {s s' : Pool CopyContext} {a : Action} (h : InOrder size s)
    (hf : s.FirstCome a) (hs : s.step copyProcess a = some s') : InOrder size s' := by
  by_cases hpush : ∃ src d data, a = .push src d data
  · obtain ⟨src, d, data, rfl⟩ := hpush
    exact h.push hs
  · have hne : ∀ src d data, a ≠ .push src d data :=
      fun src d data heq => hpush ⟨src, d, data, heq⟩
    refine ⟨h.exclusive.step hs, ?_⟩
    rw [Pool.pushed_eq hne hs]
    rcases Pool.net_work h.exclusive hf hne hs with heq | hwork
    · rw [heq]
      exact h.flows
    · exact h.flows.work hwork

theorem copyChain_straight {cfg : List ModuleSpec} (hcopy : ∀ spec ∈ cfg, spec.name = "copy")
    (order : Nat → List (Nat × Int) → List (Nat × Int)) :
    (copyChain cfg order).Straight cfg.length := by
  have hsome : ∀ call i spec, cfg[i]? = some spec →
      createOne findCopy (fun _ => false) cfg call i = some (CopyContext.init spec.params, 0) := by
    intro call i spec hi
    simp [createOne, hi, findCopy, hcopy spec (List.mem_of_getElem? hi)]
  apply construct_straight
  · intro call i ctx count hr
    cases hi : cfg[i]? with
    | none => simp [createOne, hi] at hr
    | some spec =>
        rw [hsome call i spec hi] at hr
        exact congrArg Prod.snd (Option.some.inj hr).symm
  · intro n hn
    rw [hsome n n (cfg.get ⟨n, hn⟩) (List.getElem?_eq_getElem hn)]
    rfl

theorem InOrder.start {cfg : List ModuleSpec} (hcopy : ∀ spec ∈ cfg, spec.name = "copy")
    (order : Nat → List (Nat × Int) → List (Nat × Int)) (workers : Nat) :
    InOrder cfg.length (Pool.start (copyChain cfg order) workers) := by
  refine ⟨Pool.Exclusive.start _ _, copyChain_straight hcopy order, ?_, ?_⟩
  · simp [Pool.start, Pool.net]
  · intro d
    have hempty : ∀ l, inTransit copied ((Pool.start (copyChain cfg order) workers).net.stages d) l =
        [] := fun l => inTransit_empty (fun _ _ => rfl) (fun _ _ => rfl)
    rw [hempty]
    rfl

/-- The packets pushed in a direction leave the chain in the order of the calls, for any
number of workers, when `nogap_mutex_` goes to the worker that dequeued first. -/
theorem exits_in_push_order {cfg : List ModuleSpec} (hcopy : ∀ spec ∈ cfg, spec.name = "copy")
    (order : Nat → List (Nat × Int) → List (Nat × Int)) (workers : Nat) {ls : List Action}
    {s : Pool CopyContext}
    (hok : Meets (Pool.step copyProcess) Pool.FirstCome
      (Pool.start (copyChain cfg order) workers) ls)
    (hrun : run (Pool.step copyProcess) (Pool.start (copyChain cfg order) workers) ls = some s)
    (d : Dir) :
    exits s.wire d <+: accepted cfg.length s.pushed d ∧
      (s.Drained → exits s.wire d = accepted cfg.length s.pushed d) := by
  have hinv : InOrder cfg.length s := by
    refine invariant_of_meets ?_ (InOrder.start hcopy order workers) hok hrun
    intro s a s' h hf hs
    exact h.step hf hs
  have hflow := hinv.flows.flow d
  refine ⟨⟨_, hflow⟩, fun hdrained => ?_⟩
  have hempty : inTransit copied (s.net.stages d) (travel cfg.length d) = [] := by
    apply inTransit_empty
    · intro m _
      simp [Net.stages, (Pool.net_empty_of_drained hdrained (m, d)).1]
    · intro m _
      simp [Net.stages, (Pool.net_empty_of_drained hdrained (m, d)).2]
  rw [← hflow, hempty, List.append_nil]
  rfl

/-- Two packets on two workers through two modules. -/
theorem exits_in_push_order_two :
    ∃ s ∈ run (Pool.step copyProcess)
      (Pool.start (copyChain [⟨"copy", ""⟩, ⟨"copy", "m:c"⟩] fun _ l => l) 2)
      [.push 0 .encode [1], .push 0 .encode [2], .dequeue, .dequeue, .lockNogap 0, .lockDir 0,
        .unlockNogap 0 id, .lockNogap 0, .write 0, .finish 0, .dequeue, .lockDir 0],
    exits s.wire .encode <+: [[1], [2]] := by
  have hstate : ∃ s ∈ run (Pool.step copyProcess)
      (Pool.start (copyChain [⟨"copy", ""⟩, ⟨"copy", "m:c"⟩] fun _ l => l) 2)
      [.push 0 .encode [1], .push 0 .encode [2], .dequeue, .dequeue, .lockNogap 0, .lockDir 0,
        .unlockNogap 0 id, .lockNogap 0, .write 0, .finish 0, .dequeue, .lockDir 0],
      accepted 2 s.pushed .encode = [[1], [2]] := by decide
  obtain ⟨s, hs, hacc⟩ := hstate
  exact ⟨s, hs, hacc ▸ (exits_in_push_order (by decide) (fun _ l => l) 2 (by decide) hs .encode).1⟩

/-- One copy module and two workers: the second worker locks `nogap_mutex_` first, and
the second packet is out before the first. -/
theorem exits_overtake :
    ¬∀ cfg : List ModuleSpec, (∀ spec ∈ cfg, spec.name = "copy") → ∀ workers, 1 ≤ workers →
      ∀ ls s, run (Pool.step copyProcess) (Pool.start (copyChain cfg fun _ l => l) workers) ls =
        some s → exits s.wire .encode <+: accepted cfg.length s.pushed .encode := by
  intro h
  have hstate : ∃ s ∈ run (Pool.step copyProcess)
      (Pool.start (copyChain [⟨"copy", ""⟩] fun _ l => l) 2)
      [.push 0 .encode [1], .push 0 .encode [2], .dequeue, .dequeue, .lockNogap 1, .lockDir 0,
        .unlockNogap 0 id, .write 0],
      exits s.wire .encode = [[2]] ∧ accepted 1 s.pushed .encode = [[1], [2]] := by decide
  obtain ⟨s, hs, hexits, hacc⟩ := hstate
  have horder := h _ (by decide) 2 (by decide) _ s hs
  simp only [List.length_singleton, hexits, hacc] at horder
  exact absurd horder (by decide)

end PipelineTunnel.Pipeline
