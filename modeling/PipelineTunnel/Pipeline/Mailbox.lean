import PipelineTunnel.Lib.FifoLine
import PipelineTunnel.Pipeline.Pool

/-!
# The pool as a net of mailboxes

The purpose of the two mutexes is that every module sees its packets in each direction
one at a time and in the order they were sent to it. In these terms a chain is a net:
for each module and direction an inbox of packets and an outbox of writes, handled one
after the other. `Pool.net_work` shows that the steps of the workers, whatever their
number and interleaving, are steps of the net or invisible there, as long as
`nogap_mutex_` is taken in the order of `FirstCome`. A pool of one worker always is.
-/

namespace PipelineTunnel.Pipeline

open StepSystem

variable {σ : Type*} {process : Process σ}

/-- A chain with a mailbox for each module and direction. An inbox holds the port index
and the bytes of the packets, an outbox also the output they are written to. -/
@[ext]
structure Net (σ : Type*) where
  chain : Chain σ
  inbox : Nat × Dir → List (Int × Bytes)
  outbox : Nat × Dir → List (Int × Int × Bytes)
  wire : List (Int × Bytes)

/-- A packet is put into an inbox. -/
def Net.enqueue (n : Net σ) (k : Nat × Dir) (w : Int × Bytes) : Net σ :=
  { n with inbox := Function.update n.inbox k (n.inbox k ++ [w]) }

@[simp] theorem Net.enqueue_chain (n : Net σ) (k : Nat × Dir) (w : Int × Bytes) :
    (n.enqueue k w).chain = n.chain := rfl

@[simp] theorem Net.enqueue_wire (n : Net σ) (k : Nat × Dir) (w : Int × Bytes) :
    (n.enqueue k w).wire = n.wire := rfl

/-- A step inside the net. -/
inductive Net.Work (process : Process σ) (n : Net σ) : Net σ → Prop
  | handle {m : Nat} {d : Dir} {src : Int} {data : Bytes} {rest : List (Int × Bytes)}
      {mod : Module σ} {rand : Nat → Nat} {ctx : σ} {out : List (Int × Bytes)}
      (hin : n.inbox (m, d) = (src, data) :: rest) (hout : n.outbox (m, d) = [])
      (hmod : n.chain.modules[m]? = some mod)
      (hproc : process rand mod.ctx d src data = some (ctx, out)) :
      Work process n
        { n with
          chain := n.chain.setCtx m ctx
          inbox := Function.update n.inbox (m, d) rest
          outbox := Function.update n.outbox (m, d) (out.map fun w => (src, w)) }
  | forward {m q : Nat} {d d' : Dir} {src dst : Int} {data : Bytes}
      {rest : List (Int × Int × Bytes)} {mod : Module σ}
      (hout : n.outbox (m, d) = (src, dst, data) :: rest)
      (hmod : n.chain.modules[m]? = some mod) (hhop : writePacket mod dst = .toModule q d') :
      Work process n
        { n with
          inbox := Function.update n.inbox (q, d') (n.inbox (q, d') ++ [(src, data)])
          outbox := Function.update n.outbox (m, d) rest }
  | exit {m : Nat} {d : Dir} {src dst p : Int} {data : Bytes}
      {rest : List (Int × Int × Bytes)} {mod : Module σ}
      (hout : n.outbox (m, d) = (src, dst, data) :: rest)
      (hmod : n.chain.modules[m]? = some mod) (hhop : writePacket mod dst = .toWire p) :
      Work process n
        { n with
          outbox := Function.update n.outbox (m, d) rest
          wire := n.wire ++ [(p, data)] }

/-! ### One direction -/

namespace Net

/-- The mailboxes of one direction, without the port indices and outputs. -/
def stages (n : Net σ) (d : Dir) : FifoLine.Stages Nat Bytes where
  inbox m := (n.inbox (m, d)).map Prod.snd
  outbox m := (n.outbox (m, d)).map fun w => w.2.2

variable {n : Net σ} {m : Nat} {d d' : Dir}

theorem map_update {β γ : Type*} (g : List β → List γ) (h : Nat × Dir → List β) (m : Nat)
    (d : Dir) (b : List β) (d' : Dir) :
    (fun i => g (Function.update h (m, d') b (i, d))) =
      if d' = d then Function.update (fun i => g (h (i, d))) m (g b)
      else fun i => g (h (i, d)) := by
  funext i
  by_cases hd : d' = d
  · subst hd
    by_cases hi : i = m
    · subst hi
      simp
    · have hne : (i, d') ≠ (m, d') := fun heq => hi (congrArg Prod.fst heq)
      simp [Function.update_of_ne hne, Function.update_of_ne hi]
  · have hne : (i, d) ≠ (m, d') := fun heq => hd (congrArg Prod.snd heq).symm
    simp [hd, Function.update_of_ne hne]

/-- Handling a packet of one direction, seen in each direction. -/
theorem stages_handle (c : Chain σ) (wire : List (Int × Bytes)) (rest : List (Int × Bytes))
    (out : List (Int × Int × Bytes)) :
    ({ chain := c, wire := wire
       inbox := Function.update n.inbox (m, d') rest
       outbox := Function.update n.outbox (m, d') out } : Net σ).stages d =
      if d' = d then (n.stages d).handle m (rest.map Prod.snd) (out.map fun w => w.2.2)
      else n.stages d := by
  have hin := map_update (fun l => l.map Prod.snd) n.inbox m d rest d'
  have hout := map_update (fun l => l.map fun w => w.2.2) n.outbox m d out d'
  by_cases hd : d' = d
  · rw [if_pos hd] at hin hout ⊢
    exact FifoLine.Stages.ext hin hout
  · rw [if_neg hd] at hin hout ⊢
    exact FifoLine.Stages.ext hin hout

theorem stages_post (c : Chain σ) (wire : List (Int × Bytes)) (x : Int × Bytes) :
    ({ chain := c, wire := wire, outbox := n.outbox
       inbox := Function.update n.inbox (m, d') (n.inbox (m, d') ++ [x]) } : Net σ).stages d =
      if d' = d then (n.stages d).post m x.2 else n.stages d := by
  have hin := map_update (fun l => l.map Prod.snd) n.inbox m d (n.inbox (m, d') ++ [x]) d'
  by_cases hd : d' = d
  · subst hd
    rw [if_pos rfl, List.map_append] at hin
    rw [if_pos rfl]
    exact FifoLine.Stages.ext hin rfl
  · rw [if_neg hd] at hin ⊢
    exact FifoLine.Stages.ext hin rfl

theorem stages_setOutbox (c : Chain σ) (wire : List (Int × Bytes))
    (rest : List (Int × Int × Bytes)) :
    ({ chain := c, wire := wire, inbox := n.inbox
       outbox := Function.update n.outbox (m, d') rest } : Net σ).stages d =
      if d' = d then (n.stages d).setOutbox m (rest.map fun w => w.2.2) else n.stages d := by
  have hout := map_update (fun l => l.map fun w => w.2.2) n.outbox m d rest d'
  by_cases hd : d' = d
  · rw [if_pos hd] at hout ⊢
    exact FifoLine.Stages.ext rfl hout
  · rw [if_neg hd] at hout ⊢
    exact FifoLine.Stages.ext rfl hout

end Net

namespace Pool

/-- The tasks no worker has begun to process, the next one of each module first. -/
def pending (s : Pool σ) : List Task := s.entered ++ s.gated ++ s.waiting ++ s.queue

def net (s : Pool σ) : Net σ where
  chain := s.chain
  inbox k := (s.pending.filter (·.key = k)).map fun t => (t.src, t.data)
  outbox k := (s.running.filter (·.task.key = k)).flatMap fun c => c.out.map fun w => (c.task.src, w)
  wire := s.wire

/-- What the mutexes exclude: two holders of `nogap_mutex_[dir]`, two holders of one
`dir_mutex[dir]`. -/
structure Exclusive (s : Pool σ) : Prop where
  nogap : ((s.gated ++ s.entered).map Task.dir).Nodup
  dir : ((s.entered ++ s.running.map Call.task).map Task.key).Nodup

theorem Exclusive.start (c : Chain σ) (workers : Nat) : (start c workers).Exclusive where
  nogap := by simp [Pool.start]
  dir := by simp [Pool.start]

/-! ### The steps of a worker -/

variable {s s' : Pool σ}

theorem dequeue_inv (h : s.step process .dequeue = some s') :
    ∃ t queue, s.queue = t :: queue ∧ s.busy < s.workers ∧
      s' = { s with queue := queue, waiting := s.waiting ++ [t] } := by
  simp only [step] at h
  cases hq : s.queue with
  | nil => simp [hq] at h
  | cons t queue =>
      simp only [hq] at h
      split at h
      · exact ⟨t, queue, rfl, ‹_›, (Option.some.inj h).symm⟩
      · cases h

theorem lockNogap_inv {i : Nat} (h : s.step process (.lockNogap i) = some s') :
    ∃ before t after, s.waiting = before ++ t :: after ∧ s.NogapFree t.dir ∧
      (s.FirstCome (.lockNogap i) → ∀ u ∈ before, u.key ≠ t.key) ∧
      s' = { s with waiting := before ++ after, gated := s.gated ++ [t] } := by
  simp only [step] at h
  cases ht : s.waiting[i]? with
  | none => simp [ht] at h
  | some t =>
      obtain ⟨before, after, heq, herase, -, htake⟩ := split_at ht
      simp only [ht, herase] at h
      split at h
      · refine ⟨before, t, after, heq, ‹_›, fun hf => ?_, (Option.some.inj h).symm⟩
        exact htake ▸ hf t (by simp [ht])
      · cases h

theorem lockDir_inv {i : Nat} (h : s.step process (.lockDir i) = some s') :
    ∃ before t after, s.gated = before ++ t :: after ∧ s.DirFree t.key ∧
      s' = { s with gated := before ++ after, entered := s.entered ++ [t] } := by
  simp only [step] at h
  cases ht : s.gated[i]? with
  | none => simp [ht] at h
  | some t =>
      obtain ⟨before, after, heq, herase, -, -⟩ := split_at ht
      simp only [ht, herase] at h
      split at h
      · exact ⟨before, t, after, heq, ‹_›, (Option.some.inj h).symm⟩
      · cases h

theorem unlockNogap_inv {i : Nat} {rand : Nat → Nat}
    (h : s.step process (.unlockNogap i rand) = some s') :
    ∃ before t after m ctx out, s.entered = before ++ t :: after ∧
      s.chain.modules[t.mod]? = some m ∧
      process rand m.ctx t.dir t.src t.data = some (ctx, out) ∧
      s' = { s with
        chain := s.chain.setCtx t.mod ctx
        entered := before ++ after
        running := s.running ++ [⟨t, out⟩] } := by
  simp only [step] at h
  cases ht : s.entered[i]? with
  | none => simp [ht] at h
  | some t =>
      obtain ⟨before, after, heq, herase, -, -⟩ := split_at ht
      simp only [ht, herase] at h
      cases hm : s.chain.modules[t.mod]? with
      | none => simp [hm] at h
      | some m =>
          simp only [hm] at h
          cases hp : process rand m.ctx t.dir t.src t.data with
          | none => simp [hp] at h
          | some r =>
              simp only [hp] at h
              exact ⟨before, t, after, m, r.1, r.2, heq, hm, hp, (Option.some.inj h).symm⟩

theorem write_inv {i : Nat} (h : s.step process (.write i) = some s') :
    ∃ before t dst data out after m, s.running = before ++ ⟨t, (dst, data) :: out⟩ :: after ∧
      s.chain.modules[t.mod]? = some m ∧
      ((∃ q d, writePacket m dst = .toModule q d ∧
          s' = { s with
            running := before ++ ⟨t, out⟩ :: after
            queue := s.queue ++ [⟨q, d, t.src, data⟩] }) ∨
        ∃ p, writePacket m dst = .toWire p ∧
          s' = { s with
            running := before ++ ⟨t, out⟩ :: after
            wire := s.wire ++ [(p, data)] }) := by
  simp only [step] at h
  split at h
  · rename_i t dst data out ht
    obtain ⟨before, after, heq, -, hset, -⟩ := split_at ht
    simp only [writeOut, hset] at h
    cases hm : s.chain.modules[t.mod]? with
    | none => simp [hm] at h
    | some m =>
        refine ⟨before, t, dst, data, out, after, m, heq, hm, ?_⟩
        simp only [hm] at h
        cases hw : writePacket m dst with
        | toModule q d =>
            simp only [hw] at h
            exact .inl ⟨q, d, rfl, (Option.some.inj h).symm⟩
        | toWire p =>
            simp only [hw] at h
            exact .inr ⟨p, rfl, (Option.some.inj h).symm⟩
  · cases h

theorem finish_inv {i : Nat} (h : s.step process (.finish i) = some s') :
    ∃ before t after, s.running = before ++ ⟨t, []⟩ :: after ∧
      s' = { s with running := before ++ after } := by
  simp only [step] at h
  split at h
  · rename_i t ht
    obtain ⟨before, after, heq, herase, -, -⟩ := split_at ht
    exact ⟨before, t, after, heq, by rw [← herase]; exact (Option.some.inj h).symm⟩
  · cases h

theorem push_inv {src : Int} {dir : Dir} {data : Bytes}
    (h : s.step process (.push src dir data) = some s') :
    let i : Input := ⟨src, dir, data⟩
    (pushPacket s.chain false true src dir = .dropped ∧
        s' = { s with pushed := s.pushed ++ [i] }) ∨
      (∃ dst, pushPacket s.chain false true src dir = .passThrough dst ∧
        s' = { s with pushed := s.pushed ++ [i], wire := s.wire ++ [(dst, data)] }) ∨
      ∃ m, pushPacket s.chain false true src dir = .enqueued m ∧
        s' = { s with pushed := s.pushed ++ [i], queue := s.queue ++ [⟨m, dir, src, data⟩] } := by
  simp only [step, push] at h
  cases hp : pushPacket s.chain false true src dir with
  | dropped =>
      simp only [hp] at h
      exact .inl ⟨rfl, (Option.some.inj h).symm⟩
  | passThrough dst =>
      simp only [hp] at h
      exact .inr (.inl ⟨dst, rfl, (Option.some.inj h).symm⟩)
  | enqueued m =>
      simp only [hp] at h
      exact .inr (.inr ⟨m, rfl, (Option.some.inj h).symm⟩)
  | null => simp [hp] at h

/-! ### Mutual exclusion -/

theorem nodup_map_append_middle {α β : Type*} [DecidableEq α] (f : α → β) {l before after : List α}
    {a : α} : ((before ++ after ++ (l ++ [a])).map f).Nodup ↔
      ((before ++ a :: after ++ l).map f).Nodup := by
  apply (List.Perm.map f _).nodup_iff
  rw [List.perm_iff_count]
  intro b
  simp only [List.count_append, List.count_cons, List.count_nil]
  omega

theorem Exclusive.step {a : Action} (h : s.Exclusive) (hs : s.step process a = some s') :
    s'.Exclusive := by
  cases a with
  | push src dir data =>
      rcases push_inv hs with ⟨-, rfl⟩ | ⟨-, -, rfl⟩ | ⟨-, -, rfl⟩
      all_goals exact ⟨h.nogap, h.dir⟩
  | dequeue =>
      obtain ⟨-, -, -, -, rfl⟩ := dequeue_inv hs
      exact ⟨h.nogap, h.dir⟩
  | lockNogap i =>
      obtain ⟨before, t, after, -, hfree, -, rfl⟩ := lockNogap_inv hs
      refine ⟨?_, h.dir⟩
      have hfresh : t.dir ∉ (s.gated ++ s.entered).map Task.dir := by
        simp only [List.mem_map, not_exists, not_and]
        exact hfree
      have hcons := List.nodup_cons.mpr ⟨hfresh, h.nogap⟩
      simpa [List.nodup_middle] using hcons
  | lockDir i =>
      obtain ⟨before, t, after, hg, hfree, rfl⟩ := lockDir_inv hs
      refine ⟨?_, ?_⟩
      · have hn := h.nogap
        rw [hg] at hn
        exact (nodup_map_append_middle Task.dir).mpr hn
      · have hfresh : t.key ∉ (s.entered ++ s.running.map Call.task).map Task.key := by
          simp only [List.mem_map, not_exists, not_and]
          exact hfree
        have hcons := List.nodup_cons.mpr ⟨hfresh, h.dir⟩
        simpa [List.nodup_middle] using hcons
  | unlockNogap i rand =>
      obtain ⟨before, t, after, m, ctx, out, he, -, -, rfl⟩ := unlockNogap_inv hs
      have hn := h.nogap
      have hd := h.dir
      rw [he] at hn hd
      refine ⟨?_, ?_⟩
      · exact hn.sublist (((List.sublist_cons_self t after).append_left before |>.append_left
          s.gated).map Task.dir)
      · rw [← nodup_map_append_middle] at hd
        simpa using hd
  | write i =>
      obtain ⟨before, t, dst, data, out, after, m, hr, -, ⟨q, d, -, rfl⟩ | ⟨p, -, rfl⟩⟩ :=
        write_inv hs
      all_goals
        refine ⟨h.nogap, ?_⟩
        simpa [hr] using h.dir
  | finish i =>
      obtain ⟨before, t, after, hr, rfl⟩ := finish_inv hs
      refine ⟨h.nogap, ?_⟩
      have hd := h.dir
      rw [hr] at hd
      exact hd.sublist ((((List.sublist_cons_self _ after).append_left before).map
        Call.task |>.append_left s.entered).map Task.key)

/-! ### The simulation -/

theorem filter_key_swap {before : List Task} {t : Task} (h : ∀ u ∈ before, u.key ≠ t.key)
    (k : Nat × Dir) :
    (before ++ [t]).filter (·.key = k) = (t :: before).filter (·.key = k) := by
  by_cases hk : t.key = k
  · have hnil : before.filter (·.key = k) = [] := by
      rw [List.filter_eq_nil_iff]
      exact fun u hu => by simpa [← hk] using h u hu
    simp [hk, hnil]
  · simp [hk]

/-- A task may move to the front past tasks with other keys. -/
theorem filter_key_move {before : List Task} {t : Task} (h : ∀ u ∈ before, u.key ≠ t.key)
    (front after : List Task) (k : Nat × Dir) :
    (front ++ (before ++ t :: after)).filter (·.key = k) =
      (front ++ (t :: (before ++ after))).filter (·.key = k) := by
  have hsplit : before ++ t :: after = (before ++ [t]) ++ after := by simp
  rw [hsplit, List.filter_append, List.filter_append, filter_key_swap h, ← List.filter_append,
    ← List.filter_append, List.cons_append]

theorem Exclusive.gated_key (h : s.Exclusive) {before after : List Task} {t : Task}
    (hg : s.gated = before ++ t :: after) : ∀ u ∈ before, u.key ≠ t.key := by
  intro u hu heq
  have hn := h.nogap
  rw [hg, List.map_append, List.map_append, List.nodup_append, List.nodup_append] at hn
  exact hn.1.2.2 u.dir (List.mem_map_of_mem hu) t.dir (by simp) (congrArg Prod.snd heq)

theorem Exclusive.entered_key (h : s.Exclusive) {before after : List Task} {t : Task}
    (he : s.entered = before ++ t :: after) :
    (∀ u ∈ before ++ after, u.key ≠ t.key) ∧ ∀ c ∈ s.running, c.task.key ≠ t.key := by
  have hd := h.dir
  rw [he, ← nodup_map_append_middle, List.map_append, List.nodup_append] at hd
  have hmem : t.key ∈ (s.running.map Call.task ++ [t]).map Task.key := by simp
  refine ⟨fun u hu heq => hd.2.2 u.key (List.mem_map_of_mem hu) t.key hmem heq, ?_⟩
  intro c hc heq
  have hr := hd.2.1
  rw [List.map_append, List.nodup_append] at hr
  exact hr.2.2 c.task.key (by simpa using ⟨c, hc, rfl⟩) t.key (by simp) heq

theorem Exclusive.running_key (h : s.Exclusive) {before after : List Call} {c : Call}
    (hr : s.running = before ++ c :: after) :
    ∀ e ∈ before ++ after, e.task.key ≠ c.task.key := by
  have hd := h.dir
  rw [List.map_append, List.nodup_append] at hd
  have hn := hd.2.1
  rw [hr, List.map_append, List.map_append, List.map_cons, List.map_cons,
    List.nodup_middle, List.nodup_cons] at hn
  intro e he heq
  apply hn.1
  rw [← heq, ← List.map_append, ← List.map_append]
  exact List.mem_map_of_mem (List.mem_map_of_mem he)

theorem net_lockNogap {i : Nat} (hf : s.FirstCome (.lockNogap i))
    (hs : s.step process (.lockNogap i) = some s') : s'.net = s.net := by
  obtain ⟨before, t, after, hw, -, hfirst, rfl⟩ := lockNogap_inv hs
  refine Net.ext rfl ?_ rfl rfl
  funext k
  have hmove := filter_key_move (hfirst hf) (s.entered ++ s.gated) (after ++ s.queue) k
  simp only [net, pending, hw]
  simp only [List.append_assoc, List.cons_append, List.nil_append] at hmove ⊢
  rw [hmove]

theorem net_lockDir {i : Nat} (h : s.Exclusive) (hs : s.step process (.lockDir i) = some s') :
    s'.net = s.net := by
  obtain ⟨before, t, after, hg, -, rfl⟩ := lockDir_inv hs
  refine Net.ext rfl ?_ rfl rfl
  funext k
  have hmove := filter_key_move (h.gated_key hg) s.entered (after ++ s.waiting ++ s.queue) k
  simp only [net, pending, hg]
  simp only [List.append_assoc, List.cons_append, List.nil_append] at hmove ⊢
  rw [hmove]

theorem net_unlockNogap {i : Nat} {rand : Nat → Nat} (h : s.Exclusive)
    (hs : s.step process (.unlockNogap i rand) = some s') : Net.Work process s.net s'.net := by
  obtain ⟨before, t, after, m, ctx, out, he, hm, hp, rfl⟩ := unlockNogap_inv hs
  obtain ⟨hkey, hrun⟩ := h.entered_key he
  have hbefore : ∀ u ∈ before, u.key ≠ t.key := fun u hu => hkey u (List.mem_append_left _ hu)
  have hinbox : ∀ k, s.net.inbox k =
      ((t :: ((before ++ after) ++ s.gated ++ s.waiting ++ s.queue)).filter
        (·.key = k)).map fun t => (t.src, t.data) := by
    intro k
    have hmove := filter_key_move hbefore [] (after ++ s.gated ++ s.waiting ++ s.queue) k
    simp only [net, pending, he]
    simp only [List.append_assoc, List.cons_append, List.nil_append] at hmove ⊢
    rw [hmove]
  have hnil : s.running.filter (·.task.key = t.key) = [] := by
    rw [List.filter_eq_nil_iff]
    exact fun c hc => by simpa using hrun c hc
  have hout : s.net.outbox t.key = [] := by simp [net, hnil]
  have hhead := hinbox t.key
  rw [List.filter_cons_of_pos (by simp), List.map_cons] at hhead
  convert Net.Work.handle (n := s.net) hhead hout hm hp using 1
  refine Net.ext rfl ?_ ?_ rfl
  · funext k
    show _ = Function.update s.net.inbox t.key _ k
    rw [Function.update_apply]
    by_cases hk : k = t.key
    · subst hk
      simp [net, pending]
    · have hk' : t.key ≠ k := fun heq => hk heq.symm
      rw [if_neg hk, hinbox k]
      simp [net, pending, hk']
  · funext k
    show _ = Function.update s.net.outbox t.key _ k
    rw [Function.update_apply]
    by_cases hk : k = t.key
    · subst hk
      simp [net, hnil]
    · have hk' : t.key ≠ k := fun heq => hk heq.symm
      simp [net, hk, hk']

theorem net_write {i : Nat} (h : s.Exclusive) (hs : s.step process (.write i) = some s') :
    Net.Work process s.net s'.net := by
  obtain ⟨before, t, dst, data, out, after, m, hr, hm, hcase⟩ := write_inv hs
  have hkey := h.running_key hr
  have houtbox : ∀ k (c : List (Int × Bytes)),
      ((before ++ ⟨t, c⟩ :: after).filter (·.task.key = k)).flatMap
          (fun c => c.out.map fun w => (c.task.src, w)) =
        if k = t.key then c.map fun w => (t.src, w)
        else ((before ++ after).filter (·.task.key = k)).flatMap
          (fun c => c.out.map fun w => (c.task.src, w)) := by
    intro k c
    by_cases hk : k = t.key
    · subst hk
      have hnil : ∀ l : List Call, (∀ e ∈ l, e ∈ before ++ after) →
          l.filter (·.task.key = t.key) = [] := by
        intro l hl
        rw [List.filter_eq_nil_iff]
        exact fun e he => by simpa using hkey e (hl e he)
      rw [List.filter_append, List.filter_cons_of_pos (by simp), if_pos rfl,
        hnil before (fun e he => List.mem_append_left _ he),
        hnil after (fun e he => List.mem_append_right _ he)]
      simp
    · have hk' : t.key ≠ k := fun heq => hk heq.symm
      simp [hk, hk']
  have hhead : s.net.outbox t.key = (t.src, dst, data) :: out.map fun w => (t.src, w) := by
    simp only [net, hr]
    rw [houtbox, if_pos rfl]
    rfl
  have hupdate : ∀ k, ((before ++ ⟨t, out⟩ :: after).filter (·.task.key = k)).flatMap
      (fun c => c.out.map fun w => (c.task.src, w)) =
        Function.update s.net.outbox t.key (out.map fun w => (t.src, w)) k := by
    intro k
    rw [houtbox, Function.update_apply]
    by_cases hk : k = t.key
    · rw [if_pos hk, if_pos hk]
    · rw [if_neg hk, if_neg hk]
      simp only [net, hr]
      rw [houtbox, if_neg hk]
  rcases hcase with ⟨q, d, hhop, rfl⟩ | ⟨p, hhop, rfl⟩
  · convert Net.Work.forward (n := s.net) hhead hm hhop using 1
    refine Net.ext rfl ?_ (funext hupdate) rfl
    funext k
    simp only [Function.update_apply]
    by_cases hk : k = (q, d)
    · subst hk
      simp [net, pending, Task.key]
    · have hk' : (q, d) ≠ k := fun heq => hk heq.symm
      simp [net, pending, Task.key, hk, hk']
  · convert Net.Work.exit (n := s.net) hhead hm hhop using 1
    exact Net.ext rfl rfl (funext hupdate) rfl

/-- The steps of the workers are invisible in the net or steps of the net. -/
theorem net_work {a : Action} (h : s.Exclusive) (hf : s.FirstCome a)
    (hpush : ∀ src dir data, a ≠ .push src dir data) (hs : s.step process a = some s') :
    s'.net = s.net ∨ Net.Work process s.net s'.net := by
  cases a with
  | push src dir data => exact absurd rfl (hpush src dir data)
  | dequeue =>
      obtain ⟨t, queue, hq, -, rfl⟩ := dequeue_inv hs
      left
      simp [net, pending, hq]
  | lockNogap i => exact .inl (net_lockNogap hf hs)
  | lockDir i => exact .inl (net_lockDir h hs)
  | unlockNogap i rand => exact .inr (net_unlockNogap h hs)
  | write i => exact .inr (net_write h hs)
  | finish i =>
      obtain ⟨before, t, after, hr, rfl⟩ := finish_inv hs
      left
      refine Net.ext rfl rfl ?_ rfl
      funext k
      by_cases hk : t.key = k <;> simp [net, hr, hk]

/-- Only `push_packet` calls are logged in `pushed`. -/
theorem pushed_eq {a : Action} (hpush : ∀ src dir data, a ≠ .push src dir data)
    (hs : s.step process a = some s') : s'.pushed = s.pushed := by
  cases a with
  | push src dir data => exact absurd rfl (hpush src dir data)
  | dequeue =>
      obtain ⟨-, -, -, -, rfl⟩ := dequeue_inv hs
      rfl
  | lockNogap i =>
      obtain ⟨-, -, -, -, -, -, rfl⟩ := lockNogap_inv hs
      rfl
  | lockDir i =>
      obtain ⟨-, -, -, -, -, rfl⟩ := lockDir_inv hs
      rfl
  | unlockNogap i rand =>
      obtain ⟨-, -, -, -, -, -, -, -, -, rfl⟩ := unlockNogap_inv hs
      rfl
  | write i =>
      obtain ⟨-, -, -, -, -, -, -, -, -, ⟨-, -, -, rfl⟩ | ⟨-, -, rfl⟩⟩ := write_inv hs
      all_goals rfl
  | finish i =>
      obtain ⟨-, -, -, -, rfl⟩ := finish_inv hs
      rfl

/-- A task appended to the queue comes last in its inbox. -/
theorem inbox_enqueue (t : Task) :
    ({ s with queue := s.queue ++ [t] } : Pool σ).net.inbox =
      Function.update s.net.inbox t.key (s.net.inbox t.key ++ [(t.src, t.data)]) := by
  funext k
  rw [Function.update_apply]
  by_cases hk : k = t.key
  · subst hk
    simp [net, pending]
  · have hk' : t.key ≠ k := fun heq => hk heq.symm
    simp [net, pending, hk, hk']

/-- What a `push_packet` call that enqueues a task does to the net. -/
theorem net_enqueue (pushed : List Input) (m : Nat) (d : Dir) (src : Int) (data : Bytes) :
    ({ s with pushed := pushed, queue := s.queue ++ [⟨m, d, src, data⟩] } : Pool σ).net =
      s.net.enqueue (m, d) (src, data) :=
  Net.ext rfl (inbox_enqueue ⟨m, d, src, data⟩) rfl rfl

theorem net_empty_of_drained (h : s.Drained) (k : Nat × Dir) :
    s.net.inbox k = [] ∧ s.net.outbox k = [] := by
  obtain ⟨hq, hb⟩ := h
  simp only [busy] at hb
  have hw : s.waiting = [] := List.eq_nil_of_length_eq_zero (by omega)
  have hg : s.gated = [] := List.eq_nil_of_length_eq_zero (by omega)
  have he : s.entered = [] := List.eq_nil_of_length_eq_zero (by omega)
  have hr : s.running = [] := List.eq_nil_of_length_eq_zero (by omega)
  simp [net, pending, hq, hw, hg, he, hr]

/-! ### One worker -/

/-- A pool of one worker. -/
structure Single (s : Pool σ) : Prop where
  exclusive : s.Exclusive
  workers : s.workers = 1
  busy : s.busy ≤ 1

theorem Single.start (c : Chain σ) : (Pool.start c 1).Single where
  exclusive := Exclusive.start c 1
  workers := rfl
  busy := Nat.zero_le 1

theorem Single.step {a : Action} (h : s.Single) (hs : s.step process a = some s') :
    s'.Single := by
  have hexclusive := h.exclusive.step hs
  have hworkers := h.workers
  have hbusy := h.busy
  simp only [Pool.busy] at hbusy
  cases a with
  | push src dir data =>
      rcases push_inv hs with ⟨-, rfl⟩ | ⟨dst, -, rfl⟩ | ⟨m, -, rfl⟩
      all_goals exact ⟨hexclusive, hworkers, h.busy⟩
  | dequeue =>
      obtain ⟨t, queue, -, hlt, rfl⟩ := dequeue_inv hs
      refine ⟨hexclusive, hworkers, ?_⟩
      simp only [Pool.busy, List.length_append, List.length_singleton] at hlt ⊢
      omega
  | lockNogap i =>
      obtain ⟨before, t, after, hw, -, -, rfl⟩ := lockNogap_inv hs
      refine ⟨hexclusive, hworkers, ?_⟩
      rw [hw] at hbusy
      simp only [Pool.busy, List.length_append, List.length_cons, List.length_nil] at hbusy ⊢
      omega
  | lockDir i =>
      obtain ⟨before, t, after, hg, -, rfl⟩ := lockDir_inv hs
      refine ⟨hexclusive, hworkers, ?_⟩
      rw [hg] at hbusy
      simp only [Pool.busy, List.length_append, List.length_cons, List.length_nil] at hbusy ⊢
      omega
  | unlockNogap i rand =>
      obtain ⟨before, t, after, m, ctx, out, he, -, -, rfl⟩ := unlockNogap_inv hs
      refine ⟨hexclusive, hworkers, ?_⟩
      rw [he] at hbusy
      simp only [Pool.busy, List.length_append, List.length_cons, List.length_nil] at hbusy ⊢
      omega
  | write i =>
      obtain ⟨before, t, dst, data, out, after, m, hr, -, hcase⟩ := write_inv hs
      have hlen := congrArg List.length hr
      rw [List.length_append, List.length_cons] at hlen
      rcases hcase with ⟨q, d, -, rfl⟩ | ⟨p, -, rfl⟩
      all_goals
        refine ⟨hexclusive, hworkers, ?_⟩
        simp only [Pool.busy, List.length_append, List.length_cons]
        omega
  | finish i =>
      obtain ⟨before, t, after, hr, rfl⟩ := finish_inv hs
      refine ⟨hexclusive, hworkers, ?_⟩
      rw [hr] at hbusy
      simp only [Pool.busy, List.length_append, List.length_cons] at hbusy ⊢
      omega

/-- One worker cannot overtake itself. -/
theorem Single.firstCome (h : s.Single) (a : Action) : s.FirstCome a := by
  cases a with
  | lockNogap i =>
      intro t ht u hu
      have hbusy := h.busy
      simp only [Pool.busy] at hbusy
      obtain ⟨hi, -⟩ := List.getElem?_eq_some_iff.mp ht
      obtain rfl : i = 0 := by omega
      simp at hu
  | push | dequeue | lockDir | unlockNogap | write | finish => trivial

/-- The steps of one worker are invisible in the net or steps of the net. -/
theorem Single.net_work {a : Action} (h : s.Single)
    (hpush : ∀ src dir data, a ≠ .push src dir data) (hs : s.step process a = some s') :
    s'.net = s.net ∨ Net.Work process s.net s'.net :=
  Pool.net_work h.exclusive (h.firstCome a) hpush hs

/-- One worker can go on until the pool is drained, unless a call does not return. -/
theorem Single.progress (h : s.Single)
    (hprocess : ∀ t ∈ s.entered, ∃ m, s.chain.modules[t.mod]? = some m ∧
      ∃ rand, (process rand m.ctx t.dir t.src t.data).isSome)
    (hwrite : ∀ c ∈ s.running, c.out ≠ [] → (s.chain.modules[c.task.mod]?).isSome) :
    s.Drained ∨ ∃ a s', (∀ src dir data, a ≠ .push src dir data) ∧
      s.step process a = some s' := by
  have hworkers := h.workers
  have hbusy := h.busy
  simp only [Pool.busy] at hbusy
  cases hr : s.running with
  | cons c rest =>
      right
      obtain ⟨t, out⟩ := c
      cases out with
      | nil => exact ⟨.finish 0, _, nofun, by simp only [Pool.step, hr]; rfl⟩
      | cons w out =>
          obtain ⟨dst, data⟩ := w
          obtain ⟨m, hm⟩ := Option.isSome_iff_exists.mp
            (hwrite ⟨t, (dst, data) :: out⟩ (by simp [hr]) (by simp))
          simp only at hm
          have hstep : s.step process (.write 0) =
              { s with running := ⟨t, out⟩ :: rest }.writeOut t dst data := by
            simp only [Pool.step, hr, List.getElem?_cons_zero, List.set_cons_zero]
          rw [writeOut, hm] at hstep
          refine ⟨.write 0, ?_⟩
          cases hw : writePacket m dst with
          | toModule q d => exact ⟨_, nofun, by rw [hstep]; simp only [hw]; rfl⟩
          | toWire p => exact ⟨_, nofun, by rw [hstep]; simp only [hw]; rfl⟩
  | nil =>
      cases he : s.entered with
      | cons t rest =>
          right
          obtain ⟨m, hm, rand, hsome⟩ := hprocess t (by simp [he])
          obtain ⟨⟨ctx, out⟩, hrun⟩ := Option.isSome_iff_exists.mp hsome
          exact ⟨.unlockNogap 0 rand, _, nofun, by
            simp only [Pool.step, he, List.getElem?_cons_zero, hm, hrun]; rfl⟩
      | nil =>
          rw [hr, he] at hbusy
          simp only [List.length_nil] at hbusy
          cases hg : s.gated with
          | cons t rest =>
              right
              have hfree : s.DirFree t.key := by simp [DirFree, he, hr]
              exact ⟨.lockDir 0, _, nofun, by simp only [Pool.step, hg]; exact if_pos hfree⟩
          | nil =>
              cases hw : s.waiting with
              | cons t rest =>
                  right
                  have hfree : s.NogapFree t.dir := by simp [NogapFree, he, hg]
                  exact ⟨.lockNogap 0, _, nofun, by simp only [Pool.step, hw]; exact if_pos hfree⟩
              | nil =>
                  cases hq : s.queue with
                  | cons t rest =>
                      right
                      have hlt : s.busy < s.workers := by
                        simp [Pool.busy, hw, hg, he, hr, hworkers]
                      exact ⟨.dequeue, _, nofun, by simp only [Pool.step, hq]; exact if_pos hlt⟩
                  | nil => exact .inl ⟨hq, by simp [Pool.busy, hw, hg, he, hr]⟩

end Pool

/-! ## Lines of a chain -/

open FifoLine

/-- The output a packet that travels in a direction is written to; also the number of
the wire port that belongs to the main chain in that direction. -/
def Dir.dst : Dir → Int
  | .encode => 1
  | .decode => 0

def Chain.hop (c : Chain σ) (m : Nat) (dst : Int) : Option Hop :=
  c.modules[m]?.map fun mod => writePacket mod dst

theorem Chain.modules_setCtx (c : Chain σ) (x : Nat) (ctx : σ) (m : Nat) :
    (c.setCtx x ctx).modules[m]? =
      c.modules[m]?.map fun mod => if x = m then { mod with ctx := ctx } else mod := by
  rw [setCtx, List.getElem?_modify]
  split <;> simp

@[simp] theorem Chain.hop_setCtx (c : Chain σ) (x : Nat) (ctx : σ) (m : Nat) (dst : Int) :
    (c.setCtx x ctx).hop m dst = c.hop m dst := by
  rw [hop, hop, modules_setCtx, Option.map_map]
  congr 1
  funext mod
  simp only [Function.comp_apply]
  split <;> rfl

/-- The modules of `line` are linked one to the next in direction `d`, and the last
one leads to `last`. -/
structure Chain.Line (c : Chain σ) (d : Dir) (line : List Nat) (last : Hop) : Prop where
  nodup : line.Nodup
  next : ∀ before m q after, line = before ++ m :: q :: after →
    c.hop m d.dst = some (.toModule q d)
  last : ∀ before m, line = before ++ [m] → c.hop m d.dst = some last

theorem Chain.Line.setCtx {c : Chain σ} {d : Dir} {line : List Nat} {last : Hop}
    (h : c.Line d line last) (x : Nat) (ctx : σ) : (c.setCtx x ctx).Line d line last where
  nodup := h.nodup
  next before m q after heq := by rw [hop_setCtx, h.next before m q after heq]
  last before m heq := by rw [hop_setCtx, h.last before m heq]

/-- A module of a line passes a packet on within the line, or it is the last one and
the packet is the first on the line. -/
theorem Chain.Line.pass {c : Chain σ} {d : Dir} {line : List Nat} {last : Hop}
    (h : c.Line d line last) (f : Nat → Bytes → Option Bytes) {s : Stages Nat Bytes} {m : Nat}
    (hm : m ∈ line) {y : Bytes} {rest : List Bytes} (hout : s.outbox m = y :: rest) :
    (∃ q ∈ line, c.hop m d.dst = some (.toModule q d) ∧
      inTransit f ((s.setOutbox m rest).post q y) line = inTransit f s line) ∨
    (c.hop m d.dst = some last ∧
      inTransit f s line = y :: inTransit f (s.setOutbox m rest) line) := by
  obtain ⟨before, after, rfl⟩ := List.append_of_mem hm
  cases after with
  | nil => exact .inr ⟨h.last before m rfl, inTransit_exit h.nodup hout⟩
  | cons q after =>
      exact .inl ⟨q, by simp, h.next before m q after rfl, inTransit_forward h.nodup hout⟩

end PipelineTunnel.Pipeline
