import PipelineTunnel.Lib.StepSystem
import PipelineTunnel.Modules.Model
import Mathlib.Algebra.Order.Field.Rat

/-!
# The order of packets in the limit module

`limit.zig` with its token buckets: a packet is sent at once when its bucket has enough tokens
and queued otherwise, and the heartbeat sends from the front of the queues. The packets that
wait are not asked when a new one arrives.

## Implementation notes

Tokens are rational numbers. `clock` gives the time of each reading of `now_ns`, of which
`reads` were made. The source index of a packet plays no role for its order.
-/

namespace PipelineTunnel.Modules.Limit

open Pipeline (Dir)
open StepSystem

/-! ## Tokens -/

structure TokenBucket where
  rateBps : Nat
  tokens : ℚ
  lastNs : Int
deriving DecidableEq

namespace TokenBucket

def init (rateBps burstBytes : Nat) (now : Int) : TokenBucket := ⟨rateBps, burstBytes, now⟩

def refill (b : TokenBucket) (now : Int) : TokenBucket :=
  let elapsedNs := now - b.lastNs
  if elapsedNs ≤ 0 then b
  else
    let ratePerNs : ℚ := b.rateBps / 8 / 1000000000
    { b with tokens := b.tokens + ratePerNs * elapsedNs, lastNs := now }

def tryConsume (b : TokenBucket) (now : Int) (bytes : Nat) : Bool × TokenBucket :=
  let b := b.refill now
  if b.tokens ≥ bytes then (true, { b with tokens := b.tokens - bytes }) else (false, b)

end TokenBucket

/-! ## The module -/

/-- A packet that came in: its buffer and its length, and whether `MAX_PENDING` packets were
queued. -/
structure Arrival where
  buf : Nat
  len : Nat
  full : Bool
deriving DecidableEq, Repr

/-- The buffer and the length. -/
def Arrival.packet (a : Arrival) : Nat × Nat := (a.buf, a.len)

structure Limiter where
  ctx : LimitCtx
  buckets : Dir → TokenBucket
  reads : Nat
  call : Call := Call.start []
  arrivals : Dir → List Arrival := fun _ => []

def LimitCtx.setPending (ctx : LimitCtx) (dir : Dir) (ps : List PendingPacket) : LimitCtx :=
  match dir with
  | .encode => { ctx with pendingEncode := ps }
  | .decode => { ctx with pendingDecode := ps }

def PendingPacket.packet (pp : PendingPacket) : Nat × Nat := (pp.data, pp.len)

/-- The packets that a call passed on in a direction. -/
def passedBy (c : Call) (dir : Dir) : List (Nat × Nat) :=
  (c.written.filter fun w => w.dst = writeDst dir).map fun w => (w.buf, w.len)

namespace Limiter

def init (clock : Nat → Int) (dirMask : BitVec 2) (rateBps burstBytes : Nat) : Limiter where
  ctx := { dirMask := dirMask }
  buckets
    | .encode => TokenBucket.init rateBps burstBytes (clock 0)
    | .decode => TokenBucket.init rateBps burstBytes (clock 1)
  reads := 2

/-- Is the direction limited? -/
def Selects (s : Limiter) (dir : Dir) : Prop := dirBits dir &&& s.ctx.dirMask ≠ 0

instance (s : Limiter) (dir : Dir) : Decidable (s.Selects dir) :=
  inferInstanceAs (Decidable (_ ≠ _))

/-- The answer of the bucket to a packet of `len` bytes, and what is left in it. -/
def asked (clock : Nat → Int) (s : Limiter) (dir : Dir) (len : Nat) : Bool × TokenBucket :=
  (s.buckets dir).tryConsume (clock s.reads) len

/-- `process` for a packet; the bucket is asked only for one of a selected direction. -/
def process (clock : Nat → Int) (s : Limiter) (dir : Dir) (srcIdx : Int) (buf len : Nat) :
    Limiter :=
  let (hasTokens, bucket) := s.asked clock dir len
  let (ctx, _, call) := Limit.process hasTokens true s.ctx dir srcIdx buf len s.call
  let asks : Bool := s.Selects dir ∧ len ≠ 0
  { ctx := ctx
    buckets := if asks then Function.update s.buckets dir bucket else s.buckets
    reads := if asks then s.reads + 1 else s.reads
    call := call
    arrivals := Function.update s.arrivals dir
      (s.arrivals dir ++ [⟨buf, len, decide (MAX_PENDING ≤ (s.ctx.pending dir).length)⟩]) }

/-- The loop of `drain_dir` over the queue of a direction. -/
def drainLoop (clock : Nat → Int) (dir : Dir) :
    List PendingPacket → TokenBucket → Nat → Call → List PendingPacket × TokenBucket × Nat × Call
  | [], bucket, reads, call => ([], bucket, reads, call)
  | pp :: rest, bucket, reads, call =>
      let (ok, bucket) := bucket.tryConsume (clock reads) pp.len
      if ok then
        drainLoop clock dir rest bucket (reads + 1)
          (call.writePacket (writeDst dir) pp.data pp.len).2
      else (pp :: rest, bucket, reads + 1, call)

def drainDir (clock : Nat → Int) (s : Limiter) (dir : Dir) : Limiter :=
  if s.Selects dir then
    let (rest, bucket, reads, call) :=
      drainLoop clock dir (s.ctx.pending dir) (s.buckets dir) s.reads s.call
    { s with
      ctx := s.ctx.setPending dir rest
      buckets := Function.update s.buckets dir bucket
      reads := reads
      call := call }
  else s

def refill (clock : Nat → Int) (s : Limiter) : Limiter :=
  { s with
    buckets := fun
      | .encode => (s.buckets .encode).refill (clock s.reads)
      | .decode => (s.buckets .decode).refill (clock (s.reads + 1))
    reads := s.reads + 2 }

def updateHeartbeat (s : Limiter) : Limiter := { s with ctx := s.ctx.updateHeartbeat }

/-- `process` with a negative direction. -/
def heartbeat (clock : Nat → Int) (s : Limiter) : Limiter :=
  (((s.refill clock).drainDir clock .encode).drainDir clock .decode).updateHeartbeat

/-- What was passed to `write_packet` for a direction. -/
def passed (s : Limiter) (dir : Dir) : List (Nat × Nat) := passedBy s.call dir

def queued (s : Limiter) (dir : Dir) : List (Nat × Nat) :=
  (s.ctx.pending dir).map PendingPacket.packet

end Limiter

inductive Event where
  | packet (dir : Dir) (srcIdx : Int) (buf len : Nat)
  | heartbeat
deriving DecidableEq, Repr

def Limiter.step (clock : Nat → Int) (s : Limiter) : Event → Option Limiter
  | .packet dir srcIdx buf len => some (s.process clock dir srcIdx buf len)
  | .heartbeat => some (s.heartbeat clock)

/-- No packet is empty. -/
def Event.Filled : Event → Prop
  | .packet _ _ _ len => 0 < len
  | .heartbeat => True

/-- `out` is what came in, in order, without some of what came while the queue was full. -/
def Accounted (arrivals : List Arrival) (out : List (Nat × Nat)) : Prop :=
  ∃ kept : List Arrival, kept.Sublist arrivals ∧
    (arrivals.filter fun a => !a.full).Sublist kept ∧ kept.map Arrival.packet = out

/-- A direction that is limited passes its packets on in order, each at most once, except for
those that came while the queue was full and those that are still queued; the other passes
every packet on. -/
structure Faithful (s : Limiter) (dir : Dir) : Prop where
  selected : s.Selects dir → Accounted (s.arrivals dir) (s.passed dir ++ s.queued dir)
  unselected : ¬ s.Selects dir → s.passed dir = (s.arrivals dir).map Arrival.packet

/-- A packet is of a selected direction, and it does not find enough tokens while others of
its direction are queued. -/
def InTurn (clock : Nat → Int) (s : Limiter) : Event → Prop
  | .packet dir _ _ len =>
      s.Selects dir ∧ ((s.asked clock dir len).1 = true → s.ctx.pending dir = [])
  | .heartbeat => True

instance (clock : Nat → Int) (s : Limiter) (e : Event) : Decidable (InTurn clock s e) := by
  cases e <;> unfold InTurn <;> infer_instance

/-! ## What a step does to a direction -/

theorem Accounted.keep {arrivals : List Arrival} {out : List (Nat × Nat)}
    (h : Accounted arrivals out) (a : Arrival) :
    Accounted (arrivals ++ [a]) (out ++ [a.packet]) := by
  obtain ⟨kept, hsub, hmust, hout⟩ := h
  refine ⟨kept ++ [a], hsub.append_right [a], ?_, by rw [List.map_append, hout]; rfl⟩
  rw [List.filter_append]
  exact hmust.append (List.filter_sublist)

theorem Accounted.drop {arrivals : List Arrival} {out : List (Nat × Nat)}
    (h : Accounted arrivals out) {a : Arrival} (hfull : a.full = true) :
    Accounted (arrivals ++ [a]) out := by
  obtain ⟨kept, hsub, hmust, hout⟩ := h
  refine ⟨kept, hsub.trans (List.sublist_append_left _ _), ?_, hout⟩
  have hnone : [a].filter (fun a => !a.full) = [] := by simp [hfull]
  rw [List.filter_append, hnone, List.append_nil]
  exact hmust

section Fields

variable (ctx : LimitCtx) (dir d : Dir)

@[simp] theorem pending_updateHeartbeat : ctx.updateHeartbeat.pending d = ctx.pending d := by
  unfold LimitCtx.updateHeartbeat
  dsimp only
  split_ifs <;> rfl

@[simp] theorem dirMask_updateHeartbeat : ctx.updateHeartbeat.dirMask = ctx.dirMask := by
  unfold LimitCtx.updateHeartbeat
  dsimp only
  split_ifs <;> rfl

theorem pending_append (pp : PendingPacket) :
    (ctx.append dir pp).pending d = ctx.pending d ++ if d = dir then [pp] else [] := by
  cases dir <;> cases d <;> simp [LimitCtx.append, LimitCtx.pending]

@[simp] theorem dirMask_append (pp : PendingPacket) :
    (ctx.append dir pp).dirMask = ctx.dirMask := by
  cases dir <;> rfl

theorem pending_setPending (ps : List PendingPacket) :
    (ctx.setPending dir ps).pending d = if d = dir then ps else ctx.pending d := by
  cases dir <;> cases d <;> simp [LimitCtx.setPending, LimitCtx.pending]

@[simp] theorem dirMask_setPending (ps : List PendingPacket) :
    (ctx.setPending dir ps).dirMask = ctx.dirMask := by
  cases dir <;> rfl

theorem passedBy_writePacket (c : Call) (buf len : Nat) :
    passedBy (c.writePacket (writeDst dir) buf len).2 d =
      passedBy c d ++ if d = dir then [(buf, len)] else [] := by
  cases dir <;> cases d <;> simp [passedBy, Call.writePacket, writeDst]

end Fields

/-- What the loop takes from the front of the queue it passes on. -/
theorem drainLoop_spec (clock : Nat → Int) (dir d : Dir) (ps : List PendingPacket)
    (bucket : TokenBucket) (reads : Nat) (call : Call) :
    let r := Limiter.drainLoop clock dir ps bucket reads call
    passedBy r.2.2.2 d ++ (if d = dir then r.1.map PendingPacket.packet else []) =
      passedBy call d ++ if d = dir then ps.map PendingPacket.packet else [] := by
  induction ps generalizing bucket reads call with
  | nil => simp [Limiter.drainLoop]
  | cons pp rest ih =>
      simp only [Limiter.drainLoop]
      split_ifs with hok hdir
      · have hrest := ih (bucket.tryConsume (clock reads) pp.len).2 (reads + 1)
          (call.writePacket (writeDst dir) pp.data pp.len).2
        simp only [hdir, if_true] at hrest ⊢
        rw [hrest, passedBy_writePacket, if_pos rfl, List.append_assoc]
        rfl
      · have hrest := ih (bucket.tryConsume (clock reads) pp.len).2 (reads + 1)
          (call.writePacket (writeDst dir) pp.data pp.len).2
        simp only [hdir, if_false] at hrest ⊢
        rw [hrest, passedBy_writePacket, if_neg hdir, List.append_nil]
      · rfl
      · rfl

/-- From one state to another with the same packets in the same order. -/
structure SamePackets (s s' : Limiter) : Prop where
  mask : s'.ctx.dirMask = s.ctx.dirMask
  arrivals : s'.arrivals = s.arrivals
  packets : ∀ d, s'.passed d ++ s'.queued d = s.passed d ++ s.queued d

theorem SamePackets.trans {s s' s'' : Limiter} (h : SamePackets s s') (h' : SamePackets s' s'') :
    SamePackets s s'' where
  mask := h'.mask.trans h.mask
  arrivals := h'.arrivals.trans h.arrivals
  packets d := (h'.packets d).trans (h.packets d)

theorem samePackets_drainDir (clock : Nat → Int) (s : Limiter) (dir : Dir) :
    SamePackets s (s.drainDir clock dir) := by
  unfold Limiter.drainDir
  split_ifs
  · refine ⟨dirMask_setPending _ _ _, rfl, fun d => ?_⟩
    have hloop := drainLoop_spec clock dir d (s.ctx.pending dir) (s.buckets dir) s.reads s.call
    simp only [Limiter.passed, Limiter.queued, pending_setPending]
    by_cases hd : d = dir
    · subst hd
      simpa using hloop
    · simp only [hd, if_false, List.append_nil] at hloop ⊢
      rw [hloop]
  · exact ⟨rfl, rfl, fun _ => rfl⟩

theorem samePackets_updateHeartbeat (s : Limiter) : SamePackets s s.updateHeartbeat := by
  refine ⟨dirMask_updateHeartbeat _, rfl, fun d => ?_⟩
  simp [Limiter.passed, Limiter.queued, Limiter.updateHeartbeat]

theorem samePackets_heartbeat (clock : Nat → Int) (s : Limiter) :
    SamePackets s (s.heartbeat clock) := by
  have hrefill : SamePackets s (s.refill clock) := ⟨rfl, rfl, fun _ => rfl⟩
  have hdrain := (hrefill.trans (samePackets_drainDir clock _ .encode)).trans
    (samePackets_drainDir clock _ .decode)
  exact hdrain.trans (samePackets_updateHeartbeat _)

/-- What a packet of a selected direction adds. -/
theorem process_packets (clock : Nat → Int) (s : Limiter) (dir : Dir) (srcIdx : Int)
    (buf : Nat) {len : Nat} (hlen : 0 < len)
    (hturn : InTurn clock s (.packet dir srcIdx buf len)) (d : Dir) :
    let s' := s.process clock dir srcIdx buf len
    s'.passed d ++ s'.queued d = s.passed d ++ s.queued d ++
      if d = dir ∧
          ((s.asked clock dir len).1 = true ∨ (s.ctx.pending dir).length < MAX_PENDING) then
        [(buf, len)]
      else [] := by
  obtain ⟨hselects, hempty⟩ := hturn
  have hdir : ¬ dirBits dir &&& s.ctx.dirMask = 0 := hselects
  have hlen' : ¬ len = 0 := by omega
  simp only [Limiter.process, Limiter.passed, Limiter.queued, Limit.process, if_neg hdir,
    if_neg hlen']
  cases htokens : (s.asked clock dir len).1 with
  | true =>
      -- The queue is empty, so behind it is at its front.
      simp only [if_true, passedBy_writePacket, List.append_assoc]
      by_cases hd : d = dir
      · subst hd
        simp [hempty htokens]
      · simp [hd]
  | false =>
      simp only [Bool.false_eq_true, if_false, false_or, ge_iff_le, if_true]
      split_ifs with hfull hd hd
      · omega
      · rw [List.append_nil]
        rfl
      · obtain ⟨rfl, -⟩ := hd
        simp [pending_append, PendingPacket.packet]
      · have hd' : ¬ d = dir := fun heq => hd ⟨heq, by omega⟩
        simp [pending_append, hd']

@[simp] theorem dirMask_process (clock : Nat → Int) (s : Limiter) (dir : Dir) (srcIdx : Int)
    (buf len : Nat) : (s.process clock dir srcIdx buf len).ctx.dirMask = s.ctx.dirMask := by
  simp only [Limiter.process, Limit.process]
  split_ifs <;> simp

/-! ## Runs -/

/-- The invariant: what came in is accounted for in both directions, and nothing came in a
direction that is not selected. -/
structure InOrder (s : Limiter) : Prop where
  accounted : ∀ d, Accounted (s.arrivals d) (s.passed d ++ s.queued d)
  unselected : ∀ d, ¬ s.Selects d → s.arrivals d = []

theorem InOrder.init (clock : Nat → Int) (dirMask : BitVec 2) (rateBps burstBytes : Nat) :
    InOrder (Limiter.init clock dirMask rateBps burstBytes) where
  accounted d := ⟨[], List.Sublist.slnil, List.Sublist.slnil, by cases d <;> rfl⟩
  unselected _ _ := rfl

theorem InOrder.samePackets {s s' : Limiter} (h : InOrder s) (hsame : SamePackets s s') :
    InOrder s' where
  accounted d := by
    rw [hsame.packets, hsame.arrivals]
    exact h.accounted d
  unselected d hd := by
    rw [hsame.arrivals]
    apply h.unselected d
    rwa [Limiter.Selects, hsame.mask] at hd

theorem InOrder.process {clock : Nat → Int} {s : Limiter} (h : InOrder s) {dir : Dir}
    {srcIdx : Int} {buf len : Nat} (hlen : 0 < len)
    (hturn : InTurn clock s (.packet dir srcIdx buf len)) :
    InOrder (s.process clock dir srcIdx buf len) := by
  have harrivals : ∀ d, (s.process clock dir srcIdx buf len).arrivals d = s.arrivals d ++
      if d = dir then [⟨buf, len, decide (MAX_PENDING ≤ (s.ctx.pending dir).length)⟩] else [] := by
    intro d
    by_cases hd : d = dir
    · subst hd
      simp [Limiter.process]
    · simp [Limiter.process, hd]
  constructor
  · intro d
    rw [process_packets clock s dir srcIdx buf hlen hturn d, harrivals d]
    by_cases hd : d = dir
    · subst hd
      simp only [if_true, true_and]
      split_ifs with htaken
      · exact (h.accounted d).keep _
      · rw [List.append_nil]
        refine (h.accounted d).drop ?_
        simp only [decide_eq_true_eq]
        omega
    · simpa [hd] using h.accounted d
  · intro d hd
    have hd' : ¬ s.Selects d := by
      rwa [Limiter.Selects, dirMask_process] at hd
    have hne : ¬ d = dir := by
      rintro rfl
      exact hd' hturn.1
    rw [harrivals d, if_neg hne, List.append_nil]
    exact h.unselected d hd'

theorem InOrder.step {clock : Nat → Int} {s s' : Limiter} {e : Event} (h : InOrder s)
    (hok : e.Filled ∧ InTurn clock s e) (hstep : s.step clock e = some s') : InOrder s' := by
  cases e with
  | packet dir srcIdx buf len =>
      obtain rfl := Option.some.inj hstep
      exact h.process hok.1 hok.2
  | heartbeat =>
      obtain rfl := Option.some.inj hstep
      exact h.samePackets (samePackets_heartbeat clock s)

theorem InOrder.faithful {s : Limiter} (h : InOrder s) (dir : Dir) : Faithful s dir where
  selected _ := h.accounted dir
  unselected hdir := by
    obtain ⟨kept, hsub, -, hout⟩ := h.accounted dir
    rw [h.unselected dir hdir] at hsub ⊢
    rw [List.sublist_nil.mp hsub] at hout
    exact (List.append_eq_nil_iff.mp hout.symm).1

end PipelineTunnel.Modules.Limit
