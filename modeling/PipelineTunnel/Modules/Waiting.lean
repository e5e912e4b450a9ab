import PipelineTunnel.Modules.Burst

/-!
# Packets that wait in the limit module

`limit.zig` behind `core/chain.cpp`: what waits for tokens is sent by heartbeats, which
`update_heartbeat` requests and gives up through `request_heartbeat_impl`, and which
`check_module_heartbeats` delivers on the ticks of the event loop. A new packet is not made to wait
for those in the queue, so that the bound on the waiting time is one for the time since the last
packet of the direction.

## Implementation notes

The readings of the clock in `limit.zig` are those of `Limiter`; the chain reads its own clock, in
milliseconds, which is an argument of the events. Every packet is handed to `process`, behind which
the chain keeps `last_activity`.
-/

namespace PipelineTunnel.Modules.Limit

open Pipeline (Dir)
open StepSystem

/-! ## The chain's side -/

/-- `heartbeat_interval_sec` and `last_activity` of a module, the latter in milliseconds. -/
structure Beat where
  intervalSec : Int := 0
  lastActivity : Int := 0
deriving DecidableEq, Repr

namespace Beat

/-- `request_heartbeat_impl`. -/
def requestHeartbeat (b : Beat) (intervalSec : Int) : Beat :=
  if intervalSec > 0 then { b with intervalSec := intervalSec }
  else if intervalSec = 0 then { b with intervalSec := -2 }
  else { b with intervalSec := 0 }

/-- One module of `check_module_heartbeats`: whether `process_fn` is called. -/
def check (b : Beat) (systemIntervalMs now : Int) : Bool × Beat :=
  if b.intervalSec = 0 then (false, b)
  else if b.intervalSec = -2 then (true, b)
  else
    let effIntervalMs := if b.intervalSec < 0 then systemIntervalMs else b.intervalSec * 1000
    let effIntervalMs := if effIntervalMs < 1000 then 1000 else effIntervalMs
    if now - b.lastActivity ≥ effIntervalMs then (true, { b with lastActivity := now })
    else (false, b)

end Beat

/-- The call of `request_heartbeat` in `update_heartbeat`. -/
def LimitCtx.heartbeatRequest (ctx : LimitCtx) : Option Int :=
  let hasPending := ctx.pendingEncode.length > 0 ∨ ctx.pendingDecode.length > 0
  if hasPending ∧ ¬ctx.haveHeartbeat then some 0
  else if ¬hasPending ∧ ctx.haveHeartbeat then some (-1)
  else none

namespace Limiter

/-- The context at the `update_heartbeat` of `process`, where a packet has to wait. -/
def queueing (clock : Nat → Int) (s : Limiter) (dir : Dir) (srcIdx : Int) (buf len : Nat) :
    Option LimitCtx :=
  if s.Selects dir ∧ len ≠ 0 ∧ (s.asked clock dir len).1 = false ∧
      (s.ctx.pending dir).length < MAX_PENDING then
    some (s.ctx.append dir ⟨buf, len, srcIdx⟩)
  else none

/-- Both queues behind the loops of a heartbeat. -/
def drained (clock : Nat → Int) (s : Limiter) : Limiter :=
  ((s.refill clock).drainDir clock .encode).drainDir clock .decode

end Limiter

/-- The module and what the chain keeps for it. -/
structure Driven where
  limiter : Limiter
  beat : Beat := {}

namespace Driven

def request (b : Beat) : Option Int → Beat
  | none => b
  | some intervalSec => b.requestHeartbeat intervalSec

inductive Event where
  /-- The task of `enqueue_module`. -/
  | packet (dir : Dir) (srcIdx : Int) (buf len : Nat) (now : Int)
  /-- `check_module_heartbeats`. -/
  | check (systemIntervalMs now : Int)
deriving DecidableEq, Repr

def step (clock : Nat → Int) (s : Driven) : Event → Option Driven
  | .packet dir srcIdx buf len now =>
      some {
        limiter := s.limiter.process clock dir srcIdx buf len
        beat := request { s.beat with lastActivity := now }
          ((s.limiter.queueing clock dir srcIdx buf len).bind LimitCtx.heartbeatRequest) }
  | .check systemIntervalMs now =>
      let (ticks, beat) := s.beat.check systemIntervalMs now
      if ticks then
        some {
          limiter := s.limiter.heartbeat clock
          beat := request beat (s.limiter.drained clock).ctx.heartbeatRequest }
      else some { s with beat := beat }

def start (clock : Nat → Int) (dirMask : BitVec 2) (rateBps burstBytes : Nat) : Driven :=
  { limiter := Limiter.init clock dirMask rateBps burstBytes }

end Driven

/-! ## Buckets and queues -/

/-- The bytes in a queue. -/
def bytes : List PendingPacket → Nat
  | [] => 0
  | pp :: rest => pp.len + bytes rest

section Bucket

variable {b : TokenBucket} {now : Int} {len : Nat}

theorem tokens_le_refill (b : TokenBucket) (now : Int) : b.tokens ≤ (b.refill now).tokens := by
  rw [TokenBucket.refill]
  dsimp only
  split_ifs with helapsed
  · exact le_refl _
  · have hrate := ratePerNs_nonneg b.rateBps
    have hlast : (b.lastNs : ℚ) ≤ now := Int.cast_le.mpr (by omega)
    have hpos : (0 : ℚ) ≤ ((now - b.lastNs : Int) : ℚ) := by
      rw [Int.cast_sub]
      exact sub_nonneg.mpr hlast
    exact le_add_of_nonneg_right (mul_nonneg hrate hpos)

theorem rateBps_refill (b : TokenBucket) (now : Int) : (b.refill now).rateBps = b.rateBps := by
  rw [TokenBucket.refill]
  dsimp only
  split_ifs <;> rfl

theorem tokens_refill_of_le (h : b.lastNs ≤ now) :
    (b.refill now).tokens = b.tokens + TokenBucket.ratePerNs b.rateBps * (now - b.lastNs) := by
  rw [TokenBucket.refill]
  dsimp only
  split_ifs with helapsed
  · obtain rfl : b.lastNs = now := by omega
    rw [sub_self, mul_zero, add_zero]
  · rw [Int.cast_sub]
    rfl

/-- What `try_consume` answers and leaves. -/
theorem tryConsume_eq (b : TokenBucket) (now : Int) (len : Nat) :
    ((b.tryConsume now len).1 = true ∧ (len : ℚ) ≤ (b.refill now).tokens ∧
        (b.tryConsume now len).2.tokens = (b.refill now).tokens - len) ∨
      (b.tryConsume now len).1 = false ∧ (b.refill now).tokens < len ∧
        (b.tryConsume now len).2.tokens = (b.refill now).tokens := by
  rw [TokenBucket.tryConsume]
  split_ifs with henough
  · exact .inl ⟨rfl, henough, rfl⟩
  · exact .inr ⟨rfl, not_le.mp henough, rfl⟩

theorem rateBps_tryConsume (b : TokenBucket) (now : Int) (len : Nat) :
    (b.tryConsume now len).2.rateBps = b.rateBps := by
  rw [TokenBucket.tryConsume]
  split_ifs
  · exact rateBps_refill b now
  · exact rateBps_refill b now

end Bucket

/-- A queue is drained up to the first packet that the tokens do not pay for. -/
structure Drains (dir : Dir) (ps rest : List PendingPacket) (b b' : TokenBucket)
    (call call' : Call) : Prop where
  front : ∃ front, ps = front ++ rest ∧
    passedBy call' dir = passedBy call dir ++ front.map PendingPacket.packet
  stops : ∀ pp ∈ rest.head?, b'.tokens < pp.len
  nonneg : 0 ≤ b'.tokens
  rate : b'.rateBps = b.rateBps
  pays : (bytes ps : ℚ) ≤ b.tokens → rest = []

theorem drainLoop_drains (clock : Nat → Int) (dir : Dir) (ps : List PendingPacket)
    (b : TokenBucket) (reads : Nat) (call : Call) (hb : 0 ≤ b.tokens) :
    let r := Limiter.drainLoop clock dir ps b reads call
    Drains dir ps r.1 b r.2.1 call r.2.2.2 := by
  induction ps generalizing b reads call with
  | nil => exact ⟨⟨[], rfl, (List.append_nil _).symm⟩, nofun, hb, rfl, fun _ => rfl⟩
  | cons pp rest ih =>
      have hgrown := tokens_le_refill b (clock reads)
      have hrate := rateBps_tryConsume b (clock reads) pp.len
      simp only [Limiter.drainLoop]
      rcases tryConsume_eq b (clock reads) pp.len with ⟨hok, henough, hleft⟩ | ⟨hok, hshort, hleft⟩
      · rw [if_pos hok]
        have hrest := ih (b.tryConsume (clock reads) pp.len).2 (reads + 1)
          (call.writePacket (writeDst dir) pp.data pp.len).2 (hleft ▸ sub_nonneg.mpr henough)
        obtain ⟨front, hfront, hpassed⟩ := hrest.front
        refine ⟨⟨pp :: front, ?_, ?_⟩, hrest.stops, hrest.nonneg, hrest.rate.trans hrate, ?_⟩
        · exact congrArg (pp :: ·) hfront
        · rw [hpassed, passedBy_writePacket, if_pos rfl, List.append_assoc]
          rfl
        · intro hpays
          apply hrest.pays
          rw [bytes, Nat.cast_add] at hpays
          rw [hleft]
          linarith
      · rw [if_neg (by rw [hok]; exact Bool.false_ne_true)]
        refine ⟨⟨[], rfl, (List.append_nil _).symm⟩, ?_, ?_, hrate, ?_⟩
        · intro pp' hpp'
          obtain rfl := Option.some.inj hpp'
          rw [hleft]
          exact hshort
        · rw [hleft]
          exact hb.trans hgrown
        · intro hpays
          have hnonneg : (0 : ℚ) ≤ bytes rest := Nat.cast_nonneg _
          rw [bytes, Nat.cast_add] at hpays
          linarith

section Heartbeat

variable (clock : Nat → Int) (s : Limiter)

/-- The other direction is as it was. -/
structure Untouched (s s' : Limiter) (d : Dir) : Prop where
  pending : s'.ctx.pending d = s.ctx.pending d
  bucket : s'.buckets d = s.buckets d
  passed : passedBy s'.call d = passedBy s.call d

theorem untouched_drainDir {d dir : Dir} (hne : d ≠ dir) :
    Untouched s (s.drainDir clock dir) d := by
  unfold Limiter.drainDir
  split_ifs
  · have hloop := drainLoop_spec clock dir d (s.ctx.pending dir) (s.buckets dir) s.reads s.call
    simp only [hne, if_false, List.append_nil] at hloop
    refine ⟨?_, Function.update_of_ne hne _ _, hloop⟩
    simp only [pending_setPending, if_neg hne]
  · exact ⟨rfl, rfl, rfl⟩

theorem drainDir_drains {dir : Dir} (hselects : s.Selects dir) (hb : 0 ≤ (s.buckets dir).tokens) :
    Drains dir (s.ctx.pending dir) ((s.drainDir clock dir).ctx.pending dir) (s.buckets dir)
      ((s.drainDir clock dir).buckets dir) s.call (s.drainDir clock dir).call := by
  have hloop := drainLoop_drains clock dir (s.ctx.pending dir) (s.buckets dir) s.reads s.call hb
  rw [Limiter.drainDir, if_pos hselects]
  simp only [pending_setPending, if_true, Function.update_self]
  exact hloop

theorem dirMask_drainDir (dir : Dir) : (s.drainDir clock dir).ctx.dirMask = s.ctx.dirMask :=
  (samePackets_drainDir clock s dir).mask

theorem dirMask_drained : (s.drained clock).ctx.dirMask = s.ctx.dirMask :=
  (dirMask_drainDir clock _ .decode).trans (dirMask_drainDir clock _ .encode)

theorem drained_unselected {d : Dir} (hselects : ¬ s.Selects d) :
    (s.drained clock).ctx.pending d = s.ctx.pending d ∧
      (s.drained clock).buckets d = (s.refill clock).buckets d ∧
      passedBy (s.drained clock).call d = passedBy s.call d := by
  have hkeep (t : Limiter) (dir : Dir) (hmask : t.ctx.dirMask = s.ctx.dirMask) :
      Untouched t (t.drainDir clock dir) d := by
    by_cases hd : d = dir
    · subst hd
      have hnot : ¬ t.Selects d := by rwa [Limiter.Selects, hmask]
      rw [Limiter.drainDir, if_neg hnot]
      exact ⟨rfl, rfl, rfl⟩
    · exact untouched_drainDir clock t hd
  have hfirst := hkeep (s.refill clock) .encode rfl
  have hsecond := hkeep ((s.refill clock).drainDir clock .encode) .decode
    (dirMask_drainDir clock _ .encode)
  exact ⟨hsecond.pending.trans hfirst.pending, hsecond.bucket.trans hfirst.bucket,
    hsecond.passed.trans hfirst.passed⟩

theorem drained_drains {d : Dir} (hselects : s.Selects d)
    (hb : 0 ≤ ((s.refill clock).buckets d).tokens) :
    Drains d (s.ctx.pending d) ((s.drained clock).ctx.pending d) ((s.refill clock).buckets d)
      ((s.drained clock).buckets d) s.call (s.drained clock).call := by
  cases d with
  | encode =>
      have hdrains := drainDir_drains clock (s.refill clock) hselects hb
      have hother := untouched_drainDir clock ((s.refill clock).drainDir clock .encode)
        (show Dir.encode ≠ .decode by decide)
      rw [Limiter.drained, hother.pending, hother.bucket]
      obtain ⟨front, hfront, hpassed⟩ := hdrains.front
      exact ⟨⟨front, hfront, hother.passed.trans hpassed⟩, hdrains.stops, hdrains.nonneg,
        hdrains.rate, hdrains.pays⟩
  | decode =>
      have hother := untouched_drainDir clock (s.refill clock)
        (show Dir.decode ≠ .encode by decide)
      have hselects' : ((s.refill clock).drainDir clock .encode).Selects .decode := by
        rwa [Limiter.Selects, dirMask_drainDir]
      have hdrains := drainDir_drains clock ((s.refill clock).drainDir clock .encode) hselects'
        (by rw [hother.bucket]; exact hb)
      rw [hother.pending, hother.bucket] at hdrains
      obtain ⟨front, hfront, hpassed⟩ := hdrains.front
      exact ⟨⟨front, hfront, hpassed.trans (by rw [hother.passed]; rfl)⟩, hdrains.stops,
        hdrains.nonneg, hdrains.rate, hdrains.pays⟩

end Heartbeat

/-! ## A heartbeat is requested while packets wait -/

def LimitCtx.Waits (ctx : LimitCtx) : Prop :=
  ctx.pendingEncode.length > 0 ∨ ctx.pendingDecode.length > 0

instance (ctx : LimitCtx) : Decidable ctx.Waits := inferInstanceAs (Decidable (_ ∨ _))

theorem LimitCtx.waits_iff (ctx : LimitCtx) : ctx.Waits ↔ ∃ d, ctx.pending d ≠ [] := by
  simp only [LimitCtx.Waits, gt_iff_lt, List.length_pos_iff]
  constructor
  · rintro (h | h)
    · exact ⟨.encode, h⟩
    · exact ⟨.decode, h⟩
  · rintro ⟨d, h⟩
    cases d with
    | encode => exact .inl h
    | decode => exact .inr h

/-- The chain ticks the module exactly as long as the module thinks it does. -/
def Beat.Follows (b : Beat) (ctx : LimitCtx) : Prop :=
  b.intervalSec = if ctx.haveHeartbeat then -2 else 0

/-- `update_heartbeat` with its request. -/
theorem follows_updateHeartbeat {b : Beat} {ctx : LimitCtx} (h : b.Follows ctx) :
    (Driven.request b ctx.heartbeatRequest).Follows ctx.updateHeartbeat ∧
      (ctx.updateHeartbeat.haveHeartbeat = true ↔ ctx.Waits) := by
  simp only [Beat.Follows] at h ⊢
  by_cases hwaits : ctx.Waits
  · have hwaits' : ctx.pendingEncode.length > 0 ∨ ctx.pendingDecode.length > 0 := hwaits
    cases hhave : ctx.haveHeartbeat with
    | true => simp [LimitCtx.heartbeatRequest, LimitCtx.updateHeartbeat, Driven.request, hwaits,
        hwaits', hhave, h]
    | false => simp [LimitCtx.heartbeatRequest, LimitCtx.updateHeartbeat, Driven.request, hwaits,
        hwaits', hhave, Beat.requestHeartbeat]
  · have hwaits' : ¬ (ctx.pendingEncode.length > 0 ∨ ctx.pendingDecode.length > 0) := hwaits
    cases hhave : ctx.haveHeartbeat with
    | true => simp [LimitCtx.heartbeatRequest, LimitCtx.updateHeartbeat, Driven.request, hwaits,
        hwaits', hhave, Beat.requestHeartbeat]
    | false => simp [LimitCtx.heartbeatRequest, LimitCtx.updateHeartbeat, Driven.request, hwaits,
        hwaits', hhave, h]

/-! ## Runs -/

/-- The invariant of the module behind the chain. -/
structure Served (rateBps : Nat) (s : Driven) : Prop where
  follows : s.beat.Follows s.limiter.ctx
  waits : s.limiter.ctx.haveHeartbeat = true ↔ s.limiter.ctx.Waits
  unselected : ∀ d, ¬ s.limiter.Selects d → s.limiter.ctx.pending d = []
  nonneg : ∀ d, 0 ≤ (s.limiter.buckets d).tokens
  rate : ∀ d, (s.limiter.buckets d).rateBps = rateBps

theorem Served.start (clock : Nat → Int) (dirMask : BitVec 2) (rateBps burstBytes : Nat) :
    Served rateBps (.start clock dirMask rateBps burstBytes) := by
  have hempty : ¬ LimitCtx.Waits { dirMask := dirMask } := by
    rintro (h | h) <;> exact absurd h (Nat.lt_irrefl 0)
  refine ⟨rfl, iff_of_false nofun hempty, ?_, ?_, ?_⟩
  · intro d _
    cases d <;> rfl
  · intro d
    cases d <;> exact Nat.cast_nonneg burstBytes
  · intro d
    cases d <;> rfl

section Process

variable (clock : Nat → Int) (s : Limiter) (dir : Dir) (srcIdx : Int) (buf len : Nat)

/-- A packet changes the queues only where it joins one of them. -/
theorem ctx_process : (s.process clock dir srcIdx buf len).ctx =
    (s.queueing clock dir srcIdx buf len).elim s.ctx LimitCtx.updateHeartbeat := by
  simp only [Limiter.process, Limit.process, Limiter.queueing, Limiter.Selects, ne_eq]
  by_cases hselects : dirBits dir &&& s.ctx.dirMask = 0
  · simp only [hselects, if_true, not_true, false_and, if_false, Option.elim_none]
  by_cases hlen : len = 0
  · simp only [hselects, hlen, if_true, not_true, false_and, and_false, if_false, Option.elim_none]
  cases htokens : (s.asked clock dir len).1 with
  | true => simp only [hselects, hlen, if_true, if_false, Bool.true_eq_false, false_and, and_false,
      Option.elim_none, Call.writePacket]
  | false =>
      by_cases hfull : (s.ctx.pending dir).length < MAX_PENDING
      · simp only [hselects, hlen, hfull, not_le.mpr hfull, if_true, if_false, ge_iff_le, true_and,
          not_false_eq_true, Bool.false_eq_true, Option.elim_some]
      · simp only [hselects, hlen, hfull, not_lt.mp hfull, if_true, if_false, ge_iff_le, and_false,
          Bool.false_eq_true, Option.elim_none]

theorem bucket_process (d : Dir) :
    (s.process clock dir srcIdx buf len).buckets d = s.buckets d ∨
      (s.process clock dir srcIdx buf len).buckets d =
        ((s.buckets d).tryConsume (clock s.reads) len).2 := by
  simp only [Limiter.process]
  split_ifs
  · by_cases hd : d = dir
    · subst hd
      exact .inr (Function.update_self _ _ _)
    · exact .inl (Function.update_of_ne hd _ _)
  · exact .inl rfl

end Process

theorem tokens_tryConsume_nonneg {b : TokenBucket} (hb : 0 ≤ b.tokens) (now : Int) (len : Nat) :
    0 ≤ (b.tryConsume now len).2.tokens := by
  rcases tryConsume_eq b now len with ⟨-, henough, hleft⟩ | ⟨-, -, hleft⟩
  · rw [hleft]
    exact sub_nonneg.mpr henough
  · rw [hleft]
    exact hb.trans (tokens_le_refill b now)

theorem Served.packet {clock : Nat → Int} {rateBps : Nat} {s : Driven} (h : Served rateBps s)
    (dir : Dir) (srcIdx : Int) (buf len : Nat) (now : Int) : Served rateBps {
      limiter := s.limiter.process clock dir srcIdx buf len
      beat := Driven.request { s.beat with lastActivity := now }
        ((s.limiter.queueing clock dir srcIdx buf len).bind LimitCtx.heartbeatRequest) } := by
  have hctx := ctx_process clock s.limiter dir srcIdx buf len
  have hmask := dirMask_process clock s.limiter dir srcIdx buf len
  have hbeat : Beat.Follows { s.beat with lastActivity := now } s.limiter.ctx := h.follows
  have hnonneg : ∀ d, 0 ≤ ((s.limiter.process clock dir srcIdx buf len).buckets d).tokens := by
    intro d
    rcases bucket_process clock s.limiter dir srcIdx buf len d with heq | heq
    · rw [heq]
      exact h.nonneg d
    · rw [heq]
      exact tokens_tryConsume_nonneg (h.nonneg d) _ _
  have hrate : ∀ d, ((s.limiter.process clock dir srcIdx buf len).buckets d).rateBps = rateBps := by
    intro d
    rcases bucket_process clock s.limiter dir srcIdx buf len d with heq | heq
    · rw [heq]
      exact h.rate d
    · rw [heq, rateBps_tryConsume]
      exact h.rate d
  cases hqueueing : s.limiter.queueing clock dir srcIdx buf len with
  | none =>
      rw [hqueueing, Option.elim_none] at hctx
      refine ⟨?_, ?_, fun d hd => ?_, hnonneg, hrate⟩
      · rw [hctx]
        exact hbeat
      · rw [hctx]
        exact h.waits
      · rw [hctx]
        exact h.unselected d (by rwa [Limiter.Selects, hmask] at hd)
  | some ctx =>
      have hjoin : ctx = s.limiter.ctx.append dir ⟨buf, len, srcIdx⟩ ∧ s.limiter.Selects dir := by
        rw [Limiter.queueing] at hqueueing
        split_ifs at hqueueing with hcond
        exact ⟨(Option.some.inj hqueueing).symm, hcond.1⟩
      obtain ⟨rfl, hselects⟩ := hjoin
      rw [hqueueing, Option.elim_some] at hctx
      have hhave : ∀ pp : PendingPacket,
          (s.limiter.ctx.append dir pp).haveHeartbeat = s.limiter.ctx.haveHeartbeat := by
        intro pp
        cases dir <;> rfl
      have hfollows : Beat.Follows { s.beat with lastActivity := now }
          (s.limiter.ctx.append dir ⟨buf, len, srcIdx⟩) := by
        rw [Beat.Follows, hhave]
        exact hbeat
      obtain ⟨hbeat', hwaits'⟩ := follows_updateHeartbeat hfollows
      refine ⟨?_, ?_, fun d hd => ?_, hnonneg, hrate⟩
      · rw [hctx]
        exact hbeat'
      · rw [hctx, hwaits', LimitCtx.waits_iff, LimitCtx.waits_iff]
        simp only [pending_updateHeartbeat]
      · rw [Limiter.Selects, hmask] at hd
        have hne : ¬ d = dir := by
          rintro rfl
          exact hd hselects
        rw [hctx, pending_updateHeartbeat, pending_append, if_neg hne, List.append_nil]
        exact h.unselected d hd

/-- A heartbeat of the module. -/
theorem Served.beat {clock : Nat → Int} {rateBps : Nat} {s : Driven} (h : Served rateBps s)
    {b : Beat} (hb : b.intervalSec = s.beat.intervalSec) : Served rateBps {
      limiter := s.limiter.heartbeat clock
      beat := Driven.request b (s.limiter.drained clock).ctx.heartbeatRequest } := by
  have hrefilled : ∀ d, 0 ≤ ((s.limiter.refill clock).buckets d).tokens := by
    intro d
    cases d with
    | encode => exact (h.nonneg .encode).trans (tokens_le_refill _ _)
    | decode => exact (h.nonneg .decode).trans (tokens_le_refill _ _)
  have hrate : ∀ d, ((s.limiter.refill clock).buckets d).rateBps = rateBps := by
    intro d
    cases d with
    | encode => exact (rateBps_refill _ _).trans (h.rate .encode)
    | decode => exact (rateBps_refill _ _).trans (h.rate .decode)
  have hhave : (s.limiter.drained clock).ctx.haveHeartbeat = s.limiter.ctx.haveHeartbeat := by
    have hkeep (t : Limiter) (dir : Dir) :
        (t.drainDir clock dir).ctx.haveHeartbeat = t.ctx.haveHeartbeat := by
      unfold Limiter.drainDir
      split_ifs
      · cases dir <;> rfl
      · rfl
    exact (hkeep _ _).trans (hkeep _ _)
  have hfollows : b.Follows (s.limiter.drained clock).ctx := by
    rw [Beat.Follows, hhave, hb]
    exact h.follows
  obtain ⟨hbeat', hwaits'⟩ := follows_updateHeartbeat hfollows
  refine ⟨hbeat', ?_, fun d hd => ?_, fun d => ?_, fun d => ?_⟩
  · refine hwaits'.trans ?_
    rw [LimitCtx.waits_iff, LimitCtx.waits_iff]
    simp only [Limiter.heartbeat, Limiter.updateHeartbeat, pending_updateHeartbeat]
    exact Iff.rfl
  · have hd' : ¬ s.limiter.Selects d := by
      rwa [Limiter.Selects, (samePackets_heartbeat clock s.limiter).mask] at hd
    have hpending := (drained_unselected clock s.limiter hd').1
    rw [h.unselected d hd'] at hpending
    exact (pending_updateHeartbeat _ _).trans hpending
  · by_cases hd : s.limiter.Selects d
    · exact (drained_drains clock s.limiter hd (hrefilled d)).nonneg
    · exact ((drained_unselected clock s.limiter hd).2.1 ▸ hrefilled d :
        0 ≤ ((s.limiter.drained clock).buckets d).tokens)
  · by_cases hd : s.limiter.Selects d
    · exact (drained_drains clock s.limiter hd (hrefilled d)).rate.trans (hrate d)
    · exact ((congrArg TokenBucket.rateBps (drained_unselected clock s.limiter hd).2.1).trans
        (hrate d) : ((s.limiter.drained clock).buckets d).rateBps = rateBps)

theorem intervalSec_check (b : Beat) (systemIntervalMs now : Int) :
    (b.check systemIntervalMs now).2.intervalSec = b.intervalSec := by
  rw [Beat.check]
  dsimp only
  split_ifs <;> rfl

theorem Served.step {clock : Nat → Int} {rateBps : Nat} {s s' : Driven} {e : Driven.Event}
    (h : Served rateBps s) (hstep : s.step clock e = some s') : Served rateBps s' := by
  cases e with
  | packet dir srcIdx buf len now =>
      obtain rfl := Option.some.inj hstep
      exact h.packet dir srcIdx buf len now
  | check systemIntervalMs now =>
      have hkeep := intervalSec_check s.beat systemIntervalMs now
      simp only [Driven.step] at hstep
      split_ifs at hstep
      · obtain rfl := Option.some.inj hstep
        exact h.beat hkeep
      · obtain rfl := Option.some.inj hstep
        exact ⟨hkeep.trans h.follows, h.waits, h.unselected, h.nonneg, h.rate⟩

/-- The module is called on every check as long as a packet waits, and on none otherwise. -/
theorem Served.ticks (rateBps : Nat) {s : Driven} (h : Served rateBps s)
    (systemIntervalMs now : Int) :
    s.beat.intervalSec = (if s.limiter.ctx.Waits then -2 else 0) ∧
      (s.beat.check systemIntervalMs now).1 = decide s.limiter.ctx.Waits := by
  have hfollows : s.beat.intervalSec = if s.limiter.ctx.haveHeartbeat then -2 else 0 := h.follows
  by_cases hwaits : s.limiter.ctx.Waits
  · rw [if_pos (h.waits.mpr hwaits)] at hfollows
    simp [hwaits, hfollows, Beat.check]
  · rw [if_neg fun hhave => hwaits (h.waits.mp hhave)] at hfollows
    simp [hwaits, hfollows, Beat.check]

/-- What a check does to a direction. -/
theorem Served.check {clock : Nat → Int} {rateBps : Nat} {s s' : Driven} (h : Served rateBps s)
    {systemIntervalMs now : Int} (hstep : s.step clock (.check systemIntervalMs now) = some s')
    (dir : Dir) :
    (∃ front, s.limiter.ctx.pending dir = front ++ s'.limiter.ctx.pending dir ∧
      s'.limiter.passed dir = s.limiter.passed dir ++ front.map PendingPacket.packet) ∧
    (∀ pp ∈ (s'.limiter.ctx.pending dir).head?, (s'.limiter.buckets dir).tokens < pp.len) ∧
    ((bytes (s.limiter.ctx.pending dir) : ℚ) ≤ ((s.limiter.refill clock).buckets dir).tokens →
      s'.limiter.ctx.pending dir = []) := by
  have hticks := (h.ticks rateBps systemIntervalMs now).2
  simp only [Driven.step, hticks, decide_eq_true_eq] at hstep
  split_ifs at hstep with hwaits
  · obtain rfl := Option.some.inj hstep
    have hpending : (s.limiter.heartbeat clock).ctx.pending dir =
        (s.limiter.drained clock).ctx.pending dir := pending_updateHeartbeat _ _
    simp only [hpending]
    by_cases hselects : s.limiter.Selects dir
    · have hrefilled : 0 ≤ ((s.limiter.refill clock).buckets dir).tokens := by
        cases dir with
        | encode => exact (h.nonneg .encode).trans (tokens_le_refill _ _)
        | decode => exact (h.nonneg .decode).trans (tokens_le_refill _ _)
      have hdrains := drained_drains clock s.limiter hselects hrefilled
      exact ⟨hdrains.front, hdrains.stops, hdrains.pays⟩
    · obtain ⟨hsame, -, hpassed⟩ := drained_unselected clock s.limiter hselects
      rw [hsame, h.unselected dir hselects]
      exact ⟨⟨[], rfl, hpassed.trans (List.append_nil _).symm⟩, nofun, fun _ => rfl⟩
  · obtain rfl := Option.some.inj hstep
    have hempty : s.limiter.ctx.pending dir = [] := by
      by_contra hne
      exact hwaits ((LimitCtx.waits_iff _).mpr ⟨dir, hne⟩)
    dsimp only
    rw [hempty]
    exact ⟨⟨[], rfl, (List.append_nil _).symm⟩, nofun, fun _ => rfl⟩

/-- The chain's checks call the module exactly while packets wait in it. A check passes on the
longest part of each queue that the tokens pay for, in order, and the whole queue if the time since
the last reading of the bucket's clock pays for it. -/
theorem limit_serves (clock : Nat → Int) (dirMask : BitVec 2) (rateBps burstBytes : Nat)
    {es : List Driven.Event} {s : Driven}
    (hrun : run (Driven.step clock) (.start clock dirMask rateBps burstBytes) es = some s) :
    s.beat.intervalSec = (if s.limiter.ctx.Waits then -2 else 0) ∧
      ∀ systemIntervalMs now s', s.step clock (.check systemIntervalMs now) = some s' → ∀ dir,
        (∃ front, s.limiter.ctx.pending dir = front ++ s'.limiter.ctx.pending dir ∧
          s'.limiter.passed dir = s.limiter.passed dir ++ front.map PendingPacket.packet) ∧
        (∀ pp ∈ (s'.limiter.ctx.pending dir).head?, (s'.limiter.buckets dir).tokens < pp.len) ∧
        ((s.limiter.buckets dir).lastNs ≤ (s.limiter.refillRequest clock dir).now →
          (bytes (s.limiter.ctx.pending dir) : ℚ) ≤ TokenBucket.ratePerNs rateBps *
            ((s.limiter.refillRequest clock dir).now - (s.limiter.buckets dir).lastNs) →
          s'.limiter.ctx.pending dir = []) := by
  have h : Served rateBps s := invariant_of_run (fun s e s' h hstep => h.step hstep)
    (.start clock dirMask rateBps burstBytes) hrun
  refine ⟨(h.ticks rateBps 0 0).1, fun systemIntervalMs now s' hstep dir => ?_⟩
  obtain ⟨hfront, hstops, hpays⟩ := h.check hstep dir
  refine ⟨hfront, hstops, fun hlast hbytes => hpays (hbytes.trans ?_)⟩
  have hrefill : ((s.limiter.refill clock).buckets dir) =
      (s.limiter.buckets dir).refill (s.limiter.refillRequest clock dir).now := by
    cases dir <;> rfl
  rw [hrefill, tokens_refill_of_le hlast, h.rate dir]
  exact le_add_of_nonneg_left (h.nonneg dir)

/-- One byte for each tick of the clock: the second packet waits, and the chain knows it. -/
theorem limit_serves_waiting :
    let clock : Nat → Int := fun n => n
    let es : List Driven.Event := [.packet .encode 0 1 10 0, .packet .encode 0 2 20 1]
    ∃ s, run (Driven.step clock) (.start clock 3 8000000000 17) es = some s ∧
      s.limiter.queued .encode = [(2, 20)] ∧ s.beat.intervalSec = -2 := by
  intro clock es
  have hsome : (run (Driven.step clock) (.start clock 3 8000000000 17) es).isSome := by
    decide +kernel
  have hend : (run (Driven.step clock) (.start clock 3 8000000000 17) es).all fun s =>
      s.limiter.queued .encode = [(2, 20)] ∧ s.limiter.ctx.Waits := by decide +kernel
  obtain ⟨s, hrun⟩ := Option.isSome_iff_exists.mp hsome
  rw [hrun, Option.all_some, decide_eq_true_eq] at hend
  have hbeat := (limit_serves clock 3 8000000000 17 hrun).1
  exact ⟨s, hrun, hend.1, hbeat.trans (if_pos hend.2)⟩

end PipelineTunnel.Modules.Limit
