import PipelineTunnel.Lib.RateBound
import PipelineTunnel.Modules.Limiter

/-!
# Bursts of the limit module

The help of `limit.zig` calls `b` the burst in bytes. A bucket begins with that many tokens and
keeps the number in `burst`, which nothing reads: `refill` adds what the rate gives for the time
that has passed, however much the bucket holds already. A direction that was idle then passes
more than a burst at once.

## Implementation notes

`requests` lists, in order, the readings of the clock that a step makes for the bucket of a
direction, each with the packet that asks for tokens, if any. `TokenBucket` is the bucket
without `burst`.
-/

namespace PipelineTunnel.Modules.Limit

open Pipeline (Dir)
open StepSystem RateBound

/-! ## The requests of a step -/

/-- A reading of the clock, and the packet for which `try_consume` is called: its buffer and its
length. -/
structure Request where
  now : Int
  packet : Option (Nat × Nat)
deriving DecidableEq, Repr

/-- A packet that was passed on, with the time. -/
abbrev Release := Int × Nat × Nat

namespace TokenBucket

def serve (b : TokenBucket) (q : Request) : Bool × TokenBucket :=
  match q.packet with
  | none => (false, b.refill q.now)
  | some (_, len) => b.tryConsume q.now len

def serveAll : TokenBucket → List Request → TokenBucket
  | b, [] => b
  | b, q :: qs => (b.serve q).2.serveAll qs

/-- The packets that find enough tokens. -/
def releases : TokenBucket → List Request → List Release
  | _, [] => []
  | b, q :: qs =>
      (if (b.serve q).1 then (q.packet.map fun p => (q.now, p)).toList else []) ++
        (b.serve q).2.releases qs

/-- Bytes in a nanosecond. -/
def ratePerNs (rateBps : Nat) : ℚ := rateBps / 8 / 1000000000

/-- What comes in since the last reading fits into what is missing in the bucket. -/
def HasRoom (b : TokenBucket) (burst : Nat) (now : Int) : Prop :=
  ratePerNs b.rateBps * (now - b.lastNs) ≤ burst - b.tokens

instance (b : TokenBucket) (burst : Nat) (now : Int) : Decidable (b.HasRoom burst now) :=
  inferInstanceAs (Decidable (_ ≤ _))

/-- There is room at each of the requests. -/
def Roomy (burst : Nat) : TokenBucket → List Request → Prop
  | _, [] => True
  | b, q :: qs => b.HasRoom burst q.now ∧ Roomy burst (b.serve q).2 qs

instance decidableRoomy (burst : Nat) : ∀ b qs, Decidable (Roomy burst b qs)
  | _, [] => isTrue trivial
  | b, q :: qs =>
      have := decidableRoomy burst (b.serve q).2 qs
      inferInstanceAs (Decidable (_ ∧ _))

end TokenBucket

namespace Limiter

/-- The requests of `drain_dir`, up to the first packet that has to wait. -/
def drainRequests (clock : Nat → Int) : List PendingPacket → TokenBucket → Nat → List Request
  | [], _, _ => []
  | pp :: rest, bucket, reads =>
      let (ok, bucket) := bucket.tryConsume (clock reads) pp.len
      ⟨clock reads, some pp.packet⟩ ::
        if ok then drainRequests clock rest bucket (reads + 1) else []

def drainDirRequests (clock : Nat → Int) (s : Limiter) (dir : Dir) : List Request :=
  if s.Selects dir then drainRequests clock (s.ctx.pending dir) (s.buckets dir) s.reads else []

/-- The reading of `refill` in a heartbeat. -/
def refillRequest (clock : Nat → Int) (s : Limiter) : Dir → Request
  | .encode => ⟨clock s.reads, none⟩
  | .decode => ⟨clock (s.reads + 1), none⟩

/-- The requests of a step for the bucket of a direction. -/
def requests (clock : Nat → Int) (s : Limiter) : Event → Dir → List Request
  | .packet dir _ buf len, d =>
      if d = dir ∧ s.Selects dir ∧ len ≠ 0 then [⟨clock s.reads, some (buf, len)⟩] else []
  | .heartbeat, .encode =>
      s.refillRequest clock .encode :: (s.refill clock).drainDirRequests clock .encode
  | .heartbeat, .decode =>
      s.refillRequest clock .decode ::
        ((s.refill clock).drainDir clock .encode).drainDirRequests clock .decode

/-- The packets that a run passes on in a direction. -/
def releases (clock : Nat → Int) : Limiter → List Event → Dir → List Release
  | _, [], _ => []
  | s, e :: es, d =>
      (s.buckets d).releases (s.requests clock e d) ++
        (s.step clock e).elim [] fun s' => s'.releases clock es d

end Limiter

/-- The times and the lengths of the packets. -/
def spending (log : List Release) : List (ℚ × ℚ) := log.map fun r => (r.1, r.2.2)

/-- The clock never goes back from one reading to a later one. -/
def NonDecreasing (clock : Nat → Int) : Prop := ∀ ⦃m n : Nat⦄, m ≤ n → clock m ≤ clock n

/-- In the directions that are limited, the time between two readings of the clock brings no more
tokens than are missing. -/
def NotIdle (clock : Nat → Int) (burst : Nat) (s : Limiter) (e : Event) : Prop :=
  ∀ dir, s.Selects dir → TokenBucket.Roomy burst (s.buckets dir) (s.requests clock e dir)

instance (clock : Nat → Int) (burst : Nat) (s : Limiter) (e : Event) :
    Decidable (NotIdle clock burst s e) :=
  decidable_of_iff
    ((s.Selects .encode →
        TokenBucket.Roomy burst (s.buckets .encode) (s.requests clock e .encode)) ∧
      (s.Selects .decode →
        TokenBucket.Roomy burst (s.buckets .decode) (s.requests clock e .decode)))
    ⟨fun h dir => by cases dir; exacts [h.1, h.2], fun h => ⟨h .encode, h .decode⟩⟩

/-! ## The readings in order -/

/-- The requests are made in the order of time between two instants. -/
def Timely : Int → List Request → Int → Prop
  | n, [], m => n ≤ m
  | n, q :: qs, m => n ≤ q.now ∧ Timely q.now qs m

theorem Timely.mono {qs : List Request} {n n' m : Int} (h : Timely n qs m) (hle : n' ≤ n) :
    Timely n' qs m := by
  cases qs with
  | nil => exact hle.trans h
  | cons q qs => exact ⟨hle.trans h.1, h.2⟩

theorem Timely.le {qs : List Request} {n m : Int} (h : Timely n qs m) : n ≤ m := by
  induction qs generalizing n with
  | nil => exact h
  | cons q qs ih => exact h.1.trans (ih h.2)

theorem Timely.append {qs qs' : List Request} {n m m' : Int} (h : Timely n qs m)
    (h' : Timely m qs' m') : Timely n (qs ++ qs') m' := by
  induction qs generalizing n with
  | nil => exact h'.mono h
  | cons q qs ih => exact ⟨h.1, ih h.2⟩

namespace TokenBucket

theorem serveAll_append (b : TokenBucket) (qs qs' : List Request) :
    b.serveAll (qs ++ qs') = (b.serveAll qs).serveAll qs' := by
  induction qs generalizing b with
  | nil => rfl
  | cons q qs ih => exact ih (b.serve q).2

theorem releases_append (b : TokenBucket) (qs qs' : List Request) :
    b.releases (qs ++ qs') = b.releases qs ++ (b.serveAll qs).releases qs' := by
  induction qs generalizing b with
  | nil => rfl
  | cons q qs ih => rw [List.cons_append, releases, ih, releases, serveAll, List.append_assoc]

end TokenBucket

/-! ## What a step does to the buckets -/

/-- From one state to another the buckets serve these requests. -/
structure Serves (clock : Nat → Int) (s s' : Limiter) (qs : Dir → List Request) : Prop where
  mask : s'.ctx.dirMask = s.ctx.dirMask
  buckets : ∀ d, s'.buckets d = (s.buckets d).serveAll (qs d)
  passed : ∀ d, s'.passed d = s.passed d ++ ((s.buckets d).releases (qs d)).map Prod.snd
  timely : ∀ d, Timely (clock s.reads) (qs d) (clock s'.reads)

theorem Serves.trans {clock : Nat → Int} {s s' s'' : Limiter} {qs qs' : Dir → List Request}
    (h : Serves clock s s' qs) (h' : Serves clock s' s'' qs') :
    Serves clock s s'' fun d => qs d ++ qs' d where
  mask := h'.mask.trans h.mask
  buckets d := by rw [h'.buckets, h.buckets, TokenBucket.serveAll_append]
  passed d := by
    rw [h'.passed, h.passed, h.buckets, TokenBucket.releases_append, List.map_append,
      List.append_assoc]
  timely d := (h.timely d).append (h'.timely d)

/-- The loop of `drain_dir` serves its requests. -/
theorem drainLoop_requests {clock : Nat → Int} (hclock : NonDecreasing clock) (dir : Dir)
    (ps : List PendingPacket) (bucket : TokenBucket) (reads : Nat) (call : Call) :
    let r := Limiter.drainLoop clock dir ps bucket reads call
    let qs := Limiter.drainRequests clock ps bucket reads
    r.2.1 = bucket.serveAll qs ∧
      (∀ d, passedBy r.2.2.2 d =
        passedBy call d ++ if d = dir then (bucket.releases qs).map Prod.snd else []) ∧
      Timely (clock reads) qs (clock r.2.2.1) := by
  induction ps generalizing bucket reads call with
  | nil =>
      refine ⟨rfl, fun d => ?_, Int.le_refl _⟩
      simp [Limiter.drainLoop, Limiter.drainRequests, TokenBucket.releases]
  | cons pp rest ih =>
      have hnext : clock reads ≤ clock (reads + 1) := hclock (Nat.le_succ reads)
      have hserve : bucket.serve ⟨clock reads, some pp.packet⟩ =
          bucket.tryConsume (clock reads) pp.len := rfl
      cases hok : (bucket.tryConsume (clock reads) pp.len).1 with
      | true =>
          obtain ⟨hbucket, hpassed, htimely⟩ := ih (bucket.tryConsume (clock reads) pp.len).2
            (reads + 1) (call.writePacket (writeDst dir) pp.data pp.len).2
          simp only [Limiter.drainLoop, Limiter.drainRequests, hok, if_true]
          refine ⟨hbucket, fun d => ?_, Int.le_refl _, htimely.mono hnext⟩
          rw [hpassed, passedBy_writePacket, TokenBucket.releases, hserve, hok]
          by_cases hd : d = dir
          · simp [hd, PendingPacket.packet]
          · simp [hd]
      | false =>
          simp only [Limiter.drainLoop, Limiter.drainRequests, hok, Bool.false_eq_true, if_false]
          refine ⟨rfl, fun d => ?_, Int.le_refl _, hnext⟩
          simp [TokenBucket.releases, hserve, hok]

theorem serves_drainDir {clock : Nat → Int} (hclock : NonDecreasing clock) (s : Limiter)
    (dir : Dir) : Serves clock s (s.drainDir clock dir) fun d =>
      if d = dir then s.drainDirRequests clock dir else [] := by
  have hloop := drainLoop_requests hclock dir (s.ctx.pending dir) (s.buckets dir) s.reads s.call
  obtain ⟨hbucket, hpassed, htimely⟩ := hloop
  by_cases hselects : s.Selects dir
  · have hrequests : s.drainDirRequests clock dir =
        Limiter.drainRequests clock (s.ctx.pending dir) (s.buckets dir) s.reads :=
      if_pos hselects
    rw [Limiter.drainDir, if_pos hselects, hrequests]
    refine ⟨dirMask_setPending _ _ _, fun d => ?_, fun d => ?_, fun d => ?_⟩
    · by_cases hd : d = dir
      · subst hd
        simpa using hbucket
      · simp [hd, TokenBucket.serveAll]
    · by_cases hd : d = dir
      · subst hd
        simpa [Limiter.passed] using hpassed d
      · simpa [Limiter.passed, hd, TokenBucket.releases] using hpassed d
    · by_cases hd : d = dir
      · rw [if_pos hd]
        exact htimely
      · rw [if_neg hd]
        exact htimely.le
  · have hrequests : s.drainDirRequests clock dir = [] := if_neg hselects
    rw [Limiter.drainDir, if_neg hselects, hrequests]
    refine ⟨rfl, fun d => ?_, fun d => ?_, fun d => ?_⟩
    · rw [ite_self]
      rfl
    · rw [ite_self]
      exact (List.append_nil _).symm
    · rw [ite_self]
      exact Int.le_refl _

theorem serves_refill {clock : Nat → Int} (hclock : NonDecreasing clock) (s : Limiter) :
    Serves clock s (s.refill clock) fun d => [s.refillRequest clock d] where
  mask := rfl
  buckets d := by cases d <;> rfl
  passed d := by cases d <;> exact (List.append_nil _).symm
  timely d := by
    have hle : s.reads ≤ s.reads + 2 := by omega
    cases d with
    | encode => exact ⟨Int.le_refl _, hclock hle⟩
    | decode => exact ⟨hclock (Nat.le_succ s.reads), hclock (Nat.le_succ (s.reads + 1))⟩

theorem serves_updateHeartbeat (clock : Nat → Int) (s : Limiter) :
    Serves clock s s.updateHeartbeat fun _ => [] where
  mask := dirMask_updateHeartbeat _
  buckets _ := rfl
  passed _ := (List.append_nil _).symm
  timely _ := Int.le_refl _

theorem serves_heartbeat {clock : Nat → Int} (hclock : NonDecreasing clock) (s : Limiter) :
    Serves clock s (s.heartbeat clock) (s.requests clock .heartbeat) := by
  have hall := (((serves_refill hclock s).trans (serves_drainDir hclock _ .encode)).trans
    (serves_drainDir hclock _ .decode)).trans (serves_updateHeartbeat clock _)
  refine ⟨hall.mask, fun d => ?_, fun d => ?_, fun d => ?_⟩
  · rw [Limiter.heartbeat, hall.buckets]
    cases d <;> simp [Limiter.requests]
  · rw [Limiter.heartbeat, hall.passed]
    cases d <;> simp [Limiter.requests]
  · have htimely := hall.timely d
    rw [Limiter.heartbeat]
    cases d <;> simpa [Limiter.requests] using htimely

theorem serves_process {clock : Nat → Int} (hclock : NonDecreasing clock) (s : Limiter) (dir : Dir)
    (srcIdx : Int) (buf len : Nat) :
    Serves clock s (s.process clock dir srcIdx buf len)
      (s.requests clock (.packet dir srcIdx buf len)) := by
  have hnext : clock s.reads ≤ clock (s.reads + 1) := hclock (Nat.le_succ s.reads)
  by_cases hasks : s.Selects dir ∧ len ≠ 0
  · obtain ⟨hselects, hlen⟩ := hasks
    have hdir : ¬ dirBits dir &&& s.ctx.dirMask = 0 := hselects
    have hserve : (s.buckets dir).serve ⟨clock s.reads, some (buf, len)⟩ = s.asked clock dir len :=
      rfl
    refine ⟨dirMask_process clock s dir srcIdx buf len, fun d => ?_, fun d => ?_, fun d => ?_⟩
    · by_cases hd : d = dir
      · subst hd
        simp [Limiter.process, Limiter.requests, hselects, hlen, TokenBucket.serveAll, hserve]
      · simp [Limiter.process, Limiter.requests, hselects, hlen, hd, TokenBucket.serveAll]
    · simp only [Limiter.process, Limiter.passed, Limit.process, if_neg hdir, if_neg hlen]
      cases hok : (s.asked clock dir len).1 with
      | true =>
          simp only [if_true, passedBy_writePacket]
          by_cases hd : d = dir
          · subst hd
            simp [Limiter.requests, hselects, hlen, TokenBucket.releases, hserve, hok]
          · simp [Limiter.requests, hd, TokenBucket.releases]
      | false =>
          have hnone : ((s.buckets d).releases
              (s.requests clock (.packet dir srcIdx buf len) d)).map Prod.snd = [] := by
            by_cases hd : d = dir
            · subst hd
              simp [Limiter.requests, hselects, hlen, TokenBucket.releases, hserve, hok]
            · simp [Limiter.requests, hd, TokenBucket.releases]
          rw [hnone, List.append_nil]
          simp only [Bool.false_eq_true, if_false, if_true]
          split_ifs <;> rfl
    · by_cases hd : d = dir
      · simpa [Limiter.process, Limiter.requests, hselects, hlen, hd, Timely] using hnext
      · simpa [Limiter.process, Limiter.requests, hselects, hlen, hd, Timely] using hnext
  · have hrequests : ∀ d, s.requests clock (.packet dir srcIdx buf len) d = [] :=
      fun d => if_neg fun h => hasks h.2
    have hcall :
        (Limit.process (s.asked clock dir len).1 true s.ctx dir srcIdx buf len s.call).2.2 =
          s.call := by
      by_cases hdir : dirBits dir &&& s.ctx.dirMask = 0
      · rw [Limit.process, if_pos hdir]
      · have hlen : len = 0 := by
          by_contra hlen
          exact hasks ⟨hdir, hlen⟩
        rw [Limit.process, if_neg hdir, if_pos hlen]
    refine ⟨dirMask_process clock s dir srcIdx buf len, fun d => ?_, fun d => ?_, fun d => ?_⟩
    · rw [hrequests]
      simp [Limiter.process, hasks, TokenBucket.serveAll]
    · rw [hrequests]
      simp [Limiter.process, Limiter.passed, hcall, TokenBucket.releases]
    · rw [hrequests]
      simp [Limiter.process, hasks, Timely]

theorem serves_step {clock : Nat → Int} (hclock : NonDecreasing clock) {s s' : Limiter} {e : Event}
    (h : s.step clock e = some s') : Serves clock s s' (s.requests clock e) := by
  cases e with
  | packet dir srcIdx buf len =>
      obtain rfl := Option.some.inj h
      exact serves_process hclock s dir srcIdx buf len
  | heartbeat =>
      obtain rfl := Option.some.inj h
      exact serves_heartbeat hclock s

/-! ## The bucket as an account -/

theorem ratePerNs_nonneg (rateBps : Nat) : 0 ≤ TokenBucket.ratePerNs rateBps :=
  div_nonneg (div_nonneg (Nat.cast_nonneg rateBps) (by norm_num)) (by norm_num)

/-- A bucket whose tokens are what the log has left of its account. -/
structure Bounded (rateBps burst : Nat) (b : TokenBucket) (log : List Release) : Prop where
  rate : b.rateBps = rateBps
  account : Account (burst : ℚ) (TokenBucket.ratePerNs rateBps) b.tokens b.lastNs (spending log)

namespace Bounded

variable {rateBps burst : Nat} {b : TokenBucket} {log : List Release}

theorem init (rateBps burst : Nat) (now : Int) :
    Bounded rateBps burst (TokenBucket.init rateBps burst now) [] where
  rate := rfl
  account := Account.init (Nat.cast_nonneg burst) (ratePerNs_nonneg rateBps) _

/-- A reading of the clock at which there is room. -/
theorem refill (h : Bounded rateBps burst b log) {now : Int} (hle : b.lastNs ≤ now)
    (hroom : b.HasRoom burst now) :
    Bounded rateBps burst (b.refill now) log ∧ (b.refill now).lastNs = now := by
  obtain ⟨rfl, account⟩ := h
  rcases hle.eq_or_lt with rfl | hlt
  · have hsame : b.refill b.lastNs = b := if_pos (by omega)
    rw [hsame]
    exact ⟨⟨rfl, account⟩, rfl⟩
  · have hrefill : b.refill now =
        { b with
          tokens := b.tokens + TokenBucket.ratePerNs b.rateBps * ((now - b.lastNs : Int) : ℚ)
          lastNs := now } :=
      if_neg (by omega)
    have haccrue := account.accrue (ratePerNs_nonneg b.rateBps) (Int.cast_le.mpr hle) hroom
    rw [hrefill]
    refine ⟨⟨rfl, ?_⟩, rfl⟩
    rw [Int.cast_sub]
    exact haccrue

/-- One request. -/
theorem serve (h : Bounded rateBps burst b log) {q : Request} (hle : b.lastNs ≤ q.now)
    (hroom : b.HasRoom burst q.now) :
    Bounded rateBps burst (b.serve q).2 (log ++ b.releases [q]) ∧
      (b.serve q).2.lastNs = q.now := by
  obtain ⟨hrefill, hlast⟩ := h.refill hle hroom
  obtain ⟨now, packet⟩ := q
  cases packet with
  | none =>
      have hlog : b.releases [⟨now, none⟩] = [] := rfl
      rw [hlog, List.append_nil]
      exact ⟨hrefill, hlast⟩
  | some p =>
      obtain ⟨buf, len⟩ := p
      by_cases henough : (b.refill now).tokens ≥ len
      · have hserve : b.serve ⟨now, some (buf, len)⟩ =
            (true, { b.refill now with tokens := (b.refill now).tokens - len }) := if_pos henough
        have hlog : b.releases [⟨now, some (buf, len)⟩] = [(now, buf, len)] := by
          rw [TokenBucket.releases, hserve]
          rfl
        have hspend :=
          hrefill.account.spend (ratePerNs_nonneg rateBps) (Nat.cast_nonneg len) henough
        rw [hserve, hlog]
        refine ⟨⟨hrefill.rate, ?_⟩, hlast⟩
        rw [spending, List.map_append]
        rwa [hlast] at hspend ⊢
      · have hserve : b.serve ⟨now, some (buf, len)⟩ = (false, b.refill now) := if_neg henough
        have hlog : b.releases [⟨now, some (buf, len)⟩] = [] := by
          rw [TokenBucket.releases, hserve]
          rfl
        rw [hserve, hlog, List.append_nil]
        exact ⟨hrefill, hlast⟩

/-- The requests of a step, and of a run. -/
theorem serveAll {qs : List Request} {m : Int} (h : Bounded rateBps burst b log)
    (htimely : Timely b.lastNs qs m) (hroomy : TokenBucket.Roomy burst b qs) :
    Bounded rateBps burst (b.serveAll qs) (log ++ b.releases qs) ∧ (b.serveAll qs).lastNs ≤ m := by
  induction qs generalizing b log with
  | nil =>
      rw [TokenBucket.releases, List.append_nil]
      exact ⟨h, htimely⟩
  | cons q qs ih =>
      obtain ⟨hserve, hlast⟩ := h.serve htimely.1 hroomy.1
      have hrest := ih hserve (hlast ▸ htimely.2) hroomy.2
      have hlog : b.releases (q :: qs) = b.releases [q] ++ (b.serve q).2.releases qs :=
        b.releases_append [q] qs
      rw [List.append_assoc, ← hlog] at hrest
      exact hrest

end Bounded

/-! ## Runs -/

/-- What is known of a direction that is limited, with the log of what it passed on. -/
structure InBurst (clock : Nat → Int) (rateBps burst : Nat) (s : Limiter) (dir : Dir)
    (log : List Release) : Prop where
  selects : s.Selects dir
  complete : s.passed dir = log.map Prod.snd
  bounded : Bounded rateBps burst (s.buckets dir) log
  last : (s.buckets dir).lastNs ≤ clock s.reads

theorem InBurst.init {clock : Nat → Int} (hclock : NonDecreasing clock) {dirMask : BitVec 2}
    (rateBps burst : Nat) {dir : Dir}
    (hdir : (Limiter.init clock dirMask rateBps burst).Selects dir) :
    InBurst clock rateBps burst (Limiter.init clock dirMask rateBps burst) dir [] where
  selects := hdir
  complete := by cases dir <;> rfl
  bounded := by cases dir <;> exact Bounded.init rateBps burst _
  last := by
    cases dir with
    | encode => exact hclock (Nat.zero_le 2)
    | decode => exact hclock (Nat.le_succ 1)

theorem InBurst.step {clock : Nat → Int} (hclock : NonDecreasing clock) {rateBps burst : Nat}
    {s s' : Limiter} {dir : Dir} {log : List Release} (h : InBurst clock rateBps burst s dir log)
    {e : Event} (hidle : NotIdle clock burst s e) (hstep : s.step clock e = some s') :
    InBurst clock rateBps burst s' dir
      (log ++ (s.buckets dir).releases (s.requests clock e dir)) := by
  have hserves := serves_step hclock hstep
  obtain ⟨hbounded, hlast⟩ := h.bounded.serveAll ((hserves.timely dir).mono h.last)
    (hidle dir h.selects)
  rw [← hserves.buckets] at hbounded hlast
  refine ⟨?_, ?_, hbounded, hlast⟩
  · rw [Limiter.Selects, hserves.mask]
    exact h.selects
  · rw [hserves.passed, h.complete, List.map_append]

theorem InBurst.run {clock : Nat → Int} (hclock : NonDecreasing clock) {rateBps burst : Nat}
    {s s' : Limiter} {dir : Dir} {log : List Release} (h : InBurst clock rateBps burst s dir log)
    {events : List Event} (hrun : run (Limiter.step clock) s events = some s')
    (hidle : Meets (Limiter.step clock) (NotIdle clock burst) s events) :
    InBurst clock rateBps burst s' dir (log ++ s.releases clock events dir) := by
  induction events generalizing s log with
  | nil =>
      obtain rfl : s = s' := by simpa [StepSystem.run] using hrun
      rwa [Limiter.releases, List.append_nil]
  | cons e events ih =>
      obtain ⟨t, hstep, hrest⟩ := run_cons_some hrun
      have hnext := ih (h.step hclock hidle.1 hstep) hrest (hidle.2 t hstep)
      rwa [Limiter.releases, hstep, Option.elim_some, ← List.append_assoc]

end PipelineTunnel.Modules.Limit
