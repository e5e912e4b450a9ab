import PipelineTunnel.Modules.Model

/-!
# The ownership contract of `process`

`enqueue_module` releases the packet when `process` returns a negative value and leaves it
to the module otherwise. A call is sound when the uses of every buffer add up: each new
buffer and, in a call that succeeds, the packet is used once more than before.
-/

namespace PipelineTunnel.Modules

open Pipeline (Dir)

variable {c : Call} {dir : Dir} {input n : Nat}

/-- How often a buffer was released or handed to `write_packet`. -/
def Call.uses (c : Call) (b : Nat) : Nat :=
  c.ledger.released.count b + (c.written.map Write.buf).count b

/-- The same, or kept in the module's queue. -/
def Result.uses (r : Result) (b : Nat) : Nat := r.call.uses b + r.queue.count b

/-- What `enqueue_module` relies on after a call that started with `n` buffers in use. -/
structure Honours (n input : Nat) (queue : List Nat) (r : Result) : Prop where
  /-- A call that fails leaves the packet to the caller. -/
  kept : r.ret < 0 → r.uses input = 0
  /-- A call that succeeds has released, passed on or stored the packet once. -/
  passed : 0 ≤ r.ret → r.uses input = 1
  allocated : ∀ b, n ≤ b → b < r.call.ledger.next → r.uses b = 1
  stored : ∀ b ∈ queue, r.uses b = 1

/-- A state in which the module may be called: its queue holds different buffers, and not
the packet. -/
structure Ready (inv : Invocation) (sizes : List Nat) (input : Nat) : Prop where
  live : input < sizes.length
  queue : ∀ b ∈ inv.queue, b < sizes.length
  distinct : (input :: inv.queue).Nodup

/-- A packet too short to decrypt, or a cipher that fails. -/
def Crypto.Fails (algo : Crypto.Algorithm) (lib : Crypto.Library) : Dir → Nat → Prop
  | .encode, _ => lib.encrypts = false
  | .decode, len => len < nonceSize algo + tagSize algo ∨ lib.decrypts = none

/-- The calls that lose the packet or release what the caller releases too: a direction that
`limit` is not to act on, and a failure of `crypto`. -/
def Breaks (inv : Invocation) (dir : Dir) (data : Bytes) : Prop :=
  match inv with
  | .limit _ _ ctx => Limit.dirBits dir &&& ctx.dirMask = 0
  | .crypto algo lib => Crypto.Fails algo lib dir data.length
  | .split _ _ _ | .compress _ _ | .base64 _ => False

/-! ## Adding up the uses -/

@[simp] theorem malloc_fst (c : Call) (size : Nat) : (c.malloc size).1 = c.ledger.next := rfl

@[simp] theorem next_malloc (c : Call) (size : Nat) :
    (c.malloc size).2.ledger.next = c.ledger.next + 1 := by
  simp [Call.malloc]

@[simp] theorem next_free (c : Call) (b : Nat) : (c.free b).ledger.next = c.ledger.next := rfl

@[simp] theorem next_writePacket (c : Call) (dst buf len : Nat) :
    (c.writePacket dst buf len).2.ledger.next = c.ledger.next := rfl

@[simp] theorem uses_malloc (c : Call) (size b : Nat) : (c.malloc size).2.uses b = c.uses b := rfl

@[simp] theorem uses_free (c : Call) (x b : Nat) : (c.free x).uses b = c.uses b + [x].count b := by
  simp only [Call.uses, Call.free, Ledger.released_free, List.count_append]
  omega

@[simp] theorem uses_writePacket (c : Call) (dst buf len b : Nat) :
    (c.writePacket dst buf len).2.uses b = c.uses b + [buf].count b := by
  simp only [Call.uses, Call.writePacket, List.map_append, List.map_singleton, List.count_append]
  omega

/-- One for each buffer from `n` to `m`. -/
def fresh (n m b : Nat) : Nat := if n ≤ b ∧ b < m then 1 else 0

@[simp] theorem fresh_self (n b : Nat) : fresh n n b = 0 := if_neg (by omega)

@[simp] theorem fresh_succ (n b : Nat) : fresh n (n + 1) b = [n].count b := by
  rw [List.count_singleton, fresh]
  by_cases hb : n = b
  · simp [hb]
  · rw [if_neg (by omega), if_neg (by simpa using hb)]

theorem fresh_add {n m k : Nat} (hnm : n ≤ m) (hmk : m ≤ k) (b : Nat) :
    fresh n k b = fresh n m b + fresh m k b := by
  simp only [fresh]
  split <;> split <;> split <;> omega

/-- The uses after a call that returns `ret`: those before, one for each buffer taken from
`malloc` or held in `held`, and one for the packet of a call that succeeds. -/
structure Balanced (c : Call) (held : List Nat) (input : Nat) (ret : Int) (c' : Call)
    (queue : List Nat) : Prop where
  next : c.ledger.next ≤ c'.ledger.next
  uses : ∀ b, c'.uses b + queue.count b =
    c.uses b + held.count b + fresh c.ledger.next c'.ledger.next b +
      if 0 ≤ ret then [input].count b else 0

theorem Balanced.honours {inv : Invocation} {sizes : List Nat} {r : Result}
    (h : Balanced (.start sizes) inv.queue input r.ret r.call r.queue)
    (hready : Ready inv sizes input) : Honours sizes.length input inv.queue r := by
  obtain ⟨hnotin, hnodup⟩ := List.nodup_cons.mp hready.distinct
  have huses : ∀ b, r.uses b = inv.queue.count b +
      fresh sizes.length r.call.ledger.next b + if 0 ≤ r.ret then [input].count b else 0 := by
    intro b
    have hb := h.uses b
    rw [show (Call.start sizes).uses b = 0 from rfl, Nat.zero_add] at hb
    exact hb
  have hqueue : inv.queue.count input = 0 := List.count_eq_zero_of_not_mem hnotin
  have hold : fresh sizes.length r.call.ledger.next input = 0 :=
    if_neg (by have := hready.live; omega)
  refine ⟨fun hneg => ?_, fun hpos => ?_, fun b hlo hhi => ?_, fun b hb => ?_⟩
  · rw [huses, hqueue, hold, if_neg (by omega)]
  · rw [huses, hqueue, hold, if_pos hpos]
    simp
  · have hinput : [input].count b = 0 := by
      rw [List.count_eq_zero, List.mem_singleton]
      have := hready.live
      omega
    rw [huses, List.count_eq_zero_of_not_mem fun hb => absurd (hready.queue b hb) (by omega),
      fresh, if_pos ⟨hlo, hhi⟩, hinput, ite_self]
  · have hinput : [input].count b = 0 := by
      rw [List.count_eq_zero, List.mem_singleton]
      exact fun heq => hnotin (heq ▸ hb)
    have hlt := hready.queue b hb
    rw [huses, List.count_eq_one_of_mem hnodup hb, fresh, if_neg (by omega), hinput, ite_self]

namespace Balanced

variable {held queue : List Nat} {ret : Int} {c' : Call}

/-- A call that fails before it has done anything. -/
theorem refused (c : Call) (input : Nat) : Balanced c [] input (-1) c [] where
  next := le_refl _
  uses b := by simp

/-- A call that releases the buffer it holds and fails. -/
theorem dropped (c : Call) (input buf : Nat) : Balanced c [buf] input (-1) (c.free buf) [] where
  next := le_refl _
  uses b := by simp

/-- A call that releases the packet and passes on the buffer it holds. -/
theorem replaced (c : Call) (input dst buf len : Nat) :
    Balanced c [buf] input 0 ((c.free input).writePacket dst buf len).2 [] where
  next := le_refl _
  uses b := by
    simp only [uses_writePacket, uses_free, next_writePacket, next_free, fresh_self,
      List.count_nil, le_refl, if_true]
    omega

/-- The same in the other order. -/
theorem passed (c : Call) (input dst buf len : Nat) :
    Balanced c [buf] input 0 ((c.writePacket dst buf len).2.free input) [] where
  next := le_refl _
  uses b := by
    simp only [uses_writePacket, uses_free, next_writePacket, next_free, fresh_self,
      List.count_nil, le_refl, if_true]
    omega

/-- A buffer from `malloc` is held from there on. -/
theorem of_malloc (size : Nat)
    (h : Balanced (c.malloc size).2 (c.ledger.next :: held) input ret c' queue) :
    Balanced c held input ret c' queue where
  next := by
    have := h.next
    rw [next_malloc] at this
    omega
  uses b := by
    have huses := h.uses b
    have hnext := h.next
    rw [next_malloc] at huses hnext
    rw [uses_malloc, Ledger.count_cons_split] at huses
    rw [fresh_add (Nat.le_add_right _ 1) hnext, fresh_succ]
    omega

/-- A buffer that is released was held until then. -/
theorem of_free {x : Nat} (h : Balanced (c.free x) held input ret c' queue) :
    Balanced c (held ++ [x]) input ret c' queue where
  next := h.next
  uses b := by
    have huses := h.uses b
    rw [next_free, uses_free] at huses
    rw [List.count_append]
    omega

end Balanced

/-! ## base64 -/

theorem Base64.process_balanced (lib : Base64.Library) (dir : Dir) (input len : Nat) (c : Call) :
    let r := Base64.process lib dir input len c
    Balanced c [] input r.1 r.2 [] := by
  intro r
  by_cases hlen : len ≤ 0
  · simp only [r, Base64.process, if_pos hlen]
    exact .refused c input
  · simp only [r, Base64.process, if_neg hlen]
    cases dir with
    | encode => exact .of_malloc _ (.replaced _ input _ _ _)
    | decode =>
        apply Balanced.of_malloc len
        cases lib.decoded with
        | none => exact .dropped _ input _
        | some outlen => exact .replaced _ input _ _ _

/-! ## limit -/

theorem Limit.queue_append (ctx : Limit.LimitCtx) (dir : Dir) (p : Limit.PendingPacket) (b : Nat) :
    (ctx.append dir p).queue.count b = ctx.queue.count b + [p.data].count b := by
  cases dir with
  | encode =>
      simp only [LimitCtx.append, LimitCtx.queue, List.map_append, List.map_singleton,
        List.count_append]
      omega
  | decode =>
      simp only [LimitCtx.append, LimitCtx.queue, List.map_append, List.map_singleton,
        List.count_append]
      omega

theorem Limit.queue_updateHeartbeat (ctx : Limit.LimitCtx) : ctx.updateHeartbeat.queue = ctx.queue := by
  simp only [LimitCtx.updateHeartbeat]
  split
  · rfl
  · split <;> rfl

/-- Nothing happens to a packet in the other direction, and the call succeeds. -/
theorem Limit.process_ignores (hasTokens appendOk : Bool) {ctx : Limit.LimitCtx} {dir : Dir}
    (hdir : dirBits dir &&& ctx.dirMask = 0) (srcIdx : Int) (input len : Nat) (c : Call) :
    Limit.process hasTokens appendOk ctx dir srcIdx input len c = (ctx, 0, c) :=
  if_pos hdir

/-- A packet in a direction that the module acts on is passed on, stored or released. -/
theorem Limit.process_balanced (hasTokens appendOk : Bool) {ctx : Limit.LimitCtx} {dir : Dir}
    (hdir : dirBits dir &&& ctx.dirMask ≠ 0) (srcIdx : Int) (input len : Nat) (c : Call) :
    let r := Limit.process hasTokens appendOk ctx dir srcIdx input len c
    Balanced c ctx.queue input r.2.1 r.2.2 r.1.queue := by
  intro r
  simp only [r, Limit.process, if_neg hdir]
  split
  · exact ⟨le_refl _, fun b => by simp⟩
  split
  · exact ⟨le_refl _, fun b => by
      simp only [uses_writePacket, next_writePacket, fresh_self]
      simp [Call.writePacket]
      omega⟩
  split
  · exact ⟨le_refl _, fun b => by simp; omega⟩
  split
  · exact ⟨le_refl _, fun b => by
      rw [queue_updateHeartbeat, queue_append]
      simp
      omega⟩
  · exact ⟨le_refl _, fun b => by simp; omega⟩

/-! ## crypto -/

/-- A call whose cipher works passes on a new buffer and releases the packet. -/
theorem Crypto.process_balanced {algo : Crypto.Algorithm} {lib : Crypto.Library} {dir : Dir}
    {len : Nat} (hok : ¬Fails algo lib dir len) (input : Nat) (c : Call) :
    let r := Crypto.process algo lib dir input len c
    Balanced c [] input r.1 r.2 [] := by
  intro r
  cases dir with
  | encode =>
      have hencrypts : lib.encrypts = true := Bool.eq_true_of_not_eq_false hok
      simp only [r, process, reduceCtorEq, false_and, if_false, encrypt, hencrypts, if_true]
      exact .of_malloc _ (.passed _ input _ _ _)
  | decode =>
      obtain ⟨hlen, hne⟩ := not_or.mp hok
      obtain ⟨plen, hplen⟩ := Option.ne_none_iff_exists'.mp hne
      simp only [r, process, true_and, if_neg hlen, decrypt, hplen]
      rw [if_neg (by omega)]
      cases algo with
      | chaCha20Poly1305 => exact .of_malloc _ (.passed _ input _ _ _)
      | xChaCha20Poly1305 => exact .of_malloc _ (.passed _ input _ _ _)
      | aes256Gcm => exact .of_malloc _ (.passed _ input _ _ _)
      | aes256Ctr => exact .of_malloc _ (.passed _ input _ _ _)

theorem Crypto.decrypt_fails (algo : Crypto.Algorithm) {lib : Crypto.Library}
    (hnone : lib.decrypts = none) (dst len : Nat) (c : Call) :
    (Crypto.decrypt algo lib dst len c).1 = -1 := by
  simp only [decrypt, hnone]
  split
  · rfl
  · cases algo <;> rfl

/-- A call that fails has released the packet all the same. -/
theorem Crypto.process_releases {algo : Crypto.Algorithm} {lib : Crypto.Library} {dir : Dir}
    {len : Nat} (hfails : Fails algo lib dir len) (input : Nat) (c : Call) :
    let r := Crypto.process algo lib dir input len c
    r.1 < 0 ∧ 0 < r.2.uses input := by
  intro r
  cases dir with
  | encode =>
      have hencrypts : lib.encrypts = false := hfails
      simp only [r, process, reduceCtorEq, false_and, if_false, encrypt, hencrypts]
      exact ⟨by decide, by simp⟩
  | decode =>
      by_cases hlen : len < nonceSize algo + tagSize algo
      · simp only [r, process, true_and, if_pos hlen]
        exact ⟨by decide, by simp⟩
      · have hnone : lib.decrypts = none := hfails.resolve_left hlen
        simp only [r, process, true_and, if_neg hlen, decrypt_fails algo hnone]
        exact ⟨by decide, by simp⟩

/-! ## compress -/

theorem Compress.finish_balanced (dir : Dir) (input outBuf outLen : Nat) (c : Call) :
    let r := Compress.finish dir input outBuf outLen c
    Balanced c [outBuf] input r.1 r.2 [] := by
  intro r
  simp only [r, finish]
  split
  · exact .dropped c input outBuf
  · exact .replaced c input _ outBuf outLen

theorem Compress.oneShot_balanced (dir : Dir) (cap : Nat) (outLen : Option Nat) (input : Nat)
    (c : Call) :
    let r := Compress.oneShot dir cap outLen input c
    Balanced c [] input r.1 r.2 [] := by
  intro r
  apply Balanced.of_malloc cap
  cases houtLen : outLen with
  | none => simp only [r, oneShot, houtLen]; exact .dropped _ input _
  | some outLen => simp only [r, oneShot, houtLen]; exact finish_balanced dir input _ outLen _

/-- However often the buffer is doubled, the loop holds one buffer. -/
theorem Compress.inflateLoop_balanced (input : Nat) : ∀ (rs : List Compress.Inflated)
    (cap outBuf : Nat) (c : Call) (r : Int × Call),
    Compress.inflateLoop input rs cap outBuf c = some r → Balanced c [outBuf] input r.1 r.2 [] := by
  intro rs
  induction rs with
  | nil => intro cap outBuf c r h; cases h
  | cons inflated rest ih =>
      intro cap outBuf c r h
      simp only [inflateLoop] at h
      split at h
      · obtain rfl := Option.some.inj h
        exact finish_balanced .decode input outBuf _ c
      split at h
      · split at h
        · obtain rfl := Option.some.inj h
          exact .dropped c input outBuf
        · apply Balanced.of_malloc (cap * 2)
          exact .of_free (ih _ _ _ _ h)
      · obtain rfl := Option.some.inj h
        exact .dropped c input outBuf

theorem Compress.decompress_balanced {algo : Compress.Algo} {lib : Compress.Library}
    {input srcLen : Nat} {c : Call} {r : Int × Call}
    (h : Compress.decompress algo lib input srcLen c = some r) : Balanced c [] input r.1 r.2 [] := by
  have hshot : ∀ cap, some (oneShot .decode cap lib.decompressed input c) = some r →
      Balanced c [] input r.1 r.2 [] := by
    intro cap heq
    obtain rfl := Option.some.inj heq
    exact oneShot_balanced .decode cap lib.decompressed input c
  have hrefused : some (-1, c) = some r → Balanced c [] input r.1 r.2 [] := by
    intro heq
    obtain rfl := Option.some.inj heq
    exact .refused c input
  cases algo with
  | zstd => exact hshot _ h
  | brotli => exact hshot _ h
  | lz4 => exact hshot _ h
  | lzo => exact hshot _ h
  | lzma => exact hshot _ h
  | snappy =>
      simp only [decompress] at h
      split at h
      · exact hrefused h
      · exact hshot _ h
  | rle =>
      simp only [decompress] at h
      split at h
      · exact hrefused h
      · exact hrefused h
      · exact hshot _ h
  | gzip =>
      simp only [decompress] at h
      apply Balanced.of_malloc (srcLen * 3 / 2 + 65536)
      split at h
      · exact inflateLoop_balanced input _ _ _ _ _ h
      · obtain rfl := Option.some.inj h
        exact .dropped _ input _

theorem Compress.process_balanced {algo : Compress.Algo} {lib : Compress.Library} {dir : Dir}
    {input len : Nat} {c : Call} {r : Int × Call}
    (h : Compress.process algo lib dir input len c = some r) : Balanced c [] input r.1 r.2 [] := by
  simp only [process] at h
  split at h
  · obtain rfl := Option.some.inj h
    exact .refused c input
  · cases dir with
    | encode =>
        obtain rfl := Option.some.inj h
        simp only [compress]
        split
        · exact .refused c input
        · exact oneShot_balanced .encode _ lib.compressed input c
    | decode => exact decompress_balanced h

/-! ## split -/

namespace SplitModule

open Split

/-- Every chunk goes out in a buffer of its own. -/
theorem writeChunks_spec : ∀ (chunks : List Split.Write) (c : Call),
    c.ledger.next ≤ (writeChunks chunks c).ledger.next ∧
      ∀ b, (writeChunks chunks c).uses b =
        c.uses b + fresh c.ledger.next (writeChunks chunks c).ledger.next b := by
  intro chunks
  induction chunks with
  | nil => intro c; simp [writeChunks]
  | cons chunk rest ih =>
      intro c
      obtain ⟨dst, bytes⟩ := chunk
      simp only [writeChunks, malloc_fst]
      obtain ⟨hnext, huses⟩ :=
        ih ((c.malloc bytes.length).2.writePacket dst c.ledger.next bytes.length).2
      rw [next_writePacket, next_malloc] at hnext huses
      refine ⟨by omega, fun b => ?_⟩
      rw [huses, uses_writePacket, uses_malloc, fresh_add (Nat.le_add_right _ 1) hnext, fresh_succ]
      omega

theorem splitLoop_pending (rand : Nat → Nat) : ∀ (fuel : Nat) (ctx : SplitContext) (chunks : Nat)
    (rest : Bytes), (splitLoop rand fuel ctx chunks rest).1.pending = ctx.pending := by
  intro fuel
  induction fuel with
  | zero => intro ctx chunks rest; rfl
  | succ fuel ih =>
      intro ctx chunks rest
      simp only [splitLoop]
      split
      · rfl
      · exact ih (afterChunk ctx) (chunks + 1) _

theorem processSplit_pending (rand : Nat → Nat) (ctx : SplitContext) (data : Bytes) :
    (Split.processSplit rand ctx data).1.pending = ctx.pending := by
  simp only [Split.processSplit]
  split
  · rfl
  · exact splitLoop_pending rand _ ctx 0 _

theorem processSplit_balanced (rand : Nat → Nat) (st : State) (input : Nat) {data : Bytes}
    (hdata : data ≠ []) (c : Call) :
    let r := processSplit rand st input data c
    Balanced c st.queue input r.2.1 r.2.2 r.1.queue := by
  intro r
  simp only [r, processSplit, if_neg hdata]
  obtain ⟨hnext, huses⟩ := writeChunks_spec (Split.processSplit rand st.ctx data).2 c
  refine ⟨hnext, fun b => ?_⟩
  rw [uses_free, huses, next_free, State.queue, processSplit_pending]
  simp only [le_refl, if_true, State.queue]
  omega

theorem freeSlots_spec (st : State) : ∀ (slots : List (Nat × SlotEntry)) (c : Call),
    (freeSlots st slots c).ledger.next = c.ledger.next ∧
      ∀ b, (freeSlots st slots c).uses b =
        c.uses b + (slots.map fun e => st.bufs e.1).count b := by
  intro slots
  induction slots with
  | nil => intro c; simp [freeSlots]
  | cons e rest ih =>
      intro c
      obtain ⟨hnext, huses⟩ := ih (c.free (st.bufs e.1))
      refine ⟨hnext, fun b => ?_⟩
      rw [freeSlots, huses, uses_free, List.map_cons,
        Ledger.count_cons_split (st.bufs e.1) (rest.map _)]
      omega

/-- A flush takes exactly the slots it releases out of the queue. -/
theorem queue_afterFlush (st : State) (b : Nat) :
    ((st.ctx.pending.range (st.ctx.expPkt <<< 16) (slotKey st.ctx.expPkt st.ctx.expChunk)).map
        fun e => st.bufs e.1).count b + (State.queue { st with ctx := afterFlush st.ctx }).count b =
      st.queue.count b := by
  have hperm := (st.ctx.pending.range_append_eraseRange_perm (st.ctx.expPkt <<< 16)
    (slotKey st.ctx.expPkt st.ctx.expChunk)).map fun e => st.bufs e.1
  have hcount := hperm.count_eq b
  rw [List.map_append, List.count_append] at hcount
  exact hcount

/-- Storing a chunk puts its buffer in the place of the one that was there. -/
theorem queue_storeChunk (st : State) (pktFull chunkId buf : Nat) (entry : SlotEntry) (b : Nat) :
    let key := slotKey pktFull chunkId
    let old := if (st.ctx.pending.find? key).isSome then [st.bufs key] else []
    (State.queue ⟨storeChunk st.ctx pktFull chunkId entry, Function.update st.bufs key buf⟩).count b +
      old.count b = st.queue.count b + [buf].count b := by
  intro key old
  set others := (st.ctx.pending.others key).map fun e => st.bufs e.1 with hothers
  have hold : st.queue.count b = old.count b + others.count b := by
    cases hfind : st.ctx.pending.find? key with
    | none =>
        have hsame := SortedMap.others_eq_of_find?_eq_none hfind
        simp [old, hfind, hothers, hsame, State.queue]
    | some se =>
        have hperm := (SortedMap.entries_perm_of_find?_eq_some hfind).map fun e => st.bufs e.1
        have hcount := hperm.count_eq b
        rw [List.map_cons, Ledger.count_cons_split] at hcount
        simpa [old, hfind, hothers, State.queue] using hcount
  have hnew : (State.queue ⟨storeChunk st.ctx pktFull chunkId entry,
      Function.update st.bufs key buf⟩).count b = [buf].count b + others.count b := by
    have hperm := (st.ctx.pending.insert_perm key entry).map fun e =>
      Function.update st.bufs key buf e.1
    have hcount := hperm.count_eq b
    have hrest : (st.ctx.pending.others key).map (fun e => Function.update st.bufs key buf e.1) =
        others := by
      apply List.map_congr_left
      intro e he
      have hne : e.1 ≠ key := by simpa using (List.mem_filter.mp he).2
      exact Function.update_of_ne hne buf st.bufs
    rw [List.map_cons, Function.update_self, hrest, Ledger.count_cons_split] at hcount
    exact hcount
  omega

/-- What the loop releases, it takes out of the queue. -/
theorem mergeLoop_spec : ∀ (fuel : Nat) (st : State) (c : Call) (st' : State) (c' : Call),
    mergeLoop fuel st c = some (st', c') →
    c.ledger.next ≤ c'.ledger.next ∧ ∀ b, c'.uses b + st'.queue.count b =
      c.uses b + st.queue.count b + fresh c.ledger.next c'.ledger.next b := by
  intro fuel
  induction fuel with
  | zero => intro st c st' c' h; cases h
  | succ fuel ih =>
      intro st c st' c' h
      simp only [mergeLoop] at h
      split at h
      · obtain ⟨rfl, rfl⟩ := Prod.mk.inj (Option.some.inj h)
        exact ⟨le_refl _, fun b => by simp⟩
      split at h
      · exact ih { st with ctx := nextChunk st.ctx } _ _ _ h
      · set key := slotKey st.ctx.expPkt st.ctx.expChunk
        set slots := st.ctx.pending.range (st.ctx.expPkt <<< 16) key
        obtain ⟨hfree, hslots⟩ := freeSlots_spec st slots (c.malloc (flushBytes st.ctx).length).2
        obtain ⟨hnext, huses⟩ := ih { st with ctx := afterFlush st.ctx } _ _ _ h
        rw [next_writePacket, hfree, next_malloc] at hnext huses
        refine ⟨by omega, fun b => ?_⟩
        have hqueue : (slots.map fun e => st.bufs e.1).count b + _ = _ := queue_afterFlush st b
        have hb := huses b
        rw [uses_writePacket, hslots, uses_malloc, malloc_fst] at hb
        rw [fresh_add (Nat.le_add_right _ 1) hnext, fresh_succ]
        omega

/-- Without the buffers this is the loop of `Split.mergeLoop`. -/
theorem mergeLoop_ctx : ∀ (fuel : Nat) (st : State) (c : Call),
    (mergeLoop fuel st c).map (fun r => r.1.ctx) = (Split.mergeLoop fuel st.ctx).map Prod.fst := by
  intro fuel
  induction fuel with
  | zero => intro st c; rfl
  | succ fuel ih =>
      intro st c
      simp only [mergeLoop, Split.mergeLoop]
      cases st.ctx.pending.find? (slotKey st.ctx.expPkt st.ctx.expChunk) with
      | none => rfl
      | some se =>
          by_cases hmore : se.more
          · simp only [hmore, if_true]
            exact ih { st with ctx := nextChunk st.ctx } c
          · simp only [hmore, if_false, Bool.false_eq_true, Option.map_map]
            exact ih { st with ctx := afterFlush st.ctx } _

theorem processMerge_balanced {fuel : Nat} {st st' : State} {input : Nat} {data : Bytes}
    (hdata : data ≠ []) {c c' : Call} {ret : Int}
    (h : processMerge fuel st input data c = some (st', ret, c')) :
    Balanced c st.queue input ret c' st'.queue := by
  have hfreed : ∀ ctx : SplitContext, ctx.pending = st.ctx.pending →
      some (({ st with ctx := ctx } : State), (0 : Int), c.free input) = some (st', ret, c') →
      Balanced c st.queue input ret c' st'.queue := by
    intro ctx hctx heq
    obtain ⟨rfl, hpair⟩ := Prod.mk.inj (Option.some.inj heq)
    obtain ⟨rfl, rfl⟩ := Prod.mk.inj hpair
    refine ⟨le_refl _, fun b => ?_⟩
    simp [State.queue, hctx]
    omega
  simp only [processMerge, if_neg hdata] at h
  split at h
  · exact hfreed st.ctx rfl h
  split at h
  · exact hfreed (loseChunk st.ctx) rfl h
  · set key := slotKey (expandPkt st.ctx.expPkt (readHeader data &&& 0x7FFF))
      ((readHeader data >>> 16) &&& 0xFFFF) with hkey
    set old := if (st.ctx.pending.find? key).isSome then [st.bufs key] else [] with hold
    set c₁ := if (st.ctx.pending.find? key).isSome then c.free (st.bufs key) else c with hc₁
    have hnext₁ : c₁.ledger.next = c.ledger.next := by
      rw [hc₁]
      split <;> rfl
    have huses₁ : ∀ b, c₁.uses b = c.uses b + old.count b := by
      intro b
      rw [hc₁, hold]
      split
      · exact uses_free c _ b
      · simp
    split at h
    · cases h
    case h_2 st₂ c₂ hloop =>
      obtain ⟨rfl, hpair⟩ := Prod.mk.inj (Option.some.inj h)
      obtain ⟨rfl, rfl⟩ := Prod.mk.inj hpair
      obtain ⟨hnext, huses⟩ := mergeLoop_spec _ _ _ _ _ hloop
      rw [next_malloc, hnext₁] at hnext huses
      refine ⟨by rw [next_free]; omega, fun b => ?_⟩
      have hb := huses b
      have hstore := queue_storeChunk st (expandPkt st.ctx.expPkt (readHeader data &&& 0x7FFF))
        ((readHeader data >>> 16) &&& 0xFFFF) c.ledger.next
        ⟨data.drop HEADER_SIZE, (data.drop HEADER_SIZE).length % 2 ^ 32,
          (readHeader data >>> 15) &&& 1 ≠ 0⟩ b
      rw [uses_malloc, huses₁, malloc_fst, hnext₁] at hb
      rw [uses_free, next_free, fresh_add (Nat.le_add_right _ 1) hnext, fresh_succ]
      simp only [le_refl, if_true]
      simp only [← hkey, ← hold] at hstore
      omega

end SplitModule

/-! ## The contract -/

/-- Whatever the state, the packet and the outcome of the library calls, a call of `process`
meets the contract, if it returns, unless it is one of those that break it; and each of
those does break it. -/
theorem honours_iff (inv : Invocation) (dir : Dir) (srcIdx : Int) {sizes : List Nat} {input : Nat}
    {data : Bytes} (hdata : data ≠ []) (hready : Ready inv sizes input) :
    (∀ r, inv.process dir srcIdx input data (.start sizes) = some r →
        Honours sizes.length input inv.queue r) ↔ ¬Breaks inv dir data := by
  cases inv with
  | split rand fuel st =>
      refine ⟨fun _ => by simp [Breaks], fun _ r hr => ?_⟩
      cases dir with
      | encode =>
          obtain rfl := Option.some.inj hr
          exact (SplitModule.processSplit_balanced rand st input hdata _).honours hready
      | decode =>
          obtain ⟨⟨st', ret, c'⟩, hmerge, rfl⟩ := Option.map_eq_some_iff.mp hr
          exact Balanced.honours (SplitModule.processMerge_balanced hdata hmerge) hready
  | limit hasTokens appendOk ctx =>
      constructor
      · intro h hbreaks
        have hprocess : Invocation.process (.limit hasTokens appendOk ctx) dir srcIdx input data
            (.start sizes) = some ⟨0, .start sizes, ctx.queue⟩ := by
          simp only [Invocation.process, Limit.process_ignores hasTokens appendOk hbreaks]
        have huse := (h _ hprocess).passed (le_refl _)
        have hnone : ctx.queue.count input = 0 :=
          List.count_eq_zero_of_not_mem (List.nodup_cons.mp hready.distinct).1
        rw [Result.uses, hnone] at huse
        cases huse
      · intro hdir r hr
        obtain rfl := Option.some.inj hr
        exact Balanced.honours (Limit.process_balanced hasTokens appendOk hdir srcIdx input _ _) hready
  | crypto algo lib =>
      constructor
      · intro h hbreaks
        obtain ⟨hneg, hpos⟩ := Crypto.process_releases hbreaks input (.start sizes)
        have hkept := (h _ rfl).kept hneg
        exact absurd (Nat.eq_zero_of_add_eq_zero_right hkept) (Nat.pos_iff_ne_zero.mp hpos)
      · intro hok r hr
        obtain rfl := Option.some.inj hr
        exact Balanced.honours (Crypto.process_balanced hok input _) hready
  | compress algo lib =>
      refine ⟨fun _ => by simp [Breaks], fun _ r hr => ?_⟩
      obtain ⟨⟨ret, c'⟩, hprocess, rfl⟩ := Option.map_eq_some_iff.mp hr
      exact Balanced.honours (Compress.process_balanced hprocess) hready
  | base64 lib =>
      refine ⟨fun _ => by simp [Breaks], fun _ r hr => ?_⟩
      obtain rfl := Option.some.inj hr
      exact Balanced.honours (Base64.process_balanced lib dir input _ _) hready

/-- A packet of forty bytes that AES-GCM decrypts, with two other buffers in use. -/
theorem honours_iff_gcm :
    let inv : Invocation := .crypto .aes256Gcm ⟨true, some 12⟩
    let data : Bytes := List.replicate 40 7
    Ready inv [5, 40, 9] 1 ∧
      inv.process .decode 1 1 data (.start [5, 40, 9]) =
        some ⟨0, ⟨⟨[5, 40, 9, 12], [1], -28⟩, [⟨0, 3, 12⟩]⟩, []⟩ ∧
      Honours 3 1 [] ⟨0, ⟨⟨[5, 40, 9, 12], [1], -28⟩, [⟨0, 3, 12⟩]⟩, []⟩ := by
  intro inv data
  have hready : Ready inv [5, 40, 9] 1 := ⟨by decide, by simp [inv, Invocation.queue], by decide⟩
  refine ⟨hready, rfl, (honours_iff inv .decode 1 (show data ≠ [] by decide) hready).mpr ?_ _ rfl⟩
  simp [inv, data, Breaks, Crypto.Fails, Crypto.nonceSize, Crypto.tagSize]

/-- A packet of one byte reaches `crypto` from the wire: it is released and the call fails, so
`enqueue_module` releases it again. `limit` on the other direction does nothing with its
packet and succeeds. -/
theorem crypto_short_packet_and_limit_ignored_direction :
    let crypto : Invocation := .crypto .chaCha20Poly1305 ⟨true, some 0⟩
    let limit : Invocation := .limit true true { dirMask := 1 }
    Ready crypto [1] 0 ∧ Ready limit [1] 0 ∧
      (∃ r, crypto.process .decode 1 0 [0] (.start [1]) = some r ∧ r.ret = -1 ∧
        r.call.ledger.released = [0] ∧ ¬Honours 1 0 [] r) ∧
      ∃ r, limit.process .decode 1 0 [0] (.start [1]) = some r ∧ r.ret = 0 ∧ r.uses 0 = 0 ∧
        ¬Honours 1 0 [] r := by
  intro crypto limit
  refine ⟨⟨by decide, by simp [crypto, Invocation.queue], by decide⟩,
    ⟨by decide, by simp [limit, Invocation.queue, Limit.LimitCtx.queue], by decide⟩,
    ⟨_, rfl, by decide, by decide, fun h => ?_⟩, _, rfl, by decide, by decide, fun h => ?_⟩
  · exact absurd (h.kept (by decide)) (by decide)
  · exact absurd (h.passed (by decide)) (by decide)

end PipelineTunnel.Modules
