import PipelineTunnel.Lib.StepSystem
import PipelineTunnel.Core.Protocol

/-!
# The write buffer

`common/write_buffer.h`: data that the socket does not take is kept in two queues, one for
normal and one for priority data. `::write` is an arbitrary `Socket`: for each call it
takes some of the bytes, has no room, or fails.

## Implementation notes

`Socket` numbers the calls of `::write`, so every behaviour of a socket along a run is one.
The loops have a bound on their rounds and return `none` beyond it; `flushUnlocked_spec`
shows that the bytes in the queues bound the rounds. `total_size` is an integer, so that
taking off too much would show as a negative number. The log of a `Channel` holds what the
socket took and what the callers handed over.
-/

namespace PipelineTunnel.Common

open StepSystem

/-- The two classes of data. -/
inductive Class where
  | normal
  | priority
deriving DecidableEq, Repr

/-- The outcome of `::write`: some bytes written, `EAGAIN` or `EWOULDBLOCK`, another error. -/
inductive Written where
  | wrote (n : Nat)
  | again
  | error
deriving DecidableEq, Repr

/-- What `::write` does at each call; a call for at least one byte that succeeds writes at
least one byte and no more than it was given. -/
structure Socket where
  write : Nat → Nat → Written
  valid : ∀ call len n, 0 < len → write call len = .wrote n → 1 ≤ n ∧ n ≤ len

structure WriteBuffer where
  priorityChunks : List Bytes := []
  priorityReadOffset : Nat := 0
  chunks : List Bytes := []
  readOffset : Nat := 0
  totalSize : Int := 0
deriving DecidableEq, Repr

/-- A write buffer with its socket: the number of `::write` calls made, how many of them
failed, and what the socket took. -/
structure Channel where
  buf : WriteBuffer := {}
  calls : Nat := 0
  errors : Nat := 0
  taken : List (Class × Bytes) := []
deriving DecidableEq, Repr

/-! ## Queues of chunks -/

/-- The front chunk after `n` more of its bytes have been written. -/
def advance : List Bytes → Nat → Nat → List Bytes × Nat
  | [], offset, _ => ([], offset)
  | front :: rest, offset, n =>
      if offset + n ≥ front.length then (rest, 0) else (front :: rest, offset + n)

/-- The bytes of a queue that have not been written. -/
def unwritten (chunks : List Bytes) (offset : Nat) : Bytes := chunks.flatten.drop offset

/-- No chunk is empty and the offset is inside the front chunk. -/
structure Queued (chunks : List Bytes) (offset : Nat) : Prop where
  filled : ∀ chunk ∈ chunks, chunk ≠ []
  inside : ∀ front ∈ chunks.head?, offset < front.length
  empty : chunks = [] → offset = 0

theorem Queued.nil : Queued [] 0 := ⟨nofun, nofun, fun _ => rfl⟩

theorem Queued.tail {front : Bytes} {rest : List Bytes} {offset : Nat}
    (h : Queued (front :: rest) offset) : Queued rest 0 := by
  refine ⟨fun chunk hmem => h.filled chunk (List.mem_cons_of_mem front hmem), ?_, fun _ => rfl⟩
  intro next hnext
  exact List.length_pos_iff.mpr
    (h.filled next (List.mem_cons_of_mem front (List.mem_of_mem_head? hnext)))

theorem Queued.concat {chunks : List Bytes} {offset : Nat} (h : Queued chunks offset)
    {data : Bytes} (hdata : data ≠ []) : Queued (chunks ++ [data]) offset := by
  refine ⟨?_, ?_, by simp⟩
  · intro chunk hmem
    rcases List.mem_append.mp hmem with hmem | hmem
    · exact h.filled chunk hmem
    · rw [List.mem_singleton.mp hmem]
      exact hdata
  · intro front hfront
    cases hc : chunks with
    | nil =>
        rw [hc] at hfront
        obtain rfl : data = front := by simpa using hfront
        rw [h.empty hc]
        exact List.length_pos_iff.mpr hdata
    | cons first rest =>
        rw [hc] at hfront
        obtain rfl : first = front := by simpa using hfront
        exact h.inside first (by rw [hc]; rfl)

theorem Queued.advance {front : Bytes} {rest : List Bytes} {offset : Nat}
    (h : Queued (front :: rest) offset) (n : Nat) :
    Queued (advance (front :: rest) offset n).1 (advance (front :: rest) offset n).2 := by
  rw [Common.advance]
  split
  · exact h.tail
  · rename_i hlt
    refine ⟨h.filled, ?_, nofun⟩
    intro first hfirst
    obtain rfl : front = first := by simpa using hfirst
    dsimp only
    omega

theorem Queued.offset_le {chunks : List Bytes} {offset : Nat} (h : Queued chunks offset) :
    offset ≤ chunks.flatten.length := by
  cases hc : chunks with
  | nil => rw [h.empty hc]; exact Nat.zero_le _
  | cons front rest =>
      have := h.inside front (by rw [hc]; rfl)
      rw [List.flatten_cons, List.length_append]
      omega

theorem unwritten_concat {chunks : List Bytes} {offset : Nat}
    (hle : offset ≤ chunks.flatten.length) (data : Bytes) :
    unwritten (chunks ++ [data]) offset = unwritten chunks offset ++ data := by
  rw [unwritten, List.flatten_append, List.drop_append_of_le_length hle]
  simp [unwritten]

/-- What has been written and what is left are what there was. -/
theorem unwritten_advance {front : Bytes} (rest : List Bytes) {offset : Nat} (n : Nat)
    (hin : offset ≤ front.length) :
    (front.drop offset).take n ++
        unwritten (advance (front :: rest) offset n).1 (advance (front :: rest) offset n).2 =
      unwritten (front :: rest) offset := by
  have hwhole : unwritten (front :: rest) offset = front.drop offset ++ rest.flatten := by
    rw [unwritten, List.flatten_cons, List.drop_append_of_le_length hin]
  rw [hwhole, Common.advance]
  split
  · rw [List.take_of_length_le (by rw [List.length_drop]; omega)]
    rfl
  · dsimp only
    rw [unwritten, List.flatten_cons, List.drop_append_of_le_length (by omega), ← List.append_assoc,
      ← List.drop_drop, List.take_append_drop]

/-! ## The operations -/

variable (sock : Socket)

/-- Record a call of `::write` that took `data`. -/
def Channel.took (s : Channel) (cls : Class) (data : Bytes) : Channel :=
  { s with calls := s.calls + 1, taken := s.taken ++ [(cls, data)] }

/-- Record a call of `::write` without room. -/
def Channel.noRoom (s : Channel) : Channel := { s with calls := s.calls + 1 }

/-- Record a call of `::write` that failed. -/
def Channel.failed (s : Channel) : Channel :=
  { s with calls := s.calls + 1, errors := s.errors + 1 }

/-- The front chunk of the priority queue after the socket took `n` bytes of it. -/
def priorityTaken (s : Channel) (msg : Bytes) (rest : List Bytes) (n : Nat) : Channel :=
  let next := advance (msg :: rest) s.buf.priorityReadOffset n
  { s.took .priority ((msg.drop s.buf.priorityReadOffset).take n) with
    buf := { s.buf with
      priorityChunks := next.1
      priorityReadOffset := next.2
      totalSize := s.buf.totalSize - n } }

def normalTaken (s : Channel) (front : Bytes) (rest : List Bytes) (n : Nat) : Channel :=
  let next := advance (front :: rest) s.buf.readOffset n
  { s.took .normal ((front.drop s.buf.readOffset).take n) with
    buf := { s.buf with
      chunks := next.1
      readOffset := next.2
      totalSize := s.buf.totalSize - n } }

/-- `flush_priority_unlocked`. -/
def flushPriorityUnlocked : Nat → Channel → Option (Channel × Bool)
  | 0, _ => none
  | fuel + 1, s =>
      match s.buf.priorityChunks with
      | [] => some (s, true)
      | msg :: rest =>
          match sock.write s.calls (msg.drop s.buf.priorityReadOffset).length with
          | .wrote n =>
              if n > 0 then flushPriorityUnlocked fuel (priorityTaken s msg rest n)
              else flushPriorityUnlocked fuel (s.took .priority [])
          | .again => some (s.noRoom, false)
          | .error => some (s.failed, true)

/-- `flush_unlocked`; `bound` limits the rounds of the priority loop. -/
def flushUnlockedLoop (bound : Nat) : Nat → Channel → Option (Channel × Bool)
  | 0, _ => none
  | fuel + 1, s =>
      match s.buf.chunks with
      | [] => flushPriorityUnlocked sock bound s
      | front :: rest =>
          match sock.write s.calls (front.drop s.buf.readOffset).length with
          | .wrote n =>
              if n > 0 then
                let s' := normalTaken s front rest n
                if s.buf.readOffset + n ≥ front.length then
                  match flushPriorityUnlocked sock bound s' with
                  | none => none
                  | some (s'', false) => some (s'', false)
                  | some (s'', true) => flushUnlockedLoop bound fuel s''
                else flushUnlockedLoop bound fuel s'
              else flushUnlockedLoop bound fuel (s.took .normal [])
          | .again => some (s.noRoom, false)
          | .error => some (s.failed, true)

/-- A bound on the rounds of a loop over a queue. -/
def roundBound (chunks : List Bytes) (offset : Nat) : Nat := (unwritten chunks offset).length + 1

def flushUnlocked (s : Channel) : Option (Channel × Bool) :=
  flushUnlockedLoop sock (roundBound s.buf.priorityChunks s.buf.priorityReadOffset)
    (roundBound s.buf.chunks s.buf.readOffset) s

/-- Append to the normal queue. -/
def WriteBuffer.append (b : WriteBuffer) (data : Bytes) : WriteBuffer :=
  { b with chunks := b.chunks ++ [data], totalSize := b.totalSize + data.length }

/-- `write` behind the attempt to flush. -/
def writeDirect (s : Channel) (data : Bytes) : Channel × Int :=
  match sock.write s.calls data.length with
  | .again => ({ s.noRoom with buf := s.buf.append data }, 1)
  | .error => (s.failed, -1)
  | .wrote n =>
      if n < data.length then
        ({ s.took .normal (data.take n) with buf := s.buf.append (data.drop n) }, 1)
      else (s.took .normal data, 0)

def write (s : Channel) (data : Bytes) : Option (Channel × Int) :=
  if s.buf.chunks ≠ [] then
    match flushUnlocked sock s with
    | none => none
    | some (s, _) =>
        if s.buf.chunks ≠ [] then some ({ s with buf := s.buf.append data }, 1)
        else some (writeDirect sock s data)
  else some (writeDirect sock s data)

def writePriority (s : Channel) (data : Bytes) : Channel :=
  { s with
    buf := { s.buf with
      priorityChunks := s.buf.priorityChunks ++ [data]
      totalSize := s.buf.totalSize + data.length } }

def flush (s : Channel) : Option (Channel × Bool) := flushUnlocked sock s

/-! ## What is kept -/

/-- The bytes of one class that the socket took. -/
def Channel.takenOf (s : Channel) (cls : Class) : Bytes :=
  (s.taken.filter (·.1 = cls)).flatMap Prod.snd

/-- The bytes of the queues. -/
def WriteBuffer.normal (b : WriteBuffer) : Bytes := unwritten b.chunks b.readOffset

def WriteBuffer.priority (b : WriteBuffer) : Bytes :=
  unwritten b.priorityChunks b.priorityReadOffset

/-- `normal` and `priority` are the data handed over so far. -/
structure Exact (s : Channel) (normal priority : Bytes) : Prop where
  normalQueue : Queued s.buf.chunks s.buf.readOffset
  priorityQueue : Queued s.buf.priorityChunks s.buf.priorityReadOffset
  normal : s.takenOf .normal ++ s.buf.normal = normal
  priority : s.takenOf .priority ++ s.buf.priority = priority
  total : s.buf.totalSize = s.buf.normal.length + s.buf.priority.length

@[simp] theorem takenOf_took (s : Channel) (cls cls' : Class) (data : Bytes) :
    (s.took cls data).takenOf cls' = s.takenOf cls' ++ if cls = cls' then data else [] := by
  by_cases h : cls = cls' <;> simp [Channel.takenOf, Channel.took, h]

@[simp] theorem took_buf (s : Channel) (cls : Class) (data : Bytes) :
    (s.took cls data).buf = s.buf := rfl

variable {s : Channel} {N P : Bytes}

theorem Exact.noRoom (h : Exact s N P) : Exact s.noRoom N P :=
  ⟨h.normalQueue, h.priorityQueue, h.normal, h.priority, h.total⟩

theorem Exact.failed (h : Exact s N P) : Exact s.failed N P :=
  ⟨h.normalQueue, h.priorityQueue, h.normal, h.priority, h.total⟩

theorem length_unwritten_advance {front : Bytes} (rest : List Bytes) {offset n : Nat}
    (hin : offset ≤ front.length) (hn : n ≤ (front.drop offset).length) :
    n + (unwritten (advance (front :: rest) offset n).1
        (advance (front :: rest) offset n).2).length =
      (unwritten (front :: rest) offset).length := by
  have hlen := congrArg List.length (unwritten_advance rest n hin)
  rw [List.length_append, List.length_take, Nat.min_eq_left hn] at hlen
  exact hlen

theorem Queued.rest_pos {front : Bytes} {rest : List Bytes} {offset : Nat}
    (h : Queued (front :: rest) offset) : 0 < (front.drop offset).length := by
  have := h.inside front rfl
  rw [List.length_drop]
  omega

theorem Exact.priorityTaken (h : Exact s N P) {msg : Bytes} {rest : List Bytes} {n : Nat}
    (hchunks : s.buf.priorityChunks = msg :: rest)
    (hn : n ≤ (msg.drop s.buf.priorityReadOffset).length) :
    Exact (priorityTaken s msg rest n) N P ∧
      n + (Common.priorityTaken s msg rest n).buf.priority.length = s.buf.priority.length := by
  have hqueue := h.priorityQueue
  rw [hchunks] at hqueue
  have hin := Nat.le_of_lt (hqueue.inside _ rfl)
  have hlen := length_unwritten_advance rest hin hn
  have hbytes := unwritten_advance rest n hin
  have hpriority := h.priority
  have htotal := h.total
  simp only [WriteBuffer.priority, hchunks] at hpriority htotal
  refine ⟨⟨h.normalQueue, hqueue.advance n, ?_, ?_, ?_⟩, ?_⟩
  · simpa [Common.priorityTaken, Channel.takenOf, Channel.took, WriteBuffer.normal] using h.normal
  · rw [← hpriority, ← hbytes, ← List.append_assoc]
    simp [Common.priorityTaken, Channel.takenOf, Channel.took, WriteBuffer.priority]
  · simp only [Common.priorityTaken, WriteBuffer.priority, WriteBuffer.normal] at htotal ⊢
    omega
  · simpa [Common.priorityTaken, WriteBuffer.priority, hchunks] using hlen

theorem Exact.normalTaken (h : Exact s N P) {front : Bytes} {rest : List Bytes} {n : Nat}
    (hchunks : s.buf.chunks = front :: rest)
    (hn : n ≤ (front.drop s.buf.readOffset).length) :
    Exact (normalTaken s front rest n) N P ∧
      n + (Common.normalTaken s front rest n).buf.normal.length = s.buf.normal.length := by
  have hqueue := h.normalQueue
  rw [hchunks] at hqueue
  have hin := Nat.le_of_lt (hqueue.inside _ rfl)
  have hlen := length_unwritten_advance rest hin hn
  have hbytes := unwritten_advance rest n hin
  have hnormal := h.normal
  have htotal := h.total
  simp only [WriteBuffer.normal, hchunks] at hnormal htotal
  refine ⟨⟨hqueue.advance n, h.priorityQueue, ?_, ?_, ?_⟩, ?_⟩
  · rw [← hnormal, ← hbytes, ← List.append_assoc]
    simp [Common.normalTaken, Channel.takenOf, Channel.took, WriteBuffer.normal]
  · simpa [Common.normalTaken, Channel.takenOf, Channel.took, WriteBuffer.priority] using
      h.priority
  · simp only [Common.normalTaken, WriteBuffer.priority, WriteBuffer.normal] at htotal ⊢
    omega
  · simpa [Common.normalTaken, WriteBuffer.normal, hchunks] using hlen

/-- The loop over the priority queue. -/
theorem flushPriorityUnlocked_spec (sock : Socket) (fuel : Nat) : ∀ {s : Channel}, Exact s N P →
    s.buf.priority.length < fuel →
    ∃ s' ok, flushPriorityUnlocked sock fuel s = some (s', ok) ∧ Exact s' N P ∧
      s'.buf.normal = s.buf.normal ∧ s'.buf.chunks = s.buf.chunks ∧
      s'.buf.priority.length ≤ s.buf.priority.length ∧ s.errors ≤ s'.errors ∧
      (ok = true → s'.errors = s.errors → s'.buf.priorityChunks = []) := by
  induction fuel with
  | zero => intro s _ hlt; omega
  | succ fuel ih =>
      intro s h hlt
      rw [flushPriorityUnlocked]
      cases hchunks : s.buf.priorityChunks with
      | nil => exact ⟨s, true, rfl, h, rfl, rfl, Nat.le_refl _, Nat.le_refl _, fun _ _ => hchunks⟩
      | cons msg rest =>
          have hqueue := h.priorityQueue
          rw [hchunks] at hqueue
          dsimp only
          cases hwrite : sock.write s.calls (msg.drop s.buf.priorityReadOffset).length with
          | wrote n =>
              obtain ⟨hpos, hle⟩ := sock.valid _ _ _ hqueue.rest_pos hwrite
              obtain ⟨hexact, hlen⟩ := h.priorityTaken hchunks hle
              obtain ⟨s', ok, hrun, hexact', hnormal, hkeep, hshrink, herr, hdone⟩ :=
                ih hexact (by omega)
              refine ⟨s', ok, ?_, hexact', hnormal, hkeep, by omega, herr, hdone⟩
              exact (if_pos hpos).trans hrun
          | again =>
              exact ⟨_, false, rfl, h.noRoom, rfl, rfl, Nat.le_refl _, Nat.le_refl _, nofun⟩
          | error =>
              refine ⟨_, true, rfl, h.failed, rfl, rfl, Nat.le_refl _, Nat.le_succ _, ?_⟩
              intro _ heq
              exact absurd heq (Nat.succ_ne_self s.errors)

/-- The loop over the normal queue with the priority data between the frames. -/
theorem flushUnlockedLoop_spec (sock : Socket) {bound : Nat} (fuel : Nat) :
    ∀ {s : Channel}, Exact s N P →
    s.buf.normal.length < fuel → s.buf.priority.length < bound →
    ∃ s' ok, flushUnlockedLoop sock bound fuel s = some (s', ok) ∧ Exact s' N P ∧
      s.errors ≤ s'.errors ∧
      (ok = true → s'.errors = s.errors → s'.buf.chunks = [] ∧ s'.buf.priorityChunks = []) := by
  induction fuel with
  | zero => intro s _ hlt; omega
  | succ fuel ih =>
      intro s h hlt hbound
      rw [flushUnlockedLoop]
      cases hchunks : s.buf.chunks with
      | nil =>
          obtain ⟨s', ok, hrun, hexact, -, hkeep, -, herr, hdone⟩ :=
            flushPriorityUnlocked_spec sock bound h hbound
          exact ⟨s', ok, hrun, hexact, herr, fun hok heq => ⟨hkeep.trans hchunks, hdone hok heq⟩⟩
      | cons front rest =>
          have hqueue := h.normalQueue
          rw [hchunks] at hqueue
          dsimp only
          cases hwrite : sock.write s.calls (front.drop s.buf.readOffset).length with
          | wrote n =>
              obtain ⟨hpos, hle⟩ := sock.valid _ _ _ hqueue.rest_pos hwrite
              obtain ⟨hexact, hlen⟩ := h.normalTaken hchunks hle
              simp only [gt_iff_lt, if_pos (show 0 < n from hpos)]
              by_cases hframe : s.buf.readOffset + n ≥ front.length
              · -- at the end of a frame the priority data goes first
                obtain ⟨s₁, ok₁, hrun₁, hexact₁, hnormal₁, -, hshrink₁, herr₁, -⟩ :=
                  flushPriorityUnlocked_spec sock bound hexact hbound
                simp only [if_pos hframe, hrun₁]
                cases ok₁ with
                | false => exact ⟨s₁, false, rfl, hexact₁, herr₁, nofun⟩
                | true =>
                    have hless : s₁.buf.normal.length < fuel := by rw [hnormal₁]; omega
                    obtain ⟨s', ok, hrun, hexact', herr, hdone⟩ :=
                      ih hexact₁ hless (Nat.lt_of_le_of_lt hshrink₁ hbound)
                    have herr₁' : s.errors ≤ s₁.errors := herr₁
                    refine ⟨s', ok, hrun, hexact', by omega, fun hok heq => hdone hok (by omega)⟩
              · simp only [if_neg hframe]
                obtain ⟨s', ok, hrun, hexact', herr, hdone⟩ := ih hexact (by omega) hbound
                exact ⟨s', ok, hrun, hexact', herr, hdone⟩
          | again => exact ⟨_, false, rfl, h.noRoom, Nat.le_refl _, nofun⟩
          | error =>
              refine ⟨_, true, rfl, h.failed, Nat.le_succ _, ?_⟩
              intro _ heq
              exact absurd heq (Nat.succ_ne_self s.errors)

theorem flushUnlocked_spec (sock : Socket) (h : Exact s N P) :
    ∃ s' ok, flushUnlocked sock s = some (s', ok) ∧ Exact s' N P ∧ s.errors ≤ s'.errors ∧
      (ok = true → s'.errors = s.errors → s'.buf.chunks = [] ∧ s'.buf.priorityChunks = []) :=
  flushUnlockedLoop_spec sock _ h (Nat.lt_succ_self _) (Nat.lt_succ_self _)

theorem Exact.append (h : Exact s N P) {data : Bytes} (hdata : data ≠ []) :
    Exact { s with buf := s.buf.append data } (N ++ data) P := by
  have hbytes := unwritten_concat h.normalQueue.offset_le data
  have htotal := h.total
  refine ⟨h.normalQueue.concat hdata, h.priorityQueue, ?_, h.priority, ?_⟩
  · rw [← h.normal, List.append_assoc]
    exact congrArg (s.takenOf .normal ++ ·) hbytes
  · have hlen := congrArg List.length hbytes
    rw [List.length_append] at hlen
    simp only [WriteBuffer.append, WriteBuffer.normal, WriteBuffer.priority] at htotal ⊢
    omega

/-- Normal data that goes straight to the socket must not have normal data before it. -/
theorem Exact.took (h : Exact s N P) (hempty : s.buf.chunks = []) (data : Bytes) :
    Exact (s.took .normal data) (N ++ data) P := by
  have hnone : s.buf.normal = [] := by
    rw [WriteBuffer.normal, hempty, h.normalQueue.empty hempty]
    rfl
  refine ⟨h.normalQueue, h.priorityQueue, ?_, ?_, h.total⟩
  · rw [← h.normal, takenOf_took, took_buf, hnone, if_pos rfl, List.append_nil, List.append_nil]
  · rw [← h.priority, takenOf_took, took_buf, if_neg (by decide), List.append_nil]

theorem writeDirect_spec (sock : Socket) (h : Exact s N P) (hempty : s.buf.chunks = [])
    {data : Bytes} (hdata : data ≠ []) :
    ∃ s' r, writeDirect sock s data = (s', r) ∧
      ((r = 0 ∨ r = 1) ∧ Exact s' (N ++ data) P ∨ r = -1 ∧ Exact s' N P) := by
  rw [writeDirect]
  cases hwrite : sock.write s.calls data.length with
  | again => exact ⟨_, 1, rfl, .inl ⟨.inr rfl, h.noRoom.append hdata⟩⟩
  | error => exact ⟨_, -1, rfl, .inr ⟨rfl, h.failed⟩⟩
  | wrote n =>
      obtain ⟨-, hle⟩ := sock.valid _ _ _ (List.length_pos_iff.mpr hdata) hwrite
      by_cases hlt : n < data.length
      · refine ⟨_, 1, if_pos hlt, .inl ⟨.inr rfl, ?_⟩⟩
        have hrest : data.drop n ≠ [] := by
          rw [← List.length_pos_iff, List.length_drop]
          omega
        have hexact := (h.took hempty (data.take n)).append hrest
        rw [List.append_assoc, List.take_append_drop] at hexact
        exact hexact
      · exact ⟨_, 0, if_neg hlt, .inl ⟨.inl rfl, h.took hempty data⟩⟩

theorem write_spec (sock : Socket) (h : Exact s N P) {data : Bytes} (hdata : data ≠ []) :
    ∃ s' r, write sock s data = some (s', r) ∧
      ((r = 0 ∨ r = 1) ∧ Exact s' (N ++ data) P ∨ r = -1 ∧ Exact s' N P) := by
  rw [write]
  by_cases hempty : s.buf.chunks = []
  · rw [if_neg (not_not.mpr hempty)]
    obtain ⟨s', r, hrun, hresult⟩ := writeDirect_spec sock h hempty hdata
    exact ⟨s', r, by rw [hrun], hresult⟩
  · obtain ⟨s₁, ok, hflush, hexact, -⟩ := flushUnlocked_spec sock h
    rw [if_pos hempty, hflush]
    by_cases hempty₁ : s₁.buf.chunks = []
    · obtain ⟨s', r, hrun, hresult⟩ := writeDirect_spec sock hexact hempty₁ hdata
      refine ⟨s', r, ?_, hresult⟩
      simp only [if_neg (not_not.mpr hempty₁), hrun]
    · refine ⟨_, 1, ?_, .inl ⟨.inr rfl, hexact.append hdata⟩⟩
      simp only [if_pos hempty₁]

theorem writePriority_spec (h : Exact s N P) {data : Bytes} (hdata : data ≠ []) :
    Exact (writePriority s data) N (P ++ data) := by
  have hbytes := unwritten_concat h.priorityQueue.offset_le data
  have htotal := h.total
  refine ⟨h.normalQueue, h.priorityQueue.concat hdata, h.normal, ?_, ?_⟩
  · rw [← h.priority, List.append_assoc]
    exact congrArg (s.takenOf .priority ++ ·) hbytes
  · have hlen := congrArg List.length hbytes
    rw [List.length_append] at hlen
    simp only [writePriority, WriteBuffer.normal, WriteBuffer.priority] at htotal ⊢
    omega

/-! ## Any data -/

section AnyData

/-- The socket never fails. -/
def Socket.Reliable (sock : Socket) : Prop := ∀ call len, sock.write call len ≠ .error

/-- `handed` is the normal data handed over so far; chunks may be empty. -/
structure Kept (s : Channel) (handed : Bytes) : Prop where
  offset : s.buf.readOffset ≤ (s.buf.chunks.headD []).length
  normal : s.takenOf .normal ++ s.buf.normal = handed

variable {sock} {s' : Channel} {handed : Bytes}

/-- Steps that touch neither the normal queue nor what the socket took of it. -/
theorem Kept.of_eq (h : Kept s handed) (hchunks : s'.buf.chunks = s.buf.chunks)
    (hoffset : s'.buf.readOffset = s.buf.readOffset)
    (htaken : s'.takenOf .normal = s.takenOf .normal) : Kept s' handed := by
  refine ⟨by rw [hchunks, hoffset]; exact h.offset, ?_⟩
  rw [WriteBuffer.normal, hchunks, hoffset, htaken]
  exact h.normal

theorem Kept.normalTaken (h : Kept s handed) {front : Bytes} {rest : List Bytes}
    (hchunks : s.buf.chunks = front :: rest) (n : Nat) :
    Kept (normalTaken s front rest n) handed := by
  have hin : s.buf.readOffset ≤ front.length := by simpa [hchunks] using h.offset
  have hnormal := h.normal
  rw [WriteBuffer.normal, hchunks, ← unwritten_advance rest n hin] at hnormal
  constructor
  · simp only [Common.normalTaken, advance]
    split_ifs with hframe
    · exact Nat.zero_le _
    · simp only [List.headD_cons]
      omega
  · rw [← hnormal, ← List.append_assoc]
    simp [Common.normalTaken, Channel.takenOf, Channel.took, WriteBuffer.normal]

/-- The priority loop leaves the normal data alone. -/
theorem Kept.flushPriorityUnlocked {fuel : Nat} {ok : Bool} (h : Kept s handed)
    (hflush : flushPriorityUnlocked sock fuel s = some (s', ok)) :
    Kept s' handed ∧ s'.buf.chunks = s.buf.chunks := by
  fun_induction Common.flushPriorityUnlocked sock fuel s with
  | case1 => cases hflush
  | case2 =>
      cases hflush
      exact ⟨h, rfl⟩
  | case3 fuel s msg rest hchunks n hwrite hpos ih =>
      refine ih (h.of_eq rfl rfl ?_) hflush
      simp [priorityTaken, Channel.takenOf, Channel.took]
  | case4 fuel s msg rest hchunks n hwrite hzero ih =>
      exact ih (h.of_eq rfl rfl (by simp)) hflush
  | case5 =>
      cases hflush
      exact ⟨h.of_eq rfl rfl rfl, rfl⟩
  | case6 =>
      cases hflush
      exact ⟨h.of_eq rfl rfl rfl, rfl⟩

/-- A flush keeps the data, and without an error it returns true only when nothing is left. -/
theorem Kept.flushUnlockedLoop {bound fuel : Nat} {ok : Bool} (hsock : sock.Reliable)
    (h : Kept s handed) (hflush : flushUnlockedLoop sock bound fuel s = some (s', ok)) :
    Kept s' handed ∧ (ok = true → s'.buf.chunks = []) := by
  fun_induction Common.flushUnlockedLoop sock bound fuel s with
  | case1 => cases hflush
  | case2 fuel s hchunks =>
      obtain ⟨hkept, hsame⟩ := h.flushPriorityUnlocked hflush
      exact ⟨hkept, fun _ => hsame.trans hchunks⟩
  | case3 => cases hflush
  | case4 fuel s front rest hchunks n hwrite hpos t hframe s₁ hpriority =>
      cases hflush
      exact ⟨((h.normalTaken hchunks n).flushPriorityUnlocked hpriority).1, nofun⟩
  | case5 fuel s front rest hchunks n hwrite hpos t hframe s₁ hpriority ih =>
      exact ih ((h.normalTaken hchunks n).flushPriorityUnlocked hpriority).1 hflush
  | case6 fuel s front rest hchunks n hwrite hpos t hframe ih =>
      exact ih (h.normalTaken hchunks n) hflush
  | case7 fuel s front rest hchunks n hwrite hzero ih =>
      exact ih (h.of_eq rfl rfl (by simp)) hflush
  | case8 =>
      cases hflush
      exact ⟨h.of_eq rfl rfl rfl, nofun⟩
  | case9 fuel s front rest hchunks hwrite => exact absurd hwrite (hsock _ _)

theorem Kept.flush {ok : Bool} (hsock : sock.Reliable) (h : Kept s handed)
    (hflush : flush sock s = some (s', ok)) :
    Kept s' handed ∧ (ok = true → s'.buf.chunks = []) :=
  h.flushUnlockedLoop hsock hflush

/-- A flush adds nothing to the queue. -/
theorem Kept.chunks_flush {ok : Bool} (h : Kept s handed) (hempty : s.buf.chunks = [])
    (hflush : Common.flush sock s = some (s', ok)) : s'.buf.chunks = [] := by
  simp only [Common.flush, flushUnlocked, roundBound, Common.flushUnlockedLoop, hempty] at hflush
  exact (h.flushPriorityUnlocked hflush).2.trans hempty

theorem Kept.append (h : Kept s handed) (data : Bytes) :
    Kept { s with buf := s.buf.append data } (handed ++ data) := by
  have hle : s.buf.readOffset ≤ s.buf.chunks.flatten.length := by
    have := h.offset
    cases hc : s.buf.chunks with
    | nil => simpa [hc] using this
    | cons front rest =>
        rw [hc, List.headD_cons] at this
        rw [List.flatten_cons, List.length_append]
        omega
  constructor
  · have := h.offset
    cases hc : s.buf.chunks with
    | nil =>
        have hzero : s.buf.readOffset = 0 := by simpa [hc] using this
        simp [WriteBuffer.append, hc, hzero]
    | cons front rest => simpa [WriteBuffer.append, hc] using this
  · rw [← h.normal, List.append_assoc]
    exact congrArg (s.takenOf .normal ++ ·) (unwritten_concat hle data)

/-- An empty queue has all been taken. -/
theorem Kept.takenOf_eq (h : Kept s handed) (hempty : s.buf.chunks = []) :
    s.takenOf .normal = handed := by
  have hnormal := h.normal
  rw [WriteBuffer.normal, hempty, unwritten, List.flatten_nil, List.drop_nil,
    List.append_nil] at hnormal
  exact hnormal

theorem Kept.took (h : Kept s handed) (hempty : s.buf.chunks = []) (data : Bytes) :
    Kept (s.took .normal data) (handed ++ data) := by
  refine ⟨h.offset, ?_⟩
  rw [takenOf_took, h.takenOf_eq hempty, took_buf, WriteBuffer.normal, hempty]
  simp [unwritten]

theorem Kept.writeDirect (hsock : sock.Reliable) (h : Kept s handed) (hempty : s.buf.chunks = [])
    (data : Bytes) : Kept (writeDirect sock s data).1 (handed ++ data) := by
  rw [Common.writeDirect]
  cases hwrite : sock.write s.calls data.length with
  | again =>
      have hkept : Kept s.noRoom handed := h.of_eq rfl rfl rfl
      exact hkept.append data
  | error => exact absurd hwrite (hsock _ _)
  | wrote n =>
      dsimp only
      split_ifs with hlt
      · have hkept := (h.took hempty (data.take n)).append (data.drop n)
        rw [List.append_assoc, List.take_append_drop] at hkept
        exact hkept
      · exact h.took hempty data

theorem Kept.write {r : Int} {data : Bytes} (hsock : sock.Reliable) (h : Kept s handed)
    (hwrite : write sock s data = some (s', r)) : Kept s' (handed ++ data) := by
  rw [Common.write] at hwrite
  split_ifs at hwrite with hqueued
  · cases hflush : flushUnlocked sock s with
    | none => simp [hflush] at hwrite
    | some result =>
        obtain ⟨s₁, ok⟩ := result
        have hkept := (h.flush hsock hflush).1
        simp only [hflush] at hwrite
        split_ifs at hwrite with hleft
        · cases hwrite
          exact hkept.append data
        · have := hkept.writeDirect hsock (not_not.mp hleft) data
          rw [Option.some.inj hwrite] at this
          exact this
  · have := h.writeDirect hsock (not_not.mp hqueued) data
    rw [Option.some.inj hwrite] at this
    exact this

end AnyData

/-! ## Runs -/

/-- The calls that the owner of a buffer makes. -/
inductive Op where
  | write (data : Bytes)
  | writePriority (data : Bytes)
  | flush
deriving DecidableEq, Repr

/-- A channel with the data of the `write` calls that returned 0 or 1 and of the
`write_priority` calls. -/
structure Usage where
  channel : Channel := {}
  written : List Bytes := []
  queued : List Bytes := []
deriving DecidableEq, Repr

def Usage.step (u : Usage) : Op → Option Usage
  | .write data =>
      match Common.write sock u.channel data with
      | none => none
      | some (s, r) =>
          if r = 0 ∨ r = 1 then some { u with channel := s, written := u.written ++ [data] }
          else some { u with channel := s }
  | .writePriority data =>
      some { u with channel := Common.writePriority u.channel data, queued := u.queued ++ [data] }
  | .flush => (Common.flush sock u.channel).map fun r => { u with channel := r.1 }

/-- No call passes an empty buffer. -/
def Op.NonEmpty : Op → Prop
  | .write data | .writePriority data => data ≠ []
  | .flush => True

instance : ∀ o : Op, Decidable o.NonEmpty
  | .write data | .writePriority data => inferInstanceAs (Decidable (data ≠ []))
  | .flush => isTrue trivial

def Usage.Exact (u : Usage) : Prop :=
  Common.Exact u.channel u.written.flatten u.queued.flatten

theorem Usage.Exact.step {sock : Socket} {u : Usage} (h : u.Exact) {o : Op} (ho : o.NonEmpty) :
    ∃ u', u.step sock o = some u' ∧ u'.Exact := by
  cases o with
  | write data =>
      obtain ⟨s, r, hrun, hresult⟩ := write_spec sock h ho
      simp only [Usage.step, hrun]
      rcases hresult with ⟨hr, hexact⟩ | ⟨rfl, hexact⟩
      · rw [if_pos hr]
        refine ⟨_, rfl, ?_⟩
        rw [Usage.Exact, List.flatten_append, List.flatten_singleton]
        exact hexact
      · rw [if_neg (by decide)]
        exact ⟨_, rfl, hexact⟩
  | writePriority data =>
      refine ⟨_, rfl, ?_⟩
      rw [Usage.Exact, List.flatten_append, List.flatten_singleton]
      exact writePriority_spec h ho
  | flush =>
      obtain ⟨s, ok, hrun, hexact, -⟩ := flushUnlocked_spec sock h
      exact ⟨{ u with channel := s }, by rw [Usage.step, Common.flush, hrun]; rfl, hexact⟩

/-- Every sequence of calls returns, whatever the socket does, and nothing is lost,
duplicated or reordered within a class; the size is exact; and a flush that returns true
without an error has emptied both queues. -/
theorem writeBuffer_exact (sock : Socket) {ops : List Op} (hops : ∀ o ∈ ops, o.NonEmpty) :
    ∃ u, run (Usage.step sock) {} ops = some u ∧
      u.channel.takenOf .normal ++ u.channel.buf.normal = u.written.flatten ∧
      u.channel.takenOf .priority ++ u.channel.buf.priority = u.queued.flatten ∧
      u.channel.buf.totalSize = u.channel.buf.normal.length + u.channel.buf.priority.length ∧
      ∃ s ok, flush sock u.channel = some (s, ok) ∧
        (ok = true → s.errors = u.channel.errors →
          s.buf.chunks = [] ∧ s.buf.priorityChunks = []) := by
  have hstart : Usage.Exact {} := ⟨.nil, .nil, rfl, rfl, rfl⟩
  have hmeets : Meets (Usage.step sock) (fun _ o => o.NonEmpty) {} ops :=
    meets_of_invariant (I := fun _ => True) (fun _ o ho _ => hops o ho) (fun _ _ _ _ _ _ => trivial)
      trivial
  obtain ⟨u, hrun, hexact⟩ := @exists_run_of_meets _ _ _ _ (fun _ u => u.Exact)
    (fun _ u o h ho => h.step ho) [] _ _ hstart hmeets
  obtain ⟨s, ok, hflush, -, -, hdone⟩ := flushUnlocked_spec sock hexact
  exact ⟨u, hrun, hexact.normal, hexact.priority, hexact.total, s, ok, hflush, hdone⟩

/-- A socket that takes one byte, has no room, and takes everything, in turn. -/
def stutter : Socket where
  write call len := if call % 3 = 0 then .wrote 1 else if call % 3 = 1 then .again else .wrote len
  valid call len n hlen hwrite := by
    split at hwrite
    · obtain rfl := Written.wrote.inj hwrite
      exact ⟨Nat.le_refl 1, hlen⟩
    · split at hwrite
      · cases hwrite
      · obtain rfl := Written.wrote.inj hwrite
        exact ⟨hlen, Nat.le_refl _⟩

/-- The rest of a frame, then the priority data, then the next frame. -/
theorem writeBuffer_exact_stutter :
    ∃ u, run (Usage.step stutter) {} [.write [1, 2, 3], .writePriority [9], .flush, .flush,
        .write [4, 5]] = some u ∧
      u.channel.takenOf .normal ++ u.channel.buf.normal = u.written.flatten ∧
      u.channel.taken = [(.normal, [1]), (.normal, [2, 3]), (.priority, [9])] ∧
      u.channel.buf.totalSize = 2 := by
  obtain ⟨u, hrun, hnormal, -⟩ := @writeBuffer_exact stutter [.write [1, 2, 3],
    .writePriority [9], .flush, .flush, .write [4, 5]] (by decide)
  have hend : ∀ u ∈ run (Usage.step stutter) {} [.write [1, 2, 3], .writePriority [9], .flush,
      .flush, .write [4, 5]],
      u.channel.taken = [(.normal, [1]), (.normal, [2, 3]), (.priority, [9])] ∧
        u.channel.buf.totalSize = 2 := by decide
  exact ⟨u, hrun, hnormal, hend u hrun⟩

end PipelineTunnel.Common
